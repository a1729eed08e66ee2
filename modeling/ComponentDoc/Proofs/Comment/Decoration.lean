import ComponentDoc.Comment.Reading
import ComponentDoc.Proofs.Text.Lines
import ComponentDoc.Proofs.Text.Search

namespace ComponentDoc.Comment

open Text

structure IsPlain (line : List Char) : Prop where
  trimmed : trim line = line
  oneLine : OneLine line
  no_star : '*' ∉ line.head?
  no_slashes : ¬ ['/', '/'] <+: line
  no_block_end : ¬ ['*', '/'] <:+: line
  no_markup_end : ¬ ['-', '-', '>'] <:+: line

instance : DecidablePred IsPlain := fun line =>
  decidable_of_iff (trim line = line ∧ OneLine line ∧ '*' ∉ line.head? ∧ ¬ ['/', '/'] <+: line ∧
      ¬ ['*', '/'] <:+: line ∧ ¬ ['-', '-', '>'] <:+: line)
    ⟨fun ⟨h₁, h₂, h₃, h₄, h₅, h₆⟩ => ⟨h₁, h₂, h₃, h₄, h₅, h₆⟩,
      fun ⟨h₁, h₂, h₃, h₄, h₅, h₆⟩ => ⟨h₁, h₂, h₃, h₄, h₅, h₆⟩⟩

inductive Style
  | docBlock
  | block
  | lineMarks
  | markup
  deriving DecidableEq

namespace Style

def opener : Style → List Char
  | docBlock => ['/', '*', '*']
  | block => ['/', '*']
  | lineMarks => []
  | markup => ['<', '!', '-', '-']

def closer : Style → List Char
  | docBlock | block => ['*', '/']
  | lineMarks => []
  | markup => ['-', '-', '>']

def mark : Style → List Char
  | docBlock | block => [' ', '*', ' ']
  | lineMarks => ['/', '/']
  | markup => []

end Style

/-- The blanks after the opener, before the closer, and before and after the mark of each line. -/
structure Layout where
  before : List Char
  after : List Char
  indent : List Char
  space : List Char
  before_blank : allBlank before = true
  after_blank : allBlank after = true
  indent_blank : allBlank indent = true
  indent_oneLine : OneLine indent
  space_blank : allBlank space = true
  space_oneLine : OneLine space

namespace Layout

def decorate (layout : Layout) (style : Style) (line : List Char) : List Char :=
  layout.indent ++ style.mark ++ layout.space ++ line

def inner (layout : Layout) (style : Style) (ls : List (List Char)) : List Char :=
  layout.before ++ joinLines (ls.map (layout.decorate style)) ++ layout.after

def write (layout : Layout) (style : Style) (ls : List (List Char)) : List Char :=
  style.opener ++ layout.inner style ls ++ style.closer

end Layout

theorem plainLine_trim (line : List Char) : plainLine (trim line) = plainLine line := by
  rw [plainLine, plainLine, trim_trim]

theorem plainLine_append_of_blanks {blanks : List Char} (h : allBlank blanks = true) (line : List Char) :
    plainLine (blanks ++ line) = plainLine line := by
  rw [← plainLine_trim, trim_append_of_blank_left h, plainLine_trim]

theorem IsPlain.plainLine_eq {l : List Char} (h : IsPlain l) : plainLine l = l := by
  unfold plainLine
  rw [h.trimmed]
  split
  · next rest => exact absurd ⟨rest, rfl⟩ h.no_slashes
  · exact absurd rfl h.no_star
  · rfl

section Marks

variable {l space : List Char} (h : IsPlain l) (hspace : allBlank space = true)

include h hspace

theorem IsPlain.trim_blanks : trim (space ++ l) = l := by
  rw [trim_append_of_blank_left hspace, h.trimmed]

theorem plainLine_blanks : plainLine (space ++ l) = l := by
  rw [plainLine_append_of_blanks hspace, h.plainLine_eq]

theorem plainLine_star : plainLine ('*' :: ' ' :: (space ++ l)) = l := by
  have hblanks : allBlank (' ' :: space) = true := hspace
  by_cases hl : l = []
  · subst hl
    have hstar : trim ('*' :: ' ' :: (space ++ [])) = ['*'] := by
      rw [List.append_nil]
      exact trim_append_of_blank_right hblanks ['*']
    rw [plainLine, hstar]
    rfl
  · have hstar : trim ('*' :: ' ' :: (space ++ l)) = '*' :: ' ' :: (space ++ l) :=
      trim_cons_append_of_trimmed rfl (' ' :: space) hl h.trimmed
    unfold plainLine
    rw [hstar]
    exact h.trim_blanks hblanks

theorem plainLine_slashes : plainLine ('/' :: '/' :: (space ++ l)) = l := by
  by_cases hl : l = []
  · subst hl
    have hslashes : trim ('/' :: '/' :: (space ++ [])) = ['/', '/'] := by
      rw [List.append_nil]
      exact trim_append_of_blank_right hspace ['/', '/']
    rw [plainLine, hslashes]
    rfl
  · have hslashes : trim ('/' :: '/' :: (space ++ l)) = '/' :: '/' :: (space ++ l) :=
      trim_cons_append_of_trimmed rfl ('/' :: space) hl h.trimmed
    unfold plainLine
    rw [hslashes]
    exact h.trim_blanks hspace

end Marks

theorem plainLine_decorate (layout : Layout) (style : Style) {l : List Char} (h : IsPlain l) :
    plainLine (layout.decorate style l) = l := by
  rw [Layout.decorate, List.append_assoc, List.append_assoc, plainLine_append_of_blanks layout.indent_blank]
  cases style with
  | docBlock | block =>
    have hstar := plainLine_append_of_blanks (rfl : allBlank [' '] = true) ('*' :: ' ' :: (layout.space ++ l))
    exact hstar.trans (plainLine_star h layout.space_blank)
  | lineMarks => exact plainLine_slashes h layout.space_blank
  | markup => exact plainLine_blanks h layout.space_blank

theorem padded_map_plainLine_lines {before after : List Char} {ls : List (List Char)}
    (hbefore : allBlank before = true) (hafter : allBlank after = true) (hone : ∀ l ∈ ls, OneLine l)
    (hframed : Framed ls) :
    Padded (ls.map plainLine) ((lines (before ++ joinLines ls ++ after)).map plainLine) := by
  have hmap : ∀ ms : List (List Char), (ms.map trim).map plainLine = ms.map plainLine := by
    intro ms
    rw [List.map_map]
    exact List.map_congr_left fun m _ => plainLine_trim m
  have h := (padded_map_trim_lines hbefore hafter hone hframed).map (rfl : plainLine [] = [])
  rwa [hmap, hmap] at h

section Inside

variable (layout : Layout) (style : Style) {ls : List (List Char)}

theorem oneLine_decorate {l : List Char} (hl : OneLine l) : OneLine (layout.decorate style l) := by
  have hmark : OneLine style.mark := by cases style <;> decide
  exact ((layout.indent_oneLine.append hmark).append layout.space_oneLine).append hl

theorem decorate_ne_nil {l : List Char} (hl : l ≠ []) : layout.decorate style l ≠ [] := by
  simp [Layout.decorate, hl]

theorem framed_map_decorate (hframed : Framed ls) : Framed (ls.map (layout.decorate style)) := by
  constructor
  · rw [List.head?_map]
    intro h
    obtain ⟨l, hl, he⟩ := Option.map_eq_some_iff.mp h
    exact decorate_ne_nil layout style (by rintro rfl; exact hframed.first hl) he
  · rw [List.getLast?_map]
    intro h
    obtain ⟨l, hl, he⟩ := Option.map_eq_some_iff.mp h
    exact decorate_ne_nil layout style (by rintro rfl; exact hframed.last hl) he

theorem map_plainLine_decorate (hplain : ∀ l ∈ ls, IsPlain l) :
    (ls.map (layout.decorate style)).map plainLine = ls := by
  rw [List.map_map]
  exact (List.map_congr_left fun l hl => plainLine_decorate layout style (hplain l hl)).trans (List.map_id ls)

theorem oneLine_of_mem_map_decorate (hplain : ∀ l ∈ ls, IsPlain l) :
    ∀ w ∈ ls.map (layout.decorate style), OneLine w := by
  intro w hw
  obtain ⟨l, hl, rfl⟩ := List.mem_map.mp hw
  exact oneLine_decorate layout style (hplain l hl).oneLine

theorem padded_map_plainLine_inner (hplain : ∀ l ∈ ls, IsPlain l) (hframed : Framed ls) :
    Padded ls ((lines (layout.inner style ls)).map plainLine) := by
  have h := padded_map_plainLine_lines layout.before_blank layout.after_blank
    (oneLine_of_mem_map_decorate layout style hplain) (framed_map_decorate layout style hframed)
  rwa [map_plainLine_decorate layout style hplain] at h

end Inside

theorem afterOpener_docBlock (s : List Char) : afterOpener ('/' :: '*' :: '*' :: s) = s := by
  simp [afterOpener, openers, dropStart?]

theorem afterOpener_block {s : List Char} (hs : '*' ∉ s.head?) : afterOpener ('/' :: '*' :: s) = s := by
  cases s with
  | nil => rfl
  | cons c s =>
    have hc : '*' ≠ c := by simpa [eq_comm] using hs
    simp [afterOpener, openers, dropStart?, hc]

theorem afterOpener_lineMarks (s : List Char) : afterOpener ('/' :: '/' :: s) = s := by
  simp [afterOpener, openers, dropStart?]

theorem afterOpener_markup (s : List Char) : afterOpener ('<' :: '!' :: '-' :: '-' :: s) = s := by
  simp [afterOpener, openers, dropStart?]

theorem beforeCloser_block (s : List Char) : beforeCloser (s ++ ['*', '/']) = s := by
  simp [beforeCloser, closers, dropStop?, List.isSuffixOf]

theorem beforeCloser_markup (s : List Char) : beforeCloser (s ++ ['-', '-', '>']) = s := by
  simp [beforeCloser, closers, dropStop?, List.isSuffixOf]

theorem beforeCloser_of_isPlain {l front : List Char} (hl : IsPlain l) (hne : l ≠ [])
    (hfront : ∀ c ∈ front.getLast?, c = '/' ∨ isBlank c = true) :
    beforeCloser (front ++ l) = front ++ l := by
  have hmarks : ∀ mark ∈ ['*', '-'], mark ∉ front.getLast? := by
    intro mark hmark hlast
    simp only [List.mem_cons, List.not_mem_nil, or_false] at hmark
    rcases hmark with rfl | rfl <;>
      rcases hfront _ hlast with h | h <;> exact absurd h (by decide)
  have hblock : ¬ ['*', '/'] <:+ front ++ l := by
    intro h
    refine hl.no_block_end (suffix_of_suffix_append h hne fun c hc hstop => ?_).isInfix
    have hstar : c ∈ ['*'] := hstop
    exact hmarks c (List.mem_append_left ['-'] hstar) hc
  have hmarkup : ¬ ['-', '-', '>'] <:+ front ++ l := by
    intro h
    refine hl.no_markup_end (suffix_of_suffix_append h hne fun c hc hstop => ?_).isInfix
    have hdash : c ∈ ['-', '-'] := hstop
    exact hmarks c (by simpa using .inr (by simpa using hdash)) hc
  simp only [← List.isSuffixOf_iff_suffix] at hblock hmarkup
  simp only [beforeCloser, closers, dropStop?, List.findSome?_cons, List.findSome?_nil, if_neg hblock,
    if_neg hmarkup, Option.getD_none]

theorem plainLines_delimited (opener inner closer : List Char)
    (hstart : ∃ c ∈ opener.head?, isBlank c = false) (hstop : ∃ c ∈ closer.getLast?, isBlank c = false)
    (hopener : afterOpener (opener ++ (inner ++ closer)) = inner ++ closer)
    (hcloser : beforeCloser (inner ++ closer) = inner) :
    plainLines (opener ++ inner ++ closer) = (lines inner).map plainLine := by
  have htrim : trim (opener ++ (inner ++ closer)) = opener ++ (inner ++ closer) := by
    obtain ⟨c, hc, hblank⟩ := hstart
    obtain ⟨d, hd, hblank'⟩ := hstop
    obtain ⟨start, rfl⟩ := List.head?_eq_some_iff.mp hc
    obtain ⟨stop, rfl⟩ := List.getLast?_eq_some_iff.mp hd
    rw [trim_eq_self_iff, ← List.append_assoc, ← List.append_assoc, List.getLast?_concat]
    constructor
    · rintro e ⟨⟩
      exact hblank
    · rintro e ⟨⟩
      exact hblank'
  rw [plainLines, List.append_assoc, htrim, hopener, hcloser]

theorem joinLines_append_cons (s t : List Char) (ls : List (List Char)) :
    joinLines ((s ++ t) :: ls) = s ++ joinLines (t :: ls) := by
  cases ls with
  | nil => rfl
  | cons l ls => exact List.append_assoc s t ('\n' :: joinLines (l :: ls))

theorem exists_joinLines_eq_append_last (layout : Layout) {ls : List (List Char)} {l last : List Char}
    (hlast : last ∈ (l :: ls).getLast?) :
    ∃ front, joinLines ((layout.space ++ l) :: ls.map (layout.decorate .lineMarks)) = front ++ last ∧
      ∀ c ∈ front.getLast?, c = '/' ∨ isBlank c = true := by
  have hspace : ∀ c ∈ layout.space.getLast?, isBlank c = true :=
    fun c hc => List.all_eq_true.mp layout.space_blank c (List.mem_of_getLast? hc)
  cases ls with
  | nil =>
    obtain rfl : l = last := by simpa using hlast
    exact ⟨layout.space, rfl, fun c hc => .inr (hspace c hc)⟩
  | cons m ls =>
    have hlast' : layout.decorate .lineMarks last ∈ ((m :: ls).map (layout.decorate .lineMarks)).getLast? := by
      rw [List.getLast?_map, Option.mem_def.mp (by simpa using hlast : last ∈ (m :: ls).getLast?)]
      rfl
    obtain ⟨front, he⟩ := exists_joinLines_eq_append hlast'
    refine ⟨layout.space ++ l ++ '\n' :: front ++ layout.indent ++ ['/', '/'] ++ layout.space, ?_, ?_⟩
    · rw [joinLines_cons (by simp), he]
      simp [Layout.decorate, Style.mark]
    · intro c hc
      rw [List.getLast?_append] at hc
      cases hs : layout.space.getLast? with
      | none =>
        rw [hs, Option.none_or, List.getLast?_append] at hc
        obtain rfl : '/' = c := by simpa using hc
        exact .inl rfl
      | some d =>
        obtain rfl : d = c := by simpa [hs] using hc
        exact .inr (hspace d hs)

theorem plainLines_write_lineMarks (layout : Layout) {ls : List (List Char)} {l : List Char}
    (hplain : ∀ m ∈ l :: ls, IsPlain m) (hframed : Framed (l :: ls)) :
    plainLines (layout.write .lineMarks (l :: ls)) =
      (lines (joinLines ((layout.space ++ l) :: ls.map (layout.decorate .lineMarks)))).map plainLine := by
  obtain ⟨last, hlast⟩ : ∃ last, last ∈ (l :: ls).getLast? :=
    ⟨_, List.getLast?_eq_getLast_of_ne_nil (by simp)⟩
  obtain ⟨front, hjoin, hfront⟩ := exists_joinLines_eq_append_last layout hlast
  have hlastPlain := hplain last (List.mem_of_getLast? hlast)
  have hne : last ≠ [] := by
    rintro rfl
    exact hframed.last hlast
  have hwrite : layout.write .lineMarks (l :: ls) =
      layout.before ++ layout.indent ++ ('/' :: '/' :: (front ++ last)) ++ layout.after := by
    have hfirst : layout.decorate .lineMarks l = (layout.indent ++ ['/', '/']) ++ (layout.space ++ l) := by
      simp [Layout.decorate, Style.mark]
    rw [Layout.write, Layout.inner, List.map_cons, hfirst, joinLines_append_cons, hjoin]
    simp [Style.opener, Style.closer]
  have hindent : allBlank (layout.before ++ layout.indent) = true := by
    rw [allBlank, List.all_append, Bool.and_eq_true]
    exact ⟨layout.before_blank, layout.indent_blank⟩
  have htrim : trim ('/' :: '/' :: (front ++ last)) = '/' :: '/' :: (front ++ last) :=
    trim_cons_append_of_trimmed rfl ('/' :: front) hne hlastPlain.trimmed
  rw [plainLines, hwrite, trim_append_of_blanks hindent layout.after_blank, htrim, afterOpener_lineMarks,
    beforeCloser_of_isPlain hlastPlain hne hfront, hjoin]

theorem padded_plainLines_lineMarks (layout : Layout) {ls : List (List Char)} (hplain : ∀ l ∈ ls, IsPlain l)
    (hframed : Framed ls) : Padded ls (plainLines (layout.write .lineMarks ls)) := by
  cases ls with
  | nil =>
    have hblank : trim (layout.before ++ [] ++ layout.after) = [] := by
      rw [trim_append_of_blanks layout.before_blank layout.after_blank, trim_nil]
    refine ⟨[], [], by simp, by simp, ?_⟩
    rw [plainLines, Layout.write, Style.opener, Style.closer, List.append_nil, List.nil_append,
      Layout.inner, List.map_nil, joinLines, hblank]
    rfl
  | cons l ls =>
    have hl := hplain l List.mem_cons_self
    have hls : ∀ m ∈ ls, IsPlain m := fun m hm => hplain m (List.mem_cons_of_mem _ hm)
    have hone : ∀ w ∈ (layout.space ++ l) :: ls.map (layout.decorate .lineMarks), OneLine w := by
      rintro w (_ | ⟨_, hw⟩)
      · exact layout.space_oneLine.append hl.oneLine
      · exact oneLine_of_mem_map_decorate layout .lineMarks hls w hw
    have hfirst : l ≠ [] := by
      rintro rfl
      exact hframed.first rfl
    have hne : [] ∉ (layout.space ++ l) :: ls.map (layout.decorate .lineMarks) := by
      simp [Layout.decorate, Style.mark, hfirst]
    have h := padded_map_plainLine_lines (rfl : allBlank [] = true) (rfl : allBlank [] = true) hone
      ⟨fun h => hne (List.mem_of_head? h), fun h => hne (List.mem_of_getLast? h)⟩
    rw [List.nil_append, List.append_nil, List.map_cons, plainLine_blanks hl layout.space_blank,
      map_plainLine_decorate layout .lineMarks hls] at h
    rwa [plainLines_write_lineMarks layout hplain hframed]

theorem isBlank_of_mem_head?_inner (layout : Layout) (ls : List (List Char)) :
    ∀ c ∈ (layout.inner .block ls).head?, isBlank c = true := by
  by_cases hbefore : layout.before = []
  · cases ls with
    | nil =>
      intro c hc
      have hafter : c ∈ layout.after.head? := by simpa [Layout.inner, hbefore, joinLines] using hc
      exact List.all_eq_true.mp layout.after_blank c (List.mem_of_head? hafter)
    | cons l ls =>
      have hfirst : layout.decorate .block l = (layout.indent ++ [' ']) ++ ('*' :: ' ' :: (layout.space ++ l)) := by
        simp [Layout.decorate, Style.mark]
      have hindent : allBlank (layout.indent ++ [' ']) = true := by
        rw [allBlank, List.all_append, Bool.and_eq_true]
        exact ⟨layout.indent_blank, rfl⟩
      rw [Layout.inner, hbefore, List.nil_append, List.map_cons, hfirst, joinLines_append_cons, List.append_assoc]
      exact isBlank_of_mem_head?_append hindent (by simp)
  · rw [Layout.inner, List.append_assoc]
    exact isBlank_of_mem_head?_append layout.before_blank hbefore

theorem padded_plainLines_write (layout : Layout) (style : Style) {ls : List (List Char)}
    (hplain : ∀ l ∈ ls, IsPlain l) (hframed : Framed ls)
    (hgap : style = .block → layout.inner style ls ≠ []) :
    Padded ls (plainLines (layout.write style ls)) := by
  have hinner := padded_map_plainLine_inner layout style hplain hframed
  cases style with
  | docBlock =>
    have h := plainLines_delimited ['/', '*', '*'] (layout.inner .docBlock ls) ['*', '/'] ⟨'/', rfl, rfl⟩
      ⟨'/', rfl, rfl⟩ (afterOpener_docBlock _) (beforeCloser_block _)
    rw [← h] at hinner
    exact hinner
  | block =>
    have hhead : '*' ∉ (layout.inner .block ls ++ ['*', '/']).head? := by
      obtain ⟨c, inner, he⟩ := List.exists_cons_of_ne_nil (hgap rfl)
      have hc : isBlank c = true := isBlank_of_mem_head?_inner layout ls c (by rw [he]; rfl)
      rw [he]
      rintro ⟨⟩
      exact absurd hc (by decide)
    have h := plainLines_delimited ['/', '*'] (layout.inner .block ls) ['*', '/'] ⟨'/', rfl, rfl⟩
      ⟨'/', rfl, rfl⟩ (afterOpener_block hhead) (beforeCloser_block _)
    rw [← h] at hinner
    exact hinner
  | lineMarks => exact padded_plainLines_lineMarks layout hplain hframed
  | markup =>
    have h := plainLines_delimited ['<', '!', '-', '-'] (layout.inner .markup ls) ['-', '-', '>'] ⟨'<', rfl, rfl⟩
      ⟨'>', rfl, rfl⟩ (afterOpener_markup _) (beforeCloser_markup _)
    rw [← h] at hinner
    exact hinner

end ComponentDoc.Comment
