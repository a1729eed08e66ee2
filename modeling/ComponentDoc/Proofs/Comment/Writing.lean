import ComponentDoc.Proofs.Comment.Decoration

namespace ComponentDoc.Comment

open Text

structure Paragraph where
  lines : List (List Char)
  plain : ∀ l ∈ lines, IsPlain l
  no_at : ∀ l ∈ lines, '@' ∉ l.head?
  first_not_blank : ∀ l ∈ lines.head?, allBlank l = false
  last_not_blank : ∀ l ∈ lines.getLast?, allBlank l = false

structure KeywordName where
  first : Char
  rest : List Char
  first_valid : isAsciiLetter first = true ∨ first = '_'
  rest_valid : ∀ c ∈ rest, isKeywordChar c = true

namespace KeywordName

def text (name : KeywordName) : List Char := name.first :: name.rest

/-- The lines of a keyword: its description starts on the line of its name. -/
def lines (name : KeywordName) (p : Paragraph) : List (List Char) :=
  match p.lines with
  | [] => ['@' :: name.text]
  | l :: ls => ('@' :: name.text ++ ' ' :: l) :: ls

end KeywordName

structure Draft where
  description : Paragraph
  keywords : List (KeywordName × Paragraph)

namespace Draft

def lines (d : Draft) : List (List Char) :=
  d.description.lines ++ d.keywords.flatMap fun k => k.1.lines k.2

def comment (d : Draft) (loc : Option Span) : Comment where
  description :=
    if d.description.lines = [] then none else some (String.ofList (joinLines d.description.lines))
  keywords := d.keywords.map fun k => ⟨String.ofList k.1.text, String.ofList (joinLines k.2.lines)⟩
  loc := loc

end Draft

theorem isBlank_eq_false_of_isKeywordChar {c : Char} (h : isKeywordChar c = true) : isBlank c = false := by
  simp only [isKeywordChar, Bool.or_eq_true, beq_iff_eq] at h
  rcases h with h | rfl
  · exact isBlank_eq_false_of_isWord h
  · rfl

namespace KeywordName

variable (name : KeywordName)

theorem isKeywordChar_of_mem {c : Char} (hc : c ∈ name.text) : isKeywordChar c = true := by
  rcases List.mem_cons.mp hc with rfl | hc
  · rcases name.first_valid with h | h
    · simp [isKeywordChar, isWord_of_isAsciiLetter h]
    · rw [h]
      rfl
  · exact name.rest_valid c hc

theorem not_mem_text {c : Char} (hc : isKeywordChar c = false) : c ∉ name.text :=
  not_mem_of_forall (fun _ => name.isKeywordChar_of_mem) hc

theorem isPlain_bare : IsPlain ('@' :: name.text) := by
  have hblank : ∀ c ∈ '@' :: name.text, isBlank c = false := by
    rintro c (_ | ⟨_, hc⟩)
    · rfl
    · exact isBlank_eq_false_of_isKeywordChar (name.isKeywordChar_of_mem hc)
  constructor
  case trimmed => exact trim_of_no_blank hblank
  case oneLine =>
    intro c hc
    by_contra h
    exact absurd (isBlank_of_isLineEnd (Bool.not_eq_false _ ▸ h)) (by simp [hblank c hc])
  case no_star => simp
  case no_slashes => simp
  case no_block_end =>
    intro h
    have hstar : '*' ∈ '@' :: name.text := h.subset (by simp)
    exact name.not_mem_text (by decide) (List.mem_of_ne_of_mem (by decide) hstar)
  case no_markup_end =>
    intro h
    have hmark : '>' ∈ '@' :: name.text := h.subset (by simp)
    exact name.not_mem_text (by decide) (List.mem_of_ne_of_mem (by decide) hmark)

theorem isPlain_line {l : List Char} (hl : IsPlain l) (hne : l ≠ []) :
    IsPlain ('@' :: name.text ++ ' ' :: l) := by
  constructor
  case trimmed =>
    simpa using trim_cons_append_of_trimmed (rfl : isBlank '@' = false) (name.text ++ [' ']) hne hl.trimmed
  case oneLine => exact name.isPlain_bare.oneLine.append ((by decide : OneLine [' ']).append hl.oneLine)
  case no_star => simp
  case no_slashes => simp
  case no_block_end =>
    intro h
    rcases infix_append_cons h (by decide) with h | h
    · exact name.isPlain_bare.no_block_end h
    · exact hl.no_block_end h
  case no_markup_end =>
    intro h
    rcases infix_append_cons h (by decide) with h | h
    · exact name.isPlain_bare.no_markup_end h
    · exact hl.no_markup_end h

end KeywordName

theorem Paragraph.framed (p : Paragraph) : Framed p.lines := by
  constructor
  · intro h
    exact absurd (p.first_not_blank [] h) (by decide)
  · intro h
    exact absurd (p.last_not_blank [] h) (by decide)

namespace KeywordName

variable (name : KeywordName) (p : Paragraph)

theorem isPlain_of_mem_lines {l : List Char} (hl : l ∈ name.lines p) : IsPlain l := by
  have hplain := p.plain
  have hfirst := p.framed.first
  unfold lines at hl
  split at hl
  · obtain rfl := List.mem_singleton.mp hl
    exact name.isPlain_bare
  · next m ms hm =>
    rw [hm] at hplain hfirst
    rcases List.mem_cons.mp hl with rfl | hl
    · exact name.isPlain_line (hplain m List.mem_cons_self) (by simpa using hfirst)
    · exact hplain l (List.mem_cons_of_mem _ hl)

theorem framed_lines : Framed (name.lines p) := by
  have hlast := p.framed.last
  unfold lines
  split
  · constructor <;> simp
  · next m ms hm =>
    rw [hm] at hlast
    constructor
    · simp
    · cases ms with
      | nil => simp
      | cons => simpa using hlast

end KeywordName

namespace Draft

variable (d : Draft)

theorem isPlain_of_mem_lines {l : List Char} (hl : l ∈ d.lines) : IsPlain l := by
  rcases List.mem_append.mp hl with hl | hl
  · exact d.description.plain l hl
  · obtain ⟨k, -, hk⟩ := List.mem_flatMap.mp hl
    exact k.1.isPlain_of_mem_lines k.2 hk

theorem framed_lines : Framed d.lines := by
  apply d.description.framed.append
  induction d.keywords with
  | nil => exact Framed.nil
  | cons k ks ih => exact (k.1.framed_lines k.2).append ih

end Draft

theorem lineContent_text {l : List Char} (h : '@' ∉ l.head?) : lineContent l = .text l := by
  unfold lineContent
  split
  · exact absurd rfl h
  · exact absurd rfl h
  · rfl

theorem sections_append {texts : List (List Char)} (h : ∀ l ∈ texts, '@' ∉ l.head?)
    (rest : List (List Char)) :
    sections (texts ++ rest) = (texts ++ (sections rest).1, (sections rest).2) := by
  induction texts with
  | nil => rfl
  | cons l texts ih =>
    rw [List.cons_append, sections, ih fun m hm => h m (List.mem_cons_of_mem _ hm),
      lineContent_text (h l List.mem_cons_self)]
    rfl

theorem KeywordName.lineContent_append (name : KeywordName) {after text : List Char}
    (hafter : keywordRest? after = some text) (hstop : ∀ c ∈ after.head?, isKeywordChar c = false) :
    lineContent ('@' :: name.text ++ after) = .keyword name.text text := by
  have hfirst : (isAsciiLetter name.first || name.first == '_') = true := by
    simpa using name.first_valid
  have htake : (name.rest ++ after).takeWhile isKeywordChar = name.rest :=
    takeWhile_append_stop name.rest_valid hstop
  have hdrop : (name.rest ++ after).dropWhile isKeywordChar = after := by
    rw [List.dropWhile_append_of_pos name.rest_valid]
    cases after with
    | nil => rfl
    | cons c after => exact List.dropWhile_cons_of_neg (by simpa using hstop c rfl)
  rw [KeywordName.text, List.cons_append, List.cons_append]
  simp only [lineContent, if_pos hfirst, hdrop, htake, hafter]

theorem KeywordName.lineContent_bare (name : KeywordName) :
    lineContent ('@' :: name.text) = .keyword name.text [] := by
  have h := name.lineContent_append (rfl : keywordRest? [] = some []) (by simp)
  rwa [List.append_nil] at h

theorem KeywordName.lineContent_line (name : KeywordName) {l : List Char} (hl : IsPlain l) :
    lineContent ('@' :: name.text ++ ' ' :: l) = .keyword name.text l := by
  apply name.lineContent_append
  · have hstart : trimStart ([] ++ l) = l := trimStart_append rfl (trim_eq_self_iff.mp hl.trimmed).1
    rw [List.nil_append] at hstart
    rw [keywordRest?, if_pos (by decide), hstart]
  · rintro c ⟨⟩
    decide

theorem describe_of_padded (p : Paragraph) {ls : List (List Char)} (h : Padded p.lines ls) :
    describe ls = String.ofList (joinLines p.lines) := by
  rw [describe, trim_joinLines_of_padded h, trim_joinLines (fun l hl => (p.plain l hl).trimmed) p.framed]

theorem KeywordName.sections_lines_append (name : KeywordName) (p : Paragraph) (rest : List (List Char)) :
    ∃ above, (∀ l ∈ above, l = []) ∧ sections (name.lines p ++ rest) =
      ([], (name.text, above ++ p.lines ++ (sections rest).1) :: (sections rest).2) := by
  have hplain := p.plain
  have hat := p.no_at
  unfold KeywordName.lines
  split
  · next hp =>
    refine ⟨[[]], by simp, ?_⟩
    rw [List.singleton_append, sections, name.lineContent_bare, hp]
    rfl
  · next l ls hp =>
    rw [hp] at hplain hat
    refine ⟨[], by simp, ?_⟩
    rw [List.cons_append, sections, name.lineContent_line (hplain l List.mem_cons_self),
      sections_append fun m hm => hat m (List.mem_cons_of_mem _ hm), hp]
    rfl

/-- Keywords are read one after another. Empty lines at the end belong to the last one. -/
theorem exists_sections_keywords (keywords : List (KeywordName × Paragraph)) {below : List (List Char)}
    (hbelow : ∀ l ∈ below, l = []) :
    ∃ texts found, (∀ l ∈ texts, l = []) ∧
      sections ((keywords.flatMap fun k => k.1.lines k.2) ++ below) = (texts, found) ∧
      (found.map fun k => Keyword.mk (String.ofList k.1) (describe k.2)) =
        keywords.map fun k => Keyword.mk (String.ofList k.1.text) (String.ofList (joinLines k.2.lines)) := by
  induction keywords with
  | nil =>
    have hat : ∀ l ∈ below, '@' ∉ l.head? := by
      intro l hl
      simp [hbelow l hl]
    have h := sections_append hat []
    rw [List.append_nil] at h
    exact ⟨below, [], hbelow, by simpa [sections] using h, rfl⟩
  | cons k keywords ih =>
    obtain ⟨texts, found, htexts, hsections, hfound⟩ := ih
    obtain ⟨above, habove, he⟩ := k.1.sections_lines_append k.2
      ((keywords.flatMap fun k => k.1.lines k.2) ++ below)
    rw [hsections] at he
    refine ⟨[], (k.1.text, above ++ k.2.lines ++ texts) :: found, by simp, ?_, ?_⟩
    · rw [List.flatMap_cons, List.append_assoc, he]
    · rw [List.map_cons, List.map_cons, hfound, describe_of_padded k.2 ⟨above, texts, habove, htexts, rfl⟩]

theorem nonempty?_describe (p : Paragraph) {ls : List (List Char)} (h : Padded p.lines ls) :
    nonempty? (describe ls) =
      if p.lines = [] then none else some (String.ofList (joinLines p.lines)) := by
  rw [describe_of_padded p h]
  split
  · next hp =>
    rw [hp]
    rfl
  · next hp =>
    obtain ⟨l, ls, hlines⟩ := List.exists_cons_of_ne_nil hp
    have hl : l ≠ [] := by
      rintro rfl
      exact p.framed.first (by rw [hlines]; rfl)
    have hhead := head?_joinLines (by rw [hlines]; rfl : l ∈ p.lines.head?) hl
    have hne : joinLines p.lines ≠ [] := by
      intro h
      rw [h] at hhead
      exact hl (List.head?_eq_none_iff.mp hhead.symm)
    simp [nonempty?, hne]

/-- A block without lines or blanks is left out: `/**/` starts with the opener of the other style. -/
theorem ofText_write (layout : Layout) (style : Style) (d : Draft) (loc : Option Span)
    (hgap : style = .block → layout.inner style d.lines ≠ []) :
    ofText (layout.write style d.lines) loc = d.comment loc := by
  obtain ⟨above, below, habove, hbelow, hplain⟩ :=
    padded_plainLines_write layout style (fun _ => d.isPlain_of_mem_lines) d.framed_lines hgap
  obtain ⟨texts, found, htexts, hsections, hfound⟩ := exists_sections_keywords d.keywords hbelow
  have hat : ∀ l ∈ above ++ d.description.lines, '@' ∉ l.head? := by
    intro l hl
    rcases List.mem_append.mp hl with hl | hl
    · simp [habove l hl]
    · exact d.description.no_at l hl
  have hread : sections (plainLines (layout.write style d.lines)) =
      (above ++ d.description.lines ++ texts, found) := by
    have h := sections_append hat ((d.keywords.flatMap fun k => k.1.lines k.2) ++ below)
    rw [hsections] at h
    rw [hplain, Draft.lines, ← h]
    simp only [List.append_assoc]
  rw [ofText, hread]
  simp only [Draft.comment, nonempty?_describe d.description ⟨above, texts, habove, htexts, rfl⟩, hfound]

theorem ofText_write_repeated_keyword :
    ofText "/*  * Adds.\n  * \n  * Twice - or so.\n  * @param a\n  * @param b-\n  * {of} any\n*/".toList none =
      ⟨some "Adds.\n\nTwice - or so.", [⟨"param", "a"⟩, ⟨"param", "b-\n{of} any"⟩], none⟩ := by
  let param : KeywordName := ⟨'p', "aram".toList, by decide, List.all_eq_true.mp rfl⟩
  let description : Paragraph :=
    ⟨["Adds.".toList, [], "Twice - or so.".toList], by decide, by decide, by decide, by decide⟩
  let a : Paragraph := ⟨["a".toList], by decide, by decide, by decide, by decide⟩
  let b : Paragraph := ⟨["b-".toList, "{of} any".toList], by decide, by decide, by decide, by decide⟩
  let layout : Layout := ⟨[], ['\n'], [' '], [], by decide, by decide, by decide, by decide, by decide, by decide⟩
  exact ofText_write layout .block ⟨description, [(param, a), (param, b)]⟩ none fun _ => by decide

end ComponentDoc.Comment
