import ComponentDoc.Proofs.Text.Blank
import Mathlib.Data.List.Basic

namespace ComponentDoc.Text

def OneLine (s : List Char) : Prop := ∀ c ∈ s, isLineEnd c = false

-- Named here, since the instance for all characters would try each of them.
instance : DecidablePred OneLine := List.decidableBAll (isLineEnd · = false)

theorem OneLine.append {s t : List Char} (hs : OneLine s) (ht : OneLine t) : OneLine (s ++ t) := by
  intro c hc
  rcases List.mem_append.mp hc with h | h
  · exact hs c h
  · exact ht c h

structure Framed (ls : List (List Char)) : Prop where
  first : [] ∉ ls.head?
  last : [] ∉ ls.getLast?

theorem Framed.nil : Framed [] := ⟨by simp, by simp⟩

theorem Framed.append {ls ms : List (List Char)} (hl : Framed ls) (hm : Framed ms) : Framed (ls ++ ms) := by
  constructor
  · cases ls with
    | nil => exact hm.first
    | cons l ls => exact hl.first
  · by_cases hempty : ms = []
    · rw [hempty, List.append_nil]
      exact hl.last
    · rw [List.getLast?_append_of_ne_nil _ hempty]
      exact hm.last

def Padded (ls ms : List (List Char)) : Prop :=
  ∃ above below, (∀ l ∈ above, l = []) ∧ (∀ l ∈ below, l = []) ∧ ms = above ++ ls ++ below

theorem Padded.map {ls ms : List (List Char)} (h : Padded ls ms) {f : List Char → List Char}
    (hf : f [] = []) : Padded (ls.map f) (ms.map f) := by
  have hempty : ∀ {ks : List (List Char)}, (∀ l ∈ ks, l = []) → ∀ l ∈ ks.map f, l = [] := by
    rintro ks hks l hl
    obtain ⟨k, hk, rfl⟩ := List.mem_map.mp hl
    rw [hks k hk, hf]
  obtain ⟨above, below, habove, hbelow, rfl⟩ := h
  exact ⟨above.map f, below.map f, hempty habove, hempty hbelow, by rw [List.map_append, List.map_append]⟩

theorem linesFrom_append_of_oneLine {s : List Char} (hs : OneLine s) (line rest : List Char) :
    linesFrom line (s ++ rest) = linesFrom (s.reverse ++ line) rest := by
  induction s generalizing line with
  | nil => rfl
  | cons c s ih =>
    have hc := hs c List.mem_cons_self
    have hreturn : c ≠ '\r' := by
      rintro rfl
      exact absurd hc (by decide)
    rw [List.cons_append, linesFrom, if_neg (by simp [hc]), ih fun d hd => hs d (List.mem_cons_of_mem _ hd)]
    · simp
    · intro _ h
      exact absurd h hreturn

theorem linesFrom_lineFeed (line rest : List Char) :
    linesFrom line ('\n' :: rest) = line.reverse :: linesFrom [] rest := by
  rw [linesFrom]
  · rfl
  · intro _ h
    exact absurd h (by decide)

theorem exists_linesFrom_blanks_append {line blanks rest : List Char} (hline : allBlank line = true)
    (hblanks : allBlank blanks = true) (hrest : rest.head? ≠ some '\n') :
    ∃ above start, (∀ l ∈ above, allBlank l = true) ∧ allBlank start = true ∧
      linesFrom line (blanks ++ rest) = above ++ linesFrom start rest := by
  have hreverse : ∀ {l : List Char}, allBlank l = true → allBlank l.reverse = true := by
    intro l hl
    rwa [allBlank, List.all_reverse]
  fun_induction linesFrom line blanks with
  | case1 line hempty => exact ⟨[], line, by simp, hline, rfl⟩
  | case2 line hempty => exact ⟨[], line, by simp, hline, rfl⟩
  | case3 line blanks ih =>
    simp only [allBlank, List.all_cons, Bool.and_eq_true] at hblanks
    obtain ⟨above, start, habove, hstart, he⟩ := ih rfl hblanks.2.2
    refine ⟨line.reverse :: above, start, ?_, hstart, ?_⟩
    · rintro l (_ | ⟨_, hl⟩)
      · exact hreverse hline
      · exact habove l hl
    · rw [List.cons_append, List.cons_append, linesFrom, he, List.cons_append]
  | case4 line c blanks hpair hend ih =>
    simp only [allBlank, List.all_cons, Bool.and_eq_true] at hblanks
    obtain ⟨above, start, habove, hstart, he⟩ := ih rfl hblanks.2
    refine ⟨line.reverse :: above, start, ?_, hstart, ?_⟩
    · rintro l (_ | ⟨_, hl⟩)
      · exact hreverse hline
      · exact habove l hl
    · rw [List.cons_append, linesFrom, if_pos hend, he, List.cons_append]
      -- A carriage return at the end of the blanks is no half of a pair, as no line feed follows.
      intro more hc hmore
      cases blanks with
      | nil => exact hrest (by rw [List.nil_append] at hmore; rw [hmore]; rfl)
      | cons d blanks =>
        rw [List.cons_append, List.cons.injEq] at hmore
        exact hpair blanks hc (by rw [hmore.1])
  | case5 line c blanks hpair hend ih =>
    simp only [allBlank, List.all_cons, Bool.and_eq_true] at hblanks
    obtain ⟨above, start, habove, hstart, he⟩ :=
      ih (by simpa [allBlank, hblanks.1] using List.all_eq_true.mp hline) hblanks.2
    refine ⟨above, start, habove, hstart, ?_⟩
    rw [List.cons_append, linesFrom, if_neg hend, he]
    rintro more rfl
    exact absurd (by decide) hend

theorem allBlank_of_mem_linesFrom {line blanks l : List Char} (hline : allBlank line = true)
    (hblanks : allBlank blanks = true) (hl : l ∈ linesFrom line blanks) : allBlank l = true := by
  obtain ⟨above, start, habove, hstart, he⟩ :=
    exists_linesFrom_blanks_append hline hblanks (by simp : ([] : List Char).head? ≠ some '\n')
  rw [List.append_nil] at he
  rw [he, List.mem_append] at hl
  rcases hl with hl | hl
  · exact habove l hl
  · rw [linesFrom] at hl
    split at hl
    · exact absurd hl List.not_mem_nil
    · obtain rfl := List.mem_singleton.mp hl
      rwa [allBlank, List.all_reverse]

theorem exists_linesFrom_blanks {line blanks : List Char} (hline : line ≠ [])
    (hblanks : allBlank blanks = true) :
    ∃ stop below, allBlank stop = true ∧ (∀ l ∈ below, allBlank l = true) ∧
      linesFrom line blanks = (line.reverse ++ stop) :: below := by
  fun_induction linesFrom line blanks with
  | case1 line hempty => exact absurd (List.isEmpty_iff.mp hempty) hline
  | case2 line hempty => exact ⟨[], [], rfl, by simp, by simp⟩
  | case3 line blanks =>
    simp only [allBlank, List.all_cons, Bool.and_eq_true] at hblanks
    exact ⟨[], linesFrom [] blanks, rfl, fun l hl => allBlank_of_mem_linesFrom rfl hblanks.2.2 hl, by simp⟩
  | case4 line c blanks hpair hend =>
    simp only [allBlank, List.all_cons, Bool.and_eq_true] at hblanks
    exact ⟨[], linesFrom [] blanks, rfl, fun l hl => allBlank_of_mem_linesFrom rfl hblanks.2 hl, by simp⟩
  | case5 line c blanks hpair hend ih =>
    simp only [allBlank, List.all_cons, Bool.and_eq_true] at hblanks
    obtain ⟨stop, below, hstop, hbelow, he⟩ := ih (by simp) hblanks.2
    exact ⟨c :: stop, below, by simpa [allBlank, hblanks.1] using List.all_eq_true.mp hstop, hbelow,
      by simpa using he⟩

theorem joinLines_cons {s : List Char} {rest : List (List Char)} (h : rest ≠ []) :
    joinLines (s :: rest) = s ++ '\n' :: joinLines rest := by
  cases rest with
  | nil => exact absurd rfl h
  | cons => rfl

theorem map_trim_linesFrom_joinLines {line after : List Char} {ls : List (List Char)}
    (hline : allBlank line = true) (hafter : allBlank after = true) (hne : ls ≠ [])
    (hone : ∀ l ∈ ls, OneLine l) (hlast : [] ∉ ls.getLast?) :
    ∃ below, (∀ l ∈ below, l = []) ∧
      (linesFrom line (joinLines ls ++ after)).map trim = ls.map trim ++ below := by
  induction ls generalizing line with
  | nil => exact absurd rfl hne
  | cons l ls ih =>
    have hstart : allBlank line.reverse = true := by rwa [allBlank, List.all_reverse]
    have hl := hone l List.mem_cons_self
    cases ls with
    | nil =>
      have hl' : l.reverse ++ line ≠ [] := by
        intro h
        simp_all
      obtain ⟨stop, below, hstop, hbelow, he⟩ := exists_linesFrom_blanks hl' hafter
      refine ⟨below.map trim, ?_, ?_⟩
      · intro m hm
        obtain ⟨b, hb, rfl⟩ := List.mem_map.mp hm
        exact trim_eq_nil_of_blank (hbelow b hb)
      · rw [joinLines, linesFrom_append_of_oneLine hl, he, List.reverse_append, List.reverse_reverse,
          List.map_cons, trim_append_of_blanks hstart hstop]
        rfl
    | cons m ls =>
      have hnone : allBlank [] = true := rfl
      obtain ⟨below, hbelow, he⟩ := ih hnone (by simp) (fun k hk => hone k (List.mem_cons_of_mem _ hk))
        (by simpa using hlast)
      have hfirst : trim (line.reverse ++ l) = trim l := trim_append_of_blank_left hstart l
      refine ⟨below, hbelow, ?_⟩
      rw [joinLines_cons (by simp), List.append_assoc, List.cons_append, linesFrom_append_of_oneLine hl,
        linesFrom_lineFeed, List.map_cons, he, List.reverse_append, List.reverse_reverse, hfirst]
      rfl

theorem padded_map_trim_lines {before after : List Char} {ls : List (List Char)} (hbefore : allBlank before = true)
    (hafter : allBlank after = true) (hone : ∀ l ∈ ls, OneLine l) (hframed : Framed ls) :
    Padded (ls.map trim) ((lines (before ++ joinLines ls ++ after)).map trim) := by
  cases ls with
  | nil =>
    have hblank : allBlank (before ++ joinLines [] ++ after) = true := by
      simp_all [allBlank, joinLines]
    refine ⟨(lines (before ++ joinLines [] ++ after)).map trim, [], ?_, by simp, by simp⟩
    intro m hm
    obtain ⟨l, hl, rfl⟩ := List.mem_map.mp hm
    exact trim_eq_nil_of_blank (allBlank_of_mem_linesFrom rfl hblank hl)
  | cons l ls =>
    have hhead : (joinLines (l :: ls) ++ after).head? ≠ some '\n' := by
      obtain ⟨c, s, rfl⟩ := List.exists_cons_of_ne_nil (by simpa using hframed.first : l ≠ [])
      have hc := hone _ List.mem_cons_self c List.mem_cons_self
      have he : ∃ t, joinLines ((c :: s) :: ls) = c :: t := by cases ls <;> simp [joinLines]
      obtain ⟨t, he⟩ := he
      rw [he]
      rintro ⟨⟩
      exact absurd hc (by decide)
    obtain ⟨above, start, habove, hstart, he⟩ :=
      exists_linesFrom_blanks_append (rfl : allBlank [] = true) hbefore hhead
    obtain ⟨below, hbelow, hlines⟩ := map_trim_linesFrom_joinLines hstart hafter (by simp) hone hframed.last
    refine ⟨above.map trim, below, ?_, hbelow, ?_⟩
    · intro m hm
      obtain ⟨b, hb, rfl⟩ := List.mem_map.mp hm
      exact trim_eq_nil_of_blank (habove b hb)
    · rw [lines, List.append_assoc, he, List.map_append, hlines, List.append_assoc]

theorem head?_joinLines {l : List Char} {ls : List (List Char)} (hfirst : l ∈ ls.head?) (hl : l ≠ []) :
    (joinLines ls).head? = l.head? := by
  obtain ⟨c, s, rfl⟩ := List.exists_cons_of_ne_nil hl
  obtain ⟨rest, rfl⟩ := List.head?_eq_some_iff.mp hfirst
  cases rest <;> rfl

theorem exists_joinLines_eq_append {l : List Char} {ls : List (List Char)} (hlast : l ∈ ls.getLast?) :
    ∃ front, joinLines ls = front ++ l := by
  induction ls with
  | nil => exact absurd hlast (by simp)
  | cons m ls ih =>
    cases ls with
    | nil =>
      obtain rfl : m = l := by simpa using hlast
      exact ⟨[], rfl⟩
    | cons k ls =>
      obtain ⟨front, he⟩ := ih (by simpa using hlast)
      exact ⟨m ++ '\n' :: front, by rw [joinLines_cons (by simp), he]; simp⟩

theorem trim_joinLines {ls : List (List Char)} (htrim : ∀ l ∈ ls, trim l = l) (hframed : Framed ls) :
    trim (joinLines ls) = joinLines ls := by
  rcases List.eq_nil_or_concat ls with rfl | ⟨firsts, last, hls⟩
  · rfl
  obtain ⟨first, rest, hcons⟩ : ∃ first rest, ls = first :: rest := by
    cases ls with
    | nil => simp at hls
    | cons l ls => exact ⟨l, ls, rfl⟩
  have hhead : first ∈ ls.head? := by rw [hcons]; rfl
  have hend : last ∈ ls.getLast? := by rw [hls]; simp
  have hfirst : first ≠ [] := by
    rintro rfl
    exact hframed.first hhead
  have hlast : last ≠ [] := by
    rintro rfl
    exact hframed.last hend
  obtain ⟨front, he⟩ := exists_joinLines_eq_append hend
  rw [trim_eq_self_iff]
  constructor
  · rw [head?_joinLines hhead hfirst]
    exact (trim_eq_self_iff.mp (htrim first (List.mem_of_head? hhead))).1
  · rw [he, List.getLast?_append_of_ne_nil _ hlast]
    exact (trim_eq_self_iff.mp (htrim last (List.mem_of_getLast? hend))).2

theorem allBlank_joinLines {ls : List (List Char)} (h : ∀ l ∈ ls, l = []) :
    allBlank (joinLines ls) = true := by
  induction ls with
  | nil => rfl
  | cons l ls ih =>
    obtain rfl := h l List.mem_cons_self
    have hrest := ih fun m hm => h m (List.mem_cons_of_mem _ hm)
    cases ls with
    | nil => rfl
    | cons m ls => rwa [joinLines_cons (by simp), List.nil_append]

theorem exists_joinLines_append (ls : List (List Char)) {below : List (List Char)}
    (hbelow : ∀ l ∈ below, l = []) :
    ∃ after, allBlank after = true ∧ joinLines (ls ++ below) = joinLines ls ++ after := by
  have hblank := allBlank_joinLines hbelow
  induction ls with
  | nil => exact ⟨joinLines below, hblank, rfl⟩
  | cons l ls ih =>
    obtain ⟨after, hafter, he⟩ := ih
    by_cases hls : ls = []
    · subst hls
      by_cases hempty : below = []
      · exact ⟨[], rfl, by simp [hempty]⟩
      · exact ⟨'\n' :: joinLines below, hblank, joinLines_cons hempty⟩
    · refine ⟨after, hafter, ?_⟩
      rw [List.cons_append, joinLines_cons (by simp [hls]), he, joinLines_cons hls, List.append_assoc,
        List.cons_append]

theorem trim_joinLines_of_padded {ls ms : List (List Char)} (h : Padded ls ms) :
    trim (joinLines ms) = trim (joinLines ls) := by
  obtain ⟨above, below, habove, hbelow, rfl⟩ := h
  induction above with
  | nil =>
    obtain ⟨after, hafter, he⟩ := exists_joinLines_append ls hbelow
    rw [List.nil_append, he]
    exact trim_append_of_blank_right hafter (joinLines ls)
  | cons l above ih =>
    obtain rfl := habove l List.mem_cons_self
    have hrest := ih fun m hm => habove m (List.mem_cons_of_mem _ hm)
    by_cases hempty : above ++ ls ++ below = []
    · rw [hempty] at hrest
      rw [List.cons_append, List.cons_append, hempty, ← hrest]
      rfl
    · have hfeed := trim_append_of_blank_left (rfl : allBlank ['\n'] = true) (joinLines (above ++ ls ++ below))
      rw [List.cons_append, List.cons_append, joinLines_cons hempty, ← hrest, ← hfeed]
      rfl

end ComponentDoc.Text
