import ComponentDoc.Proofs.Document.Walk
import ComponentDoc.Proofs.Markup.Faults

namespace ComponentDoc.Document

open Text Markup

theorem tagEnd_pointsInto {document text : List Char} {name : String} {start k pos : Nat} {e : ParseError}
    (ht : StandsFrom document pos text) (hstart : start ≤ pos) (h : tagEnd name start k pos text = .error e) :
    e.PointsInto document := by
  fun_induction tagEnd name start k pos text with
  | case1 k pos =>
    cases h
    exact .inside hstart ht.pos_le
  | case2 _ _ _ _ ih | case4 _ _ _ _ ih | case6 _ _ _ _ _ _ _ ih | case9 _ _ _ _ _ _ _ ih =>
    exact ih ht.tail (Nat.le_succ_of_le hstart) h
  | case3 pos rest e he =>
    cases h
    exact skipExpression_pointsInto ht he
  | case5 pos c rest =>
    cases h
    exact .inside (by omega) (Nat.le_of_eq ht.tail.length_eq.symm)
  | case7 | case8 => simp at h

theorem insert_pointsInto {document : List Char} {regions : Regions} {region : Region} {e : ParseError}
    (hordered : region.span.start ≤ region.span.stop) (hinside : region.span.stop ≤ document.length)
    (h : regions.insert region = .error e) : e.PointsInto document := by
  unfold Regions.insert at h
  dsimp only at h
  repeat' split at h
  all_goals
    first
    | cases h
      exact .inside hordered hinside
    | simp at h

theorem startTagStep_pointsInto {document more name : List Char} {p : Progress} {pos : Nat} {e : ParseError}
    (ht : StandsFrom document pos ('<' :: name ++ more))
    (h : startTagStep p pos name ('<' :: name ++ more) = .error e) : e.PointsInto document := by
  obtain ⟨hdrop, hmore⟩ := ht.behind_name
  rw [startTagStep] at h
  dsimp only at h
  rw [hdrop] at h
  obtain h | ⟨⟨stop, sc⟩, htag, h⟩ := bind_eq_error.mp h
  · exact tagEnd_pointsInto hmore (by omega) h
  · obtain ⟨inner, rest, rfl, rfl, -, -⟩ := tagEnd_reads htag
    have hrest : StandsFrom document (pos + 1 + name.length + (inner ++ tagStop sc).length) rest := hmore.drop
    have hcontent : ('<' :: name ++ (inner ++ tagStop sc ++ rest)).drop
        (pos + 1 + name.length + (inner ++ tagStop sc).length - pos) = rest := by
      rw [show pos + 1 + name.length + (inner ++ tagStop sc).length - pos =
        ('<' :: name ++ (inner ++ tagStop sc)).length by simp only [List.length_append, List.length_cons]; omega]
      simp
    dsimp only at h
    rw [hcontent] at h
    split at h
    · simp [pure, Except.pure] at h
    split at h
    · simp [pure, Except.pure] at h
    split at h
    · cases h
      exact .inside (Nat.le_add_right _ _) (Nat.le_of_eq ht.length_eq.symm)
    · next before length hfound =>
      split at h
      · simp [pure, Except.pure] at h
      · obtain ⟨content, tag, back, rfl, rfl, rfl, -, -, -⟩ := findEndTag?_reads hfound
        have hend := hrest.drop.pos_le
        obtain h | ⟨regions, -, h⟩ := bind_eq_error.mp h
        · refine insert_pointsInto ?_ ?_ h
          · dsimp only
            omega
          · simp only [List.length_append] at hend ⊢
            omega
        · simp [pure, Except.pure] at h

theorem step_pointsInto {document rest : List Char} {p : Progress} {pos : Nat} {c : Char} {e : ParseError}
    (ht : StandsFrom document pos (c :: rest)) (h : step p pos c rest = .error e) : e.PointsInto document := by
  unfold step at h
  dsimp only at h
  split at h
  · split at h <;> simp at h
  split at h
  · exact skipExpression_pointsInto ht (map_eq_error.mp h)
  split at h
  · next hc =>
    subst hc
    split at h
    · split at h
      · simp at h
      · split at h <;> simp at h
    · split at h
      · simp at h
      · next name hname =>
        obtain ⟨-, more, rfl, -⟩ := tagName?_eq_some_iff.mp hname
        exact startTagStep_pointsInto ht h
  · simp at h

theorem regionsFrom_pointsInto {document text : List Char} {p : Progress} {k pos : Nat} {e : ParseError}
    (ht : StandsFrom document pos text) (h : regionsFrom p k pos text = .error e) : e.PointsInto document := by
  fun_induction regionsFrom p k pos text with
  | case1 => simp at h
  | case2 _ _ _ _ _ ih => exact ih ht.tail h
  | case3 p pos c rest e he =>
    cases h
    exact step_pointsInto ht he
  | case4 _ _ _ _ _ _ _ ih => exact ih ht.tail h

theorem split_error_pointsInto {source : List Char} {e : ParseError} (h : split source = .error e) :
    e.PointsInto source := by
  obtain h | ⟨regions, -, h⟩ := bind_eq_error.mp h
  · exact regionsFrom_pointsInto (standsFrom_zero source) h
  · simp [pure, Except.pure] at h

theorem fault_pointsInto (text : List Char) :
    (∀ e, split text = .error e ∨ Markup.parse text = .error e → e.PointsInto text) ∧
      (text.getLast? ≠ some '\\' → ∀ e, split text = .error e ∨ Markup.parse text = .error e →
        e.span.start ≤ e.span.stop ∧ e.span.stop ≤ text.length) := by
  have hpoints (e : ParseError) (h : split text = .error e ∨ Markup.parse text = .error e) : e.PointsInto text :=
    h.elim split_error_pointsInto parse_error_pointsInto
  refine ⟨hpoints, fun hlast e h => ?_⟩
  cases hpoints e h with
  | inside ordered inside => exact ⟨Nat.le_max_left _ _, Nat.max_le.mpr ⟨ordered.trans inside, inside⟩⟩
  | beyond _ backslash => exact absurd backslash hlast

theorem fault_pointsInto_open_expression :
    ∃ e, Markup.parse "<p>\x7ba".toList = .error e ∧ e.PointsInto "<p>\x7ba".toList ∧
      e.span.start ≤ e.span.stop ∧ e.span.stop ≤ "<p>\x7ba".toList.length := by
  have h : Markup.parse "<p>\x7ba".toList = .error (.at .openExpression 3 5) :=
    map_eq_error (f := List.length) |>.mp (by decide +kernel)
  obtain ⟨hpoints, hspan⟩ := fault_pointsInto "<p>\x7ba".toList
  exact ⟨_, h, hpoints _ (.inr h), hspan (by decide) _ (.inr h)⟩

/-- The backslash at the end counts as two characters. -/
theorem open_string_beyond_backslash :
    split "\x7b\"\\".toList = .error (.at .openString 1 4) ∧
      Markup.parse "\x7b\"\\".toList = .error (.at .openString 1 4) ∧ "\x7b\"\\".toList.length = 3 :=
  ⟨map_eq_error (f := Parts.markup) |>.mp (by decide +kernel),
    map_eq_error (f := List.length) |>.mp (by decide +kernel), by decide⟩

end ComponentDoc.Document
