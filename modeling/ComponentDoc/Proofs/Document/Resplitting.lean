import ComponentDoc.Proofs.Document.Blanking

namespace ComponentDoc.Document

open Text Markup

variable {p p' : Progress} {pos : Nat}

theorem regionsFrom_step {c : Char} {rest used more : List Char} (hsplit : c :: rest = used ++ more)
    (hne : used ≠ []) (hstep : step p pos c rest = .ok (p', pos + used.length)) :
    regionsFrom p 0 pos (c :: rest) = regionsFrom p' 0 (pos + used.length) more := by
  obtain ⟨d, tail, rfl⟩ := List.exists_cons_of_ne_nil hne
  obtain ⟨rfl, rfl⟩ : c = d ∧ rest = tail ++ more := List.cons.inj hsplit
  have hskip : pos + (c :: tail).length - pos - 1 = tail.length := by
    rw [List.length_cons]
    omega
  rw [regionsFrom, hstep]
  dsimp only
  rw [hskip, regionsFrom_append, List.length_cons, Nat.add_assoc, Nat.add_comm 1]

theorem regionsFrom_blanks {blanks : List Char} (h : ∀ d ∈ blanks, d = ' ' ∨ d = '\n') (rest : List Char) :
    regionsFrom p 0 pos (blanks ++ rest) = regionsFrom p 0 (pos + blanks.length) rest := by
  induction blanks generalizing pos with
  | nil => rfl
  | cons d blanks ih =>
    obtain ⟨hd, hblanks⟩ := List.forall_mem_cons.mp h
    have hplain : d ≠ '{' ∧ d ≠ '<' := by
      rcases hd with rfl | rfl <;> decide
    have hsplit : d :: (blanks ++ rest) = [d] ++ (blanks ++ rest) := rfl
    have hstep : step p pos d (blanks ++ rest) = .ok (p, pos + [d].length) := step_plain p pos hplain.1 hplain.2 _
    rw [List.cons_append, regionsFrom_step hsplit (List.cons_ne_nil _ _) hstep, ih hblanks, List.length_singleton,
      List.length_cons, Nat.add_assoc, Nat.add_comm 1]

/-- The second run goes through the markup as the first one went through the document, and passes over the blanks
where the first one found a region. -/
theorem Stands.regionsFrom_eq {regions : Regions} {seen : List Char} (h : Stands regions p pos seen) :
    regionsFrom ⟨.empty, p.opens⟩ 0 pos seen = .ok .empty := by
  induction hl : seen.length using Nat.strongRecOn generalizing p pos seen with
  | _ n ih =>
    cases seen with
    | nil => rfl
    | cons c rest =>
      have hshorter {used more : List Char} (hsplit : c :: rest = used ++ more) (hne : used ≠ []) :
          more.length < n := by
        have hpos := List.length_pos_iff.mpr hne
        have hlength := congrArg List.length hsplit
        rw [List.length_append] at hlength
        omega
      cases h.next with
      | same split nonempty step stands =>
        rw [regionsFrom_step split nonempty step]
        exact ih _ (hshorter split nonempty) stands rfl
      | @region p' region blanks more top still perm span split nonempty blank stands =>
        rw [split, regionsFrom_blanks blank, top, ← still]
        exact ih _ (hshorter split nonempty) stands rfl

theorem blankOut_nil (pos : Nat) (text : List Char) : blankOut [] pos text = text :=
  blankOut_eq_self (List.forall_mem_nil _)

theorem split_markup {source : List Char} {parts : Parts} (h : split source = .ok parts) :
    split parts.markup = .ok ⟨parts.markup, .empty⟩ := by
  obtain ⟨hregions, hmarkup⟩ := split_eq_ok_iff.mp h
  have hstands : Stands parts.regions ⟨.empty, []⟩ 0 parts.markup :=
    ⟨⟨source, walk_of_regionsFrom hregions, hmarkup.symm⟩, List.forall_mem_nil _⟩
  exact split_eq_ok_iff.mpr ⟨hstands.regionsFrom_eq, (blankOut_nil 0 parts.markup).symm⟩

theorem split_markup_nested_style : ∃ parts,
    split "<<script>a</script><p a='>'><style></style></p>\x7b'<style>'\x7d<style>\n</style >".toList = .ok parts ∧
      parts.regions.toList.length = 2 ∧ split parts.markup = .ok ⟨parts.markup, .empty⟩ := by
  have h : (split "<<script>a</script><p a='>'><style></style></p>\x7b'<style>'\x7d<style>\n</style >".toList).map
      (fun parts => parts.regions.toList.length) = .ok 2 := by decide +kernel
  obtain ⟨parts, hs, hl⟩ := map_eq_ok.mp h
  exact ⟨parts, hs, hl, split_markup hs⟩

end ComponentDoc.Document
