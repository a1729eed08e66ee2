import ComponentDoc.Proofs.Document.Placement

/-!
The markup as the splitter would read it. What stands outside the regions is left as it is, so that
every step over it is the same step in the markup; a region has become blanks.
-/

namespace ComponentDoc.Document

open Text Markup

theorem blankOut_append (spans : List Span) (pos : Nat) (s t : List Char) :
    blankOut spans pos (s ++ t) = blankOut spans pos s ++ blankOut spans (pos + s.length) t := by
  induction s generalizing pos with
  | nil => rfl
  | cons c rest ih =>
    rw [List.cons_append, blankOut, ih, blankOut, List.cons_append, List.length_cons, Nat.add_assoc,
      Nat.add_comm 1]

theorem blankOut_eq_self {spans : List Span} {pos : Nat} {text : List Char}
    (h : ∀ s ∈ spans, s.stop ≤ pos ∨ pos + text.length ≤ s.start) : blankOut spans pos text = text := by
  apply List.ext_getElem?
  intro i
  rw [blankOut_getElem?]
  cases hi : text[i]? with
  | none => rfl
  | some c =>
    have hlt := (List.getElem?_eq_some_iff.mp hi).1
    rw [Option.map_some, if_neg]
    rintro ⟨-, s, hs, hstart, hstop⟩
    have := h s hs
    omega

theorem blankOut_blanks {spans : List Span} {pos : Nat} {text : List Char} {s : Span} (hs : s ∈ spans)
    (hstart : s.start ≤ pos) (hstop : pos + text.length ≤ s.stop) :
    ∀ c ∈ blankOut spans pos text, c = ' ' ∨ c = '\n' := by
  intro c hc
  obtain ⟨i, hi⟩ := List.mem_iff_getElem?.mp hc
  rw [blankOut_getElem?] at hi
  obtain ⟨d, hd, rfl⟩ := Option.map_eq_some_iff.mp hi
  have hlt := (List.getElem?_eq_some_iff.mp hd).1
  by_cases hfeed : d = '\n'
  · right
    rw [if_neg (fun h => h.1 hfeed), hfeed]
  · left
    exact if_pos ⟨hfeed, s, hs, by omega, by omega⟩

theorem exists_of_blankOut_cons {spans : List Span} {pos : Nat} {text after : List Char} {d : Char}
    (h : blankOut spans pos text = d :: after) (hd : d ≠ ' ') :
    ∃ rest, text = d :: rest ∧ after = blankOut spans (pos + 1) rest := by
  cases text with
  | nil => simp [blankOut] at h
  | cons c rest =>
    obtain ⟨hc, ha⟩ := List.cons.inj h
    split at hc
    · exact absurd hc.symm hd
    · exact ⟨rest, by rw [hc], ha.symm⟩

theorem prefix_of_prefix_blankOut {spans : List Span} {pos : Nat} {s text : List Char} (hs : ' ' ∉ s)
    (h : s <+: blankOut spans pos text) : s <+: text := by
  induction s generalizing pos text with
  | nil => exact List.nil_prefix
  | cons d s ih =>
    simp only [List.mem_cons, not_or] at hs
    obtain ⟨after, ha⟩ := h
    obtain ⟨rest, rfl, he⟩ := exists_of_blankOut_cons ha.symm (Ne.symm hs.1)
    exact (List.prefix_cons_inj d).mpr (ih hs.2 ⟨after, he⟩)

theorem tagName?_eq_none_iff {s : List Char} :
    tagName? s = none ↔ ∀ d ∈ s.head?, isAsciiLetter d = false := by
  cases s with
  | nil => simp [tagName?]
  | cons c rest => simp [tagName?]

theorem tagName?_blankOut {spans : List Span} {pos : Nat} {text : List Char}
    (h : tagName? text = none) : tagName? (blankOut spans pos text) = none := by
  rw [tagName?_eq_none_iff] at h ⊢
  intro d hd
  by_cases hb : d = ' '
  · subst hb
    decide
  · obtain ⟨after, ha⟩ := List.head?_eq_some_iff.mp hd
    obtain ⟨rest, rfl, -⟩ := exists_of_blankOut_cons ha hb
    exact h d rfl

theorem Lone.blankOut {rest : List Char} (h : Lone rest) (spans : List Span) (pos : Nat) :
    Lone (blankOut spans pos rest) := by
  obtain ⟨hcomment, hname, hend⟩ := h
  refine ⟨fun hp => hcomment ?_, tagName?_blankOut hname, fun after he => ?_⟩
  · exact prefix_of_prefix_blankOut (by decide) hp
  · obtain ⟨rest, rfl, rfl⟩ := exists_of_blankOut_cons he (by decide)
    exact tagName?_blankOut (hend rest rfl)

/-- The regions that the splitter knows when it comes to `pos` end there. -/
def Progress.Passed (p : Progress) (pos : Nat) : Prop := ∀ r ∈ p.regions.toList, r.span.stop ≤ pos

def Regions.spans (rs : Regions) : List Span := rs.toList.map Region.span

theorem Walk.subset {p : Progress} {pos : Nat} {text : List Char} {regions : Regions}
    (h : Walk p pos text regions) : p.regions.toList ⊆ regions.toList := by
  induction h with
  | done p pos => exact List.Subset.refl _
  | step stepped walk ih =>
    cases stepped with
    | skipped => exact ih
    | lone => exact ih
    | found top finds insert =>
      intro r hr
      exact ih ((Regions.insert_perm insert).mem_iff.mpr (List.mem_cons_of_mem _ hr))

theorem Walk.known_or_le {p : Progress} {pos : Nat} {text : List Char} {regions : Regions}
    (h : Walk p pos text regions) :
    ∀ r ∈ regions.toList, r ∈ p.regions.toList ∨ pos ≤ r.span.start := by
  induction h with
  | done p pos => exact fun r hr => Or.inl hr
  | step stepped walk ih =>
    intro r hr
    rcases ih r hr with hk | hle
    · cases stepped with
      | skipped => exact Or.inl hk
      | lone => exact Or.inl hk
      | found top finds insert =>
        rcases List.mem_cons.mp ((Regions.insert_perm insert).mem_iff.mp hk) with rfl | hk
        · exact Or.inr (Nat.le_of_eq (congrArg Span.start finds.span).symm)
        · exact Or.inl hk
    · exact Or.inr ((Nat.le_add_right _ _).trans hle)

theorem Stepped.passed {p p' : Progress} {pos : Nat} {c : Char} {tail rest : List Char}
    (h : Stepped p pos c tail rest p') (hp : p.Passed pos) : p'.Passed (pos + (tail.length + 1)) := by
  have hold : p.Passed (pos + (tail.length + 1)) := fun r hr => (hp r hr).trans (Nat.le_add_right _ _)
  cases h with
  | skipped => exact hold
  | lone => exact hold
  | found top finds insert =>
    intro r hr
    rcases List.mem_cons.mp ((Regions.insert_perm insert).mem_iff.mp hr) with rfl | hr
    · rw [finds.span]
      rfl
    · exact hold r hr

/-- The splitter, which finds `regions` in all, is at `pos`; `seen` is the markup from there on. -/
structure Stands (regions : Regions) (p : Progress) (pos : Nat) (seen : List Char) : Prop where
  walk : ∃ text, Walk p pos text regions ∧ blankOut regions.spans pos text = seen
  passed : p.Passed pos

/-- What the next step of the splitter is, seen in the markup. -/
inductive Next (regions : Regions) (p : Progress) (pos : Nat) (c : Char) (rest : List Char) : Prop
  | same {used more : List Char} {opens : List String} (split : c :: rest = used ++ more)
      (nonempty : used ≠ [])
      (step : step ⟨.empty, p.opens⟩ pos c rest = .ok (⟨.empty, opens⟩, pos + used.length))
      (stands : Stands regions ⟨p.regions, opens⟩ (pos + used.length) more)
  | region {p' : Progress} {region : Region} {blanks more : List Char} (top : p.opens = [])
      (still : p'.opens = []) (perm : p'.regions.toList.Perm (region :: p.regions.toList))
      (span : region.span = ⟨pos, pos + blanks.length⟩) (split : c :: rest = blanks ++ more)
      (nonempty : blanks ≠ []) (blank : ∀ d ∈ blanks, d = ' ' ∨ d = '\n')
      (stands : Stands regions p' (pos + blanks.length) more)

theorem Stands.next {regions : Regions} {p : Progress} {pos : Nat} {c : Char} {rest : List Char}
    (h : Stands regions p pos (c :: rest)) : Next regions p pos c rest := by
  obtain ⟨⟨text, hw, hm⟩, hp⟩ := h
  cases hw with
  | done => simp [Document.blankOut] at hm
  | @step _ p' _ d tail after _ stepped walk =>
    rw [← List.cons_append, blankOut_append] at hm
    have hstands : Stands regions p' (pos + (tail.length + 1))
        (blankOut regions.spans (pos + (tail.length + 1)) after) :=
      ⟨⟨after, walk, rfl⟩, stepped.passed hp⟩
    -- A step that finds no region is over characters outside all regions.
    have hkeep (hr : p'.regions = p.regions) : blankOut regions.spans pos (d :: tail) = d :: tail := by
      apply blankOut_eq_self
      intro s hs
      obtain ⟨r, hr', rfl⟩ := List.mem_map.mp hs
      rcases walk.known_or_le r hr' with hk | hle
      · exact Or.inl (hp r (hr ▸ hk))
      · exact Or.inr hle
    cases stepped with
    | skipped skips =>
      rw [hkeep rfl] at hm
      obtain ⟨rfl, rfl⟩ := List.cons.inj hm
      refine .same hm.symm (List.cons_ne_nil _ _) (skips _ _ _ ?_) hstands
      rintro rfl
      rfl
    | lone sign alone next =>
      subst sign alone
      rw [hkeep rfl] at hm
      obtain ⟨rfl, rfl⟩ := List.cons.inj hm
      exact .same hm.symm (List.cons_ne_nil _ _) (step_lone _ _ (next.blankOut _ _)) hstands
    | @found region next top finds insert =>
      have hperm := Regions.insert_perm insert
      have hmem : region.span ∈ regions.spans :=
        List.mem_map_of_mem (walk.subset (hperm.mem_iff.mpr List.mem_cons_self))
      have hlen := blankOut_length regions.spans pos (d :: tail)
      refine @Next.region _ _ _ _ _ ⟨next, p.opens⟩ region (blankOut regions.spans pos (d :: tail)) _
        top top hperm ?_ hm.symm ?_ ?_ ?_
      · rw [finds.span, hlen]
      · rw [← List.length_pos_iff, hlen]
        exact Nat.succ_pos _
      · apply blankOut_blanks hmem
        · rw [finds.span]
        · rw [finds.span]
      · rw [hlen]
        exact hstands

theorem Stands.over {regions rs : Regions} {p : Progress} {pos : Nat} {c : Char}
    {rest used more : List Char} {opens : List String} (h : Stands regions p pos (c :: rest))
    (hc : ¬ (c = ' ' ∨ c = '\n')) (hu : c :: rest = used ++ more)
    (hs : step ⟨.empty, p.opens⟩ pos c rest = .ok (⟨rs, opens⟩, pos + used.length)) :
    rs = .empty ∧ Stands regions ⟨p.regions, opens⟩ (pos + used.length) more := by
  cases h.next with
  | same split nonempty step stands =>
    rw [step] at hs
    simp only [Except.ok.injEq, Prod.mk.injEq, Progress.mk.injEq, Nat.add_left_cancel_iff] at hs
    obtain ⟨⟨rfl, rfl⟩, hlen⟩ := hs
    obtain ⟨rfl, rfl⟩ := List.append_inj (split.symm.trans hu) hlen
    exact ⟨rfl, stands⟩
  | @region _ _ blanks _ _ _ _ _ split nonempty blank _ =>
    obtain ⟨d, ds, rfl⟩ := List.exists_cons_of_ne_nil nonempty
    obtain ⟨rfl, -⟩ := List.cons.inj split
    exact absurd (blank c List.mem_cons_self) hc

theorem Stands.through {regions : Regions} {p : Progress} {pos : Nat} {run more : List Char}
    (h : Stands regions p pos (run ++ more)) (hrun : ∀ d ∈ run, d ≠ '<' ∧ d ≠ '{')
    (hmore : ∀ d ∈ more.head?, d = '<' ∨ d = '{') :
    ∃ p', p'.opens = p.opens ∧ Stands regions p' (pos + run.length) more ∧
      ∀ r ∈ p'.regions.toList, r ∈ p.regions.toList ∨
        (p.opens = [] ∧ r.span.Within ⟨pos, pos + run.length⟩) := by
  induction hl : run.length using Nat.strongRecOn generalizing p pos run with
  | _ n ih =>
    subst hl
    cases run with
    | nil => exact ⟨p, rfl, h, fun r hr => Or.inl hr⟩
    | cons c run =>
      obtain ⟨hl, hb⟩ := hrun c List.mem_cons_self
      cases h.next with
      | same split nonempty step stands =>
        rw [step_plain _ _ hb hl] at step
        simp only [Except.ok.injEq, Prod.mk.injEq, Progress.mk.injEq, true_and,
          Nat.add_left_cancel_iff] at step
        obtain ⟨rfl, hone⟩ := step
        obtain ⟨rfl, rfl⟩ := List.append_inj (show [c] ++ (run ++ more) = _ ++ _ from split) hone
        obtain ⟨p', hopens, hstands, hregions⟩ :=
          ih run.length (Nat.lt_succ_self _) stands (fun d hd => hrun d (List.mem_cons_of_mem _ hd)) rfl
        rw [List.length_singleton, Nat.add_assoc, Nat.add_comm 1] at hstands hregions
        refine ⟨p', hopens, hstands, fun r hr => (hregions r hr).imp_right ?_⟩
        exact fun ⟨htop, hle, hlast⟩ => ⟨htop, (Nat.le_succ pos).trans hle, hlast⟩
      | @region p' region blanks rest top still perm span split nonempty blank stands =>
        obtain ⟨e, hrun', rfl⟩ : ∃ e, c :: run = blanks ++ e ∧ rest = e ++ more := by
          have hsplit : c :: run ++ more = blanks ++ rest := split
          rcases List.append_eq_append_iff.mp hsplit with ⟨e, rfl, rfl⟩ | ⟨e, he, rfl⟩
          · cases e with
            | nil => exact ⟨[], by simp, rfl⟩
            | cons d ds =>
              have hsign := hmore d rfl
              have hblank := blank d (List.mem_append_right _ List.mem_cons_self)
              rcases hsign with rfl | rfl <;> simp at hblank
          · exact ⟨e, he, rfl⟩
        have hpos := List.length_pos_iff.mpr nonempty
        rw [hrun'] at hrun ⊢
        obtain ⟨p'', hopens, hstands, hregions⟩ := ih e.length
          (by rw [hrun', List.length_append]; exact Nat.lt_add_of_pos_left hpos) stands
          (fun d hd => hrun d (List.mem_append_right _ hd)) rfl
        rw [Nat.add_assoc, ← List.length_append] at hstands
        refine ⟨p'', by rw [hopens, still, top], hstands, fun r hr => ?_⟩
        rw [List.length_append, ← Nat.add_assoc]
        rcases hregions r hr with hr | ⟨-, hle, hlast⟩
        · rcases List.mem_cons.mp (perm.mem_iff.mp hr) with rfl | hr
          · exact Or.inr ⟨top, by rw [span], by rw [span]; exact Nat.le_add_right _ _⟩
          · exact Or.inl hr
        · exact Or.inr ⟨top, (Nat.le_add_right _ _).trans hle, hlast⟩

end ComponentDoc.Document
