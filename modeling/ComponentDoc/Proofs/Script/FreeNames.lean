import ComponentDoc.Proofs.Script.Scope

namespace ComponentDoc.Script

theorem Kind.isName_of_isReference {kind : Kind} (h : kind.isReference) : kind.isName := by
  cases kind <;> simp [isReference, isName] at h ⊢

namespace Source

variable {s : Source}

theorem scopeNames_eq_nil {n : Node} (h : n.kind.bindsInside = false) : s.scopeNames n = [] := by
  unfold scopeNames
  cases hk : n.kind <;> simp [hk, Kind.bindsInside] at h ⊢

theorem freeNames_eq_filter (bound : List CodeText) (n : Node) :
    s.freeNames bound n = (s.freeNames [] n).filter fun x => x ∉ bound := by
  by_cases href : n.kind.isReference
  · rw [freeNames_of_isReference href, freeNames_of_isReference href]
    by_cases hmem : s.nameOf n ∈ bound <;> simp [hmem]
  · rw [Bool.not_eq_true] at href
    rw [freeNames_eq_flatMap href, freeNames_eq_flatMap href, List.filter_flatMap]
    refine List.flatMap_congr fun p hp => ?_
    rw [freeNames_eq_filter (bound ++ p.1) p.2, freeNames_eq_filter ([] ++ p.1) p.2, List.filter_filter]
    refine List.filter_congr fun x _ => ?_
    simp [not_or]
termination_by sizeOf n
decreasing_by all_goals exact sizeOf_lt_of_mem_scopes hp

theorem freeNames_eq_scopes {n : Node} (h : n.kind.isReference = false) :
    s.freeNames [] n =
      (s.scopes n).flatMap fun p => (s.freeNames [] p.2).filter fun x => x ∉ p.1 := by
  rw [freeNames_eq_flatMap h]
  exact List.flatMap_congr fun p _ => freeNames_eq_filter _ _

theorem mem_preorder_of_mem_scopes {n c : Node} {names : List CodeText} (h : (names, c) ∈ s.scopes n) :
    c ∈ n.preorder := by
  unfold scopes at h
  split at h
  · simp only [List.mem_append, List.mem_map, Prod.mk.injEq] at h
    obtain ⟨i, hi, -, rfl⟩ | ⟨b, hb, -, rfl⟩ := h
    · obtain ⟨p, hp, hi⟩ := List.mem_filterMap.mp hi
      exact Node.mem_preorder_trans (Node.mem_preorder_of_mem_params hp)
        (Node.mem_preorder_of_mem (Node.mem_children_of_initial? hi) i.self_mem_preorder)
    · exact Node.mem_preorder_of_mem_part hb
  · split at h
    · simp only [List.mem_append, List.mem_map, List.mem_filter, Prod.mk.injEq] at h
      obtain ⟨k, ⟨hk, -⟩, -, rfl⟩ | ⟨v, hv, -, rfl⟩ := h
      · exact Node.mem_preorder_of_mem_part hk
      · exact Node.mem_preorder_of_mem_part hv
    · simp only [List.mem_map, Prod.mk.injEq] at h
      obtain ⟨m, hm, -, rfl⟩ := h
      exact Node.mem_preorder_of_mem (Node.mem_of_mem_named hm) m.self_mem_preorder

theorem exists_of_mem_freeNames {n : Node} {bound : List CodeText} {x : CodeText}
    (h : x ∈ s.freeNames bound n) : ∃ m ∈ n.preorder, m.kind.isReference ∧ s.nameOf m = x := by
  by_cases href : n.kind.isReference
  · rw [freeNames_of_isReference href] at h
    split at h
    · simp at h
    · exact ⟨n, n.self_mem_preorder, href, (List.mem_singleton.mp h).symm⟩
  · rw [Bool.not_eq_true] at href
    rw [freeNames_eq_flatMap href, List.mem_flatMap] at h
    obtain ⟨p, hp, h⟩ := h
    obtain ⟨m, hm, hmref, hname⟩ := exists_of_mem_freeNames h
    exact ⟨m, Node.mem_preorder_trans (mem_preorder_of_mem_scopes hp) hm, hmref, hname⟩
termination_by sizeOf n
decreasing_by exact sizeOf_lt_of_mem_scopes hp

theorem freeNames_of_isBare {n : Node} (h : n.isBare) (bound : List CodeText) :
    s.freeNames bound n = [] := by
  rw [List.eq_nil_iff_forall_not_mem]
  intro x hx
  obtain ⟨m, hm, href, -⟩ := exists_of_mem_freeNames hx
  exact absurd (Kind.isName_of_isReference href) (by simp [Node.isBare_iff.mp h m hm])

end Source

end ComponentDoc.Script
