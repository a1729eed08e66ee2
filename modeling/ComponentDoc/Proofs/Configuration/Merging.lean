import ComponentDoc.Proofs.Configuration.Sameness
import Mathlib.Data.List.Induction

namespace ComponentDoc

namespace JsonValue

def at? : List String → JsonValue → Option JsonValue
  | [], v => some v
  | key :: path, object members => (Keyed.get? key members).bind (at? path)
  | _ :: _, _ => none

def newItems (found items : List JsonValue) : List JsonValue :=
  (items.zipIdx.filter fun (v, i) => !(found ++ items.take i).any v.same).map Prod.fst

section Extension

variable {v w : JsonValue} {found items : List JsonValue}

theorem extend_concat (found items : List JsonValue) (v : JsonValue) :
    extend found (items ++ [v]) =
      if (extend found items).any v.same then extend found items else extend found items ++ [v] := by
  rw [extend, List.foldl_append]
  rfl

theorem newItems_concat (found items : List JsonValue) (v : JsonValue) :
    newItems found (items ++ [v]) =
      newItems found items ++ if (found ++ items).any v.same then [] else [v] := by
  have hbefore : ∀ e ∈ items.zipIdx, (!(found ++ (items ++ [v]).take e.2).any e.1.same) =
      !(found ++ items.take e.2).any e.1.same := by
    intro e he
    have hindex : e.2 < items.length := List.snd_lt_of_mem_zipIdx he
    rw [List.take_append_of_le_length hindex.le]
  have hlast : (items ++ [v]).take items.length = items := List.take_left
  rw [newItems, List.zipIdx_append, List.filter_append, List.filter_congr hbefore, List.map_append, Nat.zero_add,
    List.zipIdx_singleton, List.filter_singleton]
  dsimp only
  rw [hlast]
  cases (found ++ items).any v.same <;> rfl

theorem mem_extend (found items : List JsonValue) :
    found ⊆ extend found items ∧ extend found items ⊆ found ++ items := by
  induction items using List.reverseRecOn with
  | nil => simp [extend]
  | append_singleton items v ih =>
    obtain ⟨hfound, hextend⟩ := ih
    rw [extend_concat, ← List.append_assoc]
    split
    · exact ⟨hfound, fun w hw => List.mem_append_left _ (hextend hw)⟩
    · refine ⟨fun w hw => List.mem_append_left _ (hfound hw), ?_⟩
      exact List.append_subset.mpr ⟨fun w hw => List.mem_append_left _ (hextend hw), List.subset_append_right _ _⟩

theorem exists_same_of_mem (h : ∀ v ∈ items, IsProper v) (hv : v ∈ items) : ∃ w ∈ extend found items, same v w := by
  induction items using List.reverseRecOn with
  | nil => cases hv
  | append_singleton items x ih =>
    rw [extend_concat]
    rcases List.mem_append.mp hv with hold | hlast
    · obtain ⟨w, hw, hsame⟩ := ih (fun v hv => h v (List.mem_append_left _ hv)) hold
      refine ⟨w, ?_, hsame⟩
      split
      · exact hw
      · exact List.mem_append_left _ hw
    · obtain rfl := List.mem_singleton.mp hlast
      split
      · next hany => exact List.any_eq_true.mp hany
      · exact ⟨v, List.mem_append_right _ hlast, (h v hv).same_self⟩

theorem extend_eq (hfound : ∀ v ∈ found, IsProper v) (hitems : ∀ v ∈ items, IsProper v) :
    extend found items = found ++ newItems found items := by
  induction items using List.reverseRecOn with
  | nil => simp [extend, newItems]
  | append_singleton items v ih =>
    have hold : ∀ v ∈ items, IsProper v := fun v hv => hitems v (List.mem_append_left _ hv)
    have hv : IsProper v := hitems v (List.mem_append_right _ (List.mem_singleton_self v))
    obtain ⟨hsub, hextend⟩ := mem_extend found items
    -- An item that was left out is the same as one that is there, so it is enough to look at those.
    have hany : (extend found items).any v.same = (found ++ items).any v.same := by
      rw [Bool.eq_iff_iff, List.any_eq_true, List.any_eq_true]
      constructor
      · rintro ⟨w, hw, hsame⟩
        exact ⟨w, hextend hw, hsame⟩
      · rintro ⟨w, hw, hsame⟩
        rcases List.mem_append.mp hw with hw | hw
        · exact ⟨w, hsub hw, hsame⟩
        · obtain ⟨x, hx, hsame'⟩ := exists_same_of_mem hold hw
          have hproper : IsProper x := (List.mem_append.mp (hextend hx)).elim (hfound x) (hold x)
          exact ⟨x, hx, hv.same_trans hproper hsame hsame'⟩
    rw [extend_concat, newItems_concat, hany, ih hold]
    split
    · rw [List.append_nil]
    · rw [List.append_assoc]

theorem extend_eq_self (h : ∀ v ∈ items, ∃ w ∈ found, same v w) : extend found items = found := by
  induction items with
  | nil => rfl
  | cons v items ih =>
    obtain ⟨hv, hitems⟩ := List.forall_mem_cons.mp h
    rw [extend, List.foldl_cons, if_pos (List.any_eq_true.mpr hv)]
    exact ih hitems

end Extension

end JsonValue

namespace Configuration

open JsonValue Keyed

/-- The value under a key where a configuration with the second value is merged into one with the first. -/
def override (key : String) : Option JsonValue → Option JsonValue → Option JsonValue
  | old, none => old
  | some (object base), some (object update) => some (object (merge base update))
  | some (array found), some (array items) =>
    some (array (if key = growingKey then found ++ newItems found items else items))
  | _, some v => some v

variable {key : String} {old : Option JsonValue} {v w : JsonValue} {b c u base update : Keyed String JsonValue}

section Values

theorem override_eq (hold : ∀ w ∈ old, IsProper w) (hv : IsProper v) :
    override key old (some v) = some (mergeValue key old v) := by
  cases hv with
  | scalar => rcases old with _ | (_ | _ | _) <;> simp [override, mergeValue]
  | array hitems =>
    rcases old with _ | (_ | found | _)
    case some.array =>
      have hfound : ∀ w ∈ found, IsProper w := isProper_array_iff.mp (hold _ rfl)
      simp only [override, mergeValue, extend_eq hfound hitems]
    all_goals simp [override, mergeValue]
  | object => rcases old with _ | (_ | _ | _) <;> simp [override, mergeValue]

theorem get?_merge_of_nodup (hu : (keys u).Nodup) (key : String) (b : Keyed String JsonValue) :
    get? key (merge b u) = ((get? key u).map (mergeValue key (get? key b))).or (get? key b) := by
  induction u generalizing b with
  | nil => rfl
  | cons e rest ih =>
    obtain ⟨hfresh, hrest⟩ := List.nodup_cons.mp hu
    rw [merge, ih hrest, get?_cons]
    by_cases he : e.1 = key
    · subst he
      rw [get?_eq_none_iff.mpr hfresh, get?_set_self, if_pos rfl]
      rfl
    · rw [get?_set_of_ne _ _ (Ne.symm he), if_neg he]

theorem get?_merge (hb : IsProper (object b)) (hu : IsProper (object u)) (key : String) :
    get? key (merge b u) = override key (get? key b) (get? key u) := by
  obtain ⟨-, hb⟩ := isProper_object_iff.mp hb
  obtain ⟨hkeys, hu⟩ := isProper_object_iff.mp hu
  rw [get?_merge_of_nodup hkeys]
  cases hupdate : get? key u with
  | none => cases get? key b <;> rfl
  | some v =>
    have hold : ∀ w ∈ get? key b, IsProper w := fun w hw => hb _ (mem_of_get? hw)
    rw [override_eq hold (hu _ (mem_of_get? hupdate))]
    rfl

theorem keys_merge (hu : (keys u).Nodup) (b : Keyed String JsonValue) :
    keys (merge b u) = keys b ++ (keys u).filter (· ∉ keys b) := by
  induction u generalizing b with
  | nil => simp [merge, keys]
  | cons e rest ih =>
    obtain ⟨hfresh, hrest⟩ := List.nodup_cons.mp hu
    have hne : ∀ k ∈ keys rest, k ≠ e.1 := by
      rintro k hk rfl
      exact hfresh hk
    have hkeys : keys (e :: rest) = e.1 :: keys rest := rfl
    rw [merge, ih hrest, keys_set, hkeys]
    by_cases he : e.1 ∈ keys b
    · rw [if_pos he, List.filter_cons_of_neg (by simpa using he)]
    · have hfilter : (keys rest).filter (· ∉ keys b ++ [e.1]) = (keys rest).filter (· ∉ keys b) := by
        refine List.filter_congr fun k hk => ?_
        simp [hne k hk]
      rw [if_neg he, List.filter_cons_of_pos (by simpa using he), hfilter, List.append_assoc]
      rfl

end Values

section Again

theorem merge_eq_self (h : ∀ m ∈ u, ∃ w, get? m.1 c = some w ∧ mergeValue m.1 (some w) m.2 = w) : merge c u = c := by
  induction u with
  | nil => rfl
  | cons m rest ih =>
    obtain ⟨⟨w, hw, hmerge⟩, hrest⟩ := List.forall_mem_cons.mp h
    rw [merge, hw, hmerge, set_eq_self hw, ih hrest]

theorem mergeValue_self (hv : IsProper v) (key : String) : mergeValue key (some v) v = v := by
  induction hv generalizing key with
  | scalar => rfl
  | array hitems =>
    rw [mergeValue, extend_eq_self fun v hv => ⟨v, hv, (hitems v hv).same_self⟩, ite_self]
  | object hkeys _ ih =>
    rw [mergeValue, merge_eq_self fun m hm => ⟨m.2, get?_of_mem hkeys hm, ih m hm m.1⟩]

theorem merge_merge (hu : (keys u).Nodup) (h : ∀ m ∈ u, ∀ key old,
    mergeValue key (some (mergeValue key old m.2)) m.2 = mergeValue key old m.2) (b : Keyed String JsonValue) :
    merge (merge b u) u = merge b u := by
  apply merge_eq_self
  intro m hm
  refine ⟨mergeValue m.1 (get? m.1 b) m.2, ?_, h m hm m.1 (get? m.1 b)⟩
  rw [get?_merge_of_nodup hu, get?_of_mem hu hm]
  rfl

theorem mergeValue_mergeValue (hv : IsProper v) (key : String) (old : Option JsonValue) :
    mergeValue key (some (mergeValue key old v)) v = mergeValue key old v := by
  induction hv generalizing key old with
  | scalar => rfl
  | @array items hitems =>
    have hself := mergeValue_self (.array hitems) key
    rcases old with _ | (_ | found | _)
    case some.array =>
      rw [mergeValue]
      split
      · rw [mergeValue, if_pos ‹_›, extend_eq_self fun v hv => exists_same_of_mem hitems hv]
      · exact hself
    all_goals exact hself
  | @object members hkeys hmembers ih =>
    have hself := mergeValue_self (.object hkeys hmembers) key
    rcases old with _ | (_ | _ | base)
    case some.object => rw [mergeValue, mergeValue, merge_merge hkeys ih]
    all_goals exact hself

end Again

section Paths

theorem eq_object_of_at? {front : List String} (h : at? front v = some (object base)) : ∃ ms, v = object ms := by
  cases front with
  | nil => exact ⟨base, Option.some.inj h⟩
  | cons key front =>
    cases v with
    | object ms => exact ⟨ms, rfl⟩
    | _ => cases h

theorem at?_merge (hb : IsProper (object b)) (hu : IsProper (object u)) {front : List String}
    (hbase : at? front (object b) = some (object base)) (hupdate : at? front (object u) = some (object update)) :
    at? front (object (merge b u)) = some (object (merge base update)) ∧ IsProper (object base) ∧
      IsProper (object update) := by
  induction front generalizing b u with
  | nil =>
    cases hbase
    cases hupdate
    exact ⟨rfl, hb, hu⟩
  | cons key front ih =>
    rw [at?] at hbase hupdate ⊢
    obtain ⟨v, hv, hbase⟩ := Option.bind_eq_some_iff.mp hbase
    obtain ⟨w, hw, hupdate⟩ := Option.bind_eq_some_iff.mp hupdate
    obtain ⟨ms, rfl⟩ := eq_object_of_at? hbase
    obtain ⟨ns, rfl⟩ := eq_object_of_at? hupdate
    have hms : IsProper (object ms) := (isProper_object_iff.mp hb).2 _ (mem_of_get? hv)
    have hns : IsProper (object ns) := (isProper_object_iff.mp hu).2 _ (mem_of_get? hw)
    rw [get?_merge hb hu, hv, hw]
    exact ih hms hns hbase hupdate

theorem at?_concat {front : List String} {ms : Keyed String JsonValue} (h : at? front v = some (object ms))
    (key : String) : at? (front ++ [key]) v = get? key ms := by
  induction front generalizing v with
  | nil =>
    cases h
    rw [List.nil_append, at?]
    cases get? key ms <;> rfl
  | cons k front ih =>
    obtain ⟨ns, rfl⟩ := eq_object_of_at? h
    obtain ⟨w, hw, h⟩ := Option.bind_eq_some_iff.mp h
    rw [List.cons_append, at?, hw]
    exact ih h

theorem merge_overrides (hb : IsProper (object b)) (hu : IsProper (object u)) :
    (∀ front key base update, at? front (object b) = some (object base) →
      at? front (object u) = some (object update) →
      at? (front ++ [key]) (object (merge b u)) = override key (get? key base) (get? key update)) ∧
    keys (merge b u) = keys b ++ (keys u).filter (· ∉ keys b) ∧
    merge (merge b u) u = merge b u := by
  obtain ⟨hkeys, hmembers⟩ := isProper_object_iff.mp hu
  refine ⟨?_, ?_, ?_⟩
  · intro front key base update hbase hupdate
    obtain ⟨hmerged, hbase, hupdate⟩ := at?_merge hb hu hbase hupdate
    rw [at?_concat hmerged, get?_merge hbase hupdate]
  · exact keys_merge hkeys b
  · apply merge_merge hkeys
    intro m hm key old
    exact mergeValue_mergeValue (hmembers m hm) key old

/-- The list of ignored keywords grows within an object too; what is true is the same as 1. -/
theorem merge_overrides_nested :
    let b : Keyed String JsonValue :=
      [("a", .int 0), ("options", object [("indent", .int 2), (growingKey, array [.int 1, .string "x"])])]
    let u : Keyed String JsonValue :=
      [("options", object [(growingKey, array [.bool true, .string "y", .string "x", .string "y"]), ("b", .null)])]
    IsProper (object b) ∧ IsProper (object u) ∧
      at? ["options", growingKey] (object (merge b u)) = some (array [.int 1, .string "x", .string "y"]) ∧
      keys (merge b u) = ["a", "options"] ∧ merge (merge b u) u = merge b u := by
  intro b u
  have hproper : IsProper (object b) ∧ IsProper (object u) := by
    simp [b, u, keys, growingKey, JsonValue.int, JsonValue.bool, JsonValue.null, JsonValue.string, JsonValue.text,
      Literal.IsProper]
  obtain ⟨hpath, hkeys, hagain⟩ := merge_overrides hproper.1 hproper.2
  refine ⟨hproper.1, hproper.2, ?_, hkeys, hagain⟩
  exact (hpath ["options"] growingKey _ _ rfl rfl).trans rfl

end Paths

end Configuration

end ComponentDoc
