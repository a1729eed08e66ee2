import ComponentDoc.Keyed
import Mathlib.Data.List.Induction

namespace ComponentDoc

namespace Keyed

variable {κ α : Type} [DecidableEq κ] {key : κ} {value : α} {entries : Keyed κ α}

theorem mem_of_get? (h : get? key entries = some value) : (key, value) ∈ entries := by
  obtain ⟨e, he, rfl⟩ := Option.map_eq_some_iff.mp h
  obtain rfl : e.1 = key := by simpa using List.find?_some he
  exact List.mem_of_find?_eq_some he

theorem get?_of_mem (hkeys : (keys entries).Nodup) (h : (key, value) ∈ entries) : get? key entries = some value := by
  induction entries with
  | nil => cases h
  | cons e rest ih =>
    obtain ⟨hfresh, hrest⟩ := List.nodup_cons.mp hkeys
    rw [get?_cons]
    rcases List.mem_cons.mp h with rfl | h
    · exact if_pos rfl
    · have hne : e.1 ≠ key := by
        rintro rfl
        exact hfresh (List.mem_map.mpr ⟨_, h, rfl⟩)
      rw [if_neg hne, ih hrest h]

theorem get?_eq_none_iff : get? key entries = none ↔ key ∉ keys entries := by
  induction entries with
  | nil => simp [get?, keys]
  | cons e rest ih =>
    rw [get?_cons, keys, List.map_cons, List.mem_cons, not_or]
    by_cases h : e.1 = key
    · simp [h]
    · rw [if_neg h, ih]
      exact (and_iff_right (Ne.symm h)).symm

theorem mem_set {e : κ × α} (h : e ∈ set key value entries) : e = (key, value) ∨ e ∈ entries := by
  induction entries with
  | nil => exact .inl (List.mem_singleton.mp h)
  | cons e' entries ih =>
    rw [set] at h
    split at h
    · exact (List.mem_cons.mp h).imp_right (List.mem_cons_of_mem _)
    · rcases List.mem_cons.mp h with rfl | h
      · exact .inr List.mem_cons_self
      · exact (ih h).imp_right (List.mem_cons_of_mem _)

theorem set_of_fresh (h : key ∉ keys entries) : set key value entries = entries ++ [(key, value)] := by
  induction entries with
  | nil => rfl
  | cons e rest ih =>
    rw [keys, List.map_cons, List.mem_cons, not_or] at h
    rw [set, if_neg (Ne.symm h.1), ih h.2, List.cons_append]

theorem setDefault_of_mem (h : key ∈ keys entries) : setDefault key value entries = entries := by
  rw [setDefault, if_pos]
  exact Option.isSome_iff_ne_none.mpr fun hnone => get?_eq_none_iff.mp hnone h

theorem setDefault_of_fresh (h : key ∉ keys entries) :
    setDefault key value entries = entries ++ [(key, value)] := by
  rw [setDefault, get?_eq_none_iff.mpr h, if_neg (by simp), set_of_fresh h]

theorem set_eq_self (h : get? key entries = some value) : set key value entries = entries := by
  induction entries with
  | nil => cases h
  | cons e rest ih =>
    rw [get?_cons] at h
    rw [set]
    by_cases he : e.1 = key
    · rw [if_pos he] at h ⊢
      cases h
      rw [← he]
    · rw [if_neg he] at h ⊢
      rw [ih h]

theorem nodup_keys_set (h : (keys entries).Nodup) : (keys (set key value entries)).Nodup := by
  rw [keys_set]
  split
  · exact h
  · next hfresh => exact List.nodup_append.mpr ⟨h, by simp, by grind⟩

theorem nodup_keys_foldl_set (more : List (κ × α)) (h : (keys entries).Nodup) :
    (keys (more.foldl (fun found e => set e.1 e.2 found) entries)).Nodup := by
  induction more generalizing entries with
  | nil => exact h
  | cons e more ih => exact ih (nodup_keys_set h)

theorem get?_foldl_set (entries : List (κ × α)) (key : κ) :
    get? key (entries.foldl (fun found e => set e.1 e.2 found) []) =
      (entries.reverse.find? fun e => e.1 = key).map Prod.snd := by
  induction entries using List.reverseRecOn with
  | nil => rfl
  | append_singleton entries e ih =>
    rw [List.foldl_append, List.foldl_cons, List.foldl_nil, List.reverse_append, List.reverse_singleton,
      List.singleton_append, List.find?_cons]
    by_cases hkey : e.1 = key
    · rw [hkey, get?_set_self, decide_eq_true rfl, Option.map_some]
    · rw [get?_set_of_ne _ _ (Ne.symm hkey), ih, decide_eq_false hkey]

end Keyed

end ComponentDoc
