import ComponentDoc.Proofs.Keyed
import ComponentDoc.Proofs.Readers
import ComponentDoc.Yaml.Reading

namespace ComponentDoc

open Keyed

/-- In all objects in the value each key stands once. -/
inductive JsonValue.HasDistinctKeys : JsonValue → Prop
  | scalar (v : Literal) : HasDistinctKeys (.scalar v)
  | array {items : List JsonValue} : (∀ v ∈ items, HasDistinctKeys v) → HasDistinctKeys (.array items)
  | object {members : Keyed String JsonValue} : (keys members).Nodup → (∀ m ∈ members, HasDistinctKeys m.2) →
      HasDistinctKeys (.object members)

namespace Yaml

open JsonValue Reader

def DistinctMembers (ms : Keyed String JsonValue) : Prop := (keys ms).Nodup ∧ ∀ m ∈ ms, m.2.HasDistinctKeys

variable {v : JsonValue} {k : String} {found : Keyed String JsonValue}

theorem distinctMembers_nil : DistinctMembers [] := ⟨List.nodup_nil, List.forall_mem_nil _⟩

theorem DistinctMembers.set (h : DistinctMembers found) (hv : v.HasDistinctKeys) :
    DistinctMembers (Keyed.set k v found) := by
  refine ⟨nodup_keys_set h.1, fun m hm => ?_⟩
  rcases mem_set hm with rfl | hm
  · exact hv
  · exact h.2 m hm

theorem DistinctMembers.object (h : DistinctMembers found) : HasDistinctKeys (.object found) := .object h.1 h.2

section Readers

variable {α : Type} {P : α → Prop}

theorem gives_fail : Gives (fail : Reader α) P := nofun

theorem gives_fail_bind {β : Type} {f : α → Reader β} {Q : β → Prop} : Gives (fail >>= f) Q := nofun

end Readers

theorem hasDistinctKeys_plainValue (text : List Char) : (plainValue text).HasDistinctKeys := by
  unfold plainValue
  dsimp only
  repeat' split
  all_goals exact .scalar _

theorem gives_null : Gives (pure .null : Reader JsonValue) HasDistinctKeys := gives_pure (.scalar .null)

theorem gives_plain {flow : Bool} {indent : Int} : Gives (plain flow indent) HasDistinctKeys := by
  unfold plain
  refine gives_bind fun c => ?_
  split
  · refine gives_ite ?_ gives_fail_bind
    exact gives_bind fun _ => gives_pure (hasDistinctKeys_plainValue _)
  · exact gives_fail

theorem gives_quoted {quote : Char} : Gives (quoted quote) HasDistinctKeys :=
  gives_bind fun _ => gives_bind fun _ => gives_bind fun _ => gives_pure (.scalar _)

theorem gives_blockScalar {indent : Int} : Gives (blockScalar indent) HasDistinctKeys := by
  have htext {b : Bool} {lines : Reader (List Char)} {f : List Char → CodeText} {kept : CodeText} :
      Gives (if b then do return .text (f (← lines)) else return .text kept) HasDistinctKeys :=
    gives_ite (gives_bind fun _ => gives_pure (.scalar _)) (gives_pure (.scalar _))
  unfold blockScalar
  dsimp only
  refine gives_bind fun _ => gives_bind fun _ => gives_bind fun _ => gives_bind fun _ => gives_bind fun _ =>
    gives_bind fun _ => gives_ite (gives_bind fun _ => gives_bind fun _ => ?_) gives_fail_bind
  -- The column is given in the header or found in the lines.
  split
  all_goals exact gives_bind fun _ => gives_bind fun _ => gives_bind fun _ => htext

section Flow

variable {indent : Int} {n : Nat}

structure FlowDistinct (n : Nat) : Prop where
  node : ∀ indent, Gives (flowNode indent n) HasDistinctKeys
  value : ∀ indent, Gives (flowValue indent n) HasDistinctKeys
  items : ∀ indent, Gives (flowItems indent n) fun items => ∀ v ∈ items, v.HasDistinctKeys
  members : ∀ indent found, DistinctMembers found → Gives (flowMembers indent found n) DistinctMembers

theorem FlowDistinct.node_succ (h : FlowDistinct n) : Gives (flowNode indent (n + 1)) HasDistinctKeys := by
  unfold flowNode
  refine gives_bind fun _ => ?_
  split
  · exact gives_bind fun _ => (h.items indent).bind fun items hitems => gives_pure (.array hitems)
  · exact gives_bind fun _ => (h.members indent [] distinctMembers_nil).bind fun ms hms => gives_pure hms.object
  · exact gives_quoted
  · exact gives_quoted
  · exact gives_plain

theorem FlowDistinct.value_succ (h : FlowDistinct n) : Gives (flowValue indent (n + 1)) HasDistinctKeys := by
  unfold flowValue
  refine gives_bind fun _ => gives_bind fun _ => gives_bind fun _ => ?_
  split
  · exact gives_null
  · exact gives_null
  · exact gives_null
  · exact h.node indent

theorem FlowDistinct.items_succ (h : FlowDistinct n) :
    Gives (flowItems indent (n + 1)) fun items => ∀ v ∈ items, v.HasDistinctKeys := by
  have hpair {k : String} {v : JsonValue} (hv : v.HasDistinctKeys) : HasDistinctKeys (.object [(k, v)]) :=
    (distinctMembers_nil.set hv).object
  unfold flowItems
  refine gives_bind fun _ => gives_bind fun _ => gives_ite ?_ ?_
  · exact gives_bind fun _ => gives_pure (List.forall_mem_nil _)
  refine (h.node indent).bind fun first hfirst => gives_bind fun _ => gives_bind fun _ => gives_ite
    (gives_bind fun k => (h.value indent).bind fun v hv => (gives_pure (hpair hv)).bind fun item hitem => ?_)
    ((gives_pure hfirst).bind fun item hitem => ?_)
  -- What follows an item is the same for both kinds.
  all_goals
    refine gives_bind fun _ => gives_bind fun _ => ?_
    split
    · refine gives_bind fun _ => (h.items indent).bind fun items hitems => ?_
      exact gives_pure (List.forall_mem_cons.mpr ⟨hitem, hitems⟩)
    · exact gives_bind fun _ => gives_pure (List.forall_mem_singleton.mpr hitem)
    · exact gives_fail

theorem FlowDistinct.members_succ (h : FlowDistinct n) (hfound : DistinctMembers found) :
    Gives (flowMembers indent found (n + 1)) DistinctMembers := by
  unfold flowMembers
  refine gives_bind fun _ => gives_bind fun _ => gives_ite ?_ ?_
  · exact gives_bind fun _ => gives_pure hfound
  refine gives_bind fun _ => gives_bind fun k => gives_bind fun _ => gives_bind fun _ => gives_ite
    ((h.value indent).bind fun v hv => ?_) (gives_null.bind fun v hv => ?_)
  -- What follows a member is the same with and without a value.
  all_goals
    refine gives_bind fun _ => gives_bind fun _ => ?_
    split
    · exact gives_bind fun _ => h.members indent _ (hfound.set hv)
    · exact gives_bind fun _ => gives_pure (hfound.set hv)
    · exact gives_fail

theorem flowDistinct (n : Nat) : FlowDistinct n := by
  induction n with
  | zero => exact ⟨nofun, nofun, nofun, fun _ _ _ => nofun⟩
  | succ n ih =>
    exact ⟨fun _ => ih.node_succ, fun _ => ih.value_succ, fun _ => ih.items_succ, fun _ _ => ih.members_succ⟩

end Flow

section Block

variable {indent : Int} {n : Nat}

theorem gives_atom : Gives (atom indent) fun r => r.1.HasDistinctKeys := by
  have hline {c : Cursor} {v : JsonValue} (hv : v.HasDistinctKeys) :
      Gives (do return (v, (← get).line = c.line) : Reader (JsonValue × Bool)) fun r => r.1.HasDistinctKeys :=
    gives_bind fun _ => gives_pure hv
  unfold atom
  refine gives_bind fun c => ?_
  split
  · exact ((flowDistinct _).node indent).bind fun _ => hline
  · exact ((flowDistinct _).node indent).bind fun _ => hline
  · exact gives_quoted.bind fun _ => hline
  · exact gives_quoted.bind fun _ => hline
  · exact gives_plain.bind fun _ => hline

structure BlockDistinct (n : Nat) : Prop where
  node : ∀ indent fresh, Gives (blockNode indent fresh n) HasDistinctKeys
  items : ∀ indent, Gives (blockItems indent n) fun items => ∀ v ∈ items, v.HasDistinctKeys
  members : ∀ indent k found, DistinctMembers found → Gives (blockMembers indent k found n) DistinctMembers

theorem BlockDistinct.node_succ {fresh : Bool} (h : BlockDistinct n) :
    Gives (blockNode indent fresh (n + 1)) HasDistinctKeys := by
  unfold blockNode
  refine gives_bind fun c => gives_ite (gives_ite ?_ gives_fail_bind) ?_
  · exact (h.items c.column).bind fun items hitems => gives_pure (.array hitems)
  split
  · exact gives_blockScalar
  · exact gives_blockScalar
  refine gives_atom.bind fun r hr => gives_bind fun _ => gives_bind fun _ => gives_bind fun _ => gives_ite ?_ ?_
  · refine gives_ite (gives_bind fun k => ?_) gives_fail_bind
    exact (h.members c.column k [] distinctMembers_nil).bind fun ms hms => gives_pure hms.object
  · exact gives_bind fun _ => gives_pure hr

theorem BlockDistinct.items_succ {indent : Nat} (h : BlockDistinct n) :
    Gives (blockItems indent (n + 1)) fun items => ∀ v ∈ items, v.HasDistinctKeys := by
  unfold blockItems
  refine gives_bind fun _ => gives_bind fun _ => gives_bind fun _ => gives_ite
    (gives_null.bind fun item hitem => ?_) ((h.node indent true).bind fun item hitem => ?_)
  all_goals
    have hlast := List.forall_mem_singleton.mpr hitem
    refine gives_bind fun _ => gives_bind fun _ => gives_ite (gives_pure hlast) (gives_ite gives_fail_bind ?_)
    refine gives_ite ((h.items indent).bind fun items hitems => ?_) (gives_pure hlast)
    exact gives_pure (List.forall_mem_cons.mpr ⟨hitem, hitems⟩)

theorem BlockDistinct.members_succ {indent : Nat} (h : BlockDistinct n) (hfound : DistinctMembers found) :
    Gives (blockMembers indent k found (n + 1)) DistinctMembers := by
  unfold blockMembers
  refine gives_bind fun _ => gives_bind fun anew => gives_bind fun _ => gives_ite (gives_null.bind fun v hv => ?_)
    (gives_ite ((h.node indent anew).bind fun v hv => ?_) (gives_ite
      ((h.items indent).bind fun items hitems => (gives_pure (HasDistinctKeys.array hitems)).bind fun v hv => ?_)
      (gives_null.bind fun v hv => ?_)))
  -- In all four cases the value is added to the members found.
  all_goals
    have hset := hfound.set (k := k) hv
    refine gives_bind fun _ => gives_bind fun _ => gives_ite (gives_pure hset) (gives_ite gives_fail_bind ?_)
    exact gives_bind fun k => h.members indent k _ hset

theorem blockDistinct (n : Nat) : BlockDistinct n := by
  induction n with
  | zero => exact ⟨nofun, nofun, fun _ _ _ _ => nofun⟩
  | succ n ih => exact ⟨fun _ _ => ih.node_succ, fun _ => ih.items_succ, fun _ _ _ => ih.members_succ⟩

theorem gives_document : Gives document HasDistinctKeys := by
  have hend {v : JsonValue} (hv : v.HasDistinctKeys) : Gives (do
      unless (← get).rest.isEmpty do fail
      return v : Reader JsonValue) HasDistinctKeys :=
    gives_bind fun _ => gives_ite (gives_pure hv) gives_fail_bind
  unfold document
  refine gives_bind fun _ => gives_bind fun _ => gives_bind fun _ => gives_ite
    (gives_bind fun _ => gives_bind fun _ => gives_bind fun _ => ?_) (gives_bind fun _ => gives_bind fun _ => ?_)
  -- The document is the same behind a mark and without one.
  all_goals
    refine gives_ite (gives_null.bind fun v hv => ?_)
      (((blockDistinct _).node _ _).bind fun v hv => ?_)
    all_goals
      refine gives_bind fun _ => gives_bind fun _ => gives_ite ?_ (hend hv)
      exact gives_bind fun _ => gives_bind fun _ => hend hv

end Block

theorem read_hasDistinctKeys {text : List Char} (h : read text = some v) : v.HasDistinctKeys := by
  unfold read at h
  rw [Option.ite_none_right_eq_some] at h
  obtain ⟨⟨w, c⟩, hrun, rfl⟩ := Option.map_eq_some_iff.mp h.2
  exact gives_elim hrun gives_document

end Yaml

end ComponentDoc
