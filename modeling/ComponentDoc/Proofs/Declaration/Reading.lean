import ComponentDoc.Declaration.Reading
import Mathlib.Data.List.Basic

/-!
A logic for readings: what they result in, and which comments they leave to be taken. A reading that yields
something does not fail.
-/

namespace ComponentDoc

open Script

namespace Reading

/-- From the comments `index` the reading goes through, and `Q` holds of its result and of the comments
it leaves. -/
def Yields {α : Type} (r : Reading α) (index : CommentIndex) (Q : α → CommentIndex → Prop) : Prop :=
  ∀ p : Progress, p.comments = index → ∃ a p', (ExceptT.run r).run p = (.ok a, p') ∧ Q a p'.comments

section Rules

variable {α β : Type} {index : CommentIndex} {Q : α → CommentIndex → Prop} {S : β → CommentIndex → Prop}

theorem yields_pure {a : α} (h : Q a index) : (pure a : Reading α).Yields index Q :=
  fun p hp => ⟨a, p, rfl, hp ▸ h⟩

theorem yields_bind {r : Reading α} {f : α → Reading β} (hr : r.Yields index Q)
    (hf : ∀ a index', Q a index' → (f a).Yields index' S) : (r >>= f).Yields index S := by
  intro p hp
  obtain ⟨a, p', hrun, ha⟩ := hr p hp
  obtain ⟨b, p'', hrun', hb⟩ := hf a p'.comments ha p' rfl
  refine ⟨b, p'', ?_, hb⟩
  rw [ExceptT.run_bind, StateT.run_bind, hrun]
  exact hrun'

theorem Yields.imp {r : Reading α} {Q' : α → CommentIndex → Prop} (h : r.Yields index Q)
    (himp : ∀ a index', Q a index' → Q' a index') : r.Yields index Q' := by
  intro p hp
  obtain ⟨a, p', hrun, ha⟩ := h p hp
  exact ⟨a, p', hrun, himp a _ ha⟩

theorem yields_note (n : Notice) : (note n).Yields index fun _ index' => index' = index :=
  fun _ hp => ⟨(), _, rfl, hp⟩

theorem yields_noteAll (ns : List Notice) : (noteAll ns).Yields index fun _ index' => index' = index := by
  induction ns with
  | nil => exact yields_pure rfl
  | cons n ns ih =>
    refine yields_bind (yields_note n) fun _ index' h => ?_
    rw [h]
    exact ih

theorem yields_ofLiteral {x : Except LiteralError α} (h : x.isOk) :
    (ofLiteral x).Yields index fun a index' => x = .ok a ∧ index' = index := by
  cases x with
  | error e => simp [Except.isOk, Except.toBool] at h
  | ok a => exact yields_pure ⟨rfl, rfl⟩

theorem yields_takeComment (s : Source) (n : Node) :
    (takeComment s n).Yields index fun c index' => (c, index') = CommentIndex.take s index n := by
  intro p hp
  subst hp
  exact ⟨_, _, rfl, rfl⟩

theorem yields_peekComment (s : Source) (n : Node) :
    (peekComment s n).Yields index fun _ index' => index' = index :=
  fun p hp => ⟨_, p, rfl, hp⟩

theorem yields_get : (get : Reading Progress).Yields index fun _ index' => index' = index :=
  fun p hp => ⟨p, p, rfl, hp⟩

theorem yields_typeOf {s : Source} {subject : CodeText} {annotated : Option String} {initial : Option Node}
    (h : (ItemType.resolve? s annotated initial).isOk) :
    (typeOf s subject annotated initial).Yields index fun _ index' => index' = index := by
  refine yields_bind (yields_noteAll _) fun _ index' hindex => ?_
  subst hindex
  refine yields_bind (yields_ofLiteral h) fun t index' ht => ?_
  obtain ⟨-, rfl⟩ := ht
  cases t with
  | some t => exact yields_pure rfl
  | none =>
    refine yields_bind (Q := fun _ index'' => index'' = index') (fun p hp => ⟨(), _, rfl, hp⟩)
      fun _ index'' h => ?_
    subst h
    refine yields_bind (yields_note _) fun _ index' h => ?_
    exact yields_pure h

end Rules

section Gathering

variable {α β γ : Type} {f : α → Reading (List β)} {l : List α} {K : CommentIndex → Prop}

theorem yields_gather_keeps (h : ∀ a ∈ l, ∀ index, K index → (f a).Yields index fun _ index' => K index')
    {index : CommentIndex} (hindex : K index) : (gather f l).Yields index fun _ index' => K index' := by
  induction l generalizing index with
  | nil => exact yields_pure hindex
  | cons a l ih =>
    refine yields_bind (h a List.mem_cons_self index hindex) fun _ index' hindex' => ?_
    refine yields_bind (ih (fun b hb => h b (List.mem_cons_of_mem _ hb)) hindex') fun _ _ hrest => ?_
    exact yields_pure hrest

/-- What the members of a list give one after another, each with the comments that those before it
leave. -/
def inTurn (give : CommentIndex → α → List γ) (next : CommentIndex → α → CommentIndex) :
    CommentIndex → List α → List γ
  | _, [] => []
  | index, a :: rest => give index a ++ inTurn give next (next index a) rest

variable {view : β → Option γ} {give : CommentIndex → α → List γ} {next : CommentIndex → α → CommentIndex}

theorem yields_gather {δ : Type} {needs : CommentIndex → α → List δ} {P : δ → Prop}
    (h : ∀ a ∈ l, ∀ index, (∀ d ∈ needs index a, P d) → (f a).Yields index fun bs index' =>
      bs.filterMap view = give index a ∧ index' = next index a)
    {index : CommentIndex} (hneeds : ∀ d ∈ inTurn needs next index l, P d) :
    (gather f l).Yields index fun bs _ => bs.filterMap view = inTurn give next index l := by
  induction l generalizing index with
  | nil => exact yields_pure rfl
  | cons a l ih =>
    obtain ⟨hfirst, hrest⟩ := List.forall_mem_append.mp hneeds
    refine yields_bind (h a List.mem_cons_self index hfirst) fun bs index' hbs => ?_
    obtain ⟨hbs, rfl⟩ := hbs
    refine yields_bind (ih (fun b hb => h b (List.mem_cons_of_mem _ hb)) hrest) fun cs index'' hcs => ?_
    exact yields_pure (by rw [List.filterMap_append, hbs, hcs, inTurn])

theorem yields_gather_same {give : α → List γ} {index : CommentIndex}
    (h : ∀ a ∈ l, (f a).Yields index fun bs index' => bs.filterMap view = give a ∧ index' = index) :
    (gather f l).Yields index fun bs index' => bs.filterMap view = l.flatMap give ∧ index' = index := by
  induction l with
  | nil => exact yields_pure ⟨rfl, rfl⟩
  | cons a l ih =>
    refine yields_bind (h a List.mem_cons_self) fun bs index' hbs => ?_
    obtain ⟨hbs, rfl⟩ := hbs
    refine yields_bind (ih fun b hb => h b (List.mem_cons_of_mem _ hb)) fun cs index'' hcs => ?_
    exact yields_pure ⟨by rw [List.filterMap_append, hbs, hcs.1, List.flatMap_cons], hcs.2⟩

end Gathering

end Reading

end ComponentDoc
