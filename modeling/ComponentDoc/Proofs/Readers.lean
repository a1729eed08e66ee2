/-!
Readers that go through a text and may fail. What a reader gives is told by what its parts give, wherever they
are in the text.
-/

namespace ComponentDoc

variable {σ α β : Type} {p q : StateT σ Option α} {P : α → Prop} {Q : β → Prop}

theorem bind_eq_some {f : α → StateT σ Option β} {c : σ} {r : β × σ} :
    (p >>= f) c = some r ↔ ∃ a c', p c = some (a, c') ∧ f a c' = some r := by
  change (p c).bind (fun r => f r.1 r.2) = some r ↔ _
  rw [Option.bind_eq_some_iff]
  exact ⟨fun ⟨r, h⟩ => ⟨r.1, r.2, h⟩, fun ⟨a, c', h⟩ => ⟨(a, c'), h⟩⟩

def Gives (p : StateT σ Option α) (P : α → Prop) : Prop := ∀ c a c', p c = some (a, c') → P a

theorem gives_elim {c c' : σ} {a : α} (h : p c = some (a, c')) (hp : Gives p P) : P a := hp c a c' h

theorem Gives.bind {f : α → StateT σ Option β} (hp : Gives p P) (hf : ∀ a, P a → Gives (f a) Q) :
    Gives (p >>= f) Q := by
  intro c b c' hb
  obtain ⟨a, c₁, ha, hb⟩ := bind_eq_some.mp hb
  exact hf a (hp c a c₁ ha) c₁ b c' hb

theorem gives_bind {f : α → StateT σ Option β} (h : ∀ a, Gives (f a) Q) : Gives (p >>= f) Q :=
  Gives.bind (P := fun _ => True) (fun _ _ _ _ => trivial) fun a _ => h a

theorem gives_pure {a : α} (h : P a) : Gives (pure a : StateT σ Option α) P := by
  intro c b c' hb
  cases hb
  exact h

theorem gives_ite {b : Prop} [Decidable b] (hp : Gives p P) (hq : Gives q P) : Gives (if b then p else q) P := by
  split <;> assumption

end ComponentDoc
