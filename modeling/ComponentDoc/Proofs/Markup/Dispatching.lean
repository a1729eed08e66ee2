import ComponentDoc.Proofs.Markup.Handlers
import ComponentDoc.Proofs.Outcome
import ComponentDoc.Script.Parse

/-!
Handlers that are not looked at. Main statement: a handler in which the name of no dispatcher stands calls none, so
the events of a handler are those of all calls of dispatchers in it, as if every handler were looked at.
-/

namespace ComponentDoc

theorem Text.contains_of_infix {needle s : List Char} (h : needle <:+: s) : contains needle s := by
  obtain ⟨front, back, rfl⟩ := h
  exact Option.isSome_iff_exists.mpr (exists_indexOf? front needle back)

namespace Script

/-- Characters that identifiers are spelled with: those of names, and those of escapes in names. -/
def isIdentifierChar (c : Char) : Bool := isNamePart c || c ∈ ['\\', '{', '}']

def IsIdentifier (name : CodeText) : Prop :=
  ∃ chars, name = .ofChars chars ∧ chars ≠ [] ∧ ∀ c ∈ chars, isIdentifierChar c

theorem chars_infix (s : Source) (n : Node) : s.chars n <:+: s.text :=
  (List.take_prefix _ _).isInfix.trans (List.drop_suffix _ _).isInfix

theorem infix_of_wrapped {name text : List Char} (hne : name ≠ []) (hname : ∀ c ∈ name, isIdentifierChar c)
    (h : name <:+: '(' :: text ++ ['\n', ')']) : name <:+: text := by
  have hnot {c : Char} (hc : isIdentifierChar c = false) : c ∉ name := Text.not_mem_of_forall hname hc
  have hempty : ¬name <:+: [] := by
    intro h
    exact hne (List.eq_nil_of_infix_nil h)
  have hopen : name <:+: [] ++ '(' :: (text ++ ['\n', ')']) := h
  rcases Text.infix_append_cons hopen (hnot (by decide)) with h | h
  · exact absurd h hempty
  rcases Text.infix_append_cons h (hnot (by decide)) with h | h
  · exact h
  have hclose : name <:+: [] ++ ')' :: [] := h
  rcases Text.infix_append_cons hclose (hnot (by decide)) with h | h
  · exact absurd h hempty
  · exact absurd h hempty

theorem contains_of_isIdentifier [Reader] {text : List Char} {offset : Int} {lang : Option String} {s : Source}
    {e n : Node}
    (h : parseExpression text offset lang = .ok (s, e)) (hn : IsIdentifier (s.nameOf n)) :
    Text.contains (s.nameOf n).chars text := by
  obtain ⟨chars, hchars, hne, hidentifier⟩ := hn
  obtain rfl : s.chars n = chars := CodeText.ofChars_injective hchars
  have htext := (Source.knowsWidth_of_parse (parseExpression_eq_ok h).1).2.1
  rw [Source.nameOf, CodeText.chars_ofChars]
  exact Text.contains_of_infix (infix_of_wrapped hne hidentifier (htext ▸ chars_infix s n))

end Script

open Script

namespace Markup

variable {ctx : Context} {s : Source} {comment : Option Comment}

/-- What is called dispatches events: a dispatcher, or in dialect 2 `fire` or a member of that name. -/
inductive Context.IsDispatcher (ctx : Context) (s : Source) (callee : Script.Node) : Prop
  | named (hdialect : ctx.dialect = .v3) (hname : s.nameOf callee ∈ ctx.dispatchers)
  | fire (hdialect : ctx.dialect = .v2) (hkind : callee.kind ≠ .memberExpression) (hname : s.nameOf callee = fireMethod)
  | member (hdialect : ctx.dialect = .v2) (hkind : callee.kind = .memberExpression)
      (hname : ∃ own ∈ callee.child? .property, s.nameOf own = fireMethod)

theorem dispatches_iff {callee : Script.Node} : ctx.dispatches s callee ↔ ctx.IsDispatcher s callee := by
  unfold Context.dispatches
  constructor
  · intro h
    split at h
    · next hdialect => exact .named hdialect (of_decide_eq_true h)
    · next hdialect =>
      split at h
      · next hkind =>
        apply Context.IsDispatcher.member hdialect hkind
        simpa [Option.any_eq_true] using h
      · next hkind => exact .fire hdialect hkind (of_decide_eq_true h)
  · intro h
    cases h with
    | named hdialect hname => simpa [hdialect] using hname
    | fire hdialect hkind hname => simpa [hdialect, hkind] using hname
    | member hdialect hkind hname => simpa [hdialect, hkind, Option.any_eq_true] using hname

instance (callee : Script.Node) : Decidable (ctx.IsDispatcher s callee) := decidable_of_iff _ dispatches_iff

theorem Context.IsDispatcher.exists_name {callee : Script.Node} (h : ctx.IsDispatcher s callee) :
    ∃ n, s.nameOf n ∈ ctx.dispatchNames := by
  cases h with
  | named hdialect hname => exact ⟨callee, by rwa [dispatchNames, hdialect]⟩
  | fire hdialect _ hname => exact ⟨callee, by simp [dispatchNames, hdialect, hname]⟩
  | member hdialect _ hname =>
    obtain ⟨own, -, hname⟩ := hname
    exact ⟨own, by simp [dispatchNames, hdialect, hname]⟩

theorem isIdentifier_of_mem_dispatchNames (hnames : ∀ name ∈ ctx.dispatchers, IsIdentifier name) {name : CodeText}
    (h : name ∈ ctx.dispatchNames) : IsIdentifier name := by
  unfold Context.dispatchNames at h
  split at h
  · exact hnames name h
  · obtain rfl := List.mem_singleton.mp h
    exact ⟨['f', 'i', 'r', 'e'], rfl, List.cons_ne_nil _ _, List.all_eq_true.mp rfl⟩

def Context.dispatching (ctx : Context) (s : Source) (e : Script.Node) : List Script.Node :=
  e.preorder.filter fun n => n.kind = .callExpression ∧ ∃ callee ∈ n.child? .callee, ctx.IsDispatcher s callee

theorem calls_eq_dispatching (e : Script.Node) : ctx.calls s e = ctx.dispatching s e := by
  rw [Context.calls, walk_eq_preorder, Context.dispatching]
  apply List.filter_congr
  intro n _
  rw [Bool.eq_iff_iff]
  simp [Option.any_eq_true, dispatches_iff]

theorem dispatching_eq_nil [Reader] (hnames : ∀ name ∈ ctx.dispatchers, IsIdentifier name) {text : List Char}
    {offset : Int}
    {lang : Option String} {e : Script.Node} (hparse : parseExpression text offset lang = .ok (s, e))
    (hnone : ¬ctx.dispatchNames.any fun n => Text.contains n.chars text) : ctx.dispatching s e = [] := by
  rw [Context.dispatching, List.filter_eq_nil_iff]
  intro n _ hn
  obtain ⟨-, callee, -, hcallee⟩ := of_decide_eq_true hn
  obtain ⟨m, hm⟩ := hcallee.exists_name
  have hstands := contains_of_isIdentifier hparse (isIdentifier_of_mem_dispatchNames hnames hm)
  apply hnone
  exact List.any_eq_true.mpr ⟨_, hm, hstands⟩

def eventsOfCalls (s : Source) (calls : List Script.Node) : Except Failure (List (CodeText × Option Span)) := do
  let strings ← (calls.mapM s.stringArgument?).mapError .literal
  return strings.reduceOption.map fun (name, n) => (name, some (s.locOf n))

/-- The events that a handler dispatches, looked at in any case. -/
def Context.dispatched [Reader] (ctx : Context) (handler : String) (offset : Nat) :
    Except Failure (List (CodeText × Option Span)) := do
  let (s, e) ← parseExpression handler.toList offset none
  eventsOfCalls s (ctx.dispatching s e)

/-- What findings come to: the events with their places, or the failure at which reading stops. -/
def eventsOf (findings : List Finding) : Except Failure (List (CodeText × Option Span)) :=
  match findings.findSome? Finding.failure? with
  | some f => .error f
  | none => .ok ((findings.filterMap Finding.event?).map fun x => (x.name, x.loc))

theorem eventsOf_notice (notice : Notice) (findings : List Finding) :
    eventsOf (.notice notice :: findings) = eventsOf findings := rfl

theorem eventsOf_event (x : Item Attachment) (findings : List Finding) :
    eventsOf (.event x :: findings) = (eventsOf findings).map ((x.name, x.loc) :: ·) := by
  have hfailure : (Finding.event x :: findings).findSome? Finding.failure? = findings.findSome? Finding.failure? := rfl
  rw [eventsOf, eventsOf, hfailure]
  cases findings.findSome? Finding.failure? <;> rfl

theorem eventsOf_calls (calls : List Script.Node) :
    eventsOf (calls.flatMap (callFindings s comment)) = eventsOfCalls s calls := by
  induction calls with
  | nil => rfl
  | cons call calls ih =>
    rw [List.flatMap_cons, callFindings, eventsOfCalls, List.mapM_cons]
    cases s.stringArgument? call with
    | error e => rfl
    | ok argument =>
      cases argument with
      | none =>
        rw [List.singleton_append, eventsOf_notice, ih, eventsOfCalls]
        cases calls.mapM s.stringArgument? <;> rfl
      | some argument =>
        rw [List.singleton_append, eventsOf_event, Item.name_ofComment, Item.loc_ofComment, ih, eventsOfCalls]
        cases calls.mapM s.stringArgument? <;> rfl

/-- That a handler is looked at only if a name stands in it makes no difference to its events. -/
theorem handlerFindings_dispatched [Reader] (hnames : ∀ name ∈ ctx.dispatchers, IsIdentifier name) {handler : String}
    {offset : Nat} (hparse : (parseExpression handler.toList offset none).isOk) (comment : Option Comment) :
    eventsOf (ctx.handlerFindings comment handler offset) = ctx.dispatched handler offset := by
  unfold Context.handlerFindings Context.dispatched
  cases hread : parseExpression handler.toList offset none with
  | error e => simp [hread, Except.isOk, Except.toBool] at hparse
  | ok read =>
    obtain ⟨s, e⟩ := read
    change _ = eventsOfCalls s (ctx.dispatching s e)
    split
    · rw [eventsOf_notice, eventsOf_calls, calls_eq_dispatching]
    · next hnone =>
      rw [dispatching_eq_nil hnames hread hnone]
      rfl

theorem handlerFindings_dispatched_nested :
    let handler := "ü => (dispatch(`a`), go(dispatch('b', ü)), other('c'))"
    let ctx : Context := ⟨.v3, [], ["dispatch"]⟩
    (∀ name ∈ ctx.dispatchers, IsIdentifier name) ∧ (parseExpression handler.toList 18 none).isOk ∧
      (ctx.dispatched handler 18).toOption = some [(("a" : CodeText), some ⟨33, 36⟩), ("b", some ⟨51, 54⟩)] ∧
      eventsOf (ctx.handlerFindings none handler 18) = ctx.dispatched handler 18 := by
  intro handler ctx
  have hnames : ∀ name ∈ ctx.dispatchers, IsIdentifier name :=
    List.forall_mem_singleton.mpr ⟨"dispatch".toList, rfl, List.cons_ne_nil _ _, List.all_eq_true.mp rfl⟩
  have hparse : (parseExpression handler.toList 18 none).isOk := by decide +kernel
  exact ⟨hnames, hparse, by decide +kernel, handlerFindings_dispatched hnames hparse none⟩

end Markup

end ComponentDoc
