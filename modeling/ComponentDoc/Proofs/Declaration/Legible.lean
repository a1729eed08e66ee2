import ComponentDoc.Proofs.Declaration.Outline
import ComponentDoc.Proofs.ItemType.Resolution

namespace ComponentDoc

open Script

structure TypeSource where
  annotated : Option String
  initial : Option Node

namespace TypeSource

def IsReadable (s : Source) (t : TypeSource) : Prop := (ItemType.resolve? s t.annotated t.initial).isOk

instance (s : Source) (t : TypeSource) : Decidable (t.IsReadable s) :=
  inferInstanceAs (Decidable ((ItemType.resolve? s t.annotated t.initial).isOk = true))

def ofParameter (s : Source) (docs : List ParamDoc) (n : Node) : TypeSource where
  annotated :=
    ((docs.find? fun d => d.name = s.textOf (((Parameter.ofNode n).binding).getD n)).bind (·.typeText)).or
      (if (Parameter.ofNode n).typed then (n.child? .declared).map s.textOf else none)
  initial := (Parameter.ofNode n).initial

def ofFunction (s : Source) (comment : Option Comment) (fn : Node) : List TypeSource :=
  fn.params.map (ofParameter s (comment.elim [] Comment.params))

def ofProperty (s : Source) (comment : Option Comment) (declarator pattern : Node) : TypeSource where
  annotated := (comment.bind Comment.typeText?).or ((declarator.child? .declared).map s.textOf)
  initial := if pattern.kind = .identifier then declarator.child? .value else none

end TypeSource

namespace TopLevel

section Types

variable (s : Source) (comment : Option Comment)

def declaratorTypes (constant : Bool) (d : Node) : List TypeSource :=
  match if constant then functionValue? d else none with
  | some fn => TypeSource.ofFunction s comment fn
  | none => (d.part .name).flatMap fun pattern => pattern.bound.map fun _ =>
      TypeSource.ofProperty s comment d pattern

def variablesTypes (exported : Bool) (declaration : Node) : List TypeSource :=
  if isConstant declaration && !exported then []
  else (declaration.children.filter fun d => d.kind = .variableDeclarator).flatMap
    (declaratorTypes s comment (isConstant declaration))

def exportedTypes (declaration : Node) : List TypeSource :=
  match declaration.kind with
  | .functionDeclaration | .generatorFunctionDeclaration => TypeSource.ofFunction s comment declaration
  | .lexicalDeclaration | .variableDeclaration => variablesTypes s comment true declaration
  | _ => []

def statementTypes (statement : Node) : List TypeSource :=
  match statement.kind with
  | .lexicalDeclaration | .variableDeclaration => variablesTypes s comment false statement
  | .exportStatement => (exportedDeclaration? statement).elim [] (exportedTypes s comment)
  | _ => []

end Types

def typeSources (s : Source) : List TypeSource :=
  Reading.inTurn (fun index statement => statementTypes s (ownComment s index statement).1 statement)
    (fun index statement => (ownComment s index statement).2) (CommentIndex.ofSource s) s.root.named

end TopLevel

/-- A script whose imports have a source, and in which the types that it gives its items and the names of
the events that it dispatches can be read. -/
structure Script.Source.IsLegible (s : Source) : Prop where
  imports : ∀ n ∈ s.root.named, n.kind = .importStatement →
    (n.child? .source).any fun m => (stringValue? s m).isOk
  types : ∀ t ∈ TopLevel.typeSources s, t.IsReadable s
  events : ∀ call ∈ TopLevel.dispatches s (TopLevel.dispatchers s), (s.stringArgument? call.1).isOk

instance (s : Source) : Decidable s.IsLegible :=
  decidable_of_iff ((∀ n ∈ s.root.named, n.kind = .importStatement →
      (n.child? .source).any fun m => (stringValue? s m).isOk) ∧
    (∀ t ∈ TopLevel.typeSources s, t.IsReadable s) ∧
    ∀ call ∈ TopLevel.dispatches s (TopLevel.dispatchers s), (s.stringArgument? call.1).isOk)
  ⟨fun h => ⟨h.1, h.2.1, h.2.2⟩, fun h => ⟨h.imports, h.types, h.events⟩⟩

section Readings

open Reading

variable {s : Source} {index : CommentIndex}

theorem yields_readArgument {docs : List ParamDoc} {n : Node} (h : (TypeSource.ofParameter s docs n).IsReadable s)
    (owner : CodeText) (last : Bool) :
    (readArgument s owner docs n last).Yields index fun _ index' => index' = index := by
  refine yields_bind (yields_typeOf h) fun _ index' hindex => ?_
  subst hindex
  dsimp only
  split
  · refine yields_bind (yields_note _) fun _ index'' hindex => ?_
    exact yields_pure hindex
  · exact yields_pure rfl

theorem yields_readArgumentsFrom {docs : List ParamDoc} {ns : List Node}
    (h : ∀ n ∈ ns, (TypeSource.ofParameter s docs n).IsReadable s) (owner : CodeText) :
    (readArgumentsFrom s owner docs ns).Yields index fun _ index' => index' = index := by
  induction ns with
  | nil => exact yields_pure rfl
  | cons n ns ih =>
    obtain ⟨hn, hns⟩ := List.forall_mem_cons.mp h
    refine yields_bind (yields_readArgument hn owner _) fun _ index' hindex => ?_
    subst hindex
    refine yields_bind (ih hns) fun _ index'' hrest => ?_
    exact yields_pure hrest

theorem yields_readArguments {comment : Option Comment} {fn : Node}
    (h : ∀ t ∈ TypeSource.ofFunction s comment fn, t.IsReadable s) (owner : CodeText) :
    (readArguments s owner fn comment).Yields index fun _ index' => index' = index :=
  yields_readArgumentsFrom (List.forall_mem_map.mp h) owner

theorem yields_readImports (h : s.IsLegible) :
    (readImports s).Yields index fun _ index' => index' = index := by
  refine yields_bind (yields_gather_keeps (K := (· = index)) (fun n hn index' hindex => ?_) rfl)
    fun _ index' hindex => yields_pure hindex
  subst hindex
  obtain ⟨hn, hkind⟩ := List.mem_filter.mp hn
  obtain ⟨source, hsource, hread⟩ := (Option.any_eq_true _ _).mp (h.imports n hn (by simpa using hkind))
  unfold readImport
  rw [hsource]
  refine yields_bind (yields_ofLiteral hread) fun _ index' hpath => ?_
  obtain ⟨-, rfl⟩ := hpath
  refine yields_bind (yields_peekComment s n) fun _ index'' hindex => ?_
  exact yields_pure hindex

end Readings

end ComponentDoc
