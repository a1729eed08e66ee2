import ComponentDoc.Declaration.Reading

namespace ComponentDoc

open Script

def importedName? (n : Node) : Option Node :=
  let identifiers := n.named.filter fun c => c.kind = .identifier
  match n.kind with
  | .importClause => identifiers.getLast?
  | .importSpecifier => (n.child? .otherName).or (n.child? .name)
  | .namespaceImport => identifiers.head?
  | _ => none

def readImport (s : Source) (statement : Node) : Reading (List ImportBinding) := do
  match statement.child? .source with
  | none => throw .importWithoutSource
  | some source =>
    let path := (← Reading.ofLiteral (stringValue? s source)).getD .empty
    let comment ← Reading.peekComment s statement
    return ((walk statement).filterMap importedName?).map fun n =>
      ⟨s.nameOf n, path, s.locOf n, comment⟩

def Imports.ofList (bindings : List ImportBinding) : Imports :=
  bindings.foldl (fun found b => Keyed.set b.name b found) []

def readImports (s : Source) : Reading Imports := do
  let statements := s.root.named.filter fun n => n.kind = .importStatement
  return .ofList (← Reading.gather (readImport s) statements)

end ComponentDoc
