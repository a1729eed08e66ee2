import ComponentDoc.Script.Syntax

namespace ComponentDoc.Script

mutual

def Node.toPattern : Node → Node
  | ⟨.array, f, s, cs⟩ => ⟨.arrayPattern, f, s, toPatterns cs⟩
  | ⟨.object, f, s, cs⟩ => ⟨.objectPattern, f, s, toPatterns cs⟩
  | ⟨.pair, f, s, cs⟩ => ⟨.pairPattern, f, s, toPatterns cs⟩
  | ⟨.spreadElement, f, s, cs⟩ => ⟨.restPattern, f, s, toPatterns cs⟩
  | ⟨.assignmentExpression, f, s, cs⟩ => ⟨.assignmentPattern, f, s, cs⟩
  | ⟨.shorthandPropertyIdentifier, f, s, cs⟩ => ⟨.shorthandPropertyIdentifierPattern, f, s, cs⟩
  | n => n

def toPatterns : List Node → List Node
  | [] => []
  | n :: rest => n.toPattern :: toPatterns rest

end

namespace Node

def isTarget (n : Node) : Bool :=
  n.kind ∈ [.identifier, .undefinedLiteral, .memberExpression, .subscriptExpression, .array,
    .object, .parenthesizedExpression, .nonNullExpression]

def isPlainTarget (n : Node) : Bool :=
  n.kind ∈ [.identifier, .memberExpression, .subscriptExpression, .parenthesizedExpression,
    .nonNullExpression]

def hasStrayDefault (n : Node) : Bool :=
  n.kind = .object && n.children.any fun c => c.kind = .objectAssignmentPattern

end Node

end ComponentDoc.Script
