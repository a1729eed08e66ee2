import ComponentDoc.Declaration.Param
import ComponentDoc.Declaration.Reading
import ComponentDoc.Script.Function

namespace ComponentDoc

open Script

def flag (b : Bool) : Option Bool := if b then some true else none

/-- The argument that a parameter of the function `owner` is; `last` tells that no other follows. -/
def readArgument (s : Source) (owner : CodeText) (docs : List ParamDoc) (n : Node) (last : Bool) :
    Reading Argument := do
  let p := Parameter.ofNode n
  let name := s.textOf (p.binding.getD n)
  let doc := docs.find? fun d => d.name = name
  let written := if p.typed then (n.child? .declared).map s.textOf else none
  let type ← Reading.typeOf s (("parameter '" ++ name ++ "' of " : CodeText) ++ owner)
    ((doc.bind (·.typeText)).or written) p.initial
  let repeats := doc.any (·.repeated)
  if repeats && !last then Reading.note (.repetitionIgnored name)
  return {
    name := name
    type := type
    repeated := flag (p.rest || (repeats && last))
    optional := flag (p.optional || doc.any (·.optional))
    default := (p.initial.map s.textOf).or (doc.bind (·.default))
    description := doc.bind (·.description) }

def readArgumentsFrom (s : Source) (owner : CodeText) (docs : List ParamDoc) :
    List Node → Reading (List Argument)
  | [] => return []
  | n :: rest =>
    return (← readArgument s owner docs n rest.isEmpty) :: (← readArgumentsFrom s owner docs rest)

def readArguments (s : Source) (owner : CodeText) (fn : Node) (comment : Option Comment) :
    Reading (List Argument) :=
  readArgumentsFrom s owner (comment.elim [] Comment.params) fn.params

end ComponentDoc
