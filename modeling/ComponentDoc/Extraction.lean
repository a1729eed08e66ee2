import ComponentDoc.Declaration.OptionsObject
import ComponentDoc.Document.Regions
import ComponentDoc.Documentation.Assembly
import ComponentDoc.Documentation.Selection

namespace ComponentDoc

/-- What comes of a component: its documentation or a failure, the items whose type nothing is known
of, and notices. -/
structure Extraction where
  result : Except Failure Documentation
  unresolved : List Unresolved
  notices : List Notice

namespace Extraction

def readDeclarations (dialect : Dialect) (s : Script.Source) :
    Except Failure Declarations × List Notice :=
  let (result, p) :=
    match dialect with
    | .v2 => Reading.start (OptionsObject.read s) s
    | .v3 => Reading.start (TopLevel.read s) s
  (result, s.notice :: p.notices)

/-- What the script regions of a document declare. The module script declares nothing. -/
def declarations [Script.Reader] (dialect : Dialect) (parts : Document.Parts) :
    Except Failure Declarations × List Notice :=
  let skipped := parts.regions.moduleScript.toList.map fun r => .moduleScriptSkipped r.span.start
  let (result, notices) :=
    match parts.regions.script with
    | none => (.ok .empty, [.noScript])
    | some r =>
      match Script.parse r.content.toList r.contentStart r.lang? with
      | .error e => (.error (.malformed e), [])
      | .ok s => readDeclarations dialect s
  (result, skipped ++ notices)

def candidates [Script.Reader] (dialect : Dialect) (parts : Document.Parts) (d : Declarations) :
    Except Failure Markup.Candidates × List Notice :=
  match Markup.parse parts.markup with
  | .error e => (.error (.malformed e), [])
  | .ok nodes => Markup.candidates ⟨dialect, d.imports, d.dispatchers⟩ nodes

def assemblyNotices (o : Options) (d : Declarations) (complete : Except Failure Documentation) :
    List Notice :=
  (d.computed.filter d.readsItself).map (fun c => .selfReferenceDropped c.name) ++
    match complete with
    | .error _ => []
    | .ok doc =>
      doc.hiddenNotices o ++ (doc.select o).notice ::
        d.unresolved.map fun u => .typeUnresolved u.message

end Extraction

open Extraction in
def extract [Script.Reader] (o : Options) (source : List Char) : Extraction :=
  match Document.split source with
  | .error e => ⟨.error (.malformed e), [], []⟩
  | .ok parts =>
    match declarations o.dialect parts with
    | (.error e, notices) => ⟨.error e, [], notices⟩
    | (.ok d, notices) =>
      match candidates o.dialect parts d with
      | (.error e, more) => ⟨.error e, [], notices ++ more⟩
      | (.ok c, more) =>
        let complete := assemble o.version o.fileName d c
        let all := notices ++ more ++ assemblyNotices o d complete
        match complete with
        | .error e => ⟨.error e, [], all⟩
        | .ok doc => ⟨.ok (doc.select o), d.unresolved, all⟩

end ComponentDoc
