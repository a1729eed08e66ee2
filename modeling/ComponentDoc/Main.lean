import ComponentDoc.CommandLine.Command
import ComponentDoc.Configuration.Yaml
import ComponentDoc.Script.Parse

namespace ComponentDoc

def readText? (path : String) : IO (Option String) := do
  try
    return some (← IO.FS.readFile path)
  catch _ => return none

def writeText (path text : String) : IO Unit := do
  let directories := (path.splitOn "/").dropLast
  unless directories.isEmpty do IO.FS.createDirAll ("/".intercalate directories)
  IO.FS.writeFile path text

def usage : String :=
  "usage: sveltedoc [--help] [--config CONFIG] [--dialect 2|3] [--include-locations] " ++
    "[--ignore-private] [--out OUT] [--verbose] file"

def shown (t : CodeText) : String := String.ofList t.chars

def Outcome.perform (o : Outcome) : IO UInt32 := do
  IO.eprint (shown o.errors)
  IO.print (shown o.output)
  match o.written with
  | some (path, text) => writeText path (shown text)
  | none => pure ()
  match o.ending with
  | .code n => return n.toUInt32
  | .exit text => do
    IO.eprintln text
    return 1
  | .broken _ => return 1

end ComponentDoc

open ComponentDoc in
def main (words : List String) : IO UInt32 := do
  match Arguments.parse words with
  | .error .help => do
    IO.println usage
    return 0
  | .error .misuse => do
    IO.eprintln usage
    return 2
  | .ok a => do
    let file ← readText? a.file
    let config ← readText? (a.config.getD "")
    let read (path : String) : Option String := if path = a.file then file else config
    (Command.run read a).perform
