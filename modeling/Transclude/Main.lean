import Transclude.CommandLine.Execute

/-! # The program

The outermost layer: it takes a picture of the files, executes the request of the
command line on it, writes the files that have changed, and prints the answer.
The files that a request may read are listed on the standard input, one path a
line. Filters are named in the settings as members of the module `filters`. -/

namespace Transclude.Program

open CommandLine

/-- The modules that settings can take filters from. -/
def modules : Filter.Modules :=
  [("filters", TextFilter.library.map fun (name, _) => (name, .filter name))]

/-- The code of a request that a fault has ended. -/
def faultCode : Nat := 1

/-- The place that the value of a variable of the environment names. -/
def placeOf (setting : Option String) : Location := (Path.ofText (setting.getD "/")).parts

/-- The lines of the standard input. -/
def inputLines : IO (Array String) := do
  let input ← IO.getStdin
  let mut lines := #[]
  let mut line ← input.getLine
  while !line.isEmpty do
    lines := lines.push (String.ofList (line.toList.filter (· != '\n')))
    line ← input.getLine
  return lines

/-- The tree with the listed files. -/
def readTree : IO FileTree := do
  let mut tree := FileTree.empty (placeOf (← IO.getEnv "PWD")) (placeOf (← IO.getEnv "HOME"))
  for line in ← inputLines do
    let bytes ← IO.FS.readBinFile line
    tree := tree.put (tree.absolute (.ofText line)).parts bytes.toList
  return tree

/-- Writes the files that have changed. -/
def writeChanges (before after : FileTree) : IO Unit := do
  for (place, bytes) in after.changesSince before do
    let path : Path := ⟨.single, place⟩
    IO.FS.createDirAll path.parent.toText
    IO.FS.writeBinFile path.toText ⟨bytes.toArray⟩

/-- Executes the request that the words make, and gives the code of the answer. -/
def run (words : List String) : IO Nat := do
  match Request.read words with
  | .error (.error refusal) =>
    IO.eprint (usageText ++ refusal.message ++ "\n")
    return errorCode
  | .error (.fault kind) =>
    IO.eprintln kind.message
    return faultCode
  | .ok request =>
    let tree ← match request with
      | .help | .version => pure (FileTree.empty [] [])
      | .render _ _ _ | .build _ _ _ _ => readTree
    let (after, result) := execute modules tree request
    writeChanges tree after
    match result with
    | .ok reply =>
      IO.print (String.ofList reply.output)
      IO.eprint (String.ofList reply.log)
      return reply.code
    | .error kind =>
      IO.eprintln kind.message
      return faultCode

end Transclude.Program

/-- Executes the request of the command line. -/
def main (words : List String) : IO UInt32 := do
  return UInt32.ofNat (← Transclude.Program.run words)
