import ObfuscationMap.Command.Run

/-!
The program. It looks at the files that the command line names, works out what the command does to
them, and writes down what has changed.
-/

namespace ObfuscationMap

def readText? (path : String) : IO (Option String) :=
  try some <$> IO.FS.readFile path catch _ => pure none

def isFolder (path : String) : IO Bool :=
  try (← IO.FS.realPath path).isDir catch _ => pure false

def joined (parts : List String) : String := "/".intercalate parts

def lookAt (paths : List String) : IO Files := do
  let locations := paths.filterMap Location.ofPath?
  let contents ← locations.filterMapM fun l => do
    return (← readText? (joined l.asFolder)).map fun text => (l, text)
  let folders ← (locations.flatMap fun l => [l.folder, l.asFolder]).filterM fun f =>
    if f = [""] then pure true else isFolder (joined f)
  return ⟨contents, folders⟩

def namedPaths (arguments : List String) : List String :=
  match Request.ofArguments arguments with
  | .ok (.command c) => c.paths
  | _ => []

def writeChanges (before after : Files) : IO Unit :=
  for (l, text) in after.contents do
    unless before.content? l == some text do IO.FS.writeFile (joined l.asFolder) text

end ObfuscationMap

open ObfuscationMap in
def main (arguments : List String) : IO UInt32 := do
  let before ← lookAt (namedPaths arguments)
  let outcome := runCommandLine arguments before
  writeChanges before outcome.files
  IO.print outcome.output
  IO.eprint outcome.complaint
  return if outcome.succeeded then 0 else 1
