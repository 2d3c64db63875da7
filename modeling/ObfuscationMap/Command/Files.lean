import ObfuscationMap.OrderedMap

/-!
The files that a command can reach. A path leads to a location: the folders on the way and the name of
the file. Empty parts of a path and single dots do not count, so spellings that differ only in these lead to the
same location. Only files can be read or written, in folders that exist. A path that is too long, or has a part
that is, leads nowhere.

A double dot counts as the name of a folder, because a folder has to be there to be left again. Where one spelling
of a file has such a step, goes through a link or starts at the root and another one does not, they lead to
different locations, and that both are one file is not known here.
-/

namespace ObfuscationMap

/-- A place for a file, seen from the current folder. An absolute location has an empty first folder. -/
structure Location where
  folder : List String
  name : String
  deriving DecidableEq, Repr

namespace Location

def pathParts : List Char → List (List Char)
  | [] => [[]]
  | c :: cs =>
    if c = '/' then [] :: pathParts cs
    else match pathParts cs with
      | [] => [[c]]
      | part :: parts => (c :: part) :: parts

def stays (part : List Char) : Bool := part == [] || part == ['.']

def nameLimit : Nat := 255

def pathLimit : Nat := 4095

def isShort (path : String) : Bool :=
  path.utf8ByteSize ≤ pathLimit &&
    (pathParts path.toList).all fun p => (String.ofList p).utf8ByteSize ≤ nameLimit

def ofPath? (path : String) : Option Location :=
  match (pathParts path.toList).reverse with
  | [] => none
  | last :: outer =>
    if !isShort path || stays last || last == ['.', '.'] then none
    else
      let root := if path.toList.head? = some '/' then [""] else []
      let way := outer.reverse.filter fun p => !stays p
      some ⟨root ++ way.map String.ofList, String.ofList last⟩

def asFolder (l : Location) : List String := l.folder ++ [l.name]

end Location

/-- Files with their contents, and the folders there are besides the current one. -/
structure Files where
  contents : List (Location × String)
  folders : List (List String)
  deriving DecidableEq, Repr

namespace Files

def content? (fs : Files) (l : Location) : Option String :=
  (fs.contents.find? fun e => e.1 == l).map Prod.snd

def read? (fs : Files) (path : String) : Option String := (Location.ofPath? path).bind fs.content?

def canHold (fs : Files) (l : Location) : Bool :=
  (l.folder == [] || fs.folders.contains l.folder) && !fs.folders.contains l.asFolder

def write? (fs : Files) (path content : String) : Option Files :=
  (Location.ofPath? path).bind fun l =>
    if fs.canHold l then some { fs with contents := putEntry l content fs.contents } else none

/-- Files written one after another into the current folder: the last one of a name stays. -/
def ofNames (files : List (String × String)) : Files :=
  files.foldl (fun fs f => (fs.write? f.1 f.2).getD fs) ⟨[], []⟩

theorem content?_putEntry (fs : Files) (l m : Location) (content : String) :
    content? { fs with contents := putEntry l content fs.contents } m =
      if m = l then some content else fs.content? m := by
  rw [content?, find?_putEntry]
  split <;> rfl

end Files

end ObfuscationMap
