/-!
JSON values and their two layouts. Objects keep the order of their members. The compact layout has no
blanks; the wide one indents by two spaces, gives each item a line of its own and leaves empty containers
closed.
-/

namespace ObfuscationMap

inductive Json
  | null
  | bool (b : Bool)
  | integer (n : Int)
  | text (s : String)
  | array (items : List Json)
  | object (members : List (String × Json))
  deriving Inhabited

namespace Json

def escaped (c : Char) : List Char :=
  match c with
  | '"' => ['\\', '"']
  | '\\' => ['\\', '\\']
  | '\x08' => ['\\', 'b']
  | '\x0c' => ['\\', 'f']
  | '\n' => ['\\', 'n']
  | '\r' => ['\\', 'r']
  | '\t' => ['\\', 't']
  | c =>
    if c.toNat < 0x20 then ['\\', 'u', '0', '0', Nat.digitChar (c.toNat / 16),
        Nat.digitChar (c.toNat % 16)]
    else [c]

def quoted (s : String) : String := String.ofList ('"' :: s.toList.flatMap escaped ++ ['"'])

def atom : Json → String
  | .null => "null"
  | .bool true => "true"
  | .bool false => "false"
  | .integer n => toString n
  | .text s => quoted s
  | .array _ => "[]"
  | .object _ => "\x7b\x7d"

mutual

def compact : Json → String
  | .array items => "[" ++ ",".intercalate (compactItems items) ++ "]"
  | .object members => "\x7b" ++ ",".intercalate (compactMembers members) ++ "\x7d"
  | j => j.atom

def compactItems : List Json → List String
  | [] => []
  | j :: js => j.compact :: compactItems js

def compactMembers : List (String × Json) → List String
  | [] => []
  | (key, j) :: ms => (quoted key ++ ":" ++ j.compact) :: compactMembers ms

end

def newline (depth : Nat) : String := "\n" ++ "".pushn ' ' (2 * depth)

def block (depth : Nat) (opening closing : String) (items : List String) : String :=
  opening ++ newline (depth + 1) ++ ("," ++ newline (depth + 1)).intercalate items
    ++ newline depth ++ closing

mutual

def prettyAt (depth : Nat) : Json → String
  | .array (j :: js) => block depth "[" "]" (prettyItems (depth + 1) (j :: js))
  | .object (m :: ms) => block depth "\x7b" "\x7d" (prettyMembers (depth + 1) (m :: ms))
  | j => j.atom

def prettyItems (depth : Nat) : List Json → List String
  | [] => []
  | j :: js => j.prettyAt depth :: prettyItems depth js

def prettyMembers (depth : Nat) : List (String × Json) → List String
  | [] => []
  | (key, j) :: ms => (quoted key ++ ": " ++ j.prettyAt depth) :: prettyMembers depth ms

end

def pretty (j : Json) : String := j.prettyAt 0

end Json

end ObfuscationMap
