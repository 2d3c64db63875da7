import ObfuscationMap.Text.Extender
import ObfuscationMap.Text.Unprintable

/-!
Quoted text in diagnostics. Between two quotes every character stands for itself, except the quote in
use, the backslash and the usual control letters, which follow a backslash, and characters that cannot
be seen or that would attach to their neighbour, which are written as `\u{…}` with their code point.
-/

namespace ObfuscationMap.Text

/-- The Hangul fillers are letters that leave a blank. -/
def isFiller (c : Char) : Bool := [0x115f, 0x1160, 0x3164, 0xffa0].contains c.toNat

/-- The halfwidth voicing marks have a column of their own, unlike the other extenders. -/
def isHalfwidthVoicing (c : Char) : Bool := c.toNat == 0xff9e || c.toNat == 0xff9f

def isHidden (c : Char) : Bool :=
  isUnprintable c || isFiller c || (isExtender c && !isHalfwidthVoicing c)

def hexDigits (n : Nat) : List Char := Nat.toDigits 16 n

def escaped (quote c : Char) : List Char :=
  match c with
  | '\x00' => ['\\', '0']
  | '\t' => ['\\', 't']
  | '\n' => ['\\', 'n']
  | '\r' => ['\\', 'r']
  | '\\' => ['\\', '\\']
  | c =>
    if c = quote then ['\\', c]
    else if isHidden c then
      ['\\', 'u', '\x7b'] ++ hexDigits c.toNat ++ ['\x7d']
    else [c]

def quotedChar (c : Char) : String := String.ofList (['\x27'] ++ escaped '\x27' c ++ ['\x27'])

def quoted (s : String) : String := String.ofList (['"'] ++ s.toList.flatMap (escaped '"') ++ ['"'])

end ObfuscationMap.Text
