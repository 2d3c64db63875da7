import ObfuscationMap.Json

/-!
Reading of JSON texts. A text is cut into tokens, one character after the other, and a value is read off the
tokens with a stack of the containers that are still open. The value is read from its own tokens and from no
others.

All of JSON is read but numbers with a fraction or an exponent, and characters that take two codes.
-/

namespace ObfuscationMap.Json

inductive Token
  | mark (c : Char)
  | text (s : String)
  | word (w : String)

/-- What the text has begun: nothing, a word, a string, or in a string an escape or the code of a character. -/
inductive Place
  | between
  | word (read : List Char)
  | text (read : List Char)
  | escape (read : List Char)
  | code (read : List Char) (value digits : Nat)

def isSpace (c : Char) : Bool := c == ' ' || c == '\t' || c == '\n' || c == '\r'

def isMark (c : Char) : Bool := c == '[' || c == ']' || c == '\x7b' || c == '\x7d' || c == ':' || c == ','

/-- The characters of `null`, `true`, `false` and of integers, and those that cannot stand beside them. -/
def isWordPart (c : Char) : Bool := c.isAlphanum || c == '-'

def unescaped? : Char → Option Char
  | '"' => some '"'
  | '\\' => some '\\'
  | '/' => some '/'
  | 'b' => some '\x08'
  | 'f' => some '\x0c'
  | 'n' => some '\n'
  | 'r' => some '\r'
  | 't' => some '\t'
  | _ => none

def hexDigit? (c : Char) : Option Nat := (List.range 16).find? fun d => Nat.digitChar d == c.toLower

namespace Place

def start (c : Char) : Option (List Token × Place) :=
  if isSpace c then some ([], between)
  else if isMark c then some ([.mark c], between)
  else if c = '"' then some ([], text [])
  else if isWordPart c then some ([], word [c])
  else none

def step : Place → Char → Option (List Token × Place)
  | between, c => start c
  | word read, c =>
    if isWordPart c then some ([], word (read ++ [c]))
    else (start c).map fun (ts, next) => (.word (String.ofList read) :: ts, next)
  | text read, c =>
    if c = '"' then some ([.text (String.ofList read)], between)
    else if c = '\\' then some ([], escape read)
    else if c.toNat < 0x20 then none
    else some ([], text (read ++ [c]))
  | escape read, c =>
    if c = 'u' then some ([], code read 0 0) else (unescaped? c).map fun d => ([], text (read ++ [d]))
  | code read value digits, c => do
    let value := 16 * value + (← hexDigit? c)
    if digits < 3 then some ([], code read value (digits + 1))
    else if value.isValidChar then some ([], text (read ++ [Char.ofNat value]))
    else none

def finish : Place → Option (List Token)
  | between => some []
  | word read => some [.word (String.ofList read)]
  | text _ | escape _ | code .. => none

end Place

def scan (place : Place) : List Char → Option (List Token)
  | [] => place.finish
  | c :: cs => do
    let (ts, next) ← place.step c
    (scan next cs).map (ts ++ ·)

inductive Hole
  | item (before : List Json)
  | member (before : List (String × Json)) (key : String)

/-- What comes next: a value, a key with its value, the colon between them, or what may follow a value. -/
inductive Reading
  | value (holes : List Hole)
  | key (holes : List Hole) (before : List (String × Json))
  | colon (holes : List Hole) (before : List (String × Json)) (key : String)
  | done (holes : List Hole) (j : Json)

def integerOf : List Char → Int
  | '-' :: digits => -Nat.ofDigitChars 10 digits 0
  | digits => Nat.ofDigitChars 10 digits 0

/-- An integer is read where it is written as it would be. -/
def word? (w : String) : Option Json :=
  if toString (integerOf w.toList) = w then some (.integer (integerOf w.toList))
  else if w = "null" then some .null
  else if w = "true" then some (.bool true)
  else if w = "false" then some (.bool false)
  else none

namespace Reading

def takeValue (holes : List Hole) : Token → Option Reading
  | .text s => some (done holes (.text s))
  | .word w => (word? w).map (done holes)
  | .mark '[' => some (value (.item [] :: holes))
  | .mark '\x7b' => some (key holes [])
  | .mark ']' =>
    match holes with
    -- Nothing is before the item only right behind the opening bracket.
    | .item [] :: holes => some (done holes (.array []))
    | _ => none
  | .mark _ => none

def take : Reading → Token → Option Reading
  | value holes, t => takeValue holes t
  | key holes ms, .text k => some (colon holes ms k)
  | key holes [], .mark '\x7d' => some (done holes (.object []))
  | colon holes ms k, .mark ':' => some (value (.member ms k :: holes))
  | done (.item js :: holes) j, .mark ',' => some (value (.item (js ++ [j]) :: holes))
  | done (.item js :: holes) j, .mark ']' => some (done holes (.array (js ++ [j])))
  | done (.member ms k :: holes) j, .mark ',' => some (key holes (ms ++ [(k, j)]))
  | done (.member ms k :: holes) j, .mark '\x7d' => some (done holes (.object (ms ++ [(k, j)])))
  | _, _ => none

def result? : Reading → Option Json
  | done [] j => some j
  | _ => none

end Reading

def read? (text : String) : Option Json := do
  let ts ← scan .between text.toList
  let r ← ts.foldlM Reading.take (.value [])
  r.result?

mutual

def tokens : Json → List Token
  | null => [.word "null"]
  | bool b => [.word (toString b)]
  | integer n => [.word (toString n)]
  | text s => [.text s]
  | array items => .mark '[' :: [Token.mark ','].intercalate (itemTokens items) ++ [.mark ']']
  | object members => .mark '\x7b' :: [Token.mark ','].intercalate (memberTokens members) ++ [.mark '\x7d']

def itemTokens : List Json → List (List Token)
  | [] => []
  | j :: js => j.tokens :: itemTokens js

def memberTokens : List (String × Json) → List (List Token)
  | [] => []
  | (key, j) :: ms => (.text key :: .mark ':' :: j.tokens) :: memberTokens ms

end

theorem toList_toString (n : Int) :
    (toString n).toList = if 0 ≤ n then Nat.toDigits 10 n.toNat else '-' :: Nat.toDigits 10 (-n).toNat := by
  rw [Int.toString_eq_repr, Int.repr_eq_if]
  split
  · exact Nat.toList_repr
  · rw [String.toList_append, Nat.toList_repr]
    rfl

theorem isDigit_of_mem_toDigits {n : Nat} {c : Char} (h : c ∈ Nat.toDigits 10 n) : c.isDigit = true :=
  Nat.isDigit_of_mem_toDigits (by decide) (by decide) h

theorem integerOf_toString (n : Int) : integerOf (toString n).toList = n := by
  rw [toList_toString]
  split
  · next hn =>
    have hplain : integerOf (Nat.toDigits 10 n.toNat) = Nat.ofDigitChars 10 (Nat.toDigits 10 n.toNat) 0 := by
      unfold integerOf
      split
      · next digits hdigits =>
        have hminus := isDigit_of_mem_toDigits (hdigits ▸ List.mem_cons_self : '-' ∈ Nat.toDigits 10 n.toNat)
        cases hminus
      · rfl
    rw [hplain, Nat.ofDigitChars_ten_toDigits]
    omega
  · rw [integerOf, Nat.ofDigitChars_ten_toDigits]
    omega

theorem word?_toString (n : Int) : word? (toString n) = some (.integer n) := by
  rw [word?, integerOf_toString, if_pos rfl]

theorem foldlM_append_of {r r' : Reading} {ts : List Token} (h : ts.foldlM Reading.take r = some r')
    (us : List Token) : (ts ++ us).foldlM Reading.take r = us.foldlM Reading.take r' := by
  rw [List.foldlM_append, h]
  rfl

mutual

theorem read_tokens : ∀ (j : Json) (holes : List Hole),
    j.tokens.foldlM Reading.take (.value holes) = some (.done holes j)
  | null, _ => rfl
  | bool b, holes => by cases b <;> rfl
  | integer n, holes => by
    rw [tokens, List.foldlM_cons, Reading.take, Reading.takeValue, word?_toString]
    rfl
  | text _, _ => rfl
  | array [], _ => rfl
  | array (j :: js), holes => read_items (j :: js) [] holes (List.cons_ne_nil _ _)
  | object [], _ => rfl
  | object (m :: ms), holes => read_members (m :: ms) [] holes (List.cons_ne_nil _ _)

theorem read_items : ∀ (js before : List Json) (holes : List Hole), js ≠ [] →
    ([Token.mark ','].intercalate (itemTokens js) ++ [Token.mark ']']).foldlM Reading.take
      (.value (.item before :: holes)) = some (.done holes (.array (before ++ js)))
  | [], _, _, h => absurd rfl h
  | [j], before, holes, _ => by
    rw [itemTokens, itemTokens, List.intercalate_singleton, foldlM_append_of (read_tokens j _) _]
    rfl
  | j :: j' :: js, before, holes, _ => by
    have hrest := read_items (j' :: js) (before ++ [j]) holes (List.cons_ne_nil _ _)
    rw [List.append_assoc] at hrest
    rw [itemTokens, itemTokens, List.intercalate_cons_cons, List.append_assoc, List.append_assoc,
      foldlM_append_of (read_tokens j _) _]
    exact hrest

theorem read_members : ∀ (ms before : List (String × Json)) (holes : List Hole), ms ≠ [] →
    ([Token.mark ','].intercalate (memberTokens ms) ++ [Token.mark '\x7d']).foldlM Reading.take
      (.key holes before) = some (.done holes (.object (before ++ ms)))
  | [], _, _, h => absurd rfl h
  | [(key, j)], before, holes, _ => by
    have hvalue := foldlM_append_of (read_tokens j (.member before key :: holes)) [Token.mark '\x7d']
    rw [memberTokens, memberTokens, List.intercalate_singleton]
    exact hvalue
  | (key, j) :: m :: ms, before, holes, _ => by
    have hvalue := foldlM_append_of (read_tokens j (.member before key :: holes))
    have hrest := read_members (m :: ms) (before ++ [(key, j)]) holes (List.cons_ne_nil _ _)
    rw [List.append_assoc] at hrest
    rw [memberTokens, memberTokens, List.intercalate_cons_cons, List.append_assoc, List.append_assoc]
    exact (hvalue _).trans hrest

end

def memberOf (m : String × Json) : List Token := .text m.1 :: .mark ':' :: m.2.tokens

def continued (items : List (List Token)) : List Token := items.flatMap (· ++ [.mark ','])

def Hole.opening : Hole → List Token
  | item before => .mark '[' :: continued (before.map tokens)
  | member before key => .mark '\x7b' :: continued (before.map memberOf) ++ [.text key, .mark ':']

def opened : List Hole → List Token
  | [] => []
  | hole :: holes => opened holes ++ hole.opening

def Reading.behind : Reading → List Token
  | value holes => opened holes
  | key holes before => opened holes ++ .mark '\x7b' :: continued (before.map memberOf)
  | colon holes before k => opened holes ++ .mark '\x7b' :: continued (before.map memberOf) ++ [.text k]
  | done holes j => opened holes ++ j.tokens

theorem itemTokens_eq_map (js : List Json) : itemTokens js = js.map tokens := by
  induction js with
  | nil => rfl
  | cons j js ih => rw [itemTokens, ih, List.map_cons]

theorem memberTokens_eq_map (ms : List (String × Json)) : memberTokens ms = ms.map memberOf := by
  induction ms with
  | nil => rfl
  | cons m ms ih => rw [memberTokens, ih, List.map_cons, memberOf]

theorem intercalate_concat (items : List (List Token)) (last : List Token) :
    [Token.mark ','].intercalate (items ++ [last]) = continued items ++ last := by
  induction items with
  | nil => exact List.intercalate_singleton
  | cons item items ih =>
    have hne : items ++ [last] ≠ [] := by simp
    rw [List.cons_append, List.intercalate_cons_of_ne_nil hne, ih, ← List.append_assoc]
    rfl

theorem tokens_array_concat (js : List Json) (j : Json) : (array (js ++ [j])).tokens =
    .mark '[' :: continued (js.map tokens) ++ j.tokens ++ [.mark ']'] := by
  rw [tokens, itemTokens_eq_map, List.map_append, List.map_singleton, intercalate_concat]
  rfl

theorem tokens_object_concat (ms : List (String × Json)) (m : String × Json) : (object (ms ++ [m])).tokens =
    .mark '\x7b' :: continued (ms.map memberOf) ++ memberOf m ++ [.mark '\x7d'] := by
  rw [tokens, memberTokens_eq_map, List.map_append, List.map_singleton, intercalate_concat]
  rfl

theorem word?_eq_some {w : String} {j : Json} (h : word? w = some j) : j.tokens = [.word w] := by
  unfold word? at h
  split at h
  · next hw =>
    cases h
    rw [tokens, hw]
  split at h
  · next hw =>
    cases h
    rw [tokens, hw]
  split at h
  · next hw =>
    cases h
    rw [hw]
    rfl
  split at h
  · next hw =>
    cases h
    rw [hw]
    rfl
  · cases h

theorem behind_takeValue {holes : List Hole} {t : Token} {r : Reading} (h : Reading.takeValue holes t = some r) :
    r.behind = opened holes ++ [t] := by
  unfold Reading.takeValue at h
  split at h
  · cases h
    rfl
  · obtain ⟨j, hj, rfl⟩ := Option.map_eq_some_iff.mp h
    rw [Reading.behind, word?_eq_some hj]
  · cases h
    rfl
  · cases h
    rfl
  · split at h
    · cases h
      exact (List.append_assoc ..).symm
    · cases h
  · cases h

theorem behind_take {r r' : Reading} {t : Token} (h : r.take t = some r') : r'.behind = r.behind ++ [t] := by
  unfold Reading.take at h
  split at h
  case h_1 => exact behind_takeValue h
  case h_9 => cases h
  all_goals cases h
  case h_2 => simp [Reading.behind]
  case h_3 => exact (List.append_assoc _ [_] [_]).symm
  case h_4 => simp [Reading.behind, opened, Hole.opening]
  case h_5 => simp [Reading.behind, opened, Hole.opening, continued]
  case h_6 => simp [Reading.behind, opened, Hole.opening, tokens_array_concat]
  case h_7 => simp [Reading.behind, opened, Hole.opening, continued, memberOf]
  case h_8 => simp [Reading.behind, opened, Hole.opening, tokens_object_concat, memberOf]

theorem behind_foldlM {r r' : Reading} {ts : List Token} (h : ts.foldlM Reading.take r = some r') :
    r'.behind = r.behind ++ ts := by
  induction ts generalizing r with
  | nil =>
    cases h
    exact (List.append_nil _).symm
  | cons t ts ih =>
    rw [List.foldlM_cons] at h
    obtain ⟨next, hnext, h⟩ := Option.bind_eq_some_iff.mp h
    rw [ih h, behind_take hnext, List.append_assoc]
    rfl

/-- A text is read as the value exactly if it is cut into the tokens of the value. -/
theorem read?_eq_some_iff {s : String} {j : Json} : read? s = some j ↔ scan .between s.toList = some j.tokens := by
  rw [read?, Option.bind_eq_bind, Option.bind_eq_some_iff]
  constructor
  · rintro ⟨ts, hts, h⟩
    obtain ⟨r, hr, hj⟩ := Option.bind_eq_some_iff.mp h
    have hbehind := behind_foldlM hr
    unfold Reading.result? at hj
    split at hj
    · cases hj
      rw [hts]
      exact congrArg some hbehind.symm
    · cases hj
  · intro h
    exact ⟨_, h, Option.bind_eq_some_iff.mpr ⟨_, read_tokens j [], rfl⟩⟩

end ObfuscationMap.Json
