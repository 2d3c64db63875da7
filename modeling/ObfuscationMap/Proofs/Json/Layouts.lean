import ObfuscationMap.Proofs.Json.Reading
import Mathlib.Data.List.Forall2

/-!
JSON texts of both layouts. However its pieces are set apart by blanks, a value is cut into the same tokens, so
that its texts are read back and denote the same value.
-/

namespace ObfuscationMap.Json

def Apart (cs : List Char) : Prop := ∀ c ∈ cs.head?, isWordPart c = false

/-- The text is cut into the tokens, where it is followed so. -/
def Cuts (follows : List Char → Prop) (s : String) (ts : List Token) : Prop :=
  ∀ rest, follows rest → scan .between (s.toList ++ rest) = (scan .between rest).map (ts ++ ·)

/-- The text is cut into the tokens, whatever stands before and behind it. -/
structure Divides (s : String) (ts : List Token) : Prop where
  cuts : Cuts (fun _ => True) s ts
  apart (rest : List Char) : Apart (s.toList ++ rest)

section cuts

variable {s s' : String} {ts ts' : List Token}

theorem Cuts.append {P Q : List Char → Prop} (h : Cuts P s ts) (h' : Cuts Q s' ts')
    (hP : ∀ rest, Q rest → P (s'.toList ++ rest)) : Cuts Q (s ++ s') (ts ++ ts') := fun rest hrest => by
  rw [String.toList_append, List.append_assoc, h _ (hP rest hrest), h' rest hrest, Option.map_map]
  exact congrArg (Option.map · _) (funext fun us => (List.append_assoc ts ts' us).symm)

theorem Divides.append (h : Divides s ts) (h' : Divides s' ts') : Divides (s ++ s') (ts ++ ts') where
  cuts := h.cuts.append h'.cuts fun _ _ => trivial
  apart rest := by
    rw [String.toList_append, List.append_assoc]
    exact h.apart _

theorem Divides.append_cuts (h : Divides s ts) (h' : Cuts Apart s' ts') : Cuts Apart (s ++ s') (ts ++ ts') :=
  h.cuts.append h' fun _ _ => trivial

theorem Cuts.append_divides (h : Cuts Apart s ts) (h' : Divides s' ts') : Cuts Apart (s ++ s') (ts ++ ts') :=
  h.append (fun rest _ => h'.cuts rest trivial) fun rest _ => h'.apart rest

theorem cuts_empty : Cuts Apart "" [] := fun rest _ => by simp

theorem Divides.cuts_apart (h : Divides s ts) : Cuts Apart s ts := fun rest _ => h.cuts rest trivial

end cuts

theorem scan_cons {place next : Place} {c : Char} {ts : List Token} (h : place.step c = some (ts, next))
    (cs : List Char) : scan place (c :: cs) = (scan next cs).map (ts ++ ·) := by
  rw [scan, h]
  rfl

theorem scan_next {place next : Place} {c : Char} (h : place.step c = some ([], next)) (cs : List Char) :
    scan place (c :: cs) = scan next cs := by
  rw [scan_cons h]
  exact Option.map_id_apply

theorem divides_char {s : String} {c : Char} {ts : List Token} (hs : s.toList = [c])
    (hstart : Place.start c = some (ts, .between)) (hc : isWordPart c = false) : Divides s ts where
  cuts rest _ := by
    have hstep : Place.step .between c = some (ts, .between) := hstart
    rw [hs]
    exact scan_cons hstep rest
  apart rest d hd := by
    rw [hs] at hd
    obtain rfl : c = d := Option.some.inj hd
    exact hc

theorem divides_newline (depth : Nat) : Divides (newline depth) [] := by
  have hspaces : ∀ n, Divides ("\n" ++ "".pushn ' ' n) [] := fun n => by
    induction n with
    | zero => exact divides_char rfl rfl rfl
    | succ n ih =>
      have hpush : "\n" ++ "".pushn ' ' (n + 1) = ("\n" ++ "".pushn ' ' n) ++ String.singleton ' ' := by
        simp only [String.pushn_eq_repeat_push, Nat.repeat, String.append_assoc]
        rfl
      rw [hpush]
      exact ih.append (divides_char rfl rfl rfl)
  exact hspaces _

theorem hexDigit_digitChar : ∀ d < 16, hexDigit? (Nat.digitChar d) = some d := by decide

theorem step_code (read : List Char) (value digits : Nat) {d : Nat} (hd : d < 16) :
    Place.step (.code read value digits) (Nat.digitChar d) =
      if digits < 3 then some ([], .code read (16 * value + d) (digits + 1))
      else if (16 * value + d).isValidChar then some ([], .text (read ++ [Char.ofNat (16 * value + d)]))
      else none := by
  rw [Place.step, hexDigit_digitChar d hd]
  rfl

theorem scan_escaped (read : List Char) (c : Char) (cs : List Char) :
    scan (.text read) (escaped c ++ cs) = scan (.text (read ++ [c])) cs := by
  unfold escaped
  split
  case h_8 hquote hslash _ _ _ _ _ =>
    split
    -- The code of a control character has two zeros in front.
    · next hcontrol =>
      have hvalue : 16 * (c.toNat / 16) + c.toNat % 16 = c.toNat := by omega
      have hlast := step_code read (c.toNat / 16) 3 (Nat.mod_lt c.toNat (by decide : 16 > 0))
      have hvalid : c.toNat.isValidChar := c.valid
      rw [hvalue, if_neg (by decide), if_pos hvalid, Char.ofNat_toNat] at hlast
      have hfirst := step_code read 0 2 (d := c.toNat / 16) (by omega)
      rw [if_pos (by decide), Nat.mul_zero, Nat.zero_add] at hfirst
      calc
        _ = scan (.code read 0 2) (Nat.digitChar (c.toNat / 16) :: Nat.digitChar (c.toNat % 16) :: cs) :=
          (scan_next rfl _).trans ((scan_next rfl _).trans ((scan_next rfl _).trans (scan_next rfl _)))
        _ = scan (.code read (c.toNat / 16) 3) (Nat.digitChar (c.toNat % 16) :: cs) := scan_next hfirst _
        _ = scan (.text (read ++ [c])) cs := scan_next hlast _
    · next hcontrol =>
      refine scan_next ?_ cs
      rw [Place.step, if_neg hquote, if_neg hslash, if_neg hcontrol]
  all_goals exact (scan_next rfl _).trans (scan_next rfl _)

theorem scan_text (read : List Char) (s cs : List Char) :
    scan (.text read) (s.flatMap escaped ++ '"' :: cs) =
      (scan .between cs).map (.text (String.ofList (read ++ s)) :: ·) := by
  induction s generalizing read with
  | nil =>
    have hstep : Place.step (.text read) '"' = some ([.text (String.ofList read)], .between) := rfl
    rw [List.append_nil]
    exact scan_cons hstep cs
  | cons c s ih =>
    rw [List.flatMap_cons, List.append_assoc, scan_escaped, ih, List.append_assoc]
    rfl

theorem divides_quoted (s : String) : Divides (quoted s) [.text s] := by
  constructor
  · intro rest _
    have hscan := scan_text [] s.toList rest
    rw [List.nil_append, String.ofList_toList] at hscan
    rw [quoted, String.toList_ofList, List.append_assoc]
    exact (scan_next rfl _).trans hscan
  · intro rest c hc
    rw [quoted, String.toList_ofList] at hc
    cases hc
    rfl

theorem scan_word (read : List Char) {cs : List Char} (hcs : ∀ c ∈ cs, isWordPart c = true) {rest : List Char}
    (hrest : Apart rest) :
    scan (.word read) (cs ++ rest) = (scan .between rest).map (.word (String.ofList (read ++ cs)) :: ·) := by
  induction cs generalizing read with
  | nil =>
    rw [List.nil_append, List.append_nil]
    cases rest with
    | nil => rfl
    | cons c rest =>
      have hc : isWordPart c = false := hrest c rfl
      rw [scan, scan, Place.step, Place.step, hc]
      cases Place.start c with
      | none => rfl
      | some next => exact (Option.map_map (.word (String.ofList read) :: ·) (next.1 ++ ·) (scan next.2 rest)).symm
  | cons c cs ih =>
    rw [List.forall_mem_cons] at hcs
    have hstep : Place.step (.word read) c = some ([], .word (read ++ [c])) := if_pos hcs.1
    rw [List.cons_append, scan_next hstep, ih _ hcs.2, List.append_assoc]
    rfl

theorem start_wordPart {c : Char} (h : isWordPart c = true) : Place.start c = some ([], .word [c]) := by
  have hspace : isSpace c = false := by
    refine Bool.eq_false_iff.mpr fun hc => ?_
    simp only [isSpace, Bool.or_eq_true, beq_iff_eq] at hc
    obtain ((rfl | rfl) | rfl) | rfl := hc <;> cases h
  have hmark : isMark c = false := by
    refine Bool.eq_false_iff.mpr fun hc => ?_
    simp only [isMark, Bool.or_eq_true, beq_iff_eq] at hc
    obtain ((((rfl | rfl) | rfl) | rfl) | rfl) | rfl := hc <;> cases h
  have hquote : c ≠ '"' := by
    rintro rfl
    cases h
  simp only [Place.start, hspace, hmark, hquote, h, Bool.false_eq_true, if_false, if_true]

theorem cuts_word {w : String} (hw : w.toList.all isWordPart = true) (hne : w ≠ "") :
    Cuts Apart w [.word w] := fun rest hrest => by
  obtain ⟨c, cs, hcs⟩ := List.exists_cons_of_ne_nil (mt String.toList_eq_nil_iff.mp hne)
  rw [hcs, List.all_eq_true, List.forall_mem_cons] at hw
  have hscan := scan_word [c] hw.2 hrest
  rw [List.singleton_append, ← hcs, String.ofList_toList] at hscan
  have hstep : Place.step .between c = some ([], .word [c]) := start_wordPart hw.1
  rw [hcs]
  exact (scan_next hstep _).trans hscan

theorem cuts_toString (n : Int) : Cuts Apart (toString n) [.word (toString n)] := by
  have hpart : ∀ m, ∀ c ∈ Nat.toDigits 10 m, isWordPart c = true := fun m c hc => by
    rw [isWordPart, Char.isAlphanum, isDigit_of_mem_toDigits hc, Bool.or_true, Bool.true_or]
  refine cuts_word ?_ ?_
  · rw [List.all_eq_true, toList_toString]
    split
    · exact hpart _
    · exact List.forall_mem_cons.mpr ⟨rfl, hpart _⟩
  · intro h
    have hn := integerOf_toString n
    rw [h] at hn
    rw [← hn] at h
    exact absurd h (by decide)

theorem cuts_intercalate {sep : String} {us : List Token} (hsep : Divides sep us) {items : List String}
    {tss : List (List Token)} (h : List.Forall₂ (Cuts Apart) items tss) :
    Cuts Apart (sep.intercalate items) (us.intercalate tss) := by
  induction h with
  | nil => exact cuts_empty
  | @cons s ts items tss hs hitems ih =>
    cases hitems with
    | nil => rwa [String.intercalate_singleton, List.intercalate_singleton]
    | cons hs' hitems =>
      rw [String.intercalate_cons_cons, List.intercalate_cons_cons, String.append_assoc, List.append_assoc]
      refine hs.append (hsep.append_cuts ih) fun rest _ => ?_
      rw [String.toList_append, List.append_assoc]
      exact hsep.apart _

theorem divides_comma : Divides "," [.mark ','] := divides_char rfl rfl rfl

theorem divides_colon : Divides ":" [.mark ':'] := divides_char rfl rfl rfl

theorem divides_colon_space : Divides ": " [.mark ':'] := by
  have hsplit : ": " = ":" ++ " " := rfl
  rw [hsplit]
  exact divides_colon.append (divides_char rfl rfl rfl)

theorem cuts_enclosed {opening sep ending : String} {t t' : Token} (hopening : Divides opening [t])
    (hsep : Divides sep [.mark ',']) (hending : Divides ending [t']) {items : List String}
    {tss : List (List Token)} (h : List.Forall₂ (Cuts Apart) items tss) :
    Cuts Apart (opening ++ sep.intercalate items ++ ending) (t :: [Token.mark ','].intercalate tss ++ [t']) :=
  (hopening.append_cuts (cuts_intercalate hsep h)).append_divides hending

theorem cuts_block (depth : Nat) {opening closing : String} {t t' : Token} (hopening : Divides opening [t])
    (hclosing : Divides closing [t']) {items : List String} {tss : List (List Token)}
    (h : List.Forall₂ (Cuts Apart) items tss) :
    Cuts Apart (block depth opening closing items) (t :: [Token.mark ','].intercalate tss ++ [t']) := by
  have hopen : Divides (opening ++ newline (depth + 1)) [t] := hopening.append (divides_newline _)
  have hsep : Divides ("," ++ newline (depth + 1)) [.mark ','] := divides_comma.append (divides_newline _)
  rw [block, String.append_assoc]
  exact cuts_enclosed hopen hsep ((divides_newline _).append hclosing) h

theorem cuts_member {colon s : String} {ts : List Token} (hcolon : Divides colon [.mark ':']) (key : String)
    (h : Cuts Apart s ts) : Cuts Apart (quoted key ++ colon ++ s) (.text key :: .mark ':' :: ts) :=
  ((divides_quoted key).append hcolon).append_cuts h

theorem cuts_atom {j : Json} {t : Token} (h : j.tokens = [t]) : Cuts Apart j.atom j.tokens := by
  cases j with
  | null => exact cuts_word rfl (by decide)
  | bool b => cases b <;> exact cuts_word rfl (by decide)
  | integer n => exact cuts_toString n
  | text s => exact (divides_quoted s).cuts_apart
  | array items => simp [tokens] at h
  | object members => simp [tokens] at h

mutual

theorem cuts_compact : ∀ j : Json, Cuts Apart j.compact j.tokens
  | null => cuts_atom rfl
  | bool _ => cuts_atom rfl
  | integer _ => cuts_atom rfl
  | text _ => cuts_atom rfl
  | array items =>
    cuts_enclosed (divides_char rfl rfl rfl) divides_comma (divides_char rfl rfl rfl) (cuts_compactItems items)
  | object members =>
    cuts_enclosed (divides_char rfl rfl rfl) divides_comma (divides_char rfl rfl rfl) (cuts_compactMembers members)

theorem cuts_compactItems : ∀ js : List Json, List.Forall₂ (Cuts Apart) (compactItems js) (itemTokens js)
  | [] => .nil
  | j :: js => .cons (cuts_compact j) (cuts_compactItems js)

theorem cuts_compactMembers : ∀ ms : List (String × Json),
    List.Forall₂ (Cuts Apart) (compactMembers ms) (memberTokens ms)
  | [] => .nil
  | (key, j) :: ms => .cons (cuts_member divides_colon key (cuts_compact j)) (cuts_compactMembers ms)

end

mutual

theorem cuts_prettyAt : ∀ (j : Json) (depth : Nat), Cuts Apart (j.prettyAt depth) j.tokens
  | null, _ => cuts_atom rfl
  | bool _, _ => cuts_atom rfl
  | integer _, _ => cuts_atom rfl
  | text _, _ => cuts_atom rfl
  -- Empty containers look the same in both layouts.
  | array [], _ => (cuts_compact (array []) :)
  | array (j :: js), depth =>
    cuts_block depth (divides_char rfl rfl rfl) (divides_char rfl rfl rfl) (cuts_prettyItems (j :: js) (depth + 1))
  | object [], _ => (cuts_compact (object []) :)
  | object (m :: ms), depth =>
    cuts_block depth (divides_char rfl rfl rfl) (divides_char rfl rfl rfl) (cuts_prettyMembers (m :: ms) (depth + 1))

theorem cuts_prettyItems : ∀ (js : List Json) (depth : Nat),
    List.Forall₂ (Cuts Apart) (prettyItems depth js) (itemTokens js)
  | [], _ => .nil
  | j :: js, depth => .cons (cuts_prettyAt j depth) (cuts_prettyItems js depth)

theorem cuts_prettyMembers : ∀ (ms : List (String × Json)) (depth : Nat),
    List.Forall₂ (Cuts Apart) (prettyMembers depth ms) (memberTokens ms)
  | [], _ => .nil
  | (key, j) :: ms, depth =>
    .cons (cuts_member divides_colon_space key (cuts_prettyAt j depth)) (cuts_prettyMembers ms depth)

end

theorem read?_of_cuts {s : String} {j : Json} (h : Cuts Apart s j.tokens) : read? s = some j := by
  have hscan := h [] fun c hc => by cases hc
  rw [List.append_nil] at hscan
  exact read?_eq_some_iff.mpr (hscan.trans (congrArg some (List.append_nil _)))

theorem read?_compact (j : Json) : read? j.compact = some j := read?_of_cuts (cuts_compact j)

theorem read?_pretty (j : Json) : read? j.pretty = some j := read?_of_cuts (cuts_prettyAt j 0)

theorem read?_pretty_newline (j : Json) : read? (j.pretty ++ "\n") = some j := by
  have hcuts := (cuts_prettyAt j 0).append_divides (divides_char rfl rfl rfl : Divides "\n" [])
  rw [List.append_nil] at hcuts
  exact read?_of_cuts hcuts

example : read? "[0, -17, \"\\u00e9\\n\", \x7b\"a\": [], \"b\": \x7b \x7d\x7d]" =
    some (.array [.integer 0, .integer (-17), .text "é\n", .object [("a", .array []), ("b", .object [])]]) := by
  cbv

example : read? "[0, ]" = none := by cbv

end ObfuscationMap.Json
