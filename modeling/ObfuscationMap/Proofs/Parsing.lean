import ObfuscationMap.Proofs.Grammar.Acceptance

/-!
The parser and the grammar. What parses is what the grammar derives from the tokens before the end of
input, and no symbols derive two scripts. Where parsing fails, the error names the first token with which
no script can go on, while the tokens before it still begin one.
-/

namespace ObfuscationMap
open Grammar

def beforeEnd (ts : List Token) : List Token := ts.takeWhile fun t => t.kind != .eof

theorem beforeEnd_eq {ts : List Token} (h : ∀ t ∈ ts, t.kind ≠ .eof) : beforeEnd ts = ts := by
  rw [beforeEnd, List.takeWhile_eq_self_iff]
  simpa using h

theorem kind_ne_eof_of_mem {ts : List Token} : ∀ t ∈ beforeEnd ts, t.kind ≠ .eof := by
  intro t ht
  simpa using List.mem_takeWhile_imp ht

theorem parse_of_derives {ts : List Token} {s : Script} (h : ScriptRule (symbols (beforeEnd ts)) s) :
    parse ts = .ok s := by
  rw [parse, ← beforeEnd, Reader.read_complete h _ rfl]
  rfl

theorem derives_of_read {ts : List Token} {s : Script} (h : Script.read ts = .ok s) :
    ScriptRule (symbols ts) s := by
  obtain ⟨used, rfl, hg, -⟩ := (Reader.follows_script.explains ts).ok s [] (Reader.toEnd_ok h)
  rwa [List.append_nil]

theorem read_of_parse {ts : List Token} {s : Script} (h : parse ts = .ok s) :
    Script.read (beforeEnd ts) = .ok s := by
  rw [parse, ← beforeEnd] at h
  cases hr : Script.read (beforeEnd ts) with
  | error m => rw [hr] at h; cases h
  | ok s' => rw [hr] at h; cases h; rfl

theorem parse_eq_ok_iff (ts : List Token) (s : Script) :
    parse ts = .ok s ↔ ScriptRule (symbols (ts.takeWhile fun t => t.kind != .eof)) s := by
  constructor
  · intro h
    exact derives_of_read (read_of_parse h)
  · exact parse_of_derives

def Symbol.token : Symbol → Token
  | .name s => ⟨.identifier, s, .start⟩
  | .text s => ⟨.text, s, .start⟩
  | .number s => ⟨.number, s, .start⟩
  | .keyword k => ⟨.keyword k, k.spelling, .start⟩
  | .mark m => ⟨.mark m, m.spelling, .start⟩
  | .comment s => ⟨.comment, s, .start⟩
  | .javadoc s => ⟨.javadoc, s, .start⟩
  | .eof => .eof .start

@[simp] theorem Symbol.symbol_token (x : Symbol) : x.token.symbol = x := by cases x <;> rfl

theorem symbols_map_token (xs : List Symbol) : symbols (xs.map Symbol.token) = xs := by
  induction xs with
  | nil => rfl
  | cons x xs ih => rw [List.map_cons, symbols_cons, ih, x.symbol_token]

theorem scriptRule_unique {xs : List Symbol} {s s' : Script} (h : ScriptRule xs s) (h' : ScriptRule xs s') :
    s = s' := by
  have hr := Reader.read_complete h _ (symbols_map_token xs)
  rw [Reader.read_complete h' _ (symbols_map_token xs)] at hr
  cases hr
  rfl

/-- What a message tells of the place behind `k` tokens: the token there, or the end of the input. -/
def placeBehind (ts : List Token) (k : Nat) : String × Position :=
  match ts[k]? with
  | some t => (t.describe, t.position)
  | none => ("end of input", (ts.getLast?.map (·.position)).getD .start)

theorem beforeEnd_append {us : List Token} (h : ∀ t ∈ us, t.kind ≠ .eof) (vs : List Token) :
    beforeEnd (us ++ vs) = us ++ beforeEnd vs :=
  List.takeWhile_append_of_pos (by simpa using h)

theorem head?_beforeEnd (t : Token) (ts : List Token) :
    (beforeEnd (t :: ts)).head? = if t.kind = .eof then none else some t := by
  by_cases ht : t.kind = .eof
  · simp [beforeEnd, ht]
  · simp [beforeEnd, ht]

theorem inputEnd_append {us : List Token} (h : ∀ t ∈ us, t.kind ≠ .eof) {t : Token} (ht : t.kind = .eof)
    (ts : List Token) : inputEnd (us ++ t :: ts) = t.position := by
  have hn : us.find? (fun t => t.kind == .eof) = none := by simpa using h
  rw [inputEnd, List.find?_append, hn, Option.none_or, List.find?_cons_of_pos (by simp [ht])]

theorem inputEnd_of_no_eof {us : List Token} (h : ∀ t ∈ us, t.kind ≠ .eof) :
    inputEnd us = (us.getLast?.map (·.position)).getD .start := by
  have hn : us.find? (fun t => t.kind == .eof) = none := by simpa using h
  rw [inputEnd, hn]

theorem toParseError_place {us : List Token} (h : ∀ t ∈ us, t.kind ≠ .eof) (ts : List Token) {m : Mismatch}
    (hm : m.found = (beforeEnd ts).head?) :
    let e := m.toParseError (inputEnd (us ++ ts))
    (e.found, e.position) = placeBehind (us ++ ts) us.length := by
  cases ts with
  | nil =>
    have hf : m.found = none := hm
    have hp : placeBehind us us.length = ("end of input", (us.getLast?.map (·.position)).getD .start) := by
      simp [placeBehind]
    rw [List.append_nil, hp, inputEnd_of_no_eof h]
    simp only [Mismatch.toParseError, hf]
    rfl
  | cons t ts =>
    have hp : placeBehind (us ++ t :: ts) us.length = (t.describe, t.position) := by
      simp [placeBehind]
    rw [head?_beforeEnd] at hm
    by_cases ht : t.kind = .eof
    · rw [if_pos ht] at hm
      simp [Mismatch.toParseError, hm, hp, inputEnd_append h ht, Token.describe, Token.eof, ht]
    · rw [if_neg ht] at hm
      simp [Mismatch.toParseError, hm, hp]

theorem parse_error_split {ts : List Token} {e : ParseError} (h : parse ts = .error e) :
    ∃ used next, ts = used ++ next ∧ (∀ t ∈ used, t.kind ≠ .eof) ∧
      (e.found, e.position) = placeBehind ts used.length ∧
      Reader.Completable ScriptRule (symbols used) ∧
      ∀ next', (beforeEnd next').head? = (beforeEnd next).head? → ∀ s, parse (used ++ next') ≠ .ok s := by
  cases hr : Script.read (beforeEnd ts) with
  | ok s =>
    rw [parse, ← beforeEnd, hr] at h
    cases h
  | error m =>
    have he : m.toParseError (inputEnd ts) = e := by
      rw [parse, ← beforeEnd, hr] at h
      cases h
      rfl
    -- The reader sees nothing behind an end of input; what it did not see is put back behind `rest`.
    have hread := Reader.toEnd_error hr
    obtain ⟨used, rest, hsplit, hm, hc, hs⟩ := (Reader.follows_script.explains _).error m hread
    have hu : ∀ t ∈ used, t.kind ≠ .eof := fun t ht =>
      kind_ne_eof_of_mem t (hsplit ▸ List.mem_append_left _ ht)
    have hts : ts = used ++ (rest ++ ts.dropWhile fun t => t.kind != .eof) := by
      rw [← List.append_assoc, ← hsplit, beforeEnd, List.takeWhile_append_dropWhile]
    generalize rest ++ ts.dropWhile _ = next at hts
    subst hts
    rw [beforeEnd_append hu, List.append_cancel_left_eq] at hsplit
    subst hsplit
    refine ⟨used, next, rfl, hu, he ▸ toParseError_place hu next hm, hc, fun next' hh s hp => ?_⟩
    have hr' := read_of_parse hp
    rw [beforeEnd_append hu] at hr'
    have hok := Reader.toEnd_ok hr'
    rw [hs _ hh] at hok
    cases hok

theorem parse_error_first {ts : List Token} {e : ParseError} (h : parse ts = .error e) :
    ∃ k ≤ ts.length, (e.found, e.position) = placeBehind ts k ∧
      (∀ t ∈ ts.take k, t.kind ≠ .eof) ∧ (∃ more s, parse (ts.take k ++ more) = .ok s) ∧
      (k < ts.length → ∀ more s, parse (ts.take (k + 1) ++ more) ≠ .ok s) := by
  obtain ⟨used, next, rfl, hu, hplace, ⟨ys, s, hy, hd⟩, hstuck⟩ := parse_error_split h
  have htake : (used ++ next).take used.length = used := List.take_left
  refine ⟨used.length, by simp, hplace, by rwa [htake], ⟨ys.map Symbol.token, s, ?_⟩, ?_⟩
  · have hmore : ∀ t ∈ used ++ ys.map Symbol.token, t.kind ≠ .eof := by
      intro t ht
      rcases List.mem_append.mp ht with ht | ht
      · exact hu t ht
      · obtain ⟨y, hmem, rfl⟩ := List.mem_map.mp ht
        intro hk
        have hx : y.kind = .eof := by rw [← y.symbol_token, Token.kind_symbol, hk]
        cases y <;> first | exact hy hmem | cases hx
    apply parse_of_derives
    rw [htake, beforeEnd_eq hmore, symbols_append, symbols_map_token]
    exact hd
  · intro hk more s
    cases next with
    | nil => simp at hk
    | cons t next =>
      rw [List.take_length_add_append, List.take_succ_cons, List.take_zero, List.append_assoc]
      apply hstuck
      rw [List.singleton_append, head?_beforeEnd, head?_beforeEnd]

theorem parse_error_first_package :
    let ts : List Token := [⟨.keyword .pkg, "pkg", ⟨1, 1⟩⟩, ⟨.identifier, "a", ⟨1, 5⟩⟩, .eof ⟨1, 6⟩]
    parse ts = .error ⟨.packageEnd, "end of input", ⟨1, 6⟩⟩ ∧
      ∃ k ≤ ts.length, ("end of input", ⟨1, 6⟩) = placeBehind ts k ∧
        (∀ t ∈ ts.take k, t.kind ≠ .eof) ∧ (∃ more s, parse (ts.take k ++ more) = .ok s) ∧
        (k < ts.length → ∀ more s, parse (ts.take (k + 1) ++ more) ≠ .ok s) := by
  intro ts
  have he : parse ts = .error ⟨.packageEnd, "end of input", ⟨1, 6⟩⟩ := by rfl
  exact ⟨he, parse_error_first he⟩

end ObfuscationMap
