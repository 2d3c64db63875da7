import ObfuscationMap.Proofs.Parsing
import ObfuscationMap.Proofs.Continuation
import ObfuscationMap.Proofs.Writing.Derivation

/-!
Scripts put one after the other, with a line feed between them. No piece of the first one runs into the
second one. The scanner goes on as if it had just begun, provided that the first script leaves no scope open
and the second one begins with a declaration: the header that opens there hides what was before from the
braces that look back. So the tokens follow each other, those of the second script further down, and the
parser finds the declarations of both.
-/

namespace ObfuscationMap
open Grammar

theorem pieces_joined {p : Position} {cs : List Char} {ps : List PlacedPiece} (h : pieces p cs = .ok ps)
    (ds : List Char) : pieces p (cs ++ '\n' :: ds) =
      (pieces (p.afterAll (cs ++ ['\n'])) ds).map (ps ++ ·) := by
  have hm : Separates ('\n' :: ds) := fun d hd => by
    cases hd
    decide
  rw [pieces_append h hm (.inl rfl), pieces_blank (cut_blank (by decide) ds) rfl, Position.afterAll_append]

def Position.down (n : Nat) (p : Position) : Position := ⟨p.line + n, p.column⟩

def PlacedPiece.down (n : Nat) (p : PlacedPiece) : PlacedPiece := ⟨p.piece, p.position.down n⟩

def Token.down (n : Nat) (t : Token) : Token := ⟨t.kind, t.lexeme, t.position.down n⟩

theorem Position.down_after (n : Nat) (p : Position) (c : Char) : (p.down n).after c = (p.after c).down n := by
  rw [after, after]
  split
  · rw [down, down, Nat.add_right_comm]
  · rfl

theorem Position.down_afterAll (n : Nat) (p : Position) (cs : List Char) :
    (p.down n).afterAll cs = (p.afterAll cs).down n := by
  induction cs generalizing p with
  | nil => rfl
  | cons c cs ih =>
    rw [afterAll, List.foldl_cons, down_after]
    exact ih (p.after c)

theorem Position.start_down (cs : List Char) :
    start.afterAll (cs ++ ['\n']) = start.down (cs.count '\n' + 1) := by
  rw [afterAll_start, behind, List.count_append, List.count_singleton_self, List.reverse_append, down, start,
    Nat.add_comm 1]
  rfl

theorem pieces_down {p : Position} {cs : List Char} {ps : List PlacedPiece} (h : pieces p cs = .ok ps)
    (n : Nat) : pieces (p.down n) cs = .ok (ps.map (·.down n)) := by
  induction h using pieces_ok_induction with
  | nil p =>
    rw [pieces]
    rfl
  | blank p c cs k ps _ hc hn _ ih => rw [pieces_blank hc hn, Position.down_afterAll, ih]
  | piece p c cs k q ps _ hc hs _ ih =>
    rw [pieces_piece hc hs, Position.down_afterAll, ih]
    rfl

namespace ScanState

def after (s : ScanState) (ps : List PlacedPiece) : ScanState := ps.foldl (fun s p => s.step p.piece) s

theorem tokens_down (s : ScanState) (ps : List PlacedPiece) (n : Nat) :
    s.tokens (ps.map (·.down n)) = (s.tokens ps).map (·.down n) := by
  induction ps generalizing s with
  | nil => rfl
  | cons p ps ih =>
    rw [List.map_cons, tokens, ih]
    rfl

/-- The first state goes on as the second one. It has the same scopes, and what it saw earlier lies beyond
the tokens that a brace looks back to, or will do so when the open header is closed. -/
structure Resumes (s s' : ScanState) : Prop where
  scopes : s.scopes = s'.scopes
  emitted : ∃ old, s.emitted = s'.emitted ++ old
  hidden : 2 ≤ s'.emitted.length ∨ s'.scopes.header.isSome ∧ s'.emitted ≠ []

variable {s s' : ScanState}

theorem tokens_cons (s : ScanState) (p : PlacedPiece) (ps : List PlacedPiece) : s.tokens (p :: ps) =
    ⟨s.kindOf p.piece, String.ofList p.piece.characters, p.position⟩ ::
      (s.push (s.kindOf p.piece)).tokens ps := rfl

theorem kindOf_congr (h : s.scopes = s'.scopes) (p : Piece) : s.kindOf p = s'.kindOf p := by
  cases p with
  | word w => simp only [kindOf, h]
  | plain kind cs => rfl

theorem Resumes.enter (h : s.Resumes s') :
    s.scopesAfter (.mark .leftBrace) = s'.scopesAfter (.mark .leftBrace) := by
  obtain ⟨old, he⟩ := h.emitted
  simp only [scopesAfter, h.scopes]
  rcases h.hidden with hlen | ⟨hheader, -⟩
  · have htake : s.emitted.take 2 = s'.emitted.take 2 := by
      rw [he, List.take_append_of_le_length hlen]
    rw [braceWindow, List.take_succ_cons, List.take_succ_cons, htake]
  · obtain ⟨d, hd⟩ := Option.isSome_iff_exists.mp hheader
    simp only [ScopeStack.enter, hd]

theorem Resumes.scopesAfter (h : s.Resumes s') (k : TokenKind) : s.scopesAfter k = s'.scopesAfter k := by
  cases k with
  | mark m =>
    cases m with
    | leftBrace => exact h.enter
    | _ => simp only [ScanState.scopesAfter, h.scopes]
  | _ => simp only [ScanState.scopesAfter, h.scopes]

theorem Resumes.push (h : s.Resumes s') (k : TokenKind) : (s.push k).Resumes (s'.push k) where
  scopes := h.scopesAfter k
  emitted := by
    obtain ⟨old, he⟩ := h.emitted
    exact ⟨old, congrArg (k :: ·) he⟩
  hidden := by
    have hne : s'.emitted ≠ [] := by
      rcases h.hidden with hlen | ⟨-, hne⟩
      · exact List.ne_nil_of_length_pos (by omega)
      · exact hne
    have hpos := List.length_pos_iff.mpr hne
    left
    change 2 ≤ (k :: s'.emitted).length
    rw [List.length_cons]
    omega

theorem Resumes.tokens (h : s.Resumes s') (ps : List PlacedPiece) : s.tokens ps = s'.tokens ps := by
  induction ps generalizing s s' with
  | nil => rfl
  | cons p ps ih =>
    rw [tokens_cons, tokens_cons, kindOf_congr h.scopes, ih (h.push _)]

theorem scopesAfter_declaration {k : Keyword} {d : Header} (hk : k.header? = some d) (s : ScanState) :
    s.scopesAfter (.keyword k) = s.scopes.openHeader d := by
  simp only [scopesAfter, hk]

theorem resumes_declaration (hs : s.scopes = .empty) {k : Keyword} {d : Header} (hk : k.header? = some d) :
    (s.push (.keyword k)).Resumes (start.push (.keyword k)) where
  scopes := by
    rw [push, push, scopesAfter_declaration hk, scopesAfter_declaration hk, hs]
    rfl
  emitted := ⟨s.emitted, rfl⟩
  hidden := by
    right
    rw [push, scopesAfter_declaration hk]
    exact ⟨rfl, List.cons_ne_nil _ _⟩

theorem tokens_resumed (hs : s.scopes = .empty) {ps : List PlacedPiece} {k : Keyword}
    (hp : (start.tokens ps).head?.map (·.kind) = some (.keyword k)) (hk : k.header?.isSome) :
    s.tokens ps = start.tokens ps := by
  obtain ⟨d, hd⟩ := Option.isSome_iff_exists.mp hk
  cases ps with
  | nil => rfl
  | cons p ps =>
    have hkind : start.kindOf p.piece = .keyword k := Option.some.inj hp
    have hsame : s.kindOf p.piece = start.kindOf p.piece := kindOf_congr hs p.piece
    rw [tokens_cons, tokens_cons, hsame, hkind, (resumes_declaration hs hd).tokens]

end ScanState

def scopesAtEnd (source : String) : Except LexError ScopeStack :=
  (pieces .start source.toList).map fun ps => (ScanState.start.after ps).scopes

theorem tokenize_joined {s₁ s₂ : String} {ts₁ ts₂ : List Token} {k : Keyword} (h₁ : tokenize s₁ = .ok ts₁)
    (h₂ : tokenize s₂ = .ok ts₂) (hs : scopesAtEnd s₁ = .ok .empty)
    (hk : k.header?.isSome) (hhead : ts₂.head?.map (·.kind) = some (.keyword k)) :
    tokenize (s₁ ++ "\n" ++ s₂) = .ok (ts₁.dropLast ++ ts₂.map (·.down (s₁.toList.count '\n' + 1))) := by
  obtain ⟨ps, hp, rfl⟩ := tokenize_eq_ok_iff.mp h₁
  obtain ⟨qs, hq, rfl⟩ := tokenize_eq_ok_iff.mp h₂
  have hopen : (ScanState.start.after ps).scopes = .empty := by
    rw [scopesAtEnd, hp] at hs
    exact Except.ok.inj hs
  have hqs : (ScanState.start.tokens qs).head?.map (·.kind) = some (.keyword k) := by
    cases qs with
    | nil => cases hhead
    | cons q qs => exact hhead
  have hsource : (s₁ ++ "\n" ++ s₂).toList = s₁.toList ++ '\n' :: s₂.toList := by simp
  have hend : Position.start.afterAll (s₁.toList ++ '\n' :: s₂.toList) =
      (Position.start.afterAll s₂.toList).down (s₁.toList.count '\n' + 1) := by
    rw [List.append_cons, Position.afterAll_append, Position.start_down, Position.down_afterAll]
  refine tokenize_eq_ok_iff.mpr ⟨ps ++ qs.map (·.down (s₁.toList.count '\n' + 1)), ?_, ?_⟩
  · rw [hsource, pieces_joined hp, Position.start_down, pieces_down hq]
    rfl
  · rw [hsource, hend, ScanState.tokens_append, ← ScanState.after, ScanState.tokens_down,
      ScanState.tokens_resumed hopen hqs hk, List.dropLast_concat, List.map_append, List.append_assoc]
    rfl

namespace Grammar

variable {α : Type} {kept : List TokenKind} {rule : List Symbol → α → Prop} {xs ys : List Symbol}

theorem Items.append {as bs : List α} (h : Items kept rule xs as) (h' : Items kept rule ys bs) :
    Items kept rule (xs ++ ys) (as ++ bs) := by
  induction h with
  | done => exact h'
  | other hk _ ih => exact .other hk ih
  | item ha _ ih =>
    rw [List.append_assoc]
    exact .item ha ih

theorem Items.skip {as : List α} (h : Items kept rule ys as) (hx : ∀ x ∈ xs, x.kind ∉ kept) :
    Items kept rule (xs ++ ys) as := by
  induction xs with
  | nil => exact h
  | cons x xs ih =>
    rw [List.forall_mem_cons] at hx
    exact .other hx.1 (ih hx.2)

theorem QualifiedName.kinds {name : String} (h : QualifiedName xs name) :
    ∀ x ∈ xs, x.kind = .identifier ∨ x.kind = .mark .dot := by
  induction h with
  | single w => simp [Symbol.kind]
  | dotted w _ ih => simpa [Symbol.kind] using ih

theorem ScriptRule.declarations {s : Script} (h : ScriptRule ys s) :
    ∃ ds, Declarations ys ds ∧ s = .ofDeclarations s.package ds := by
  have hcomment : ∀ x : Symbol, x.kind.isComment →
      x.kind ∉ [TokenKind.keyword .importWord, .keyword .classWord] := by
    intro x hx hm
    cases x <;> simp_all [Symbol.kind, TokenKind.isComment]
  cases h with
  | @packaged cs ps xs name ds hc hn hd =>
    refine ⟨ds, Items.skip ?_ fun x hx => hcomment x (hc x hx), rfl⟩
    refine .other (by simp [Symbol.kind]) (Items.skip (.other (by simp [Symbol.kind]) hd) ?_)
    intro x hx
    rcases hn.kinds x hx with hk | hk <;> simp [hk]
  | bare hc _ hd => exact ⟨_, Items.skip hd fun x hx => hcomment x (hc x hx), rfl⟩

theorem ScriptRule.behindComments {cs : List Symbol} (hc : ∀ c ∈ cs, c.kind.isComment) {s : Script}
    (h : ScriptRule xs s) : ScriptRule (cs ++ xs) s := by
  cases h with
  | packaged hc' hn hd =>
    rw [← List.append_assoc]
    exact .packaged (List.forall_mem_append.mpr ⟨hc, hc'⟩) hn hd
  | bare hc' hx hd =>
    rw [← List.append_assoc]
    exact .bare (List.forall_mem_append.mpr ⟨hc, hc'⟩) hx hd

/-- A script behind another one adds its declarations. It has a say in the package only where there is
nothing but comments before it. -/
theorem ScriptRule.append {s t : Script} (h : ScriptRule xs s) (h' : ScriptRule ys t) :
    ScriptRule (xs ++ ys) ⟨if xs.all (·.kind.isComment) then t.package else s.package,
      s.imports ++ t.imports, s.classes ++ t.classes⟩ := by
  by_cases hall : xs.all (·.kind.isComment)
  · have hc : ∀ x ∈ xs, x.kind.isComment := by simpa using hall
    obtain rfl := scriptRule_unique h (Reader.scriptRule_comments hc)
    rw [if_pos hall]
    exact h'.behindComments hc
  · rw [if_neg hall]
    obtain ⟨es, he, ht⟩ := h'.declarations
    rw [ht]
    cases h with
    | packaged hc hn hd =>
      have hs := ScriptRule.packaged hc hn (hd.append he)
      simpa [Script.ofDeclarations] using hs
    | @bare cs xs ds hc hx hd =>
      cases xs with
      | nil => exact absurd (by simpa using hc) hall
      | cons x xs =>
        have hx' : ∀ y ∈ (x :: (xs ++ ys)).head?, ¬ y.kind.isComment ∧ y.kind ≠ .keyword .pkg := hx
        have hs := ScriptRule.bare hc hx' (hd.append he)
        simpa [Script.ofDeclarations] using hs

end Grammar

theorem symbols_down (ts : List Token) (n : Nat) :
    symbols (beforeEnd (ts.map (·.down n))) = symbols (beforeEnd ts) := by
  rw [beforeEnd, List.takeWhile_map, symbols, List.map_map]
  rfl

/-- What is put behind a script that leaves nothing open continues it. -/
theorem parse_joined {s₁ s₂ : String} {ts₁ ts₂ : List Token} {f₁ f₂ : Script} {k : Keyword}
    (h₁ : tokenize s₁ = .ok ts₁) (hp₁ : parse ts₁ = .ok f₁) (hs : scopesAtEnd s₁ = .ok .empty)
    (h₂ : tokenize s₂ = .ok ts₂) (hp₂ : parse ts₂ = .ok f₂)
    (hk : k = .pkg ∨ k = .importWord ∨ k = .classWord)
    (hhead : ts₂.head?.map (·.kind) = some (.keyword k)) :
    let ts := ts₁.dropLast ++ ts₂.map (·.down (s₁.toList.count '\n' + 1))
    tokenize (s₁ ++ "\n" ++ s₂) = .ok ts ∧
      parse ts = .ok ⟨if ts₁.dropLast.all (·.kind.isComment) then f₂.package else f₁.package,
        f₁.imports ++ f₂.imports, f₁.classes ++ f₂.classes⟩ := by
  intro ts
  have hkh : k.header?.isSome := by rcases hk with rfl | rfl | rfl <;> rfl
  refine ⟨tokenize_joined h₁ h₂ hs hkh hhead, parse_of_derives ?_⟩
  obtain ⟨he, hne⟩ := eof_of_tokenize h₁
  have hbefore : beforeEnd ts₁ = ts₁.dropLast := by
    conv_lhs => rw [he, beforeEnd_append hne]
    exact List.append_nil _
  have hd₁ := derives_of_read (read_of_parse hp₁)
  have hd₂ := derives_of_read (read_of_parse hp₂)
  rw [hbefore] at hd₁
  have hcomments : (symbols ts₁.dropLast).all (·.kind.isComment) = ts₁.dropLast.all (·.kind.isComment) := by
    simp only [symbols, List.all_map, Function.comp_def, Token.kind_symbol]
  rw [beforeEnd_append hne, symbols_append, symbols_down, ← hcomments]
  exact hd₁.append hd₂

theorem parse_joined_aliases :
    let s₁ := "pkg a;\n\x7d aliases"
    let s₂ := "pkg b; class C \x7b fd d; \x7d"
    let ts₁ : List Token := [⟨.keyword .pkg, "pkg", ⟨1, 1⟩⟩, ⟨.identifier, "a", ⟨1, 5⟩⟩,
      ⟨.mark .semicolon, ";", ⟨1, 6⟩⟩, ⟨.mark .rightBrace, "\x7d", ⟨2, 1⟩⟩,
      ⟨.keyword .aliases, "aliases", ⟨2, 3⟩⟩, .eof ⟨2, 10⟩]
    let ts₂ : List Token := [⟨.keyword .pkg, "pkg", ⟨1, 1⟩⟩, ⟨.identifier, "b", ⟨1, 5⟩⟩,
      ⟨.mark .semicolon, ";", ⟨1, 6⟩⟩, ⟨.keyword .classWord, "class", ⟨1, 8⟩⟩,
      ⟨.identifier, "C", ⟨1, 14⟩⟩, ⟨.mark .leftBrace, "\x7b", ⟨1, 16⟩⟩, ⟨.keyword .fd, "fd", ⟨1, 18⟩⟩,
      ⟨.identifier, "d", ⟨1, 21⟩⟩, ⟨.mark .semicolon, ";", ⟨1, 22⟩⟩,
      ⟨.mark .rightBrace, "\x7d", ⟨1, 24⟩⟩, .eof ⟨1, 25⟩]
    let c : ClassDecl := (ClassDecl.ofHeader "C" none .empty).addField ⟨"d", none, [], .empty⟩
    (tokenize s₁ = .ok ts₁ ∧ parse ts₁ = .ok ⟨some "a", [], []⟩ ∧ scopesAtEnd s₁ = .ok .empty ∧
      tokenize s₂ = .ok ts₂ ∧ parse ts₂ = .ok ⟨some "b", [], [c]⟩) ∧
      tokenize (s₁ ++ "\n" ++ s₂) = .ok (ts₁.dropLast ++ ts₂.map (·.down 2)) ∧
      parse (ts₁.dropLast ++ ts₂.map (·.down 2)) = .ok ⟨some "a", [], [c]⟩ := by
  intro s₁ s₂ ts₁ ts₂ c
  have h₁ : tokenize s₁ = .ok ts₁ := by cbv
  have h₂ : tokenize s₂ = .ok ts₂ := by cbv
  have hp₁ : parse ts₁ = .ok ⟨some "a", [], []⟩ := by cbv
  have hp₂ : parse ts₂ = .ok ⟨some "b", [], [c]⟩ := by
    have hl : Script.Legal ⟨some "b", [], [c]⟩ := by decide
    exact parse_of_derives (derives_script hl)
  have hs : scopesAtEnd s₁ = .ok .empty := by cbv
  have hn : s₁.toList.count '\n' + 1 = 2 := by decide
  have hj := parse_joined h₁ hp₁ hs h₂ hp₂ (.inl rfl) rfl
  rw [hn] at hj
  exact ⟨⟨h₁, hp₁, hs, h₂, hp₂⟩, hj⟩

end ObfuscationMap
