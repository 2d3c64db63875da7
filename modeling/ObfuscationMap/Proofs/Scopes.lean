import ObfuscationMap.Proofs.Words

/-!
The scopes as a plain stack. The word of a declaration pushes its header, a brace puts a body in the place of
an open header or else on top, a semicolon pops headers, and a closing brace pops them and one block more unless
only one scope is left. None of this keeps headers from piling up. They do not, because no word of
a header opens another one, and so the stack always has the shape that the scanner relies on: the script at
the bottom, a block above it for each open brace, and at most one header, on top.
-/

namespace ObfuscationMap

/-- Scopes that are pushed and popped, the last one pushed first, and the kinds of the tokens so far, the last
one first. -/
structure PlainScan where
  scopes : List Scope
  emitted : List TokenKind

namespace PlainScan

def start : PlainScan := ⟨[.script], []⟩

def current (s : PlainScan) : Scope := s.scopes.head?.getD .script

def kindOf (s : PlainScan) : Piece → TokenKind
  | .word w => s.current.classify (String.ofList w)
  | .plain kind _ => kind

def withoutHeaders (s : PlainScan) : List Scope := s.scopes.dropWhile (·.isHeader)

def opened (s : PlainScan) (recent : List TokenKind) : List Scope :=
  match s.current with
  | .header h => .block h.body :: s.scopes.tail
  | _ => .block (.ofRecent recent) :: s.scopes

def closed (s : PlainScan) : List Scope :=
  if 1 < s.withoutHeaders.length then s.withoutHeaders.tail else s.withoutHeaders

def named (s : PlainScan) : TokenKind → List Scope
  | .keyword k => (k.header?.map Scope.header).toList ++ s.scopes
  | _ => s.scopes

def scopesAfter (s : PlainScan) : Piece → List Scope
  | .word w => s.named (s.kindOf (.word w))
  | .plain (.mark .leftBrace) _ => s.opened ((.mark .leftBrace :: s.emitted).take braceWindow)
  | .plain (.mark .rightBrace) _ => s.closed
  | .plain (.mark .semicolon) _ => s.withoutHeaders
  | .plain _ _ => s.scopes

def step (s : PlainScan) (p : Piece) : PlainScan := ⟨s.scopesAfter p, s.kindOf p :: s.emitted⟩

def run (ps : List Piece) : PlainScan := ps.foldl step start

end PlainScan

def ScanState.run (ps : List Piece) : ScanState := ps.foldl step start

namespace ScopeStack

variable (s : ScopeStack)

theorem toList_header (h : Header) (bs : List Block) :
    toList ⟨some h, bs⟩ = .header h :: toList ⟨none, bs⟩ := rfl

theorem head?_toList_getD : s.toList.head?.getD .script = s.top := by
  rw [head?_toList, Option.getD_some]

theorem dropWhile_toList : s.toList.dropWhile (·.isHeader) = s.closeHeader.toList := by
  obtain ⟨header, blocks⟩ := s
  cases header with
  | none => cases blocks <;> rfl
  | some h => cases blocks <;> rfl

end ScopeStack

namespace PlainScan

structure Agrees (p : PlainScan) (s : ScanState) : Prop where
  scopes : p.scopes = s.scopes.toList
  emitted : p.emitted = s.emitted

variable {p : PlainScan} {s : ScanState}

theorem agrees_start : start.Agrees .start := ⟨rfl, rfl⟩

theorem Agrees.current (h : p.Agrees s) : p.current = s.scopes.top := by
  rw [PlainScan.current, h.scopes, ScopeStack.head?_toList_getD]

theorem Agrees.kindOf (h : p.Agrees s) (q : Piece) : p.kindOf q = s.kindOf q := by
  cases q with
  | word w => rw [PlainScan.kindOf, h.current, ScanState.kindOf]
  | plain kind cs => rfl

theorem Agrees.withoutHeaders (h : p.Agrees s) : p.withoutHeaders = s.scopes.closeHeader.toList := by
  rw [PlainScan.withoutHeaders, h.scopes, ScopeStack.dropWhile_toList]

theorem Agrees.opened (h : p.Agrees s) (recent : List TokenKind) :
    p.opened recent = (s.scopes.enter recent).toList := by
  rw [PlainScan.opened, h.current, h.scopes]
  obtain ⟨⟨header, blocks⟩, emitted⟩ := s
  cases header with
  | none => cases blocks <;> rfl
  | some d => rfl

theorem Agrees.closed (h : p.Agrees s) : p.closed = s.scopes.leave.toList := by
  rw [PlainScan.closed, h.withoutHeaders]
  obtain ⟨⟨header, blocks⟩, emitted⟩ := s
  cases blocks with
  | nil => rfl
  | cons b bs => rw [if_pos (by simp [ScopeStack.closeHeader, ScopeStack.toList])]; rfl

/-- No word of a header opens another one. -/
theorem header?_of_classify {h : Header} {w : String} {k : Keyword}
    (hk : (Scope.header h).classify w = .keyword k) : k.header? = none := by
  cases h with
  | importPath =>
    rw [Scope.classify] at hk
    split at hk
    · cases hk
      rfl
    · cases hk
  | _ => cases hk

theorem Agrees.named (h : p.Agrees s) (w : List Char) :
    p.named (s.kindOf (.word w)) = (s.scopesAfter (s.kindOf (.word w))).toList := by
  have hscopes := h.scopes
  have hword : (s.kindOf (.word w)).isWord := isWord_classify _ _
  obtain ⟨⟨header, blocks⟩, emitted⟩ := s
  cases hk : ScanState.kindOf ⟨⟨header, blocks⟩, emitted⟩ (.word w) with
  | identifier => exact hscopes
  | keyword k =>
    cases hd : k.header? with
    | none =>
      simp only [PlainScan.named, ScanState.scopesAfter, hd, Option.map_none, Option.toList_none,
        List.nil_append, hscopes]
    | some d =>
      -- A header that is open already would have to stay, but then the word opens none.
      cases header with
      | some d' => exact absurd (hd.symm.trans (header?_of_classify hk)) (by simp)
      | none =>
        simp only [PlainScan.named, ScanState.scopesAfter, hd, Option.map_some, Option.toList_some, hscopes,
          ScopeStack.openHeader, ScopeStack.toList_header, List.singleton_append]
  | _ =>
    rw [hk] at hword
    cases hword

theorem Agrees.scopesAfter (h : p.Agrees s) {q : Piece} (hq : q.Sorted) :
    p.scopesAfter q = (s.scopesAfter (s.kindOf q)).toList := by
  cases q with
  | word w => rw [PlainScan.scopesAfter, h.kindOf, h.named]
  | plain kind cs =>
    cases kind with
    | mark m =>
      cases m with
      | leftBrace => rw [PlainScan.scopesAfter, h.emitted, h.opened]; rfl
      | rightBrace => exact h.closed
      | semicolon => exact h.withoutHeaders
      | _ => exact h.scopes
    | identifier | keyword k => exact absurd rfl hq
    | text | number | comment | javadoc | eof => exact h.scopes

theorem Agrees.step (h : p.Agrees s) {q : Piece} (hq : q.Sorted) : (p.step q).Agrees (s.step q) where
  scopes := h.scopesAfter hq
  emitted := by rw [PlainScan.step, ScanState.step, h.kindOf, h.emitted]

theorem agrees_run {ps : List Piece} (h : ∀ q ∈ ps, q.Sorted) : (run ps).Agrees (ScanState.run ps) := by
  induction ps using List.reverseRecOn with
  | nil => exact agrees_start
  | append_singleton ps q ih =>
    rw [List.forall_mem_append] at h
    rw [run, ScanState.run, List.foldl_concat, List.foldl_concat]
    exact (ih h.1).step (h.2 q (List.mem_singleton_self q))

end PlainScan

/-- How many braces are open behind the tokens. A closing brace with nothing to close does not count. -/
def braceDepth (kinds : List TokenKind) : Nat :=
  kinds.foldl (fun depth k =>
    match k with
    | .mark .leftBrace => depth + 1
    | .mark .rightBrace => depth - 1
    | _ => depth) 0

theorem length_openBraces (before : List TokenKind) : (openBraces before).length = braceDepth before.reverse := by
  induction before with
  | nil => rfl
  | cons k before ih =>
    rw [List.reverse_cons, braceDepth, List.foldl_concat, ← braceDepth, ← ih]
    cases k with
    | mark m =>
      cases m with
      | rightBrace => exact List.length_tail
      | _ => rfl
    | _ => rfl

/-- The script is at the bottom and nowhere else, a header is nowhere but on top, and there is a block for each open
brace. -/
structure InShape (scopes : List Scope) (kinds : List TokenKind) : Prop where
  nonempty : scopes ≠ []
  bottom : scopes.getLast? = some .script
  script : .script ∉ scopes.dropLast
  headers : ∀ c ∈ scopes.tail, c.isHeader = false
  depth : (scopes.dropLast.filter fun c => !c.isHeader).length = braceDepth kinds

namespace ScopeStack

def above (s : ScopeStack) : List Scope := (s.header.map Scope.header).toList ++ s.blocks.map Scope.block

theorem toList_eq_above (s : ScopeStack) : s.toList = s.above ++ [.script] := rfl

theorem not_isHeader_of_mem_tail {s : ScopeStack} {c : Scope} (h : c ∈ s.toList.tail) : c.isHeader = false := by
  have hc : c ∈ s.blocks.map Scope.block ++ [.script] := by
    obtain ⟨header, blocks⟩ := s
    cases header with
    | none => exact List.mem_of_mem_tail h
    | some d => exact h
  rcases List.mem_append.mp hc with hb | hs
  · obtain ⟨b, -, rfl⟩ := List.mem_map.mp hb
    rfl
  · rw [List.mem_singleton.mp hs]
    rfl

theorem filter_above (s : ScopeStack) : s.above.filter (fun c => !c.isHeader) = s.blocks.map Scope.block := by
  have hblocks : (s.blocks.map Scope.block).filter (fun c => !c.isHeader) = s.blocks.map Scope.block :=
    List.filter_eq_self.mpr (List.forall_mem_map.mpr fun _ _ => rfl)
  rw [above, List.filter_append, hblocks]
  cases s.header <;> rfl

theorem inShape {s : ScopeStack} {kinds : List TokenKind} (h : s.blocks.length = braceDepth kinds) :
    InShape s.toList kinds where
  nonempty := by simp [toList_eq_above]
  bottom := by rw [toList_eq_above, List.getLast?_concat]
  script := by simp [toList_eq_above, above]
  headers _ hc := not_isHeader_of_mem_tail hc
  depth := by rw [toList_eq_above, List.dropLast_concat, filter_above, List.length_map, h]

end ScopeStack

theorem ScanState.recalls_run (ps : List Piece) : (run ps).Recalls := by
  induction ps using List.reverseRecOn with
  | nil => exact recalls_start
  | append_singleton ps q ih =>
    rw [run, List.foldl_concat]
    exact ih.step q

theorem ScanState.inShape_run (ps : List Piece) : InShape (run ps).scopes.toList (run ps).emitted.reverse :=
  ScopeStack.inShape ((recalls_run ps).blocks.length_eq.trans (length_openBraces _))

/-- The pieces that were cut off a source when `rest` is left of it. -/
inductive Scanning (source : List Char) : List Piece → List Char → Prop
  | start : Scanning source [] source
  | blank {ps : List Piece} {c : Char} {cs : List Char} {k : Cut} : Scanning source ps (c :: cs) →
      cut c cs = .ok k → k.piece = none → Scanning source ps k.rest
  | piece {ps : List Piece} {c : Char} {cs : List Char} {k : Cut} {q : Piece} : Scanning source ps (c :: cs) →
      cut c cs = .ok k → k.piece = some q → Scanning source (ps ++ [q]) k.rest

namespace Scanning

variable {source rest : List Char} {ps : List Piece}

theorem sorted (h : Scanning source ps rest) : ∀ q ∈ ps, q.Sorted := by
  induction h with
  | start => exact List.forall_mem_nil _
  | blank _ _ _ ih => exact ih
  | piece _ hc hq ih => exact List.forall_mem_append.mpr ⟨ih, by simpa using sorted_cut hc _ hq⟩

theorem pieces_eq (h : Scanning source ps rest) {place : Position} {qs : List PlacedPiece}
    (hq : pieces place source = .ok qs) :
    ∃ place' rs, pieces place' rest = .ok rs ∧ qs.map (·.piece) = ps ++ rs.map (·.piece) := by
  induction h with
  | start => exact ⟨place, qs, hq, rfl⟩
  | blank _ hc hn ih =>
    obtain ⟨place', rs, hr, he⟩ := ih
    rw [pieces_blank hc hn] at hr
    exact ⟨_, rs, hr, he⟩
  | @piece ps c cs k q _ hc hs ih =>
    obtain ⟨place', rs, hr, he⟩ := ih
    rw [pieces_piece hc hs] at hr
    cases hk : pieces (place'.afterAll k.spelling) k.rest with
    | error e =>
      rw [hk] at hr
      cases hr
    | ok rs' =>
      rw [hk] at hr
      obtain rfl := Except.ok.inj hr
      exact ⟨_, rs', hk, by simpa using he⟩

theorem exists_take (h : Scanning source ps rest) {place : Position} {rs : List PlacedPiece}
    (hr : pieces place rest = .ok rs) (n : Nat) :
    ∃ rest', Scanning source (ps ++ (rs.map (·.piece)).take n) rest' := by
  induction hr using pieces_ok_induction generalizing ps n with
  | nil => exact ⟨_, by simpa using h⟩
  | blank place c cs k rs _ hc hn _ ih => exact ih (h.blank hc hn) n
  | piece place c cs k q rs _ hc hs _ ih =>
    cases n with
    | zero => exact ⟨_, by simpa using h⟩
    | succ n => simpa using ih (h.piece hc hs) n

end Scanning

namespace ScanState

theorem tokens_take (s : ScanState) (ps : List PlacedPiece) (n : Nat) :
    (s.tokens ps).take n = s.tokens (ps.take n) := by
  induction ps generalizing s n with
  | nil => simp [tokens]
  | cons p ps ih =>
    cases n with
    | zero => rfl
    | succ n => rw [tokens, List.take_succ_cons, ih, List.take_succ_cons, tokens]

theorem emitted_foldl (s : ScanState) (ps : List PlacedPiece) :
    ((ps.map (·.piece)).foldl step s).emitted = ((s.tokens ps).map (·.kind)).reverse ++ s.emitted := by
  induction ps generalizing s with
  | nil => rfl
  | cons p ps ih =>
    rw [List.map_cons, List.foldl_cons, ih, tokens]
    simp [step, token]

theorem emitted_run {qs : List PlacedPiece} {ps rs : List Piece} (h : qs.map (·.piece) = ps ++ rs)
    (place : Position) : (run ps).emitted = kindsBefore (start.tokens qs ++ [.eof place]) ps.length := by
  have hlen : ps.length ≤ qs.length := by
    have hlength := congrArg List.length h
    rw [List.length_map, List.length_append] at hlength
    omega
  have hps : ps = (qs.take ps.length).map (·.piece) := by rw [List.map_take, h, List.take_left]
  rw [kindsBefore_append (by rw [length_tokens]; exact hlen), kindsBefore, tokens_take]
  conv_lhs => rw [hps]
  rw [run, emitted_foldl]
  exact List.append_nil _

end ScanState

/-- At every moment of scanning, the scopes that are kept are those of a plain stack, and they are in shape. The
tokens so far are the first tokens of a source that has tokens, and it has a moment for each number of them. -/
theorem scopes_in_shape (source : String) :
    (∀ ps rest, Scanning source.toList ps rest → (PlainScan.run ps).Agrees (ScanState.run ps) ∧
      InShape (ScanState.run ps).scopes.toList (ScanState.run ps).emitted.reverse) ∧
    ∀ ts, tokenize source = .ok ts →
      (∀ ps rest, Scanning source.toList ps rest → (ScanState.run ps).emitted = kindsBefore ts ps.length) ∧
      ∀ n < ts.length, ∃ ps rest, Scanning source.toList ps rest ∧ ps.length = n := by
  refine ⟨fun ps rest h => ⟨PlainScan.agrees_run h.sorted, ScanState.inShape_run ps⟩, fun ts hts => ?_⟩
  obtain ⟨qs, place, hq, rfl⟩ := tokenize_eq_ok hts
  constructor
  · intro ps rest h
    obtain ⟨-, rs, -, he⟩ := h.pieces_eq hq
    exact ScanState.emitted_run he place
  · intro n hn
    obtain ⟨rest, h⟩ := Scanning.start.exists_take hq n
    refine ⟨_, rest, h, ?_⟩
    rw [List.length_append, List.length_singleton, ScanState.length_tokens] at hn
    rw [List.nil_append, List.length_take, List.length_map]
    omega

theorem scopes_in_shape_unmatched :
    let source := "\x7d import a \x7b class B"
    let ps : List Piece := [.plain (.mark .rightBrace) ['\x7d'], .word "import".toList, .word ['a'],
      .plain (.mark .leftBrace) ['\x7b'], .word "class".toList, .word ['B']]
    let ts : List Token := [⟨.mark .rightBrace, "\x7d", ⟨1, 1⟩⟩, ⟨.keyword .importWord, "import", ⟨1, 3⟩⟩,
      ⟨.identifier, "a", ⟨1, 10⟩⟩, ⟨.mark .leftBrace, "\x7b", ⟨1, 12⟩⟩, ⟨.keyword .classWord, "class", ⟨1, 14⟩⟩,
      ⟨.identifier, "B", ⟨1, 20⟩⟩, .eof ⟨1, 21⟩]
    (tokenize source = .ok ts ∧ ∃ rest, Scanning source.toList ps rest) ∧
      (ScanState.run ps).scopes.toList = [.header .className, .block .other, .script] ∧
      (PlainScan.run ps).Agrees (ScanState.run ps) ∧
      InShape (ScanState.run ps).scopes.toList (ScanState.run ps).emitted.reverse ∧
      (ScanState.run ps).emitted = kindsBefore ts 6 := by
  intro source ps ts
  let qs : List PlacedPiece := [⟨.plain (.mark .rightBrace) ['\x7d'], ⟨1, 1⟩⟩, ⟨.word "import".toList, ⟨1, 3⟩⟩,
    ⟨.word ['a'], ⟨1, 10⟩⟩, ⟨.plain (.mark .leftBrace) ['\x7b'], ⟨1, 12⟩⟩, ⟨.word "class".toList, ⟨1, 14⟩⟩,
    ⟨.word ['B'], ⟨1, 20⟩⟩]
  have hq : pieces .start source.toList = .ok qs := by cbv
  have hts : tokenize source = .ok ts := by cbv
  obtain ⟨rest, h⟩ := Scanning.start.exists_take hq 6
  have hmoments := (scopes_in_shape source).1 ps rest h
  exact ⟨⟨hts, rest, h⟩, by decide, hmoments.1, hmoments.2, ((scopes_in_shape source).2 ts hts).1 ps rest h⟩

end ObfuscationMap
