import Mathlib
import ObfuscationMap.Compilation
import ObfuscationMap.Proofs.Parsing
import ObfuscationMap.Proofs.Writing.Derivation
import ObfuscationMap.Proofs.Writing.Scanning
import ObfuscationMap.Proofs.Writing.Spelling

/-!
Scripts that are written out are read back. Any text of a script's symbols, however it is laid out, has
these symbols for tokens, and from them the parser reads the script again. `Script.write` is one such
text.
-/

namespace ObfuscationMap

theorem layout_ne_eof {ps : List Piece} {cs : List Char} (h : Layout ps cs) :
    ∀ p ∈ ps, ∀ ds, p ≠ .plain .eof ds := by
  induction h with
  | done => simp
  | blank _ _ ih => exact ih
  | piece hs _ ih =>
    rw [List.forall_mem_cons]
    refine ⟨fun ds he => ?_, ih⟩
    subst he
    cases hs

theorem ne_eof_of_lays {xs : List Symbol} {source : String} (h : Lays xs source) : .eof ∉ xs := by
  intro hx
  exact layout_ne_eof h _ (List.mem_map_of_mem hx) [] rfl

theorem tokenize_of_lays {xs : List Symbol} {source : String} {σ : ScopeStack} (h : Lays xs source)
    (hr : ScopeStack.empty.Reads xs σ) :
    ∃ ts p, tokenize source = .ok (ts ++ [.eof p]) ∧ symbols ts = xs := by
  obtain ⟨ps, hp, he⟩ := pieces_of_layout h .start
  obtain ⟨hs, -⟩ := hr [] ps he
  refine ⟨ScanState.start.tokens ps, Position.start.afterAll source.toList, ?_, hs⟩
  rw [tokenize, hp]
  rfl

theorem beforeEnd_eof {ts : List Token} (h : .eof ∉ symbols ts) (p : Position) :
    beforeEnd (ts ++ [.eof p]) = ts := by
  have hk : ∀ t ∈ ts, t.kind ≠ .eof := by
    intro t ht he
    apply h
    rw [symbols, List.mem_map]
    exact ⟨t, ht, Token.symbol_of_kind he⟩
  rw [beforeEnd_append hk]
  exact List.append_nil ts

theorem compile_of_parse {source : String} {ts : List Token} {s : Script} (ht : tokenize source = .ok ts)
    (hp : parse ts = .ok s) : compile source = .ok s.resolve := by
  simp only [compile, parseSource, ht, hp]
  rfl

theorem compile_of_symbols {source : String} {ts : List Token} {s : Script} (ht : tokenize source = .ok ts)
    (hs : s.Legal) (hx : symbols (beforeEnd ts) = s.symbols) : compile source = .ok s.resolve := by
  have hd := derives_script hs
  rw [← hx] at hd
  exact compile_of_parse ht (parse_of_derives hd)

theorem read_written {s : Script} (hs : s.Legal) (ha : ∀ i ∈ s.imports, i.AvoidsAs) :
    Lays s.symbols s.write ∧ ∀ source, Lays s.symbols source →
      ∃ ts, tokenize source = .ok ts ∧ parse ts = .ok s ∧ compile source = .ok s.resolve := by
  refine ⟨lays_write hs, fun source hl => ?_⟩
  obtain ⟨ts, p, ht, hx⟩ := tokenize_of_lays hl (ScopeStack.reads_script ha)
  have hd := derives_script hs
  have hp : parse (ts ++ [.eof p]) = .ok s := by
    apply parse_of_derives
    rw [beforeEnd_eof (hx ▸ ne_eof_of_lays hl), hx]
    exact hd
  exact ⟨_, ht, hp, compile_of_parse ht hp⟩

theorem read_written_reserved :
    let inner : ClassDecl := ⟨"as", some "pkg", .empty, [], [], [], [.live "fd" "md" .empty]⟩
    let method : MethodDecl :=
      ⟨"fd", [⟨"md.fd", true⟩], some "class", some " *", [.gone "removed", .live "aliases" "as" .empty],
        .empty⟩
    let s : Script := ⟨some "import.class", [⟨"pkg.md", some "fd"⟩],
      [⟨"class", some "md.as", ⟨[("removed", "x")], by decide⟩, [method], [⟨"md", none, [], .empty⟩],
        [inner], []⟩]⟩
    (s.Legal ∧ ∀ i ∈ s.imports, i.AvoidsAs) ∧ Lays s.symbols s.write ∧ ∀ source, Lays s.symbols source →
      ∃ ts, tokenize source = .ok ts ∧ parse ts = .ok s ∧ compile source = .ok s.resolve := by
  intro inner method s
  have hempty : Metadata.Legal .empty := by decide
  have hgone : (Alias.gone "removed").Legal := ⟨by decide, fun _ => ⟨rfl, rfl⟩, fun h => absurd rfl h⟩
  have hlive : ∀ v n, isIdentifier v → isIdentifier n → v ≠ "removed" → (Alias.live v n .empty).Legal :=
    fun v n hv hn hr => ⟨hv, fun h => absurd h (by simp [Alias.live]), fun _ => ⟨hn, hempty, hr⟩⟩
  have hinner : inner.Legal := by
    refine .mk (by decide) (by decide) (by decide) (by simp [inner]) (by simp [inner]) (by simp [inner]) ?_
    simpa [inner] using hlive "fd" "md" (by decide) (by decide) (by decide)
  have hdoc : IsDocumentation " *" := ⟨by decide, by decide⟩
  have hmethod : method.Legal := by
    refine ⟨by decide, by decide, by decide, by simpa [method] using hdoc, by decide, ?_⟩
    simpa [method] using ⟨hgone, hlive "aliases" "as" (by decide) (by decide) (by decide)⟩
  have hfield : FieldDecl.Legal ⟨"md", none, [], .empty⟩ := ⟨by decide, by decide, by decide, by simp⟩
  have hs : s.Legal := by
    refine ⟨by decide, ?_, ?_⟩
    · simpa [s] using Import.Legal.mk (i := ⟨"pkg.md", some "fd"⟩) (by decide) (by decide)
    · have hc := ClassDecl.Legal.mk (c := s.classes[0]) (by decide) (by decide) (by decide)
        (by simpa [s] using hmethod) (by simpa [s] using hfield) (by simpa [s] using hinner) (by simp [s])
      simpa [s] using hc
  have ha : ∀ i ∈ s.imports, i.AvoidsAs := by
    simpa [s] using Import.AvoidsAs.mk (i := ⟨"pkg.md", some "fd"⟩) (by decide) (by decide)
  exact ⟨⟨hs, ha⟩, read_written hs ha⟩

/-- As part of an import's path `as` is no name, so this import, legal otherwise, is lost. -/
theorem import_of_as_unread :
    let s : Script := ⟨none, [⟨"a.as", none⟩], []⟩
    s.Legal ∧ s.write = "import a . as ; " ∧ ¬ ∃ ts, tokenize s.write = .ok ts ∧ parse ts = .ok s := by
  intro s
  have hi : Import.Legal ⟨"a.as", none⟩ := ⟨by decide, by decide⟩
  have hw : s.write = "import a . as ; " := by decide
  refine ⟨⟨by simp [s], by simpa [s] using hi, by simp [s]⟩, hw, ?_⟩
  rintro ⟨ts, ht, hp⟩
  have hc : compile "import a . as ; " = .error (.parse ⟨.namePart, "'as'", ⟨1, 12⟩⟩) := by cbv
  rw [← hw, compile_of_parse ht hp] at hc
  cases hc

end ObfuscationMap
