import Mathlib.Data.List.TakeWhile
import ObfuscationMap.Proofs.Grammar.ClassBodies

/-!
The top of a script. Its declarations go on to the end of the tokens, and so does the script, which is
why both are readers that leave nothing. Whether a script has a package is settled by the first token
that is no comment.
-/

namespace ObfuscationMap
namespace Reader
open Grammar

variable {α β : Type}

def toEnd (read : List Token → Except Mismatch α) : Reader α := fun ts => (read ts).map fun a => (a, [])

theorem toEnd_ok {read : List Token → Except Mismatch α} {ts : List Token} {a : α} (h : read ts = .ok a) :
    toEnd read ts = .ok (a, []) := by
  simp only [toEnd, h, Except.map]

theorem toEnd_error {read : List Token → Except Mismatch α} {ts : List Token} {m : Mismatch}
    (h : read ts = .error m) : toEnd read ts = .error m := by
  simp only [toEnd, h, Except.map]

theorem toEnd_congr {read : List Token → Except Mismatch α} {ts us : List Token} (h : read ts = read us) :
    toEnd read ts = toEnd read us := by
  simp only [toEnd, h]

theorem toEnd_map {read : List Token → Except Mismatch α} {read' : List Token → Except Mismatch β}
    {ts us : List Token} (f : α → β) (h : read' ts = (read us).map f) :
    toEnd read' ts = (toEnd read us).map fun p => (f p.1, p.2) := by
  simp only [toEnd, h]
  cases read us <;> rfl

section declarations

variable {t : Token} {ts rest : List Token}

theorem declarations_import_error (ht : t.kind = .keyword .importWord) {m : Mismatch}
    (hi : importDecl ts = .error m) : declarations (t :: ts) = .error m := by
  rw [declarations]
  simp only [ht]
  split
  · next e he => rw [hi] at he; cases he; rfl
  · next i rest he => rw [hi] at he; cases he

theorem declarations_import (ht : t.kind = .keyword .importWord) {i : Import}
    (hi : importDecl ts = .ok (i, rest)) :
    declarations (t :: ts) = (declarations rest).map fun r => (i :: r.1, r.2) := by
  conv => lhs; rw [declarations.eq_def]
  simp only [ht]
  split
  · next e he => rw [hi] at he; cases he
  · next i rest he => rw [hi] at he; cases he; rfl

theorem declarations_class_error (ht : t.kind = .keyword .classWord) {m : Mismatch}
    (hc : classDecl ts = .error m) : declarations (t :: ts) = .error m := by
  rw [declarations]
  simp only [ht]
  split
  · next e he => rw [hc] at he; cases he; rfl
  · next c rest he => rw [hc] at he; cases he

theorem declarations_class (ht : t.kind = .keyword .classWord) {c : ClassDecl}
    (hc : classDecl ts = .ok (c, rest)) :
    declarations (t :: ts) = (declarations rest).map fun r => (r.1, c :: r.2) := by
  conv => lhs; rw [declarations.eq_def]
  simp only [ht]
  split
  · next e he => rw [hc] at he; cases he
  · next c rest he => rw [hc] at he; cases he; rfl

theorem declarations_other (ht : t.kind ∉ [.keyword .importWord, .keyword .classWord]) :
    declarations (t :: ts) = declarations ts := by
  conv => lhs; rw [declarations.eq_def]
  simp only [List.mem_cons, List.not_mem_nil, or_false, not_or] at ht
  split <;> simp_all

end declarations

def SortedDeclarations (xs : List Symbol) (p : List Import × List ClassDecl) : Prop :=
  ∃ ds, Declarations xs ds ∧ (ds.filterMap Declaration.import?, ds.filterMap Declaration.class?) = p

theorem SortedDeclarations.importDecl {us ys : List Symbol} {i : Import}
    {p : List Import × List ClassDecl} (hi : ImportRule us i) (h : SortedDeclarations ys p) :
    SortedDeclarations (.keyword .importWord :: (us ++ ys)) (i :: p.1, p.2) := by
  obtain ⟨ds, hd, rfl⟩ := h
  exact ⟨.importDecl i :: ds, .item (.importDecl hi) hd, rfl⟩

theorem SortedDeclarations.classDecl {us ys : List Symbol} {c : ClassDecl}
    {p : List Import × List ClassDecl} (hc : ClassRule us c) (h : SortedDeclarations ys p) :
    SortedDeclarations (.keyword .classWord :: (us ++ ys)) (p.1, c :: p.2) := by
  obtain ⟨ds, hd, rfl⟩ := h
  exact ⟨.classDecl c :: ds, .item (.classDecl hc) hd, rfl⟩

theorem sortedDeclarations_nil : SortedDeclarations [] ([], []) := ⟨[], .done, rfl⟩

theorem follows_declarations : (toEnd declarations).Follows SortedDeclarations where
  completable := ⟨[], ([], []), by simp, sortedDeclarations_nil⟩
  explains ts := by
    induction ts using declarations.induct with
    | case1 =>
      refine .of_ok [] (a := ([], [])) sortedDeclarations_nil fun rest' hh => ?_
      rw [List.head?_nil, List.head?_eq_none_iff] at hh
      rw [hh, List.nil_append]
      exact toEnd_ok (by rw [declarations])
    | case2 t ts ht m he =>
      obtain ⟨us, rest, rfl, hm, hc, hs⟩ := (follows_importDecl.explains ts).error m he
      refine .of_error (t :: us) hm (hc.mono (fun i => ([i], [])) fun ys i hi => ?_) fun rest' hh =>
        toEnd_error (declarations_import_error ht (hs rest' hh))
      rw [symbols_cons, Token.symbol_of_kind ht]
      simpa [Symbol.of] using sortedDeclarations_nil.importDecl hi
    | case3 t ts ht i rest he _ ih =>
      obtain ⟨us, rfl, hi, hs⟩ := (follows_importDecl.explains ts).ok i rest he
      refine ih.round (t :: us) _ (fun rest' hh =>
        toEnd_map _ (declarations_import ht (hs rest' hh))) fun ys p hp => ?_
      rw [symbols_cons, Token.symbol_of_kind ht]
      exact hp.importDecl hi
    | case4 t ts ht m he =>
      obtain ⟨us, rest, rfl, hm, hc, hs⟩ := (follows_classDecl.explains ts).error m he
      refine .of_error (t :: us) hm (hc.mono (fun c => ([], [c])) fun ys c hc => ?_) fun rest' hh =>
        toEnd_error (declarations_class_error ht (hs rest' hh))
      rw [symbols_cons, Token.symbol_of_kind ht]
      simpa [Symbol.of] using sortedDeclarations_nil.classDecl hc
    | case5 t ts ht c rest he _ ih =>
      obtain ⟨us, rfl, hc, hs⟩ := (follows_classDecl.explains ts).ok c rest he
      refine ih.round (t :: us) _ (fun rest' hh =>
        toEnd_map _ (declarations_class ht (hs rest' hh))) fun ys p hp => ?_
      rw [symbols_cons, Token.symbol_of_kind ht]
      exact hp.classDecl hc
    | case6 t ts hi hc ih =>
      have hk : t.kind ∉ [.keyword .importWord, .keyword .classWord] := by
        simp only [List.mem_cons, List.not_mem_nil, or_false, not_or]
        exact ⟨hi, hc⟩
      refine ih.round [t] id (fun rest' _ => ?_) fun ys p hp => ?_
      · rw [List.singleton_append, toEnd_congr (declarations_other hk)]
        cases toEnd declarations rest' <;> rfl
      · obtain ⟨ds, hd, rfl⟩ := hp
        exact ⟨ds, .other (by simpa using hk) hd, rfl⟩

def packageName : Reader String := do
  let name ← qualifiedName .packageName
  let _ ← expect (.mark .semicolon) .packageEnd
  return name

inductive PackageRule : List Symbol → String → Prop
  | mk {ps : List Symbol} {name : String} : QualifiedName ps name →
      PackageRule (ps ++ [.mark .semicolon]) name

theorem follows_packageName : packageName.Follows PackageRule := by
  apply (follows_qualifiedName _).bind
  intro ps name hp
  exact follows_mark_pure (.mk hp)

def packaged : Reader Script := do
  let name ← packageName
  (fun p => ⟨some name, p.1, p.2⟩) <$> toEnd declarations

def PackagedRule (xs : List Symbol) (s : Script) : Prop :=
  ∀ cs : List Symbol, (∀ c ∈ cs, c.kind.isComment) → ScriptRule (cs ++ .keyword .pkg :: xs) s

theorem PackageRule.declarations {us xs : List Symbol} {name : String} {p : List Import × List ClassDecl}
    (hn : PackageRule us name) (h : SortedDeclarations xs p) :
    PackagedRule (us ++ xs) ⟨some name, p.1, p.2⟩ := by
  intro cs hc
  obtain ⟨hp⟩ := hn
  obtain ⟨ds, hd, rfl⟩ := h
  simpa [Script.ofDeclarations] using ScriptRule.packaged hc hp hd

theorem follows_packaged : packaged.Follows PackagedRule := by
  apply follows_packageName.bind
  intro us name hu
  apply follows_declarations.map
  intro vs p hv
  exact hu.declarations hv

section script

variable {cs ts rest : List Token} {t : Token}

theorem dropWhile_isComment (hc : ∀ c ∈ cs, c.kind.isComment) (ht : ∀ t ∈ ts.head?, ¬ t.kind.isComment) :
    ((cs ++ ts).dropWhile fun t => t.kind.isComment) = ts := by
  rw [List.dropWhile_append_of_pos hc]
  cases ts with
  | nil => rfl
  | cons t ts => exact List.dropWhile_cons_of_neg (ht t rfl)

theorem packageDecl_pkg (ht : t.kind = .keyword .pkg) :
    packageDecl (t :: ts) = (packageName ts).map fun p => (some p.1, p.2) := by
  rw [packageDecl, bind_ok (accept_hit ht ts)]
  simp only [packageName, if_pos]
  cases hq : qualifiedName .packageName ts with
  | error m => rw [bind_error hq, bind_error hq]; rfl
  | ok p =>
    rw [bind_ok hq, bind_ok hq]
    cases he : expect (.mark .semicolon) .packageEnd p.2 with
    | error m => rw [bind_error he, bind_error he]; rfl
    | ok q => rw [bind_ok he, bind_ok he]; rfl

theorem read_error (hc : ∀ c ∈ cs, c.kind.isComment) (ht : t.kind = .keyword .pkg) {m : Mismatch}
    (hn : packageName ts = .error m) : Script.read (cs ++ t :: ts) = .error m := by
  rw [Script.read, dropWhile_isComment hc (by simp [ht, TokenKind.isComment]), packageDecl_pkg ht, hn]
  rfl

theorem read_packaged (hc : ∀ c ∈ cs, c.kind.isComment) (ht : t.kind = .keyword .pkg) {name : String}
    (hn : packageName ts = .ok (name, rest)) :
    Script.read (cs ++ t :: ts) = (declarations rest).map fun p => ⟨some name, p.1, p.2⟩ := by
  rw [Script.read, dropWhile_isComment hc (by simp [ht, TokenKind.isComment]), packageDecl_pkg ht, hn]
  rfl

theorem read_bare (hc : ∀ c ∈ cs, c.kind.isComment)
    (ht : ∀ t ∈ ts.head?, ¬ t.kind.isComment ∧ t.kind ≠ .keyword .pkg) :
    Script.read (cs ++ ts) = (declarations ts).map fun p => ⟨none, p.1, p.2⟩ := by
  have hp : packageDecl ts = .ok (none, ts) := bind_ok (accept_miss fun t h => (ht t h).2)
  rw [Script.read, dropWhile_isComment hc fun t h => (ht t h).1, hp]

theorem toEnd_read_packaged (hc : ∀ c ∈ cs, c.kind.isComment) (ht : t.kind = .keyword .pkg)
    (ts : List Token) : toEnd Script.read (cs ++ t :: ts) = packaged ts := by
  rw [packaged]
  cases hn : packageName ts with
  | error m => rw [toEnd_error (read_error hc ht hn), bind_error hn]
  | ok p =>
    rw [toEnd_map _ (read_packaged hc ht hn), bind_ok hn, map_eq_pure_bind]
    cases hd : toEnd declarations p.2 with
    | error m => rw [bind_error hd]; rfl
    | ok q => rw [bind_ok hd]; rfl

end script

theorem scriptRule_comments {cs : List Symbol} (hc : ∀ c ∈ cs, c.kind.isComment) :
    ScriptRule cs (.ofDeclarations none []) := by
  rw [← List.append_nil cs]
  exact .bare hc (by simp) .done

theorem exists_comments (ts : List Token) : ∃ cs us, ts = cs ++ us ∧ (∀ c ∈ cs, c.kind.isComment) ∧
    ∀ t ∈ us.head?, ¬ t.kind.isComment := by
  refine ⟨ts.takeWhile (·.kind.isComment), ts.dropWhile (·.kind.isComment),
    List.takeWhile_append_dropWhile.symm, fun c => List.mem_takeWhile_imp, fun t ht => ?_⟩
  have hd := List.head?_dropWhile_not (fun t : Token => t.kind.isComment) ts
  rw [Option.mem_def.mp ht] at hd
  simpa using hd

theorem head?_symbols {P : TokenKind → Prop} {us rest : List Token}
    (h : ∀ t ∈ (us ++ rest).head?, P t.kind) : ∀ x ∈ (symbols us).head?, P x.kind := by
  cases us with
  | nil => simp
  | cons t us => simpa using h

theorem explains_bare {cs us : List Token} (hc : ∀ c ∈ cs, c.kind.isComment)
    (hu : ∀ t ∈ us.head?, ¬ t.kind.isComment ∧ t.kind ≠ .keyword .pkg) :
    Explains (toEnd Script.read) ScriptRule (cs ++ us) := by
  have hsc : ∀ c ∈ symbols cs, c.kind.isComment := by simpa [symbols] using hc
  cases hd : toEnd declarations us with
  | ok p =>
    obtain ⟨p, rest⟩ := p
    obtain ⟨vs, rfl, ⟨ds, hds, rfl⟩, hs⟩ := (follows_declarations.explains us).ok p rest hd
    rw [← List.append_assoc]
    refine .of_ok (cs ++ vs) (a := .ofDeclarations none ds) ?_ fun rest' hh => ?_
    · rw [symbols_append]
      exact .bare hsc (head?_symbols (P := fun k => ¬ k.isComment ∧ k ≠ .keyword .pkg) hu) hds
    · rw [List.append_assoc, toEnd_map _ (read_bare hc (head?_append_of_eq vs hh ▸ hu)), hs rest' hh]
      rfl
  | error m =>
    obtain ⟨vs, rest, rfl, hm, hcompl, hs⟩ := (follows_declarations.explains us).error m hd
    rw [← List.append_assoc]
    refine .of_error (cs ++ vs) hm ?_ fun rest' hh => ?_
    · cases vs with
      | nil =>
        -- The tokens that were to complete the declarations might be a package, but comments are a script.
        refine ⟨[], .ofDeclarations none [], by simp, ?_⟩
        simpa using scriptRule_comments hsc
      | cons v vs =>
        obtain ⟨ys, p, hy, ⟨ds, hds, rfl⟩⟩ := hcompl
        refine ⟨ys, .ofDeclarations none ds, hy, ?_⟩
        rw [symbols_append, List.append_assoc]
        exact .bare hsc (by simpa using hu) hds
    · rw [List.append_assoc, toEnd_map _ (read_bare hc (head?_append_of_eq vs hh ▸ hu)), hs rest' hh]
      rfl

theorem follows_script : (toEnd Script.read).Follows ScriptRule where
  completable := ⟨[], _, by simp, scriptRule_comments (by simp)⟩
  explains ts := by
    obtain ⟨cs, us, rfl, hc, hu⟩ := exists_comments ts
    obtain ⟨t, vs, rfl, ht⟩ | hp := head?_cases (.keyword .pkg) us
    · rw [List.append_cons]
      refine (follows_packaged.explains vs).round (cs ++ [t]) id (fun vs' _ => ?_) fun ys s hs => ?_
      · rw [List.append_assoc, List.singleton_append, toEnd_read_packaged hc ht]
        cases packaged vs' <;> rfl
      · have hsc : ∀ c ∈ symbols cs, c.kind.isComment := by simpa [symbols] using hc
        have hx : t.symbol = .keyword .pkg := Token.symbol_of_kind ht
        simpa [hx] using hs _ hsc
    · exact explains_bare hc fun t ht => ⟨hu t ht, hp t ht⟩

end Reader
end ObfuscationMap
