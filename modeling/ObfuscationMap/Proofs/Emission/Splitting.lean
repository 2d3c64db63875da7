import ObfuscationMap.Emit.Format
import ObfuscationMap.Proofs.Emission.Decoding

/-!
Emitting several mappings at once. One loop goes through the classes of a mapping and another one through the
mappings, and each has its own way to tell whether a gap comes next. Together they put one gap between any two
classes and none elsewhere, whatever mapping a class is of. So a mapping may be split up.
-/

namespace ObfuscationMap

namespace EmitFormat

def block : EmitFormat → ClassEntry → List (List Char)
  | .proguard, e => e.lines.map Proguard.lineText
  | .srg, e => (Srg.linesFor e).map Srg.Line.text

/-- The lines that part two classes: a blank one, or none at all. -/
def gap : EmitFormat → List (List Char)
  | .proguard => [[]]
  | .srg => []

def separator : EmitFormat → String
  | .proguard => "\n"
  | .srg => ""

def writeClasses (f : EmitFormat) : (index : Nat) → List ClassEntry → List (List Char)
  | _, [] => []
  | index, e :: es => (if 0 < index then f.gap else []) ++ f.block e ++ f.writeClasses (index + 1) es

/-- The mappings that have classes. Those without any leave it open whether a mapping is the first one. -/
def writeAll (f : EmitFormat) (v : Version) : (first : Bool) → List Mapping → List (List Char)
  | _, [] => []
  | first, t :: ts =>
    if t.classes.isEmpty then f.writeAll v first ts
    else (if first then [] else f.gap) ++ f.writeClasses 0 (t.entries v) ++ f.writeAll v false ts

end EmitFormat

/-- Blank lines stand between others only, and one at a time. -/
structure Spaced (ls : List (List Char)) : Prop where
  leading : ls.head? ≠ some []
  trailing : ls.getLast? ≠ some []
  doubled : ls.IsChain fun l l' => l ≠ [] ∨ l' ≠ []

section spaced

variable {ls ls' : List (List Char)}

theorem spaced_of_filled (h : ∀ l ∈ ls, l ≠ []) : Spaced ls where
  leading := fun hh => h [] (List.mem_of_head? hh) rfl
  trailing := fun hl => h [] (List.mem_of_getLast? hl) rfl
  doubled := (List.pairwise_of_forall_mem_list fun l hl _ _ => .inl (h l hl)).isChain

theorem Spaced.append_blank (h : ∀ l ∈ ls, l ≠ []) (hne : ls ≠ []) (h' : Spaced ls') (hne' : ls' ≠ []) :
    Spaced (ls ++ [[]] ++ ls') where
  leading := by
    rw [List.append_assoc, List.head?_append_of_ne_nil _ hne]
    exact (spaced_of_filled h).leading
  trailing := by
    rw [List.getLast?_append_of_ne_nil _ hne']
    exact h'.trailing
  doubled := by
    rw [List.append_assoc, List.isChain_append, List.singleton_append, List.isChain_cons]
    refine ⟨(spaced_of_filled h).doubled, ⟨?_, h'.doubled⟩, ?_⟩
    · intro l hl
      exact .inr fun he => h'.leading (he ▸ hl)
    · intro l hl _ _
      exact .inl (h l (List.mem_of_getLast? hl))

theorem spaced_intercalate {blocks : List (List (List Char))} (hne : ∀ b ∈ blocks, b ≠ [])
    (h : ∀ b ∈ blocks, ∀ l ∈ b, l ≠ []) : Spaced ([[]].intercalate blocks) := by
  induction blocks with
  | nil => exact spaced_of_filled fun l hl => absurd hl List.not_mem_nil
  | cons b blocks ih =>
    rw [List.forall_mem_cons] at hne h
    cases blocks with
    | nil =>
      rw [List.intercalate_singleton]
      exact spaced_of_filled h.1
    | cons b' blocks =>
      rw [List.intercalate_cons_cons]
      exact .append_blank h.1 hne.1 (ih hne.2 h.2) (intercalate_ne_nil (List.forall_mem_cons.mp hne.2).1)

end spaced

section intercalate

variable {α : Type} (sep : List α)

theorem nil_intercalate (ls : List (List α)) : [].intercalate ls = ls.flatten := by
  cases ls with
  | nil => rfl
  | cons l ls => simp [intercalate_cons]

theorem flatMap_intercalate {lss : List (List (List α))} (h : ∀ ls ∈ lss, ls ≠ []) :
    (lss.map sep.intercalate).flatMap (sep ++ ·) = lss.flatten.flatMap (sep ++ ·) := by
  induction lss with
  | nil => rfl
  | cons ls lss ih =>
    rw [List.forall_mem_cons] at h
    obtain ⟨l, ls, rfl⟩ := List.exists_cons_of_ne_nil h.1
    rw [List.map_cons, List.flatMap_cons, ih h.2, intercalate_cons, List.flatten_cons, List.flatMap_append,
      List.flatMap_cons]
    simp only [List.append_assoc]

theorem intercalate_intercalate {lss : List (List (List α))} (h : ∀ ls ∈ lss, ls ≠ []) :
    sep.intercalate (lss.map sep.intercalate) = sep.intercalate lss.flatten := by
  cases lss with
  | nil => rfl
  | cons ls lss =>
    rw [List.forall_mem_cons] at h
    obtain ⟨l, ls, rfl⟩ := List.exists_cons_of_ne_nil h.1
    rw [List.map_cons, intercalate_cons, flatMap_intercalate sep h.2, intercalate_cons, List.flatten_cons,
      List.cons_append, intercalate_cons, List.flatMap_append, List.append_assoc]

theorem count_intercalate {blocks : List (List (List Char))} (gap : List (List Char))
    (h : ∀ b ∈ blocks, b.count [] = 0) :
    (gap.intercalate blocks).count [] = gap.count [] * (blocks.length - 1) := by
  cases blocks with
  | nil => rfl
  | cons b blocks =>
    rw [List.forall_mem_cons] at h
    -- Each block but the first one has a gap in front of it.
    have hrest : (blocks.flatMap (gap ++ ·)).count [] = gap.count [] * blocks.length := by
      rw [List.count_flatMap, List.map_congr_left (g := fun _ => gap.count [])]
      · simp [Nat.mul_comm]
      · intro b hb
        rw [Function.comp_apply, List.count_append, h.2 b hb, Nat.add_zero]
    rw [intercalate_cons, List.count_append, h.1, hrest, Nat.zero_add, List.length_cons, Nat.add_sub_cancel]

end intercalate

theorem Srg.text_ne_nil (l : Srg.Line) : l.text ≠ [] := by
  cases l <;> simp [Srg.Line.text, Srg.Line.words, List.intercalate]

theorem entries_of_package {p : String} {imports : OrderedMap String} {ts : List Mapping}
    (h : ∀ t ∈ ts, t.package = p) (v : Version) :
    (Mapping.mk p imports (ts.flatMap (·.classes))).entries v = ts.flatMap (·.entries v) := by
  rw [Mapping.entries, List.map_flatMap]
  refine List.flatMap_congr fun t ht => List.map_congr_left fun c _ => ?_
  simp only [ClassEntry.of, Mapping.fullName, Mapping.obfuscatedFullName, h t ht]

namespace EmitFormat

variable (f : EmitFormat)

theorem unlines_gap : unlines f.gap = f.separator.toList := by
  cases f <;> rfl

theorem block_ne_nil (e : ClassEntry) : f.block e ≠ [] := by
  cases f with
  | proguard => simp [block, ClassEntry.lines]
  | srg => simp [block, Srg.linesFor, ClassEntry.lines]

theorem ne_nil_of_mem_block (e : ClassEntry) : ∀ l ∈ f.block e, l ≠ [] := by
  cases f with
  | proguard => exact List.forall_mem_map.mpr fun l _ => Proguard.lineText_ne_nil l
  | srg => exact List.forall_mem_map.mpr fun l _ => Srg.text_ne_nil l

theorem newline_not_mem_block {e : ClassEntry} (he : e.Legal) : ∀ l ∈ f.block e, '\n' ∉ l := by
  cases f with
  | proguard => exact List.forall_mem_map.mpr fun l hl => Proguard.newline_not_mem (he.lines l hl)
  | srg =>
    rw [block, Srg.linesFor, List.forall_mem_map, List.forall_mem_map]
    exact fun l hl => Srg.newline_not_mem he (he.lines l hl)

theorem writeClasses_succ (n : Nat) (es : List ClassEntry) :
    f.writeClasses (n + 1) es = (es.map f.block).flatMap (f.gap ++ ·) := by
  induction es generalizing n with
  | nil => rfl
  | cons e es ih => rw [writeClasses, if_pos n.succ_pos, ih, List.map_cons, List.flatMap_cons]

theorem writeClasses_zero (es : List ClassEntry) : f.writeClasses 0 es = f.gap.intercalate (es.map f.block) := by
  cases es with
  | nil => rfl
  | cons e es =>
    rw [writeClasses, if_neg (Nat.lt_irrefl 0), List.nil_append, writeClasses_succ, List.map_cons, intercalate_cons]

theorem toList_emit (t : Mapping) (v : Version) : (f.emit t v).toList = unlines (f.writeClasses 0 (t.entries v)) := by
  rw [writeClasses_zero]
  cases f with
  | proguard => exact Proguard.toList_emit t v
  | srg =>
    rw [gap, nil_intercalate, ← List.flatMap_def]
    refine (Srg.toList_emit t v).trans ?_
    rw [List.map_flatMap]
    rfl

variable (v : Version) (ts : List Mapping)

theorem writeAll_false : f.writeAll v false ts =
    ((ts.filter fun t => !t.classes.isEmpty).map fun t => f.writeClasses 0 (t.entries v)).flatMap (f.gap ++ ·) := by
  induction ts with
  | nil => rfl
  | cons t ts ih =>
    rw [writeAll, List.filter_cons]
    cases t.classes with
    | nil => exact ih
    | cons c cs =>
      change f.gap ++ f.writeClasses 0 (t.entries v) ++ f.writeAll v false ts = _
      rw [ih]
      rfl

theorem writeAll_true : f.writeAll v true ts =
    f.gap.intercalate ((ts.filter fun t => !t.classes.isEmpty).map fun t => f.writeClasses 0 (t.entries v)) := by
  induction ts with
  | nil => rfl
  | cons t ts ih =>
    rw [writeAll, List.filter_cons]
    cases t.classes with
    | nil => exact ih
    | cons c cs =>
      change [] ++ f.writeClasses 0 (t.entries v) ++ f.writeAll v false ts = f.gap.intercalate (_ :: _)
      rw [writeAll_false, intercalate_cons, List.nil_append]

theorem separator_eq : (if !false && f == .proguard then "\n" else "") = f.separator := by
  cases f <;> rfl

theorem emitInTurn_false : f.emitInTurn v false ts = String.join ((ts.map (f.emit · v)).map (f.separator ++ ·)) := by
  induction ts with
  | nil => rfl
  | cons t ts ih => rw [emitInTurn, separator_eq, ih, List.map_cons, List.map_cons, String.join_cons]

theorem emitAll_eq_intercalate :
    f.emitAll ts v = f.separator.intercalate ((ts.filter fun t => !t.classes.isEmpty).map (f.emit · v)) := by
  rw [emitAll]
  cases ts.filter fun t => !t.classes.isEmpty with
  | nil => rfl
  | cons t ts =>
    rw [emitInTurn, emitInTurn_false, List.map_cons, intercalate_eq_join]
    exact congrArg (· ++ _) String.empty_append

theorem toList_emitAll : (f.emitAll ts v).toList = unlines (f.writeAll v true ts) := by
  rw [emitAll_eq_intercalate, String.toList_intercalate, writeAll_true, unlines_intercalate, unlines_gap,
    List.map_map, List.map_map]
  congr 1
  exact List.map_congr_left fun t _ => f.toList_emit t v

theorem flatten_blocks : ((ts.filter fun t => !t.classes.isEmpty).map fun t => (t.entries v).map f.block).flatten =
    (ts.flatMap (·.entries v)).map f.block := by
  induction ts with
  | nil => rfl
  | cons t ts ih =>
    rw [List.filter_cons, List.flatMap_cons, List.map_append, ← ih]
    cases hc : t.classes with
    | nil =>
      rw [Mapping.entries, hc]
      rfl
    | cons c cs => rfl

theorem writeAll_eq : f.writeAll v true ts = f.gap.intercalate ((ts.flatMap (·.entries v)).map f.block) := by
  have hne : ∀ bs ∈ (ts.filter fun t => !t.classes.isEmpty).map fun t => (t.entries v).map f.block, bs ≠ [] := by
    rw [List.forall_mem_map]
    intro t ht
    have hc := (List.mem_filter.mp ht).2
    simpa [Mapping.entries] using hc
  rw [writeAll_true, ← flatten_blocks, ← intercalate_intercalate f.gap hne, List.map_map]
  simp only [writeClasses_zero]
  rfl

theorem spaced_writeAll : Spaced (f.writeAll v true ts) := by
  rw [writeAll_eq]
  have hfilled : ∀ b ∈ (ts.flatMap (·.entries v)).map f.block, ∀ l ∈ b, l ≠ [] :=
    List.forall_mem_map.mpr fun e _ => f.ne_nil_of_mem_block e
  cases f with
  | proguard => exact spaced_intercalate (List.forall_mem_map.mpr fun e _ => block_ne_nil .proguard e) hfilled
  | srg =>
    rw [gap, nil_intercalate]
    refine spaced_of_filled fun l hl => ?_
    obtain ⟨b, hb, hl⟩ := List.mem_flatten.mp hl
    exact hfilled b hb l hl

theorem linesOf_emitAll {ts : List Mapping} (h : ∀ t ∈ ts, t.Legal) :
    linesOf (f.emitAll ts v).toList = f.writeAll v true ts := by
  rw [toList_emitAll, linesOf_unlines]
  intro l hl
  rw [writeAll_eq] at hl
  -- A line is one of a gap, or of the block of a class.
  rcases mem_intercalate hl with hgap | ⟨b, hb, hl⟩
  · cases f with
    | proguard =>
      rw [List.mem_singleton.mp hgap]
      exact List.not_mem_nil
    | srg => exact absurd hgap List.not_mem_nil
  · obtain ⟨e, he, rfl⟩ := List.mem_map.mp hb
    obtain ⟨t, ht, he⟩ := List.mem_flatMap.mp he
    exact f.newline_not_mem_block (legal_entries (h t ht) v e he) l hl

theorem count_writeAll :
    (f.writeAll v true ts).count [] = f.gap.length * ((ts.flatMap (·.classes)).length - 1) := by
  have hfilled : ∀ b ∈ (ts.flatMap (·.entries v)).map f.block, b.count [] = 0 := by
    rw [List.forall_mem_map]
    exact fun e _ => List.count_eq_zero.mpr fun hm => f.ne_nil_of_mem_block e [] hm rfl
  have hgap : f.gap.count [] = f.gap.length := by
    cases f <;> rfl
  have hlength : (ts.flatMap (·.entries v)).length = (ts.flatMap (·.classes)).length := by
    simp only [Mapping.entries, List.length_flatMap, List.length_map]
  rw [writeAll_eq, count_intercalate _ hfilled, hgap, List.length_map, hlength]

theorem emitAll_of_package {p : String} {imports : OrderedMap String} {ts : List Mapping}
    (h : ∀ t ∈ ts, t.package = p) :
    f.emitAll ts v = f.emit ⟨p, imports, ts.flatMap (·.classes)⟩ v := by
  apply String.toList_injective
  rw [toList_emitAll, toList_emit, writeAll_eq, writeClasses_zero, entries_of_package h]

theorem emitAll_srg : EmitFormat.srg.emitAll ts v = String.join (ts.map fun t => Srg.emit t v) := by
  apply String.toList_injective
  rw [toList_emitAll, writeAll_eq, gap, nil_intercalate, ← List.flatMap_def, String.toList_join, List.flatMap_map]
  simp only [unlines, List.flatMap_assoc]
  refine List.flatMap_congr fun t _ => ?_
  refine Eq.trans ?_ (toList_emit .srg t v).symm
  rw [writeClasses_zero, gap, nil_intercalate, ← List.flatMap_def, unlines, List.flatMap_assoc]

/-- How the text of several mappings is laid out: as the loops write it, mapping by mapping and class by class,
with no other blank lines than those between two classes. -/
structure LaidOut : Prop where
  written : (f.emitAll ts v).toList = unlines (f.writeAll v true ts)
  apart : f.writeAll v true ts =
    f.gap.intercalate ((ts.filter fun t => !t.classes.isEmpty).map fun t => f.writeClasses 0 (t.entries v))
  together : f.writeAll v true ts = f.gap.intercalate ((ts.flatMap (·.entries v)).map f.block)
  spaced : Spaced (f.writeAll v true ts)
  blanks : (f.writeAll v true ts).count [] = f.gap.length * ((ts.flatMap (·.classes)).length - 1)
  lines : (∀ t ∈ ts, t.Legal) → linesOf (f.emitAll ts v).toList = f.writeAll v true ts

theorem laidOut : f.LaidOut v ts where
  written := f.toList_emitAll v ts
  apart := f.writeAll_true v ts
  together := f.writeAll_eq v ts
  spaced := f.spaced_writeAll v ts
  blanks := f.count_writeAll v ts
  lines := f.linesOf_emitAll v

end EmitFormat

/-- Mappings of one package are emitted like one mapping that has all their classes, and with any packages their
texts follow each other, in the block format with a blank line between those that have classes. -/
theorem emitAll_split (ts : List Mapping) (v : Version) :
    (∀ (f : EmitFormat) (p : String) (imports : OrderedMap String), (∀ t ∈ ts, t.package = p) →
      f.emitAll ts v = f.emit ⟨p, imports, ts.flatMap (·.classes)⟩ v) ∧
    EmitFormat.proguard.emitAll ts v =
      "\n".intercalate ((ts.filter fun t => !t.classes.isEmpty).map fun t => Proguard.emit t v) ∧
    EmitFormat.srg.emitAll ts v = String.join (ts.map fun t => Srg.emit t v) ∧
    (∀ (f : EmitFormat) (t : Mapping), (f.emit t v).toList = unlines (f.writeClasses 0 (t.entries v))) ∧
    ∀ f : EmitFormat, f.LaidOut v ts :=
  ⟨fun f _ _ h => f.emitAll_of_package v h, EmitFormat.emitAll_eq_intercalate .proguard v ts,
    EmitFormat.emitAll_srg v ts, fun f t => f.toList_emit t v, fun f => f.laidOut v ts⟩

theorem emitAll_split_gap :
    let sources : List String :=
      ["pkg a; class B <- b \x7b fd x <- y; \x7d", "pkg a; import c.D;", "pkg a; class C <- c \x7b \x7d"]
    ∃ ts, sources.map compile = ts.map .ok ∧ (∀ t ∈ ts, t.package = "a") ∧ (∀ t ∈ ts, t.Legal) ∧
      (∀ f : EmitFormat, f.emitAll ts none = f.emit ⟨"a", .empty, ts.flatMap (·.classes)⟩ none) ∧
      ∀ f : EmitFormat, linesOf (f.emitAll ts none).toList = f.writeAll none true ts := by
  intro sources
  let s : Script := ⟨some "a", [], [⟨"B", some "b", .empty, [], [⟨"x", some "y", [], .empty⟩], [], []⟩]⟩
  let s' : Script := ⟨some "a", [⟨"c.D", none⟩], []⟩
  let s'' : Script := ⟨some "a", [], [⟨"C", some "c", .empty, [], [], [], []⟩]⟩
  let ts : List Mapping := [s.resolve, s'.resolve, s''.resolve]
  have h : compile "pkg a; class B <- b \x7b fd x <- y; \x7d" = .ok s.resolve :=
    compile_of_symbols (by cbv) (by decide) (by cbv)
  have h' : compile "pkg a; import c.D;" = .ok s'.resolve := compile_of_symbols (by cbv) (by decide) (by cbv)
  have h'' : compile "pkg a; class C <- c \x7b \x7d" = .ok s''.resolve :=
    compile_of_symbols (by cbv) (by decide) (by cbv)
  have hc : sources.map compile = ts.map .ok := by
    simp only [sources, ts, List.map_cons, List.map_nil, h, h', h'']
  have hpackage : ∀ t ∈ ts, t.package = "a" := by decide
  have hlegal : ∀ t ∈ ts, t.Legal := by
    simp only [ts, List.forall_mem_cons]
    exact ⟨legal_of_compile h, legal_of_compile h', legal_of_compile h'', fun t ht => absurd ht List.not_mem_nil⟩
  obtain ⟨hsplit, -, -, -, hlaid⟩ := emitAll_split ts none
  exact ⟨ts, hc, hpackage, hlegal, fun f => hsplit f "a" .empty hpackage, fun f => (hlaid f).lines hlegal⟩

end ObfuscationMap
