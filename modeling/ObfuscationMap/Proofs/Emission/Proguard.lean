import ObfuscationMap.Emit.Proguard
import ObfuscationMap.Proofs.Emission

/-!
The block format is read back. Blanks stand only where the format puts them, so the words of a line tell
what the line is of, and a method's parameters are what stands between the parentheses and the commas. A
type that repeats is the only one that ends with a dot.
-/

namespace ObfuscationMap.Proguard

def parametersText (ps : List Parameter) : List Char :=
  [','].intercalate (ps.map fun p => (parameter p).toList)

def words : EntryLine → List (List Char)
  | .ofClass own obfuscated => [own.toList, ['-', '>'], obfuscated.toList ++ [':']]
  | .ofField f => [[], [], [], [], f.own.toList, ['-', '>'], f.obfuscated.toList]
  | .ofMethod m => [[], [], [], [], m.own.toList ++ '(' :: (parametersText m.parameters ++ [')']),
      ['-', '>'], m.obfuscated.toList]

def lineText (l : EntryLine) : List Char := [' '].intercalate (words l)

theorem toList_fieldLine (v : Version) (f : FieldMapping) :
    (fieldLine v f).toList = lineText (.ofField (.of v f)) ++ ['\n'] := by
  simp [fieldLine, lineText, words, FieldEntry.of, List.intercalate]

theorem toList_methodLine (v : Version) (m : MethodMapping) :
    (methodLine v m).toList = lineText (.ofMethod (.of v m)) ++ ['\n'] := by
  have hp : (",".intercalate (m.parameters.map parameter)).toList = parametersText m.parameters := by
    rw [String.toList_intercalate, List.map_map]
    rfl
  rw [methodLine]
  simp only [String.toList_append, hp]
  simp [lineText, words, MethodEntry.of, List.intercalate]

theorem toList_classBlock (t : Mapping) (v : Version) (c : ClassMapping) :
    (classBlock t v c).toList = unlines ((ClassEntry.of t v c).lines.map lineText) := by
  have hc : (t.fullName c ++ " -> " ++ t.obfuscatedFullName c v ++ ":\n").toList =
      lineText (.ofClass (t.fullName c) (t.obfuscatedFullName c v)) ++ ['\n'] := by
    simp [lineText, words, List.intercalate]
  rw [classBlock, String.toList_append, String.toList_append, hc, String.toList_join,
    String.toList_join, ClassEntry.lines, List.map_cons, List.map_append, List.append_assoc]
  simp only [unlines, List.flatMap_cons, List.flatMap_append, List.flatMap_map, ClassEntry.of,
    toList_fieldLine, toList_methodLine]

theorem map_numberedBlock (t : Mapping) (v : Version) (n : Nat) (cs : List ClassMapping) :
    (cs.zipIdx (n + 1)).map (numberedBlock t v) = (cs.map (classBlock t v)).map ("\n" ++ ·) := by
  induction cs generalizing n with
  | nil => rfl
  | cons c cs ih =>
    rw [List.zipIdx_cons, List.map_cons, ih, numberedBlock, if_pos n.succ_pos]
    rfl

theorem emit_eq_intercalate (t : Mapping) (v : Version) :
    emit t v = "\n".intercalate (t.classes.map (classBlock t v)) := by
  rw [emit]
  cases t.classes with
  | nil => rfl
  | cons c cs =>
    rw [List.zipIdx_cons, List.map_cons, map_numberedBlock, List.map_cons, intercalate_eq_join, numberedBlock,
      if_neg (Nat.lt_irrefl 0), String.empty_append, String.join_cons]

theorem toList_emit (t : Mapping) (v : Version) : (emit t v).toList =
    unlines ([[]].intercalate ((t.entries v).map fun e => e.lines.map lineText)) := by
  rw [emit_eq_intercalate, String.toList_intercalate, unlines_intercalate, Mapping.entries, List.map_map, List.map_map,
    List.map_map]
  congr 1
  exact List.map_congr_left fun c _ => toList_classBlock t v c

section reading

def readParameter (cs : List Char) : Parameter :=
  match cs.dropSuffix? ['.', '.', '.'] with
  | some type => ⟨String.ofList type, true⟩
  | none => ⟨String.ofList cs, false⟩

def readParameters (cs : List Char) : List Parameter :=
  if cs = [] then [] else (cs.splitOn ',').map readParameter

def readWords? : List (List Char) → Option EntryLine
  | [own, ['-', '>'], obfuscated] =>
    some (.ofClass (String.ofList own) (String.ofList obfuscated.dropLast))
  | [[], [], [], [], own, ['-', '>'], obfuscated] =>
    match own.splitOn '(' with
    | [name] => some (.ofField ⟨String.ofList name, String.ofList obfuscated⟩)
    | [name, parameters] => some (.ofMethod
        ⟨String.ofList name, readParameters parameters.dropLast, String.ofList obfuscated⟩)
    | _ => none
  | _ => none

def decode (text : String) : Option (List ClassEntry) :=
  (((linesOf text.toList).filter (· != [])).mapM fun l => readWords? (l.splitOn ' ')).map
    fun ls => (gather ls).classes

theorem readParameter_parameter {p : Parameter} (h : isQualified p.type) :
    readParameter (parameter p).toList = p := by
  obtain ⟨type, varargs⟩ := p
  cases varargs with
  | true =>
    have hd : (type ++ "...").toList.dropSuffix? ['.', '.', '.'] = some type.toList :=
      List.dropSuffix?_eq_some_iff.mpr ⟨['.', '.', '.'], by simp, rfl⟩
    change readParameter (type ++ "...").toList = _
    simp only [readParameter, hd, String.ofList_toList]
  | false =>
    have hd : type.toList.dropSuffix? ['.', '.', '.'] = none := by
      cases hs : type.toList.dropSuffix? ['.', '.', '.'] with
      | none => rfl
      | some rest =>
        -- Then the name would end with a dot.
        obtain ⟨dots, he, hb⟩ := List.dropSuffix?_eq_some_iff.mp hs
        rw [beq_iff_eq.mp hb] at he
        exact absurd (by simp [he]) (getLast?_qualified h)
    change readParameter type.toList = _
    simp only [readParameter, hd, String.ofList_toList]

theorem parameter_ne_nil {p : Parameter} (h : isQualified p.type) : (parameter p).toList ≠ [] := by
  rw [parameter]
  split
  · simp
  · exact qualified_ne_nil h

theorem not_mem_parameter {p : Parameter} (h : isQualified p.type) {c : Char}
    (hc : isWordPart c = false) (hd : c ≠ '.') : c ∉ (parameter p).toList := by
  have hn := not_mem_qualified h hc hd
  rw [parameter]
  split
  · simpa [hd] using hn
  · exact hn

theorem not_mem_parametersText {ps : List Parameter} (h : ∀ p ∈ ps, isQualified p.type) {c : Char}
    (hc : isWordPart c = false) (hm : c ≠ '.' ∧ c ≠ ',') : c ∉ parametersText ps :=
  not_mem_intercalate (by simpa using hm.2)
    (List.forall_mem_map.mpr fun p hp => not_mem_parameter (h p hp) hc hm.1)

theorem readParameters_parametersText {ps : List Parameter} (h : ∀ p ∈ ps, isQualified p.type) :
    readParameters (parametersText ps) = ps := by
  cases ps with
  | nil => rfl
  | cons p ps =>
    have hcomma : ∀ w ∈ (p :: ps).map fun p => (parameter p).toList, ',' ∉ w :=
      List.forall_mem_map.mpr fun q hq => not_mem_parameter (h q hq) (by decide) (by decide)
    have hs : (parametersText (p :: ps)).splitOn ',' = (p :: ps).map fun p => (parameter p).toList :=
      List.splitOn_intercalate ',' hcomma (List.cons_ne_nil _ _)
    have hne : parametersText (p :: ps) ≠ [] :=
      intercalate_ne_nil (parameter_ne_nil (h p List.mem_cons_self))
    rw [readParameters, if_neg hne, hs]
    exact map_map_eq_self fun q hq => readParameter_parameter (h q hq)

end reading

section lines

variable {l : EntryLine} (h : l.Legal)
include h

theorem not_mem_words {c : Char} (hc : isWordPart c = false)
    (hm : c ∉ ['.', ',', '(', ')', '-', '>', ':']) : ∀ w ∈ words l, c ∉ w := by
  simp only [List.mem_cons, List.not_mem_nil, or_false, not_or] at hm
  obtain ⟨hdot, hcomma, hopen, hclose, hdash, harrow, hcolon⟩ := hm
  cases l with
  | ofClass own obfuscated =>
    simp [words, hdash, harrow, hcolon, not_mem_qualified h.1 hc hdot, not_mem_qualified h.2 hc hdot]
  | ofField f =>
    simp [words, hdash, harrow, not_mem_identifier h.own hc, not_mem_identifier h.obfuscated hc]
  | ofMethod m =>
    have hp := not_mem_parametersText h.parameters hc ⟨hdot, hcomma⟩
    simp [words, hopen, hclose, hdash, harrow, hp, not_mem_identifier h.own hc,
      not_mem_identifier h.obfuscated hc]

theorem newline_not_mem : '\n' ∉ lineText l :=
  not_mem_intercalate (by decide) (not_mem_words h (by decide) (by decide))

theorem splitOn_lineText : (lineText l).splitOn ' ' = words l :=
  List.splitOn_intercalate ' ' (not_mem_words h (by decide) (by decide)) (by cases l <;> simp [words])

theorem readWords?_words : readWords? (words l) = some l := by
  cases l with
  | ofClass own obfuscated => simp [words, readWords?]
  | ofField f =>
    have hn : f.own.toList.splitOn '(' = [f.own.toList] :=
      List.splitOn_eq_singleton (not_mem_identifier h.own (by decide))
    simp [words, readWords?, hn]
  | ofMethod m =>
    have hp : '(' ∉ parametersText m.parameters ++ [')'] := by
      simpa using not_mem_parametersText h.parameters (by decide) (by decide)
    have hn : (m.own.toList ++ '(' :: (parametersText m.parameters ++ [')'])).splitOn '(' =
        [m.own.toList, parametersText m.parameters ++ [')']] := by
      rw [List.splitOn_append_cons_self_of_not_mem (not_mem_identifier h.own (by decide)),
        List.splitOn_eq_singleton hp]
    simp [words, readWords?, hn, readParameters_parametersText h.parameters]

end lines

theorem lineText_ne_nil (l : EntryLine) : lineText l ≠ [] := by
  cases l <;> simp [lineText, words, List.intercalate]

theorem filter_intercalate (blocks : List (List (List Char))) (h : ∀ b ∈ blocks, ∀ l ∈ b, l ≠ []) :
    ([[]].intercalate blocks).filter (· != []) = blocks.flatten := by
  induction blocks with
  | nil => rfl
  | cons b blocks ih =>
    rw [List.forall_mem_cons] at h
    have hb : b.filter (· != []) = b := List.filter_eq_self.mpr fun l hl => by simpa using h.1 l hl
    cases blocks with
    | nil => simpa using hb
    | cons b' blocks =>
      rw [List.intercalate_cons_cons, List.filter_append, List.filter_append, hb, ih h.2]
      simp

theorem decode_emit {t : Mapping} (ht : t.Legal) (v : Version) :
    decode (emit t v) = some (t.entries v) := by
  have hlegal : ∀ e ∈ t.entries v, ∀ l ∈ e.lines, l.Legal := fun e he =>
    (legal_entries ht v e he).lines
  have hnewline :
      ∀ l ∈ [[]].intercalate ((t.entries v).map fun e => e.lines.map lineText), '\n' ∉ l := by
    intro l hl
    -- A line is the blank one between two blocks, or a line of a block.
    rcases mem_intercalate hl with hblank | ⟨b, hb, hl⟩
    · rw [List.mem_singleton.mp hblank]
      exact List.not_mem_nil
    · obtain ⟨e, he, rfl⟩ := List.mem_map.mp hb
      obtain ⟨k, hk, rfl⟩ := List.mem_map.mp hl
      exact newline_not_mem (hlegal e he k hk)
  have hfilled : ∀ b ∈ (t.entries v).map fun e => e.lines.map lineText, ∀ l ∈ b, l ≠ [] :=
    List.forall_mem_map.mpr fun e _ => List.forall_mem_map.mpr fun l _ => lineText_ne_nil l
  have hread : ∀ e ∈ t.entries v,
      (e.lines.map lineText).mapM (fun l => readWords? (l.splitOn ' ')) = some (e.lines.map id) := by
    intro e he
    apply mapM_map_eq_some
    intro l hl
    rw [splitOn_lineText (hlegal e he l hl)]
    exact readWords?_words (hlegal e he l hl)
  rw [decode, toList_emit, linesOf_unlines hnewline, filter_intercalate _ hfilled, ← List.flatMap_def,
    mapM_flatMap_eq_some hread]
  simp only [List.map_id, Option.map_some, gather_lines]

end ObfuscationMap.Proguard
