import ObfuscationMap.Emit.Srg
import ObfuscationMap.Proofs.Emission
import ObfuscationMap.Proofs.Layout

/-!
The line format is read back. The words of a line are its tag, the names, and for a method the descriptor
behind each name. Names of members have no slash, so the last slash of a name is the one in front of
the member.
-/

namespace ObfuscationMap.Srg

/-- The lines of the format: the obfuscated name of a class, the member's obfuscated name and descriptor,
then the same for the own names. -/
inductive Line
  | ofClass (obfuscated own : String)
  | ofField (obfuscatedClass obfuscated ownClass own : String)
  | ofMethod (obfuscatedClass obfuscated descriptor ownClass own ownDescriptor : String)
  deriving DecidableEq

namespace Line

def words : Line → List (List Char)
  | .ofClass o n => [['C', 'L', ':'], o.toList, n.toList]
  | .ofField o x n f => [['F', 'D', ':'], o.toList ++ '/' :: x.toList, n.toList ++ '/' :: f.toList]
  | .ofMethod o x d n m d' => [['M', 'D', ':'], o.toList ++ '/' :: x.toList, d.toList,
      n.toList ++ '/' :: m.toList, d'.toList]

def text (l : Line) : List Char := [' '].intercalate l.words

def splitMember? (cs : List Char) : Option (String × String) :=
  match cs.reverse.dropWhile (· != '/') with
  | [] => none
  | _ :: owner =>
    some (String.ofList owner.reverse, String.ofList (cs.reverse.takeWhile (· != '/')).reverse)

def readWords? : List (List Char) → Option Line
  | [['C', 'L', ':'], o, n] => some (.ofClass (String.ofList o) (String.ofList n))
  | [['F', 'D', ':'], o, n] => do
    let (o, x) ← splitMember? o
    let (n, f) ← splitMember? n
    return .ofField o x n f
  | [['M', 'D', ':'], o, d, n, d'] => do
    let (o, x) ← splitMember? o
    let (n, m) ← splitMember? n
    return .ofMethod o x (String.ofList d) n m (String.ofList d')
  | _ => none

def read? (line : List Char) : Option Line := readWords? (line.splitOn ' ')

def entryLine? : Line → Option EntryLine
  | .ofClass o n => some (.ofClass n o)
  | .ofField _ x _ f => some (.ofField ⟨f, x⟩)
  | .ofMethod _ x d _ m _ => (readDescriptor? d.toList).map fun ps => .ofMethod ⟨m, ps, x⟩

def of (e : ClassEntry) : EntryLine → Line
  | .ofClass own obfuscated => .ofClass (internalName obfuscated) (internalName own)
  | .ofField f => .ofField (internalName e.obfuscated) f.obfuscated (internalName e.own) f.own
  | .ofMethod m => .ofMethod (internalName e.obfuscated) m.obfuscated (methodDescriptor m.parameters)
      (internalName e.own) m.own (methodDescriptor m.parameters)

end Line

def linesFor (e : ClassEntry) : List Line := e.lines.map (.of e)

def decode (text : String) : Option (List ClassEntry) :=
  ((linesOf text.toList).mapM fun l => (Line.read? l).bind Line.entryLine?).map
    fun ls => (gather ls).classes

section text

variable (t : Mapping) (v : Version) (c : ClassMapping)

theorem toList_classLine : (classLine (.of t v c)).toList =
    (Line.of (.of t v c) (.ofClass (t.fullName c) (t.obfuscatedFullName c v))).text ++ ['\n'] := by
  simp [classLine, Line.text, Line.words, Line.of, ClassNames.of, List.intercalate]

theorem toList_fieldLine (f : FieldMapping) : (fieldLine (.of t v c) v f).toList =
    (Line.of (.of t v c) (.ofField (.of v f))).text ++ ['\n'] := by
  simp [fieldLine, Line.text, Line.words, Line.of, ClassNames.of, ClassEntry.of, FieldEntry.of,
    List.intercalate]

theorem toList_methodLine (m : MethodMapping) : (methodLine (.of t v c) v m).toList =
    (Line.of (.of t v c) (.ofMethod (.of v m))).text ++ ['\n'] := by
  unfold methodLine
  simp only [Line.of, MethodEntry.of]
  generalize methodDescriptor m.parameters = d
  simp [Line.text, Line.words, ClassNames.of, ClassEntry.of, List.intercalate]

theorem toList_classLines :
    (classLines t v c).toList = unlines ((linesFor (.of t v c)).map Line.text) := by
  rw [classLines]
  simp only [String.toList_append, String.toList_join, linesFor, ClassEntry.lines, List.map_cons,
    List.map_append, unlines, List.flatMap_cons, List.flatMap_append, List.flatMap_map,
    toList_classLine, toList_fieldLine, toList_methodLine, List.append_assoc, ClassEntry.of]

theorem toList_emit :
    (emit t v).toList = unlines (((t.entries v).flatMap linesFor).map Line.text) := by
  rw [emit, String.toList_join, List.flatMap_map, Mapping.entries, List.flatMap_map, List.map_flatMap]
  simp only [unlines, List.flatMap_assoc]
  congr 1
  funext c
  exact toList_classLines t v c

end text

theorem splitMember?_append {x : String} (o : String) (hx : '/' ∉ x.toList) :
    Line.splitMember? (o.toList ++ '/' :: x.toList) = some (o, x) := by
  have hr : (o.toList ++ '/' :: x.toList).reverse = x.toList.reverse ++ '/' :: o.toList.reverse := by
    simp
  have hx' : '/' ∉ x.toList.reverse := fun hm => hx (List.mem_reverse.mp hm)
  simp only [Line.splitMember?, hr, dropWhile_until hx', takeWhile_until hx', List.reverse_reverse,
    String.ofList_toList]

section reading

variable {e : ClassEntry} (he : e.Legal) {l : EntryLine} (hl : l.Legal)
include he hl

theorem not_mem_words {c : Char} (hc : isWordPart c = false)
    (hm : c ∉ ['C', 'L', 'F', 'D', 'M', 'V', ':', '/', ';', '[', '(', ')']) :
    ∀ w ∈ (Line.of e l).words, c ∉ w := by
  simp only [List.mem_cons, List.not_mem_nil, or_false, not_or] at hm
  obtain ⟨hC, hL, hF, hD, hM, hV, hcolon, hslash, hsemicolon, harray, hopen, hclose⟩ := hm
  have ho := not_mem_internalName he.obfuscated hc hslash
  have hn := not_mem_internalName he.own hc hslash
  cases l with
  | ofClass own obfuscated =>
    simp [Line.of, Line.words, hC, hL, hcolon, not_mem_internalName hl.1 hc hslash,
      not_mem_internalName hl.2 hc hslash]
  | ofField f =>
    simp [Line.of, Line.words, hF, hD, hcolon, hslash, ho, hn, not_mem_identifier hl.own hc,
      not_mem_identifier hl.obfuscated hc]
  | ofMethod m =>
    have hd := not_mem_typesText hl.parameters hc (by simp [hslash, hsemicolon, harray])
    simp [Line.of, Line.words, toList_methodDescriptor, hM, hD, hV, hcolon, hslash, hopen, hclose, hd,
      ho, hn, not_mem_identifier hl.own hc, not_mem_identifier hl.obfuscated hc]

theorem newline_not_mem : '\n' ∉ (Line.of e l).text :=
  not_mem_intercalate (by decide) (not_mem_words he hl (by decide) (by decide))

theorem read?_text : Line.read? (Line.of e l).text = some (.of e l) := by
  have hs : (Line.of e l).text.splitOn ' ' = (Line.of e l).words :=
    List.splitOn_intercalate ' ' (not_mem_words he hl (by decide) (by decide))
      (by cases l <;> simp [Line.of, Line.words])
  rw [Line.read?, hs]
  cases l with
  | ofClass own obfuscated => simp [Line.of, Line.words, Line.readWords?]
  | ofField f =>
    have hx := not_mem_identifier hl.obfuscated (c := '/') (by decide)
    have hf := not_mem_identifier hl.own (c := '/') (by decide)
    simp [Line.of, Line.words, Line.readWords?, splitMember?_append _ hx, splitMember?_append _ hf]
  | ofMethod m =>
    have hx := not_mem_identifier hl.obfuscated (c := '/') (by decide)
    have hm := not_mem_identifier hl.own (c := '/') (by decide)
    simp [Line.of, Line.words, Line.readWords?, splitMember?_append _ hx, splitMember?_append _ hm]

omit he in
theorem entryLine?_of : (Line.of e l).entryLine? = some (l.rename internalName) := by
  cases l with
  | ofClass own obfuscated => rfl
  | ofField f => rfl
  | ofMethod m =>
    rw [Line.of, Line.entryLine?, readDescriptor?_methodDescriptor hl.parameters]
    rfl

end reading

theorem mem_lines {t : Mapping} {v : Version} {l : Line} (h : l ∈ (t.entries v).flatMap linesFor) :
    ∃ c ∈ t.classes, ∃ k ∈ (ClassEntry.of t v c).lines, l = .of (.of t v c) k := by
  obtain ⟨e, he, hl⟩ := List.mem_flatMap.mp h
  obtain ⟨c, hc, rfl⟩ := List.mem_map.mp he
  obtain ⟨k, hk, rfl⟩ := List.mem_map.mp hl
  exact ⟨c, hc, k, hk, rfl⟩

section emitted

variable {t : Mapping} (ht : t.Legal) (v : Version)
include ht

theorem newline_not_mem_emitted : ∀ l ∈ (t.entries v).flatMap linesFor, '\n' ∉ l.text := by
  intro l hl
  obtain ⟨c, hc, k, hk, rfl⟩ := mem_lines hl
  have he := legal_entry ht hc v
  exact newline_not_mem he (he.lines k hk)

theorem decode_emit : decode (emit t v) = some ((t.entries v).map (·.rename internalName)) := by
  have hread : ∀ e ∈ t.entries v,
      ((linesFor e).map Line.text).mapM (fun l => (Line.read? l).bind Line.entryLine?) =
        some (e.rename internalName).lines := by
    intro e hmem
    have he := legal_entries ht v e hmem
    rw [linesFor, List.map_map, ClassEntry.lines_rename]
    apply mapM_map_eq_some
    intro l hl
    rw [Function.comp_apply, read?_text he (he.lines l hl)]
    exact entryLine?_of (he.lines l hl)
  rw [decode, toList_emit, linesOf_unlines (List.forall_mem_map.mpr (newline_not_mem_emitted ht v)),
    List.map_flatMap, mapM_flatMap_eq_some hread, Option.map_some, ← List.flatMap_map, gather_lines]

end emitted

end ObfuscationMap.Srg
