import ObfuscationMap.Proofs.Descriptors
import Mathlib.Data.List.Basic

/-!
What the formats tell of a mapping: for each class its full names in a version, its fields and its
methods. A format has a line for each of these, the class first, and a list of such lines is gathered
into classes again. As all lines of a text end with a line feed, the text falls into its lines.
-/

namespace ObfuscationMap

structure FieldEntry where
  own : String
  obfuscated : String
  deriving DecidableEq

structure MethodEntry where
  own : String
  parameters : List Parameter
  obfuscated : String
  deriving DecidableEq

structure ClassEntry where
  own : String
  obfuscated : String
  fields : List FieldEntry
  methods : List MethodEntry
  deriving DecidableEq

def FieldEntry.of (v : Version) (f : FieldMapping) : FieldEntry := ⟨f.name, f.resolve v⟩

def MethodEntry.of (v : Version) (m : MethodMapping) : MethodEntry := ⟨m.name, m.parameters, m.resolve v⟩

def ClassEntry.of (t : Mapping) (v : Version) (c : ClassMapping) : ClassEntry :=
  ⟨t.fullName c, t.obfuscatedFullName c v, c.fields.map (.of v), c.methods.map (.of v)⟩

def Mapping.entries (t : Mapping) (v : Version) : List ClassEntry := t.classes.map (.of t v)

def MethodEntry.rename (f : String → String) (m : MethodEntry) : MethodEntry :=
  ⟨m.own, m.parameters.map (·.rename f), m.obfuscated⟩

def ClassEntry.rename (f : String → String) (e : ClassEntry) : ClassEntry :=
  ⟨f e.own, f e.obfuscated, e.fields, e.methods.map (·.rename f)⟩

structure FieldEntry.Legal (f : FieldEntry) : Prop where
  own : isIdentifier f.own
  obfuscated : isIdentifier f.obfuscated

structure MethodEntry.Legal (m : MethodEntry) : Prop where
  own : isIdentifier m.own
  parameters : ∀ p ∈ m.parameters, isQualified p.type
  obfuscated : isIdentifier m.obfuscated

structure ClassEntry.Legal (e : ClassEntry) : Prop where
  own : isQualified e.own
  obfuscated : isQualified e.obfuscated
  fields : ∀ f ∈ e.fields, f.Legal
  methods : ∀ m ∈ e.methods, m.Legal

theorem legal_entry {t : Mapping} {c : ClassMapping} (ht : t.Legal) (hc : c ∈ t.classes) (v : Version) :
    (ClassEntry.of t v c).Legal := by
  have ho := ht.obfuscatedFullName hc v
  cases ht.classes c hc with
  | mk _ _ _ hms hfs _ _ =>
    refine ⟨ht.fullName hc, ho, ?_, ?_⟩
    · exact List.forall_mem_map.mpr fun f hf => ⟨(hfs f hf).name, (hfs f hf).resolve v⟩
    · exact List.forall_mem_map.mpr fun m hm =>
        ⟨(hms m hm).name, (hms m hm).parameters, (hms m hm).resolve v⟩

theorem legal_entries {t : Mapping} (ht : t.Legal) (v : Version) : ∀ e ∈ t.entries v, e.Legal :=
  List.forall_mem_map.mpr fun _ hc => legal_entry ht hc v

section rename

variable {f g : String → String} (h : ∀ name, isQualified name → g (f name) = name)
include h

theorem MethodEntry.Legal.rename_rename {m : MethodEntry} (hm : m.Legal) :
    (m.rename f).rename g = m := by
  rw [MethodEntry.rename, MethodEntry.rename, rename_rename_parameters h hm.parameters]

theorem ClassEntry.Legal.rename_rename {e : ClassEntry} (he : e.Legal) :
    (e.rename f).rename g = e := by
  have hm : (e.methods.map (·.rename f)).map (·.rename g) = e.methods :=
    map_map_eq_self fun m hm => (he.methods m hm).rename_rename h
  rw [ClassEntry.rename, ClassEntry.rename, hm, h e.own he.own, h e.obfuscated he.obfuscated]

end rename

inductive EntryLine
  | ofClass (own obfuscated : String)
  | ofField (f : FieldEntry)
  | ofMethod (m : MethodEntry)
  deriving DecidableEq

def EntryLine.rename (f : String → String) : EntryLine → EntryLine
  | .ofClass own obfuscated => .ofClass (f own) (f obfuscated)
  | .ofField field => .ofField field
  | .ofMethod m => .ofMethod (m.rename f)

def EntryLine.Legal : EntryLine → Prop
  | .ofClass own obfuscated => isQualified own ∧ isQualified obfuscated
  | .ofField f => f.Legal
  | .ofMethod m => m.Legal

def ClassEntry.lines (e : ClassEntry) : List EntryLine :=
  .ofClass e.own e.obfuscated :: (e.fields.map .ofField ++ e.methods.map .ofMethod)

theorem ClassEntry.lines_rename (f : String → String) (e : ClassEntry) :
    (e.rename f).lines = e.lines.map (·.rename f) := by
  simp only [lines, rename, List.map_cons, List.map_append, List.map_map]
  rfl

theorem ClassEntry.Legal.lines {e : ClassEntry} (h : e.Legal) : ∀ l ∈ e.lines, l.Legal := by
  rw [ClassEntry.lines, List.forall_mem_cons, List.forall_mem_append]
  exact ⟨⟨h.own, h.obfuscated⟩, List.forall_mem_map.mpr h.fields, List.forall_mem_map.mpr h.methods⟩

/-- The classes of some lines, and the members that stand before the first of them. -/
structure Gathered where
  fields : List FieldEntry
  methods : List MethodEntry
  classes : List ClassEntry

def EntryLine.gather : EntryLine → Gathered → Gathered
  | .ofClass own obfuscated, g => ⟨[], [], ⟨own, obfuscated, g.fields, g.methods⟩ :: g.classes⟩
  | .ofField f, g => { g with fields := f :: g.fields }
  | .ofMethod m, g => { g with methods := m :: g.methods }

def gather (ls : List EntryLine) : Gathered := ls.foldr EntryLine.gather ⟨[], [], []⟩

theorem gather_fields (fs : List FieldEntry) (ls : List EntryLine) :
    gather (fs.map .ofField ++ ls) = { gather ls with fields := fs ++ (gather ls).fields } := by
  induction fs with
  | nil => rfl
  | cons f fs ih =>
    change EntryLine.gather (.ofField f) (gather (fs.map .ofField ++ ls)) = _
    rw [ih]
    rfl

theorem gather_methods (ms : List MethodEntry) (ls : List EntryLine) :
    gather (ms.map .ofMethod ++ ls) = { gather ls with methods := ms ++ (gather ls).methods } := by
  induction ms with
  | nil => rfl
  | cons m ms ih =>
    change EntryLine.gather (.ofMethod m) (gather (ms.map .ofMethod ++ ls)) = _
    rw [ih]
    rfl

theorem gather_lines (es : List ClassEntry) : gather (es.flatMap ClassEntry.lines) = ⟨[], [], es⟩ := by
  induction es with
  | nil => rfl
  | cons e es ih =>
    rw [List.flatMap_cons, ClassEntry.lines, List.cons_append, List.append_assoc]
    change EntryLine.gather (.ofClass e.own e.obfuscated) (gather _) = _
    rw [gather_fields, gather_methods, ih, EntryLine.gather, List.append_nil, List.append_nil]

section lines

def unlines (ls : List (List Char)) : List Char := ls.flatMap (· ++ ['\n'])

def linesOf (text : List Char) : List (List Char) := (text.splitOn '\n').dropLast

theorem unlines_append (ls ls' : List (List Char)) : unlines (ls ++ ls') = unlines ls ++ unlines ls' :=
  List.flatMap_append

theorem unlines_intercalate (gap : List (List Char)) (blocks : List (List (List Char))) :
    unlines (gap.intercalate blocks) = (unlines gap).intercalate (blocks.map unlines) := by
  cases blocks with
  | nil => rfl
  | cons b blocks =>
    rw [intercalate_cons, unlines_append, List.map_cons, intercalate_cons, List.flatMap_map]
    simp only [unlines, List.flatMap_assoc, List.flatMap_append]

theorem intercalate_eq_join (sep s : String) (ss : List String) :
    sep.intercalate (s :: ss) = s ++ String.join (ss.map (sep ++ ·)) := by
  apply String.toList_injective
  rw [String.toList_intercalate, List.map_cons, intercalate_cons, String.toList_append, String.toList_join,
    List.flatMap_map, List.flatMap_map]
  simp only [String.toList_append]

theorem splitOn_unlines {ls : List (List Char)} (h : ∀ l ∈ ls, '\n' ∉ l) :
    (unlines ls).splitOn '\n' = ls ++ [[]] := by
  induction ls with
  | nil => rfl
  | cons l ls ih =>
    rw [List.forall_mem_cons] at h
    have hl : unlines (l :: ls) = l ++ '\n' :: unlines ls := by simp [unlines]
    rw [hl, List.splitOn_append_cons_self_of_not_mem h.1, ih h.2, List.cons_append]

theorem linesOf_unlines {ls : List (List Char)} (h : ∀ l ∈ ls, '\n' ∉ l) :
    linesOf (unlines ls) = ls := by
  rw [linesOf, splitOn_unlines h, List.dropLast_concat]

end lines

section mapM

variable {α β γ : Type} {f : β → Option γ}

theorem mapM_map_eq_some {w : α → β} {k : α → γ} {as : List α}
    (h : ∀ a ∈ as, f (w a) = some (k a)) : (as.map w).mapM f = some (as.map k) := by
  induction as with
  | nil => rfl
  | cons a as ih =>
    rw [List.forall_mem_cons] at h
    rw [List.map_cons, List.mapM_cons, h.1, ih h.2]
    rfl

theorem mapM_flatMap_eq_some {w : α → List β} {k : α → List γ} {as : List α}
    (h : ∀ a ∈ as, (w a).mapM f = some (k a)) : (as.flatMap w).mapM f = some (as.flatMap k) := by
  induction as with
  | nil => rfl
  | cons a as ih =>
    rw [List.forall_mem_cons] at h
    rw [List.flatMap_cons, List.mapM_append, h.1, ih h.2]
    rfl

end mapM

end ObfuscationMap
