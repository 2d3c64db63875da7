import Mathlib.Data.List.Forall2
import ObfuscationMap.Command.Run
import ObfuscationMap.Proofs.RoundTrip

/-!
What the emission from the command line leaves behind. Without a file for the output it prints all mappings
or nothing and changes no file. A file for the output is emptied before the sources are read, so a failure
leaves it empty, and where it is one of the sources it is read as an empty one. No other file changes.
-/

namespace ObfuscationMap

namespace Files

variable {fs : Files} {l m : Location} {p content : String}

def store (fs : Files) (l : Location) (content : String) : Files :=
  { fs with contents := putEntry l content fs.contents }

theorem write?_of_canHold (hl : Location.ofPath? p = some l) (h : fs.canHold l = true) :
    fs.write? p content = some (fs.store l content) := by
  rw [write?, hl, Option.bind_some, if_pos h]
  rfl

theorem write?_of_not_canHold (hl : Location.ofPath? p = some l) (h : fs.canHold l = false) :
    fs.write? p content = none := by
  rw [write?, hl, Option.bind_some, if_neg (Bool.eq_false_iff.mp h)]

def readEmptied (fs : Files) (l : Location) (p : String) : Option String :=
  if Location.ofPath? p = some l then some "" else fs.read? p

theorem read?_store_empty : (fs.store l "").read? = fs.readEmptied l := by
  funext p
  rw [readEmptied, read?, read?]
  cases hp : Location.ofPath? p with
  | none => rfl
  | some m =>
    rw [Option.bind_some, Option.bind_some, store, content?_putEntry]
    simp only [Option.some_inj]

/-- The files `gs` hold the content at the location, and are like `fs` apart from that. -/
structure Rewritten (fs gs : Files) (l : Location) (content : String) : Prop where
  here : gs.content? l = some content
  elsewhere : ∀ m, m ≠ l → gs.content? m = fs.content? m
  folders : gs.folders = fs.folders

theorem rewritten_store : Rewritten fs (fs.store l content) l content where
  here := by rw [store, content?_putEntry, if_pos rfl]
  elsewhere m hm := by rw [store, content?_putEntry, if_neg hm]
  folders := rfl

theorem Rewritten.trans {gs hs : Files} {later : String} (h : Rewritten fs gs l content)
    (h' : Rewritten gs hs l later) : Rewritten fs hs l later where
  here := h'.here
  elsewhere m hm := (h'.elsewhere m hm).trans (h.elsewhere m hm)
  folders := h'.folders.trans h.folders

end Files

section forall₂

variable {α β : Type} {R : α → β → Prop} {as : List α}

theorem exists_forall₂_iff : (∃ bs, List.Forall₂ R as bs) ↔ ∀ a ∈ as, ∃ b, R a b := by
  induction as with
  | nil => simp
  | cons a as ih =>
    rw [List.forall_mem_cons, ← ih]
    simp only [List.forall₂_cons_left_iff]
    constructor
    · rintro ⟨-, b, bs, h, hs, rfl⟩
      exact ⟨⟨b, h⟩, bs, hs⟩
    · rintro ⟨⟨b, h⟩, bs, hs⟩
      exact ⟨b :: bs, b, bs, h, hs, rfl⟩

end forall₂

def ReadsAs (read : String → Option String) (p : String) (t : Mapping) : Prop :=
  ∃ source, read p = some source ∧ compile source = .ok t

namespace Files

variable {fs : Files} {paths : List String} {ts : List Mapping}

theorem load_eq_ok_iff {p : String} {t : Mapping} : fs.load p = .ok t ↔ ReadsAs fs.read? p t := by
  rw [load, ReadsAs]
  cases fs.read? p with
  | none => simp
  | some source => cases hc : compile source <;> simp [Except.mapError, hc]

theorem loadAll_eq_ok_iff : fs.loadAll paths = .ok ts ↔ List.Forall₂ (ReadsAs fs.read?) paths ts := by
  rw [loadAll]
  induction paths generalizing ts with
  | nil => cases ts <;> simp [pure, Except.pure]
  | cons p ps ih =>
    rw [List.mapM_cons, List.forall₂_cons_left_iff]
    simp only [← load_eq_ok_iff, ← ih]
    cases fs.load p with
    | error e => simp [bind, Except.bind]
    | ok t => cases ps.mapM fs.load <;> simp [bind, Except.bind, pure, Except.pure, eq_comm]

end Files

/-- All sources compile, and the result is what becomes of their mappings, or the command fails and the result
is empty. -/
structure AllOrNothing (read : String → Option String) (paths : List String) (render : List Mapping → String)
    (succeeded : Bool) (result : String) : Prop where
  nothing : ∀ p ∈ paths, (∀ t, ¬ ReadsAs read p t) → succeeded = false ∧ result = ""
  all : succeeded = true → ∃ ts, List.Forall₂ (ReadsAs read) paths ts ∧ result = render ts
  complete : (∀ p ∈ paths, ∃ t, ReadsAs read p t) → succeeded = true

section outcomes

variable {fs : Files} {paths : List String} {render : List Mapping → String}

theorem allOrNothing_of_ok {ts : List Mapping} (h : fs.loadAll paths = .ok ts) :
    AllOrNothing fs.read? paths render true (render ts) := by
  have hts : List.Forall₂ (ReadsAs fs.read?) paths ts := Files.loadAll_eq_ok_iff.mp h
  refine ⟨fun p hp hno => ?_, fun _ => ⟨ts, hts, rfl⟩, fun _ => rfl⟩
  obtain ⟨t, ht⟩ := exists_forall₂_iff.mp ⟨ts, hts⟩ p hp
  exact absurd ht (hno t)

theorem allOrNothing_of_error {f : Failure} (h : fs.loadAll paths = .error f) :
    AllOrNothing fs.read? paths render false "" := by
  refine ⟨fun _ _ _ => ⟨rfl, rfl⟩, Bool.noConfusion, fun hall => ?_⟩
  obtain ⟨ts, hts⟩ := exists_forall₂_iff.mpr hall
  rw [Files.loadAll_eq_ok_iff.mpr hts] at h
  cases h

end outcomes

namespace Command

variable {fs : Files} {l : Location} {format : EmitFormat} {v : Version} {p : String} {paths : List String}

theorem runEmit_printing : AllOrNothing fs.read? paths (format.emitAll · v)
      (runEmit format v none paths fs).succeeded (runEmit format v none paths fs).output ∧
    (runEmit format v none paths fs).files = fs := by
  rw [runEmit]
  cases h : fs.loadAll paths with
  | ok ts => exact ⟨allOrNothing_of_ok h, rfl⟩
  | error f => exact ⟨allOrNothing_of_error h, rfl⟩

theorem runEmit_unwritable (h : ∀ l, Location.ofPath? p = some l → fs.canHold l = false) :
    runEmit format v (some p) paths fs = .fail fs (.unwritable p) := by
  have hw : fs.write? p "" = none := by
    cases hl : Location.ofPath? p with
    | none => rw [Files.write?, hl, Option.bind_none]
    | some l => exact Files.write?_of_not_canHold hl (h l hl)
  rw [runEmit, hw]

theorem runEmit_of_canHold (hl : Location.ofPath? p = some l) (h : fs.canHold l = true) :
    runEmit format v (some p) paths fs =
      match (fs.store l "").loadAll paths with
      | .error f => .fail (fs.store l "") f
      | .ok ts => ⟨"", .success, (fs.store l "").store l (format.emitAll ts v)⟩ := by
  have hagain : (fs.store l "").canHold l = true := h
  rw [runEmit, Files.write?_of_canHold hl h]
  dsimp only
  cases (fs.store l "").loadAll paths with
  | error f => rfl
  | ok ts =>
    dsimp only
    rw [Files.write?_of_canHold hl hagain]

theorem runEmit_writing (hl : Location.ofPath? p = some l) (h : fs.canHold l = true) :
    (runEmit format v (some p) paths fs).output = "" ∧
      ∃ result, Files.Rewritten fs (runEmit format v (some p) paths fs).files l result ∧
        AllOrNothing (fs.readEmptied l) paths (format.emitAll · v)
          (runEmit format v (some p) paths fs).succeeded result := by
  rw [← Files.read?_store_empty, runEmit_of_canHold hl h]
  cases hts : (fs.store l "").loadAll paths with
  | error f => exact ⟨rfl, "", Files.rewritten_store, allOrNothing_of_error hts⟩
  | ok ts =>
    exact ⟨rfl, format.emitAll ts v, Files.rewritten_store.trans Files.rewritten_store,
      allOrNothing_of_ok hts⟩

end Command

section commandLines

variable {arguments : List String} {format : EmitFormat} {v : Version} {out : Option String}
  {paths : List String}

theorem runCommandLine_of_emit
    (h : Request.ofArguments arguments = .ok (.command (.emit format v out paths))) (fs : Files) :
    runCommandLine arguments fs = Command.runEmit format v out paths fs := by
  rw [runCommandLine, h]
  rfl

/-- Without a file for the output all is printed or nothing, and no file changes. With one nothing is printed.
Where there can be no such file nothing happens. Else it is left empty or full, and the sources are what is
read once it is empty. -/
theorem runCommandLine_emit
    (h : Request.ofArguments arguments = .ok (.command (.emit format v out paths))) (fs : Files) :
    let o := runCommandLine arguments fs
    (out = none →
      AllOrNothing fs.read? paths (format.emitAll · v) o.succeeded o.output ∧ o.files = fs) ∧
    ∀ p, out = some p →
      ((∀ l, Location.ofPath? p = some l → fs.canHold l = false) → o = .fail fs (.unwritable p)) ∧
      ∀ l, Location.ofPath? p = some l → fs.canHold l = true →
        o.output = "" ∧ ∃ result, Files.Rewritten fs o.files l result ∧
          AllOrNothing (fs.readEmptied l) paths (format.emitAll · v) o.succeeded result := by
  intro o
  have ho : o = Command.runEmit format v out paths fs := runCommandLine_of_emit h fs
  rw [ho]
  constructor
  · rintro rfl
    exact Command.runEmit_printing
  · rintro p rfl
    exact ⟨Command.runEmit_unwritable, fun l => Command.runEmit_writing⟩

theorem eq_ok_of_toOption {ε α : Type} {x : Except ε α} {a : α} (h : x.toOption = some a) : x = .ok a := by
  cases x with
  | error e => cases h
  | ok b => rw [Option.some.inj h]

theorem runCommandLine_emit_written :
    let fs := Files.ofNames [("a.map", "class A <- a \x7b \x7d"), ("out.txt", "old")]
    let o := runCommandLine ["emit", "-f", "srg", "-o", "out.txt", "a.map"] fs
    o.succeeded = true ∧ o.files.content? ⟨[], "out.txt"⟩ = some "CL: a A\n" ∧
      ∃ ts, List.Forall₂ (ReadsAs (fs.readEmptied ⟨[], "out.txt"⟩)) ["a.map"] ts ∧
        EmitFormat.srg.emitAll ts none = "CL: a A\n" := by
  have hr : Request.ofArguments ["emit", "-f", "srg", "-o", "out.txt", "a.map"] =
      .ok (.command (.emit .srg none (some "out.txt") ["a.map"])) := eq_ok_of_toOption (by decide +kernel)
  intro fs o
  have hs : o.succeeded = true := by decide +kernel
  have hcontent : o.files.content? ⟨[], "out.txt"⟩ = some "CL: a A\n" := by decide +kernel
  obtain ⟨-, result, hw, h⟩ := ((runCommandLine_emit hr fs).2 "out.txt" rfl).2 ⟨[], "out.txt"⟩
    (by decide +kernel) (by decide +kernel)
  obtain ⟨ts, hts, hresult⟩ := h.all hs
  refine ⟨hs, hcontent, ts, hts, ?_⟩
  rw [← hresult]
  exact Option.some.inj (hw.here.symm.trans hcontent)

/-- What a file had in it is lost when a source cannot be read, and a source that is emitted into its own file
is lost altogether. -/
theorem emit_loses :
    let source := "class A <- a \x7b \x7d"
    let fs := Files.ofNames [("a.map", source), ("out.txt", "old")]
    let failed := runCommandLine ["emit", "-f", "srg", "-o", "out.txt", "a.map", "b.map"] fs
    let overwritten := runCommandLine ["emit", "-f", "srg", "-o", "a.map", "a.map"] fs
    (fs.read? "b.map" = none ∧ failed.succeeded = false ∧ fs.read? "out.txt" = some "old" ∧
      failed.files.read? "out.txt" = some "") ∧
    ∃ t, compile source = .ok t ∧ fs.read? "a.map" = some source ∧ overwritten.succeeded = true ∧
      EmitFormat.srg.emitAll [t] none = "CL: a A\n" ∧ overwritten.files.read? "a.map" = some "" := by
  have ht : compile "class A <- a \x7b \x7d" =
      .ok (Script.resolve ⟨none, [], [⟨"A", some "a", .empty, [], [], [], []⟩]⟩) :=
    compile_of_symbols (by cbv) (by decide) (by cbv)
  refine ⟨by decide +kernel, _, ht, by decide +kernel⟩

end commandLines

end ObfuscationMap
