import ObfuscationMap.Proofs.Emission
import ObfuscationMap.Proofs.Emission.Command
import ObfuscationMap.Proofs.Json.Dump

/-!
Checks from the command line. A check goes through all files whatever it finds in them, and it finds the same
whether it prints text or JSON: the report on each file can be read back from the JSON, and the text consists of
the lines of these reports.
-/

namespace ObfuscationMap

inductive FileReport
  | problems (file : String) (found : List (String × String))
  | failure (file message : String)
  deriving DecidableEq

namespace FileReport

def problem? (j : Json) : Option (String × String) := do
  some (← j.required "kind" Json.text?, ← j.required "message" Json.text?)

def ofJson? (j : Json) : Option FileReport := do
  let file ← j.required "file" Json.text?
  match j.member? "error" with
  | some m => m.text?.map (failure file)
  | none => (j.required "errors" (Json.list? problem?)).map (problems file)

def lines : FileReport → List String
  | problems file found => found.map fun p => file ++ ": " ++ p.2 ++ "\n"
  | failure file message => [file ++ ": " ++ message ++ "\n"]

inductive Tells (read : String → Option String) (p : String) : FileReport → Prop
  | problems {t : Mapping} (h : ReadsAs read p t) :
      Tells read p (.problems p (t.validate.map fun q => (q.kind, q.message)))
  | failure {source : String} {e : CompileError} (h : read p = some source) (hc : compile source = .error e) :
      Tells read p (.failure p e.message)

end FileReport

namespace Finding

def report (path : String) : Finding → FileReport
  | .uncompiled e => .failure path e.message
  | .compiled ps => .problems path (ps.map fun q => (q.kind, q.message))

theorem ofJson?_toJson (path : String) (f : Finding) : FileReport.ofJson? (f.toJson path) = some (f.report path) := by
  cases f with
  | uncompiled e => rfl
  | compiled ps =>
    have hread : Json.list? FileReport.problem? (.array (ps.map fun q =>
        .object [("kind", .text q.kind), ("message", .text q.message)])) =
          some (ps.map fun q => (q.kind, q.message)) :=
      mapM_map_eq_some fun q _ => rfl
    simp [FileReport.ofJson?, toJson, report, Json.member?_cons, hread]
    rfl

theorem lines_eq (path : String) (f : Finding) : f.lines path = String.join (f.report path).lines := by
  cases f with
  | uncompiled e => rfl
  | compiled ps =>
    rw [lines, messages, report, FileReport.lines, List.map_map, List.map_map]
    rfl

theorem tells_report {read : String → Option String} {p source : String} (h : read p = some source) :
    FileReport.Tells read p ((ofSource source).report p) := by
  rw [ofSource]
  cases hc : compile source with
  | error e => exact .failure h hc
  | ok t => exact .problems ⟨source, h, hc⟩

theorem isClean_iff {read : String → Option String} {p source : String} (h : read p = some source) :
    (ofSource source).isClean = true ↔ ∃ t, ReadsAs read p t ∧ t.validate = [] := by
  simp only [ReadsAs, h, ofSource]
  cases hc : compile source with
  | error e => simp [isClean, hc]
  | ok t => cases hv : t.validate <;> simp [isClean, hc, hv]

end Finding

/-- One check with text as its output and one with JSON come to the same. -/
structure CheckedAlike (fs : Files) (paths : List String) (text json : Outcome) : Prop where
  verdict : json.verdict = text.verdict
  succeeded : text.succeeded = true ↔ ∀ p ∈ paths, ∃ t, ReadsAs fs.read? p t ∧ t.validate = []
  reports : ∃ reports, List.Forall₂ (FileReport.Tells fs.read?) paths reports ∧
    (Json.read? json.output).bind (Json.list? FileReport.ofJson?) = some reports ∧
    text.output = String.join (reports.flatMap (·.lines))
  files : text.files = fs ∧ json.files = fs

def Files.finding (fs : Files) (p : String) : Finding := .ofSource ((fs.read? p).getD "")

section readable

variable {fs : Files} {paths : List String} (h : ∀ p ∈ paths, (fs.read? p).isSome)
include h

theorem Files.check_eq : fs.check paths = (paths.map fun p => (p, fs.finding p), none) := by
  induction paths with
  | nil => rfl
  | cons p ps ih =>
    rw [List.forall_mem_cons] at h
    obtain ⟨source, hs⟩ := Option.isSome_iff_exists.mp h.1
    rw [check, ih h.2, List.map_cons, finding, hs]
    rfl

theorem Command.runCheck_eq (asJson : Bool) : runCheck asJson paths fs =
    ⟨if asJson then jsonText (.array (paths.map fun p => (fs.finding p).toJson p))
      else String.join (paths.map fun p => (fs.finding p).lines p),
      if paths.all fun p => (fs.finding p).isClean then .success else .problems, fs⟩ := by
  rw [runCheck, Files.check_eq h]
  simp only [List.map_map, List.all_map]
  rfl

theorem Command.check_alike : CheckedAlike fs paths (runCheck false paths fs) (runCheck true paths fs) := by
  have hread : ∀ p ∈ paths, fs.read? p = some ((fs.read? p).getD "") := by
    intro p hp
    obtain ⟨source, hs⟩ := Option.isSome_iff_exists.mp (h p hp)
    rw [hs, Option.getD_some]
  rw [runCheck_eq h, runCheck_eq h]
  refine ⟨rfl, ?_, ⟨paths.map fun p => (fs.finding p).report p, ?_, ?_, ?_⟩, rfl, rfl⟩
  · have hclean : (paths.all fun p => (fs.finding p).isClean) = true ↔
        ∀ p ∈ paths, ∃ t, ReadsAs fs.read? p t ∧ t.validate = [] := by
      rw [List.all_eq_true]
      exact forall₂_congr fun p hp => Finding.isClean_iff (hread p hp)
    rw [← hclean, Outcome.succeeded]
    cases paths.all fun p => (fs.finding p).isClean <;> simp
  · rw [List.forall₂_map_right_iff, List.forall₂_same]
    exact fun p hp => Finding.tells_report (hread p hp)
  · rw [if_pos rfl, jsonText, Json.read?_pretty_newline, Option.bind_some]
    exact mapM_map_eq_some fun p _ => Finding.ofJson?_toJson p (fs.finding p)
  · rw [if_neg Bool.false_ne_true, List.flatMap_map]
    simp only [Finding.lines_eq]
    apply String.toList_injective
    simp only [String.toList_join, List.flatMap_map, List.flatMap_assoc]

end readable

namespace CommandWord

def checkForms : List OptionForm := check.options ++ noticeOptions

theorem request_check_iff {as paths : List String} {asJson : Bool} :
    check.request as = .ok (.command (.check asJson paths)) ↔
      (Arguments.read checkForms as).ending = .complete ∧ (Arguments.read checkForms as).optionFault? = none ∧
        (Arguments.read checkForms as).has jsonOption = asJson ∧ (Arguments.read checkForms as).files = .ok paths := by
  rw [request, checkForms]
  · generalize Arguments.read (check.options ++ noticeOptions) as = a
    cases a.ending with
    | unknown o => simp
    | notice n => simp
    | complete =>
      cases a.optionFault? with
      | some e => simp
      | none => cases hf : a.files <;> simp [command, hf, bind, Except.bind, pure, Except.pure, Except.map]
  · rintro _ _ _ ⟨⟩

theorem read_json (as : List String) :
    Arguments.read checkForms ("--json" :: as) = (Arguments.read checkForms as).addOption jsonOption none := by
  have hclass : Argument.classify checkForms "--json" = .option jsonOption none := by decide
  rw [Arguments.read, hclass]
  rfl

theorem optionFault?_addOption {a : Arguments} (hnew : a.has jsonOption = false) (h : a.optionFault? = none) :
    (a.addOption jsonOption none).optionFault? = none := by
  have hother : ∀ o ∈ a.options, o.form ≠ jsonOption := by
    simpa [Arguments.has] using hnew
  have hcount : (a.options.map (·.form)).count jsonOption = 0 :=
    List.count_eq_zero.mpr fun hm => by
      obtain ⟨o, ho, he⟩ := List.mem_map.mp hm
      exact hother o ho he
  rw [Arguments.optionFault?, List.findSome?_eq_none_iff] at h ⊢
  rw [Arguments.addOption, List.forall_mem_cons, List.map_cons]
  constructor
  · rw [List.count_cons_self, hcount]
    rfl
  · intro o ho
    rw [List.count_cons_of_ne (hother o ho).symm]
    exact h o ho

theorem request_json {as paths : List String} (h : check.request as = .ok (.command (.check false paths))) :
    check.request ("--json" :: as) = .ok (.command (.check true paths)) := by
  obtain ⟨hending, hfault, hnew, hfiles⟩ := request_check_iff.mp h
  rw [request_check_iff, read_json]
  refine ⟨hending, optionFault?_addOption hnew hfault, ?_, hfiles⟩
  rw [Arguments.has, Arguments.addOption, List.any_cons, BEq.rfl, Bool.true_or]

end CommandWord

theorem runCommandLine_of_check {as paths : List String} {asJson : Bool}
    (h : CommandWord.check.request as = .ok (.command (.check asJson paths))) (fs : Files) :
    runCommandLine ("check" :: as) fs = Command.runCheck asJson paths fs := by
  have hword : Request.ofArguments ("check" :: as) = CommandWord.check.request as := rfl
  rw [runCommandLine, hword, h]
  rfl

/-- Where all files can be read, a check succeeds if and only if each of them compiles and has no problem, and
with the option for JSON it reports the same. -/
theorem runCommandLine_check {fs : Files} {paths : List String} (h : ∀ p ∈ paths, (fs.read? p).isSome) :
    CheckedAlike fs paths (Command.run fs (.check false paths)) (Command.run fs (.check true paths)) ∧
    ∀ as, Request.ofArguments ("check" :: as) = .ok (.command (.check false paths)) →
      CheckedAlike fs paths (runCommandLine ("check" :: as) fs) (runCommandLine ("check" :: "--json" :: as) fs) := by
  refine ⟨Command.check_alike h, fun as hplain => ?_⟩
  have hjson := CommandWord.request_json hplain
  rw [runCommandLine_of_check hplain, runCommandLine_of_check hjson]
  exact Command.check_alike h

theorem runCommandLine_check_uncompiled :
    let fs := Files.ofNames [("a.map", "class A <- a \x7b \x7d class A <- b \x7b \x7d"), ("b.map", "class"),
      ("c.map", "class C <- c \x7b \x7d")]
    let text := runCommandLine ["check", "a.map", "b.map", "c.map"] fs
    let json := runCommandLine ["check", "--json", "a.map", "b.map", "c.map"] fs
    (∀ p ∈ ["a.map", "b.map", "c.map"], (fs.read? p).isSome) ∧ text.succeeded = false ∧
      text.output = "a.map: Duplicate class name: A\n" ++
        "b.map: Expected class name at line 1, column 6, found end of input\n" ∧
      CheckedAlike fs ["a.map", "b.map", "c.map"] text json := by
  intro fs text json
  have hr : Request.ofArguments ["check", "a.map", "b.map", "c.map"] =
      .ok (.command (.check false ["a.map", "b.map", "c.map"])) := eq_ok_of_toOption (by decide +kernel)
  have hread : ∀ p ∈ ["a.map", "b.map", "c.map"], (fs.read? p).isSome := by decide +kernel
  exact ⟨hread, by decide +kernel, by decide +kernel, (runCommandLine_check hread).2 _ hr⟩

end ObfuscationMap
