import ObfuscationMap.Session
import Mathlib.Data.List.Induction

/-!
Runs over many sessions. What a session is follows from its own history: it has the sources that it was made
with and the version that it was made with or that was set for it last. Nothing that is done with other sessions
matters, except where it was made from them, and then only what they were at that time. So a question is answered
as by an index that was made for it alone.
-/

namespace ObfuscationMap

namespace SessionStep

def sets? (n : Nat) : SessionStep → Option Version
  | .setVersion m v => if m = n then some v else none
  | _ => none

def added (k : Nat) : SessionStep → Nat
  | .addWithVersion n _ | .addClone n => if n < k then 1 else 0
  | .addMerged _ => 1
  | .setVersion .. | .ask .. => 0

def lastSet? (n : Nat) : List SessionStep → Option Version
  | [] => none
  | step :: steps => (lastSet? n steps).or (step.sets? n)

def count (k : Nat) : List SessionStep → Nat
  | [] => k
  | step :: steps => count (k + step.added k) steps

end SessionStep

open SessionStep (lastSet? count)

/-- What the steps make of session `n`: its sources and its version. At first there is a session for each group
of sources. -/
inductive History (groups : List (List Mapping)) : List SessionStep → Nat → List Mapping → Version → Prop
  | first {n : Nat} {ts : List Mapping} : groups[n]? = some ts → History groups [] n ts none
  | withVersion {before : List SessionStep} {n : Nat} {ts : List Mapping} {w : Version} (v : Version) :
      History groups before n ts w →
      History groups (before ++ [.addWithVersion n v]) (count groups.length before) ts v
  | clone {before : List SessionStep} {n : Nat} {ts : List Mapping} {v : Version} :
      History groups before n ts v →
      History groups (before ++ [.addClone n]) (count groups.length before) ts v
  /-- Sessions that are not there are passed over. -/
  | merged {before : List SessionStep} (ns : List Nat) (sources : Nat → List Mapping) (version : Nat → Version) :
      (∀ n ∈ ns, n < count groups.length before → History groups before n (sources n) (version n)) →
      History groups (before ++ [.addMerged ns]) (count groups.length before)
        ((ns.filter (· < count groups.length before)).flatMap sources) none
  | later {before : List SessionStep} {n : Nat} {ts : List Mapping} {v : Version} (later : List SessionStep) :
      History groups before n ts v → History groups (before ++ later) n ts ((lastSet? n later).getD v)

section step

variable {ss : List Session} {s : Session} {n : Nat}

theorem length_apply (ss : List Session) (step : SessionStep) :
    (step.apply ss).length = ss.length + step.added ss.length := by
  cases step with
  | setVersion m v => simp [SessionStep.apply, SessionStep.added]
  | addWithVersion m v => by_cases hm : m < ss.length <;> simp [SessionStep.apply, SessionStep.added, hm]
  | addClone m => by_cases hm : m < ss.length <;> simp [SessionStep.apply, SessionStep.added, hm]
  | addMerged ms => simp [SessionStep.apply, SessionStep.added]
  | ask m question at? => rfl

theorem getElem?_apply (h : ss[n]? = some s) (step : SessionStep) :
    (step.apply ss)[n]? = some ⟨s.index, (step.sets? n).getD s.version⟩ := by
  have hadd : ∀ added : List Session, (ss ++ added)[n]? = some s := fun added => by
    rw [List.getElem?_append_left (List.getElem?_eq_some_iff.mp h).1, h]
  cases step with
  | setVersion m v =>
    rw [SessionStep.apply, List.getElem?_modify, h, SessionStep.sets?]
    by_cases hm : m = n <;> simp [hm, Session.withVersion]
  | addWithVersion m v => exact hadd _
  | addClone m => exact hadd _
  | addMerged ms => exact hadd _
  | ask m question at? => exact h

end step

section run

variable {ss : List Session} {s : Session} {n : Nat}

theorem run_append (ss : List Session) (steps later : List SessionStep) :
    Session.run ss (steps ++ later) = Session.run (Session.run ss steps) later := List.foldl_append

theorem count_append_singleton (k : Nat) (steps : List SessionStep) (step : SessionStep) :
    count k (steps ++ [step]) = count k steps + step.added (count k steps) := by
  induction steps generalizing k with
  | nil => rfl
  | cons first steps ih => exact ih (k + first.added k)

theorem length_run (ss : List Session) (steps : List SessionStep) :
    (Session.run ss steps).length = count ss.length steps := by
  induction steps generalizing ss with
  | nil => rfl
  | cons step steps ih =>
    have hrun := ih (step.apply ss)
    rw [length_apply] at hrun
    exact hrun

theorem getElem?_run (h : ss[n]? = some s) (steps : List SessionStep) :
    (Session.run ss steps)[n]? = some ⟨s.index, (lastSet? n steps).getD s.version⟩ := by
  induction steps generalizing ss s with
  | nil => exact h
  | cons step steps ih =>
    refine (ih (getElem?_apply h step)).trans ?_
    rw [lastSet?]
    cases lastSet? n steps <;> rfl

theorem lastSet?_eq_none {steps : List SessionStep} (h : ∀ v, .setVersion n v ∉ steps) :
    lastSet? n steps = none := by
  induction steps with
  | nil => rfl
  | cons step steps ih =>
    have hstep : step.sets? n = none := by
      cases step with
      | setVersion m v =>
        refine if_neg ?_
        rintro rfl
        exact h v List.mem_cons_self
      | _ => rfl
    rw [lastSet?, hstep, ih fun v hv => h v (List.mem_cons_of_mem _ hv)]
    rfl

/-- What is done with other sessions leaves the session alone. -/
theorem getElem?_run_other (hn : n < ss.length) {steps : List SessionStep} (h : ∀ v, .setVersion n v ∉ steps) :
    (Session.run ss steps)[n]? = ss[n]? := by
  rw [getElem?_run (List.getElem?_eq_getElem hn), lastSet?_eq_none h, List.getElem?_eq_getElem hn]
  rfl

theorem transcript_append (ss : List Session) (steps later : List SessionStep) :
    Session.transcript ss (steps ++ later) =
      Session.transcript ss steps ++ Session.transcript (Session.run ss steps) later := by
  induction steps generalizing ss with
  | nil => rfl
  | cons step steps ih => exact congrArg (step.answer? ss :: ·) (ih (step.apply ss))

theorem length_transcript (ss : List Session) (steps : List SessionStep) :
    (Session.transcript ss steps).length = steps.length := by
  induction steps generalizing ss with
  | nil => rfl
  | cons step steps ih => exact congrArg (· + 1) (ih (step.apply ss))

theorem getElem?_transcript (ss : List Session) (before after : List SessionStep) (step : SessionStep) :
    (Session.transcript ss (before ++ step :: after))[before.length]? =
      some (step.answer? (Session.run ss before)) := by
  have hlen := length_transcript ss before
  rw [transcript_append, List.getElem?_append_right (by omega), hlen, Nat.sub_self]
  rfl

end run

section history

variable {groups : List (List Mapping)} {steps : List SessionStep} {n : Nat}

theorem flatMap_filterMap_sources {ss : List Session} {ns : List Nat} {sources : Nat → List Mapping}
    (h : ∀ n ∈ ns, n < ss.length → ∃ s, ss[n]? = some s ∧ s.index.sources = sources n) :
    (ns.filterMap (ss[·]?)).flatMap (·.index.sources) = (ns.filter (· < ss.length)).flatMap sources := by
  induction ns with
  | nil => rfl
  | cons n ns ih =>
    rw [List.forall_mem_cons] at h
    have hns := ih h.2
    by_cases hn : n < ss.length
    · obtain ⟨s, hs, hsources⟩ := h.1 hn
      rw [List.filterMap_cons_some hs, List.flatMap_cons, hsources, hns, List.filter_cons_of_pos (by simpa using hn),
        List.flatMap_cons]
    · rw [List.filterMap_cons_none (List.getElem?_eq_none (by omega)), hns,
        List.filter_cons_of_neg (by simpa using hn)]

theorem History.getElem?_run {ts : List Mapping} {v : Version} (h : History groups steps n ts v) :
    (Session.run (groups.map Session.ofSources) steps)[n]? = some ⟨.ofSources ts, v⟩ := by
  have hcount : ∀ before, (Session.run (groups.map Session.ofSources) before).length =
      count groups.length before := fun before => by rw [length_run, List.length_map]
  have hadd : ∀ (ss : List Session) (s : Session), (ss ++ [s])[ss.length]? = some s := fun ss s =>
    List.getElem?_concat_length
  induction h with
  | first h => exact (List.getElem?_map ..).trans (by rw [h]; rfl)
  | withVersion v _ ih =>
    rw [run_append, ← hcount]
    change (_ ++ _)[_]? = _
    rw [ih]
    exact hadd _ _
  | clone _ ih =>
    rw [run_append, ← hcount]
    change (_ ++ _)[_]? = _
    rw [ih]
    exact hadd _ _
  | @merged before ns sources version _ ih =>
    rw [run_append, ← hcount]
    change (_ ++ [Session.merge _])[_]? = _
    have hsources := flatMap_filterMap_sources fun n hn hlt => ⟨_, ih n hn (hcount before ▸ hlt), rfl⟩
    rw [hadd, Session.merge, hsources]
    rfl
  | later later _ ih => rw [run_append, ObfuscationMap.getElem?_run ih]

theorem exists_history (hn : n < count groups.length steps) : ∃ ts v, History groups steps n ts v := by
  induction steps using List.reverseRecOn generalizing n with
  | nil => exact ⟨groups[n], none, .first (List.getElem?_eq_getElem hn)⟩
  | append_singleton before step ih =>
    by_cases hbefore : n < count groups.length before
    · obtain ⟨ts, v, h⟩ := ih hbefore
      exact ⟨ts, _, h.later [step]⟩
    -- Otherwise the step has added the session.
    · rw [count_append_singleton] at hn
      have hadded : step.added (count groups.length before) ≠ 0 := by omega
      have hlast : step.added (count groups.length before) ≤ 1 → n = count groups.length before := by omega
      cases step with
      | setVersion m v => exact absurd rfl hadded
      | ask m question at? => exact absurd rfl hadded
      | addWithVersion m v =>
        have hm : m < count groups.length before := by_contra fun hm => hadded (if_neg hm)
        obtain ⟨ts, w, h⟩ := ih hm
        obtain rfl := hlast (Nat.le_of_eq (if_pos hm))
        exact ⟨ts, v, .withVersion v h⟩
      | addClone m =>
        have hm : m < count groups.length before := by_contra fun hm => hadded (if_neg hm)
        obtain ⟨ts, v, h⟩ := ih hm
        obtain rfl := hlast (Nat.le_of_eq (if_pos hm))
        exact ⟨ts, v, .clone h⟩
      | addMerged ns =>
        have hall : ∀ m, ∃ ts v, m < count groups.length before → History groups before m ts v := fun m => by
          by_cases hm : m < count groups.length before
          · obtain ⟨ts, v, h⟩ := ih hm
            exact ⟨ts, v, fun _ => h⟩
          · exact ⟨[], none, fun h => absurd h hm⟩
        choose sources version h using hall
        obtain rfl := hlast (Nat.le_refl 1)
        exact ⟨_, none, .merged ns sources version fun m _ => h m⟩

theorem getElem?_run_iff {s : Session} :
    (Session.run (groups.map Session.ofSources) steps)[n]? = some s ↔
      ∃ ts v, History groups steps n ts v ∧ s = ⟨.ofSources ts, v⟩ := by
  constructor
  · intro h
    have hn := (List.getElem?_eq_some_iff.mp h).1
    rw [length_run, List.length_map] at hn
    obtain ⟨ts, v, hhistory⟩ := exists_history hn
    exact ⟨ts, v, hhistory, Option.some.inj (h.symm.trans hhistory.getElem?_run)⟩
  · rintro ⟨ts, v, hhistory, rfl⟩
    exact hhistory.getElem?_run

theorem History.getElem?_transcript {before after : List SessionStep} {ts : List Mapping} {v : Version}
    (h : History groups before n ts v) (question : Question) (at? : Option Version) :
    (Session.transcript (groups.map Session.ofSources) (before ++ .ask n question at? :: after))[before.length]? =
      some (some ((Index.ofSources ts).answer (at?.getD v) question)) := by
  rw [ObfuscationMap.getElem?_transcript, SessionStep.answer?, h.getElem?_run]
  rfl

end history

theorem sessions_independent (groups : List (List Mapping)) (steps : List SessionStep) :
    (∀ n s, (Session.run (groups.map Session.ofSources) steps)[n]? = some s ↔
      ∃ ts v, History groups steps n ts v ∧ s = ⟨.ofSources ts, v⟩) ∧
    (∀ before n question at? after ts v, steps = before ++ .ask n question at? :: after →
      History groups before n ts v →
      (Session.transcript (groups.map Session.ofSources) steps)[before.length]? =
        some (some ((Index.ofSources ts).answer (at?.getD v) question))) ∧
    ∀ before later n, steps = before ++ later →
      n < (Session.run (groups.map Session.ofSources) before).length → (∀ v, .setVersion n v ∉ later) →
      (Session.run (groups.map Session.ofSources) steps)[n]? =
        (Session.run (groups.map Session.ofSources) before)[n]? := by
  refine ⟨fun n s => getElem?_run_iff, ?_, ?_⟩
  · rintro before n question at? after ts v rfl h
    exact h.getElem?_transcript question at?
  · rintro before later n rfl hn h
    rw [run_append, getElem?_run_other hn h]

theorem sessions_independent_clone :
    let t : Mapping := ⟨"p", .empty, []⟩
    let u : Mapping := ⟨"q", .empty, []⟩
    let groups := [[t], [u]]
    let start := groups.map Session.ofSources
    let cloned := [.setVersion 0 (some "1"), .addClone 0, .setVersion 0 (some "2")]
    let before := cloned ++ [.addMerged [2, 1, 2]]
    let steps := before ++ [.ask 2 (.obfuscate "A") none, .setVersion 2 none]
    (Session.run start steps)[3]? = some ⟨.ofSources [t, u, t], none⟩ ∧
      (Session.transcript start steps)[4]? =
        some (some ((Index.ofSources [t]).answer (some "1") (.obfuscate "A"))) ∧
      (Session.run start steps)[0]? = (Session.run start before)[0]? := by
  intro t u groups start cloned before steps
  obtain ⟨hstate, hanswer, hother⟩ := sessions_independent groups steps
  have hparent : History groups [.setVersion 0 (some "1")] 0 [t] (some "1") :=
    .later [.setVersion 0 (some "1")] (.first rfl)
  have hclone : History groups cloned 2 [t] (some "1") := .later [.setVersion 0 (some "2")] (.clone hparent)
  have hsecond : History groups cloned 1 [u] none := .later cloned (.first rfl)
  have hmembers : ∀ n ∈ [2, 1, 2], n < count groups.length cloned →
      History groups cloned n (if n = 1 then [u] else [t]) (if n = 1 then none else some "1") := by
    simp [hclone, hsecond]
  have hmerged := History.merged _ _ _ hmembers
  refine ⟨(hstate 3 _).mpr ⟨_, _, .later [_, _] hmerged, rfl⟩, ?_, ?_⟩
  · exact hanswer before 2 _ none [.setVersion 2 none] [t] _ rfl (.later [.addMerged [2, 1, 2]] hclone)
  · exact hother before [_, _] 0 rfl (by decide) (by simp)

end ObfuscationMap
