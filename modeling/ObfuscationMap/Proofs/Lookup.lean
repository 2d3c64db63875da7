import ObfuscationMap.Mapping
import Std.Data.HashMap.Lemmas
import Mathlib.Data.List.Nodup

/-!
Looking things up by their names. Where a name is used once, whatever finds the first thing of that name
finds the thing itself: a search through a list, a table that keeps the first value of each key, and the
search for a member.
-/

namespace ObfuscationMap

variable {α : Type} {as : List α} {a : α}

theorem find?_eq_some_of_unique {p : α → Bool} (ha : a ∈ as) (hp : p a = true)
    (hu : ∀ b ∈ as, p b = true → b = a) : as.find? p = some a := by
  cases hf : as.find? p with
  | none => exact absurd hp (List.find?_eq_none.mp hf a ha)
  | some b => rw [hu b (List.mem_of_find?_eq_some hf) (List.find?_some hf)]

theorem find?_of_nodup {f : α → String} (hn : (as.map f).Nodup) (ha : a ∈ as) :
    (as.find? fun b => f b == f a) = some a := by
  refine find?_eq_some_of_unique ha BEq.rfl ?_
  intro b hb he
  exact List.inj_on_of_nodup_map hn hb ha (beq_iff_eq.mp he)

theorem getElem?_insertIfNew_all (f : α → String) (as : List α) (m : Std.HashMap String α) (k : String) :
    (as.foldl (fun m a => m.insertIfNew (f a) a) m)[k]? = m[k]?.or (as.find? fun a => f a == k) := by
  induction as generalizing m with
  | nil => simp
  | cons a as ih =>
    rw [List.foldl_cons, ih, Std.HashMap.getElem?_insertIfNew, List.find?_cons]
    by_cases hk : f a = k
    · subst hk
      -- What the table has already stays, and then `a` comes too late.
      by_cases hm : f a ∈ m
      · simp [hm]
      · simp [hm]
    · have hb : (f a == k) = false := by simpa using hk
      simp [hb]

section first

variable {p : α → Bool} {P : α → Prop}

/-- It has the property, and nothing that stands before it has. -/
def First (P : α → Prop) (as : List α) (a : α) : Prop :=
  P a ∧ ∃ before after, as = before ++ a :: after ∧ ∀ b ∈ before, ¬ P b

theorem First.head (h : P a) : First P (a :: as) a := ⟨h, [], as, rfl, List.forall_mem_nil _⟩

theorem First.mem (h : First P as a) : a ∈ as := by
  obtain ⟨-, before, after, rfl, -⟩ := h
  simp

theorem find?_eq_some_iff_first (hp : ∀ b, p b = true ↔ P b) : as.find? p = some a ↔ First P as a := by
  rw [List.find?_eq_some_iff_append, First, hp]
  simp only [Bool.not_eq_true', ← Bool.not_eq_true, hp]

theorem find?_eq_none_iff_not (hp : ∀ b, p b = true ↔ P b) : as.find? p = none ↔ ∀ b ∈ as, ¬ P b := by
  rw [List.find?_eq_none]
  simp only [hp]

end first

theorem findMember_name {names : α → Renaming} (hn : (as.map fun m => (names m).name).Nodup)
    (ha : a ∈ as) (v : Version) : findMember names as (names a).name v = some a := by
  rw [findMember, find?_of_nodup hn ha]
  rfl

end ObfuscationMap
