import ObfuscationMap.ClassName
import ObfuscationMap.Proofs.Writing
import Mathlib.Data.List.TakeWhile

/-!
The parts and characters of names. A qualified name is made of word parts and dots and does not end with a
dot, so no other character of a format can be mistaken for a part of it. An internal name has slashes for
its dots, and the dots can be put back.
-/

namespace ObfuscationMap

section intercalate

variable {α : Type} {x : α} {sep : List α} {ls : List (List α)}

theorem mem_intercalate (h : x ∈ sep.intercalate ls) : x ∈ sep ∨ ∃ l ∈ ls, x ∈ l := by
  induction ls with
  | nil => exact absurd h List.not_mem_nil
  | cons l ls ih =>
    cases ls with
    | nil => exact .inr ⟨l, List.mem_cons_self, by simpa using h⟩
    | cons l' ls =>
      rw [List.intercalate_cons_cons, List.mem_append, List.mem_append] at h
      rcases h with (hl | hs) | hm
      · exact .inr ⟨l, List.mem_cons_self, hl⟩
      · exact .inl hs
      · exact (ih hm).imp_right fun ⟨k, hk, hx⟩ => ⟨k, List.mem_cons_of_mem _ hk, hx⟩

theorem not_mem_intercalate (hs : x ∉ sep) (hl : ∀ l ∈ ls, x ∉ l) : x ∉ sep.intercalate ls := by
  intro hm
  rcases mem_intercalate hm with h | ⟨l, hmem, h⟩
  · exact hs h
  · exact hl l hmem h

theorem intercalate_ne_nil {l : List α} (h : l ≠ []) : sep.intercalate (l :: ls) ≠ [] := by
  cases ls with
  | nil => simpa using h
  | cons l' ls =>
    rw [List.intercalate_cons_cons]
    simp [h]

theorem intercalate_cons (sep l : List α) (ls : List (List α)) :
    sep.intercalate (l :: ls) = l ++ ls.flatMap (sep ++ ·) := by
  induction ls generalizing l with
  | nil => simp
  | cons l' ls ih => rw [List.intercalate_cons_cons, ih, List.flatMap_cons, List.append_assoc, List.append_assoc]

theorem intercalate_inj [BEq α] [LawfulBEq α] {ls' : List (List α)} (h : ∀ l ∈ ls, l ≠ [] ∧ x ∉ l)
    (h' : ∀ l ∈ ls', l ≠ [] ∧ x ∉ l) : [x].intercalate ls = [x].intercalate ls' ↔ ls = ls' := by
  refine ⟨fun he => ?_, congrArg _⟩
  cases ls with
  | nil =>
    cases ls' with
    | nil => rfl
    | cons l ls' => exact absurd he.symm (intercalate_ne_nil (h' l List.mem_cons_self).1)
  | cons l ls =>
    cases ls' with
    | nil => exact absurd he (intercalate_ne_nil (h l List.mem_cons_self).1)
    | cons l' ls' =>
      rw [← List.splitOn_intercalate x (fun k hk => (h k hk).2) (List.cons_ne_nil l ls), he,
        List.splitOn_intercalate x (fun k hk => (h' k hk).2) (List.cons_ne_nil l' ls')]

end intercalate

theorem isIdentifier_iff {w : String} :
    isIdentifier w ↔ ∃ c cs, w.toList = c :: cs ∧ isWordStart c ∧ ∀ d ∈ cs, isWordPart d := by
  rw [isIdentifier]
  cases w.toList with
  | nil => simp
  | cons c cs => simp

section characters

variable {name : String} {c : Char}

theorem not_mem_identifier (h : isIdentifier name) (hc : isWordPart c = false) : c ∉ name.toList := by
  obtain ⟨d, ds, hw, hd, hds⟩ := isIdentifier_iff.mp h
  have hpart : ∀ e ∈ name.toList, isWordPart e := by
    rw [hw, List.forall_mem_cons]
    exact ⟨by simp [isWordPart, hd], hds⟩
  intro hm
  rw [hpart c hm] at hc
  cases hc

end characters

theorem nameParts_undotted {w : String} (h : '.' ∉ w.toList) : nameParts w = [w] := by
  rw [nameParts, List.splitOn_eq_singleton h]
  simp

theorem nameParts_identifier {w : String} (h : isIdentifier w) : nameParts w = [w] :=
  nameParts_undotted (not_mem_identifier h (by decide))

theorem nameParts_append (a b : String) : nameParts (a ++ "." ++ b) = nameParts a ++ nameParts b := by
  have ht : (a ++ "." ++ b).toList = a.toList ++ '.' :: b.toList := by simp
  rw [nameParts, ht, List.splitOn_append_cons_self, List.map_append]
  rfl

theorem isQualified_identifier {w : String} (h : isIdentifier w) : isQualified w := by
  rw [isQualified, nameParts_identifier h]
  simpa using h

theorem isQualified_append {a b : String} (ha : isQualified a) (hb : isQualified b) :
    isQualified (a ++ "." ++ b) := by
  rw [isQualified, nameParts_append, List.all_append, Bool.and_eq_true]
  exact ⟨ha, hb⟩

def IsLastPart (path part : String) : Prop :=
  '.' ∉ part.toList ∧ (path = part ∨ ∃ front, path = front ++ "." ++ part)

theorem IsLastPart.eq {path part : String} (h : IsLastPart path part) : lastPart path = part := by
  obtain ⟨hdot, hpath⟩ := h
  have hdot' : '.' ∉ part.toList.reverse := fun hm => hdot (List.mem_reverse.mp hm)
  have htake : path.toList.reverse.takeWhile (· != '.') = part.toList.reverse := by
    rcases hpath with rfl | ⟨front, rfl⟩
    · exact List.takeWhile_eq_self_iff.mpr (forall_bne hdot')
    · have hrev : (front ++ "." ++ part).toList.reverse =
          part.toList.reverse ++ '.' :: front.toList.reverse := by simp
      rw [hrev, takeWhile_until hdot']
  rw [lastPart, htake, List.reverse_reverse, String.ofList_toList]

theorem isLastPart_lastPart (path : String) : IsLastPart path (lastPart path) := by
  have hpart : ∃ part, IsLastPart path part := by
    by_cases hdot : '.' ∈ path.toList
    · obtain ⟨last, front, hrev, hlast⟩ := List.eq_append_cons_of_mem (List.mem_reverse.mpr hdot)
      refine ⟨String.ofList last.reverse, by simpa using hlast, .inr ⟨String.ofList front.reverse, ?_⟩⟩
      apply String.toList_injective
      simpa using congrArg List.reverse hrev
    · exact ⟨path, hdot, .inl rfl⟩
  obtain ⟨part, hp⟩ := hpart
  rwa [hp.eq]

theorem lastPart_eq_iff {path part : String} : lastPart path = part ↔ IsLastPart path part := by
  refine ⟨?_, IsLastPart.eq⟩
  rintro rfl
  exact isLastPart_lastPart path

theorem IsLastPart.mem_nameParts {path part : String} (h : IsLastPart path part) : part ∈ nameParts path := by
  obtain ⟨hdot, rfl | ⟨front, rfl⟩⟩ := h
  · rw [nameParts_undotted hdot]
    exact List.mem_singleton_self _
  · rw [nameParts_append, nameParts_undotted hdot]
    exact List.mem_append_right _ (List.mem_singleton_self _)

section characters

variable {name : String} {c : Char}

theorem not_mem_qualified (h : isQualified name) (hc : isWordPart c = false) (hd : c ≠ '.') :
    c ∉ name.toList := by
  have hn : ['.'].intercalate (name.toList.splitOn '.') = name.toList := List.intercalate_splitOn '.'
  rw [← hn]
  apply not_mem_intercalate (by simpa using hd)
  intro l hl
  have hp : isIdentifier (String.ofList l) := List.all_eq_true.mp h _ (List.mem_map_of_mem hl)
  simpa using not_mem_identifier hp hc

theorem getLast?_qualified (h : isQualified name) : name.toList.getLast? ≠ some '.' := by
  have hp : isIdentifier (lastPart name) := List.all_eq_true.mp h _ (isLastPart_lastPart name).mem_nameParts
  intro hl
  rw [List.getLast?_eq_head?_reverse] at hl
  obtain ⟨rest, hr⟩ := List.head?_eq_some_iff.mp hl
  rw [lastPart, hr] at hp
  cases hp

theorem qualified_ne_nil (h : isQualified name) : name.toList ≠ [] := by
  intro hn
  rw [isQualified, nameParts, hn] at h
  cases h

theorem toList_internalName (name : String) : (internalName name).toList =
    name.toList.map fun c => if c = '.' then '/' else c := String.toList_map

theorem internalName_undotted (h : '.' ∉ name.toList) : internalName name = name := by
  apply String.toList_injective
  have hid : ∀ c ∈ name.toList, (if c = '.' then '/' else c) = id c := by
    intro c hc
    have hd : c ≠ '.' := fun hd => h (hd ▸ hc)
    exact if_neg hd
  rw [toList_internalName, List.map_congr_left hid, List.map_id]

theorem not_mem_internalName (h : isQualified name) (hc : isWordPart c = false) (hs : c ≠ '/') :
    c ∉ (internalName name).toList := by
  rw [toList_internalName, List.mem_map]
  rintro ⟨d, hd, he⟩
  split at he
  · exact hs he.symm
  · next hdot =>
    subst he
    exact not_mem_qualified h hc hdot hd

end characters

theorem isQualified_qualify {package name : String} (hp : package = "" ∨ isQualified package)
    (hn : isQualified name) : isQualified (qualify package name) := by
  unfold qualify
  split
  · exact hn
  · next h => exact isQualified_append (hp.resolve_left h) hn

theorem map_map_eq_self {α β : Type} {f : α → β} {g : β → α} {as : List α}
    (h : ∀ a ∈ as, g (f a) = a) : (as.map f).map g = as := by
  have hid : as.map (g ∘ f) = as.map id := List.map_congr_left h
  rw [List.map_map, hid, List.map_id]

def dottedName (name : String) : String := name.map fun c => if c = '/' then '.' else c

theorem dottedName_internalName {name : String} (h : isQualified name) :
    dottedName (internalName name) = name := by
  have hs := not_mem_qualified h (c := '/') (by decide) (by decide)
  apply String.toList_injective
  rw [dottedName, String.toList_map, toList_internalName]
  apply map_map_eq_self
  intro c hc
  by_cases hd : c = '.'
  · simp [hd]
  · have hne : c ≠ '/' := fun he => hs (he ▸ hc)
    simp [hd, hne]

end ObfuscationMap
