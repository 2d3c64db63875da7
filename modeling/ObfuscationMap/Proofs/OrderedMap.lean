import ObfuscationMap.OrderedMap
import Mathlib.Data.List.Induction

/-!
What a list of pairs becomes when it is put into an ordered map. The keys stand in the order in which
they first occur and each has the last value that was given to it, and these two facts determine the
map. A list in which no key occurs twice is kept as it is.
-/

namespace ObfuscationMap
namespace OrderedMap

variable {α : Type}

structure Collects (pairs : List (String × α)) (m : OrderedMap α) : Prop where
  keys : m.keys = (pairs.map Prod.fst).eraseDups
  values : ∀ key, m.find? key = (pairs.reverse.find? fun e => e.1 == key).map Prod.snd

theorem ofList_concat (pairs : List (String × α)) (e : String × α) :
    ofList (pairs ++ [e]) = (ofList pairs).insert e.1 e.2 := by
  simp only [ofList, insertAll, List.foldl_append, List.foldl_cons, List.foldl_nil]

theorem keys_ofList (pairs : List (String × α)) :
    (ofList pairs).keys = (pairs.map Prod.fst).eraseDups := by
  induction pairs using List.reverseRecOn with
  | nil => rfl
  | append_singleton pairs e ih =>
    rw [ofList_concat, keys_insert, ih, List.map_append, List.eraseDups_append]
    by_cases hk : e.1 ∈ pairs.map Prod.fst
    · have hr : [e.1].removeAll (pairs.map Prod.fst) = [] := by
        simpa [List.removeAll] using hk
      rw [if_pos (List.mem_eraseDups.2 hk), List.map_singleton, hr, List.eraseDups_nil, List.append_nil]
    · have hr : [e.1].removeAll (pairs.map Prod.fst) = [e.1] := by
        simpa [List.removeAll] using hk
      rw [if_neg (fun h => hk (List.mem_eraseDups.1 h)), List.map_singleton, hr]
      rfl

theorem find?_ofList (pairs : List (String × α)) (key : String) :
    (ofList pairs).find? key = (pairs.reverse.find? fun e => e.1 == key).map Prod.snd := by
  induction pairs using List.reverseRecOn with
  | nil => rfl
  | append_singleton pairs e ih =>
    rw [ofList_concat, find?_insert, ih, List.reverse_concat, List.find?_cons]
    by_cases hk : key = e.1
    · subst hk
      simp
    · have hb : (e.1 == key) = false := by simpa using fun h => hk h.symm
      rw [if_neg hk, hb]

theorem collects_ofList (pairs : List (String × α)) : Collects pairs (ofList pairs) :=
  ⟨keys_ofList pairs, find?_ofList pairs⟩

theorem entries_eq {es fs : List (String × α)} (hn : (es.map Prod.fst).Nodup)
    (hk : es.map Prod.fst = fs.map Prod.fst)
    (hv : ∀ key, (es.find? fun e => e.1 == key).map Prod.snd =
      (fs.find? fun e => e.1 == key).map Prod.snd) : es = fs := by
  induction es generalizing fs with
  | nil => exact (List.map_eq_nil_iff.1 hk.symm).symm
  | cons e es ih =>
    cases fs with
    | nil => simp at hk
    | cons f fs =>
      simp only [List.map_cons, List.cons.injEq] at hk
      simp only [List.map_cons, List.nodup_cons] at hn
      have he := hv e.1
      simp only [List.find?_cons, BEq.rfl, hk.1, Option.map_some, Option.some.injEq] at he
      have hef : e = f := Prod.ext hk.1 he
      subst hef
      congr 1
      refine ih hn.2 hk.2 fun key => ?_
      by_cases hke : e.1 = key
      · subst hke
        have absent : ∀ gs : List (String × α), e.1 ∉ gs.map Prod.fst →
            (gs.find? fun g => g.1 == e.1) = none := by
          intro gs hg
          refine List.find?_eq_none.2 fun g hm hb => hg ?_
          exact beq_iff_eq.1 hb ▸ List.mem_map_of_mem hm
        rw [absent es hn.1, absent fs (hk.2 ▸ hn.1)]
      · have hb : (e.1 == key) = false := by simpa using hke
        simpa only [List.find?_cons, hb] using hv key

theorem Collects.eq_ofList {pairs : List (String × α)} {m : OrderedMap α} (h : Collects pairs m) :
    m = ofList pairs := by
  apply ext
  apply entries_eq m.nodup
  · exact h.keys.trans (keys_ofList pairs).symm
  · intro key
    exact (h.values key).trans (find?_ofList pairs key).symm

theorem putEntry_new {key : String} (value : α) {es : List (String × α)} (h : key ∉ es.map Prod.fst) :
    putEntry key value es = es ++ [(key, value)] := by
  induction es with
  | nil => rfl
  | cons e es ih =>
    rw [List.map_cons, List.mem_cons, not_or] at h
    rw [putEntry, if_neg fun he => h.1 he.symm, ih h.2, List.cons_append]

theorem entries_ofList {es : List (String × α)} (h : (es.map Prod.fst).Nodup) :
    (ofList es).entries = es := by
  induction es using List.reverseRecOn with
  | nil => rfl
  | append_singleton es e ih =>
    rw [List.map_append, List.nodup_append] at h
    have hn : e.1 ∉ es.map Prod.fst := fun hm => h.2.2 e.1 hm e.1 (by simp) rfl
    rw [ofList_concat]
    change putEntry e.1 e.2 (ofList es).entries = es ++ [e]
    rw [ih h.1, putEntry_new e.2 hn]

theorem collects_entries (m : OrderedMap α) : Collects m.entries m := by
  have he : ofList m.entries = m := ext (entries_ofList m.nodup)
  conv => rhs; rw [← he]
  exact collects_ofList m.entries

theorem mem_putEntry {key : String} {value : α} {es : List (String × α)} {e : String × α}
    (h : e ∈ putEntry key value es) : e = (key, value) ∨ e ∈ es := by
  induction es with
  | nil => exact .inl (List.mem_singleton.mp h)
  | cons d es ih =>
    rw [putEntry] at h
    split at h
    · rcases List.mem_cons.mp h with he | he
      · exact .inl he
      · exact .inr (List.mem_cons_of_mem _ he)
    · rcases List.mem_cons.mp h with rfl | he
      · exact .inr List.mem_cons_self
      · rcases ih he with hk | hm
        · exact .inl hk
        · exact .inr (List.mem_cons_of_mem _ hm)

theorem mem_of_mem_ofList {pairs : List (String × α)} {e : String × α}
    (h : e ∈ (ofList pairs).entries) : e ∈ pairs := by
  induction pairs using List.reverseRecOn with
  | nil => exact absurd h List.not_mem_nil
  | append_singleton pairs d ih =>
    rw [ofList_concat] at h
    rcases mem_putEntry h with rfl | hm
    · simp
    · exact List.mem_append_left _ (ih hm)

end OrderedMap
end ObfuscationMap
