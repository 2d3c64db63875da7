/-!
Maps from names to values that keep the order in which their keys first appeared. Giving a key a new
value leaves it at its place, so a map is a list of pairs in which no key occurs twice.
-/

namespace ObfuscationMap

variable {κ α : Type} [DecidableEq κ]

/-- Puts a pair into a list of pairs: at the place of its key if there is one, else at the end. -/
def putEntry (key : κ) (value : α) : List (κ × α) → List (κ × α)
  | [] => [(key, value)]
  | e :: es => if e.1 = key then (key, value) :: es else e :: putEntry key value es

theorem find?_putEntry (key other : κ) (value : α) (es : List (κ × α)) :
    ((putEntry key value es).find? fun e => e.1 == other) =
      if other = key then some (key, value) else es.find? fun e => e.1 == other := by
  induction es with
  | nil => by_cases h : other = key <;> grind [putEntry]
  | cons e es ih => by_cases h : e.1 = key <;> grind [putEntry]

theorem keys_putEntry (key : κ) (value : α) (es : List (κ × α)) :
    (putEntry key value es).map Prod.fst =
      if key ∈ es.map Prod.fst then es.map Prod.fst else es.map Prod.fst ++ [key] := by
  induction es with
  | nil => simp [putEntry]
  | cons e es ih =>
    by_cases h : e.1 = key
    · simp [putEntry, h]
    · have hk : ¬ key = e.1 := fun hk => h hk.symm
      simp only [putEntry, h, ↓reduceIte, List.map_cons, ih, List.mem_cons, hk, false_or]
      split <;> rfl

theorem nodup_putEntry (key : κ) (value : α) {es : List (κ × α)}
    (h : (es.map Prod.fst).Nodup) : ((putEntry key value es).map Prod.fst).Nodup := by
  rw [keys_putEntry]
  split
  · exact h
  · next hn =>
    rw [List.nodup_append]
    refine ⟨h, by simp, ?_⟩
    rintro a ha b hb rfl
    exact hn (by simpa [List.mem_singleton.1 hb] using ha)

structure OrderedMap (α : Type) where
  entries : List (String × α)
  nodup : (entries.map Prod.fst).Nodup

namespace OrderedMap

def empty : OrderedMap α := ⟨[], by simp⟩

instance : Inhabited (OrderedMap α) := ⟨empty⟩

@[ext] theorem ext {m n : OrderedMap α} (h : m.entries = n.entries) : m = n := by
  cases m; cases n; simp_all

instance [DecidableEq α] : DecidableEq (OrderedMap α) := fun m n =>
  if h : m.entries = n.entries then .isTrue (ext h) else .isFalse fun e => h (e ▸ rfl)

def keys (m : OrderedMap α) : List String := m.entries.map Prod.fst

def isEmpty (m : OrderedMap α) : Bool := m.entries.isEmpty

def insert (m : OrderedMap α) (key : String) (value : α) : OrderedMap α :=
  ⟨putEntry key value m.entries, nodup_putEntry key value m.nodup⟩

/-- Inserts pairs one after the other, so a repeated key has its first place and its last value. -/
def insertAll (m : OrderedMap α) (pairs : List (String × α)) : OrderedMap α :=
  pairs.foldl (fun m e => m.insert e.1 e.2) m

def ofList (pairs : List (String × α)) : OrderedMap α := empty.insertAll pairs

def find? (m : OrderedMap α) (key : String) : Option α :=
  (m.entries.find? fun e => e.1 == key).map Prod.snd

theorem keys_insert (m : OrderedMap α) (key : String) (value : α) :
    (m.insert key value).keys = if key ∈ m.keys then m.keys else m.keys ++ [key] :=
  keys_putEntry key value m.entries

theorem find?_insert (m : OrderedMap α) (key other : String) (value : α) :
    (m.insert key value).find? other = if other = key then some value else m.find? other := by
  rw [find?, insert, find?_putEntry]
  split <;> rfl

end OrderedMap

end ObfuscationMap
