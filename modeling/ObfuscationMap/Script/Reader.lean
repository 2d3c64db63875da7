import ObfuscationMap.Script.ParseError

/-!
Reading from the front of a list of tokens. A reader returns what it read and the tokens that are left,
or the mismatch it met. `Takes n` says how many tokens it takes at least; repetition ends because each
round takes one.
-/

namespace ObfuscationMap

variable {α β : Type}

abbrev Reader (α : Type) := StateT (List Token) (Except Mismatch) α

namespace Reader

/-- Whenever the reader succeeds it takes `n` tokens or more. -/
def Takes (n : Nat) (r : Reader α) : Prop :=
  ∀ ts a rest, r ts = .ok (a, rest) → rest.length + n ≤ ts.length

theorem Takes.weaken {m n : Nat} {r : Reader α} (h : r.Takes m) (hn : n ≤ m) : r.Takes n :=
  fun ts a rest hr => by have := h ts a rest hr; omega

theorem takes_pure (a : α) : Takes 0 (pure a : Reader α) := by
  intro ts b rest h
  cases h
  simp

theorem Takes.bind {n : Nat} {r : Reader α} {f : α → Reader β} (hr : r.Takes n)
    (hf : ∀ a, (f a).Takes 0) : (r >>= f).Takes n := by
  intro ts b rest h
  cases he : r ts with
  | error e => simp [Bind.bind, StateT.bind, he, Except.bind] at h
  | ok p =>
    obtain ⟨a, mid⟩ := p
    have h' : f a mid = .ok (b, rest) := by simpa [Bind.bind, StateT.bind, he, Except.bind] using h
    have h₁ := hr ts a mid he
    have h₂ := hf a mid b rest h'
    omega

theorem Takes.followedBy {n : Nat} {r : Reader α} {f : α → Reader β} (hr : r.Takes n)
    (hf : ∀ a, (f a).Takes 0) : (r >>= f).Takes 0 := (hr.bind hf).weaken (by omega)

theorem Takes.map {n : Nat} {r : Reader α} (hr : r.Takes n) (f : α → β) : (f <$> r).Takes n := by
  intro ts b rest h
  cases he : r ts with
  | error e => simp [Functor.map, StateT.map, he, Bind.bind, Except.bind] at h
  | ok p =>
    obtain ⟨a, mid⟩ := p
    have h' : f a = b ∧ mid = rest := by
      simpa [Functor.map, StateT.map, he, Bind.bind, Except.bind, pure, Except.pure] using h
    exact h'.2 ▸ hr ts a mid he

def expect (kind : TokenKind) (wanted : Expected) : Reader String
  | t :: ts => if t.kind = kind then .ok (t.lexeme, ts) else .error ⟨wanted, some t⟩
  | [] => .error ⟨wanted, none⟩

def accept (kind : TokenKind) : Reader Bool
  | t :: ts => if t.kind = kind then .ok (true, ts) else .ok (false, t :: ts)
  | [] => .ok (false, [])

theorem takes_expect (kind : TokenKind) (wanted : Expected) : (expect kind wanted).Takes 1 := by
  intro ts a rest h
  cases ts with
  | nil => cases h
  | cons t ts =>
    by_cases hk : t.kind = kind
    · simp [expect, hk] at h
      simp [h.2]
    · simp [expect, hk] at h

theorem takes_accept (kind : TokenKind) : (accept kind).Takes 0 := by
  intro ts a rest h
  cases ts with
  | nil => cases h; simp
  | cons t ts =>
    by_cases hk : t.kind = kind <;> simp [accept, hk] at h <;> simp [← h.2]

def after (kind : TokenKind) (r : Reader α) : Reader (Option α) := do
  if ← accept kind then some <$> r else pure none

theorem takes_after (kind : TokenKind) {n : Nat} {r : Reader α} (h : r.Takes n) :
    (after kind r).Takes 0 := by
  refine (takes_accept _).bind fun b => ?_
  cases b
  · exact takes_pure _
  · exact (h.map _).weaken (by omega)

def separated (item : Reader α) (h : item.Takes 1) (ts : List Token) :
    Except Mismatch (List α × List Token) :=
  match hi : item ts with
  | .error e => .error e
  | .ok (a, rest) =>
    match rest with
    | t :: rest' =>
      if t.kind = .mark .comma then
        have : rest'.length < ts.length := by
          have := h ts a (t :: rest') hi
          simp at this
          omega
        (separated item h rest').map fun r => (a :: r.1, r.2)
      else .ok ([a], t :: rest')
    | [] => .ok ([a], [])
termination_by ts.length

/-- All items up to a right brace or the end; a token that starts no item is passed over. -/
def itemsToBrace (item? : Token → Option (Reader α)) (h : ∀ t r, item? t = some r → r.Takes 1) :
    List Token → Except Mismatch (List α × List Token)
  | [] => .ok ([], [])
  | t :: ts =>
    if t.kind = .mark .rightBrace then .ok ([], t :: ts)
    else match ht : item? t with
      | none => itemsToBrace item? h ts
      | some r =>
        match hr : r (t :: ts) with
        | .error e => .error e
        | .ok (a, rest) =>
          have : rest.length < (t :: ts).length := h t r ht (t :: ts) a rest hr
          (itemsToBrace item? h rest).map fun s => (a :: s.1, s.2)
termination_by ts => ts.length
decreasing_by all_goals (simp only [List.length_cons] at *; omega)

theorem takes_separated (item : Reader α) (h : item.Takes 1) :
    Takes 1 (separated item h : Reader (List α)) := by
  intro ts
  fun_induction separated item h ts with
  | case1 ts e hi => simp
  | case2 ts a t rest' hi hk hlt _ ih =>
    intro as rest hs
    cases hr : separated item h rest' with
    | error e => simp [hr, Except.map] at hs
    | ok p =>
      obtain ⟨bs, rest''⟩ := p
      have := ih bs rest'' hr
      simp [hr, Except.map] at hs
      rw [← hs.2]
      omega
  | case3 ts a t rest' hi hk =>
    intro as rest hs
    have := h ts a (t :: rest') hi
    simp at hs
    rw [← hs.2]
    exact this
  | case4 ts a hi =>
    intro as rest hs
    have := h ts a [] hi
    simp at hs
    rw [hs.2]
    exact this

theorem takes_itemsToBrace (item? : Token → Option (Reader α))
    (h : ∀ t r, item? t = some r → r.Takes 1) :
    Takes 0 (itemsToBrace item? h : Reader (List α)) := by
  intro ts
  fun_induction itemsToBrace item? h ts with
  | case1 => simp
  | case2 t ts hk =>
    intro as rest hs
    simp at hs
    simp [← hs.2]
  | case3 t ts hk ht ih =>
    intro as rest hs
    have := ih as rest hs
    simp
    omega
  | case4 t ts hk r ht e hr => simp
  | case5 t ts hk r ht a mid hr hlt ih =>
    intro as rest hs
    cases hm : itemsToBrace item? h mid with
    | error e => simp [hm, Except.map] at hs
    | ok p =>
      obtain ⟨bs, rest''⟩ := p
      have := ih bs rest'' hm
      simp [hm, Except.map] at hs
      rw [← hs.2]
      omega

end Reader

end ObfuscationMap
