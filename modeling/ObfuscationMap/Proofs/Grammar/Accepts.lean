import ObfuscationMap.Proofs.Grammar.Follows

/-!
When a reader accepts symbols: tokens with these symbols are all taken and give the value, whatever
follows them, so long as it begins with a kind that cannot be mistaken for more of the same. What a rule
leaves optional is told apart by its first symbol.
-/

namespace ObfuscationMap
namespace Reader
open Grammar

variable {α β : Type}

def anything : TokenKind → Prop := fun _ => True

def Accepts (r : Reader α) (xs : List Symbol) (a : α) (next : TokenKind → Prop) : Prop :=
  ∀ ts rest, symbols ts = xs → (∀ t ∈ rest.head?, next t.kind) → r (ts ++ rest) = .ok (a, rest)

/-- What begins with the symbols and goes on with a kind in `next` begins with a kind in `first`. -/
structure Leads (xs : List Symbol) (next first : TokenKind → Prop) : Prop where
  head : ∀ x ∈ xs.head?, first x.kind
  empty : xs = [] → ∀ k, next k → first k

theorem leads_cons {x : Symbol} {xs : List Symbol} {next first : TokenKind → Prop} (hx : first x.kind) :
    Leads (x :: xs) next first where
  head y hy := by cases hy; exact hx
  empty h := by cases h

theorem leads_anything {xs : List Symbol} {next : TokenKind → Prop} : Leads xs next anything :=
  ⟨fun _ _ => trivial, fun _ _ _ => trivial⟩

theorem Leads.append {xs ys : List Symbol} {next first : TokenKind → Prop}
    {y : Symbol} (hx : ∀ x ∈ xs.head?, x = y) (hy : first y.kind) (h : Leads ys next first) :
    Leads (xs ++ ys) next first := by
  cases xs with
  | nil => exact h
  | cons x xs => exact leads_cons (hx x rfl ▸ hy)

theorem Leads.tokens {ts rest : List Token} {next first : TokenKind → Prop}
    (h : Leads (symbols ts) next first) (hr : ∀ t ∈ rest.head?, next t.kind) :
    ∀ t ∈ (ts ++ rest).head?, first t.kind := by
  cases ts with
  | nil => exact fun t ht => h.empty rfl _ (hr t ht)
  | cons t ts => simpa using h.head

theorem symbols_eq_append {ts : List Token} {xs ys : List Symbol} (h : symbols ts = xs ++ ys) :
    ∃ us vs, ts = us ++ vs ∧ symbols us = xs ∧ symbols vs = ys := by
  obtain ⟨us, vs, rfl, hu, hv⟩ := List.map_eq_append_iff.mp h
  exact ⟨us, vs, rfl, hu, hv⟩

theorem symbols_eq_cons {ts : List Token} {x : Symbol} {xs : List Symbol} (h : symbols ts = x :: xs) :
    ∃ t us, ts = t :: us ∧ t.symbol = x ∧ symbols us = xs := by
  obtain ⟨t, us, rfl, ht, hu⟩ := List.map_eq_cons_iff.mp h
  exact ⟨t, us, rfl, ht, hu⟩

theorem lexeme_eq {t : Token} {s : String} (h : t.symbol = .name s ∨ t.symbol = .text s) :
    t.lexeme = s := by
  rw [Token.symbol] at h
  cases hk : t.kind <;> simp_all [Symbol.of]

theorem accepts_pure (a : α) (next : TokenKind → Prop) : Accepts (pure a) [] a next := by
  intro ts rest hs _
  rw [List.map_eq_nil_iff.mp hs]
  rfl

theorem Accepts.read {r : Reader α} {xs : List Symbol} {a : α} (h : Accepts r xs a anything)
    {ts : List Token} (hs : symbols ts = xs) (rest : List Token) : r (ts ++ rest) = .ok (a, rest) :=
  h ts rest hs fun _ _ => trivial

theorem Accepts.bind {r : Reader α} {f : α → Reader β} {us vs : List Symbol} {a : α} {b : β}
    {next next' : TokenKind → Prop} (hr : Accepts r us a next) (hf : Accepts (f a) vs b next')
    (hl : Leads vs next' next) : Accepts (r >>= f) (us ++ vs) b next' := by
  intro ts rest hs hn
  obtain ⟨ps, qs, rfl, rfl, rfl⟩ := symbols_eq_append hs
  rw [List.append_assoc, bind_ok (hr ps _ rfl (hl.tokens hn))]
  exact hf qs rest rfl hn

theorem Accepts.bind_pure {r : Reader α} {us : List Symbol} {a : α} {next : TokenKind → Prop}
    (hr : Accepts r us a next) (f : α → β) : Accepts (r >>= fun a => pure (f a)) us (f a) next := by
  rw [← List.append_nil us]
  exact hr.bind (accepts_pure _ _) ⟨by simp, fun _ _ hk => hk⟩

theorem Accepts.map {r : Reader α} {us : List Symbol} {a : α} {next : TokenKind → Prop}
    (hr : Accepts r us a next) (f : α → β) : Accepts (f <$> r) us (f a) next := by
  rw [map_eq_pure_bind]
  exact hr.bind_pure f

section expect

variable {kind : TokenKind} {wanted : Expected} {x : Symbol} {xs : List Symbol} {a : α}
  {next : TokenKind → Prop}

theorem accepts_expect_bind {f : String → Reader α} (hx : x.kind = kind)
    (hf : ∀ t : Token, t.symbol = x → Accepts (f t.lexeme) xs a next) :
    Accepts (expect kind wanted >>= f) (x :: xs) a next := by
  intro ts rest hs hn
  obtain ⟨t, us, rfl, rfl, hu⟩ := symbols_eq_cons hs
  rw [List.cons_append, bind_ok (expect_hit (t.kind_symbol ▸ hx) _)]
  exact hf t rfl us rest hu hn

theorem accepts_expect_pure (hx : x.kind = kind) :
    Accepts (expect kind wanted >>= fun _ => pure a) [x] a next :=
  accepts_expect_bind hx fun _ _ => accepts_pure a next

theorem accepts_name_bind {s : String} {f : String → Reader α} (hf : Accepts (f s) xs a next) :
    Accepts (expect .identifier wanted >>= f) (.name s :: xs) a next :=
  accepts_expect_bind rfl fun _ ht => lexeme_eq (.inl ht) ▸ hf

theorem accepts_text_bind {s : String} {f : String → Reader α} (hf : Accepts (f s) xs a next) :
    Accepts (expect .text wanted >>= f) (.text s :: xs) a next :=
  accepts_expect_bind rfl fun _ ht => lexeme_eq (.inr ht) ▸ hf

theorem accepts_name (s : String) : Accepts (expect .identifier wanted) [.name s] s next := by
  rw [← bind_pure (expect .identifier wanted)]
  exact accepts_name_bind (accepts_pure s next)

theorem accepts_accept_hit {f : Bool → Reader α} (hx : x.kind = kind)
    (hf : Accepts (f true) xs a next) : Accepts (accept kind >>= f) (x :: xs) a next := by
  intro ts rest hs hn
  obtain ⟨t, us, rfl, rfl, hu⟩ := symbols_eq_cons hs
  rw [List.cons_append, bind_ok (accept_hit (t.kind_symbol ▸ hx) _)]
  exact hf us rest hu hn

theorem accepts_accept_miss {f : Bool → Reader α} (hl : Leads xs next (· ≠ kind))
    (hf : Accepts (f false) xs a next) : Accepts (accept kind >>= f) xs a next := by
  intro ts rest hs hn
  subst hs
  rw [bind_ok (accept_miss (hl.tokens hn))]
  exact hf ts rest rfl hn

end expect

theorem accepts_after {kind : TokenKind} {x : Symbol} {r : Reader α} {G : List Symbol → α → Prop}
    {xs : List Symbol} {a : Option α} {next : TokenKind → Prop} (hx : x.kind = kind)
    (hr : ∀ us b, G us b → Accepts r us b next) (hn : ∀ k, next k → k ≠ kind) (h : Opt x G xs a) :
    Accepts (after kind r) xs a next := by
  cases h with
  | absent => exact accepts_accept_miss ⟨by simp, fun _ => hn⟩ (accepts_pure none next)
  | present h => exact accepts_accept_hit hx ((hr _ _ h).map some)

theorem accepts_separated {item : Reader α} {h : item.Takes 1} {G : List Symbol → α → Prop}
    {next : TokenKind → Prop} (hi : ∀ us a, G us a → Accepts item us a next)
    (hc : next (.mark .comma)) {xs : List Symbol} {as : List α} (hs : Separated G xs as) :
    Accepts (separated item h) xs as fun k => next k ∧ k ≠ .mark .comma := by
  induction hs with
  | one hg =>
    intro ts rest hs hn
    exact separated_last (hi _ _ hg ts rest hs fun t ht => (hn t ht).1) fun t ht => (hn t ht).2
  | more hg _ ih =>
    intro ts rest hs hn
    obtain ⟨us, vs, rfl, hu, hv⟩ := symbols_eq_append hs
    obtain ⟨t, ws, rfl, ht, hw⟩ := symbols_eq_cons hv
    have hk : t.kind = .mark .comma := Token.kind_of_symbol ht
    have hit := hi _ _ hg us (t :: (ws ++ rest)) hu fun u h => by cases h; exact hk ▸ hc
    rw [List.append_assoc, List.cons_append, separated_more hit hk, ih ws rest hw hn]
    rfl

theorem accepts_itemsToBrace {item? : Token → Option (Reader α)}
    {h : ∀ t r, item? t = some r → r.Takes 1} {kept : List TokenKind} {G : List Symbol → α → Prop}
    (hb : .mark .rightBrace ∈ kept) (hn : ∀ t : Token, t.kind ∉ kept → item? t = none)
    (hi : ∀ xs a, G xs a → ∃ x us, xs = x :: us ∧ x.kind ≠ .mark .rightBrace ∧
      ∀ t : Token, t.symbol = x → ∃ r, item? t = some r ∧ Accepts (behind t r) us a anything)
    {xs : List Symbol} {as : List α} (hs : Items kept G xs as) :
    Accepts (itemsToBrace item? h) xs as (· = .mark .rightBrace) := by
  induction hs with
  | done =>
    intro ts rest hs hr
    rw [List.map_eq_nil_iff.mp hs]
    exact itemsToBrace_stop hr
  | other hx _ ih =>
    intro ts rest hs hr
    obtain ⟨t, us, rfl, rfl, hu⟩ := symbols_eq_cons hs
    rw [t.kind_symbol] at hx
    have hk : t.kind ≠ .mark .rightBrace := fun he => hx (he ▸ hb)
    rw [List.cons_append, itemsToBrace_other hk (hn t hx)]
    exact ih us rest hu hr
  | item hg _ ih =>
    intro ts rest hs hr
    obtain ⟨us, vs, rfl, hu, hv⟩ := symbols_eq_append hs
    obtain ⟨x, ys, rfl, hx, hr'⟩ := hi _ _ hg
    obtain ⟨t, ws, rfl, rfl, hw⟩ := symbols_eq_cons hu
    obtain ⟨r, ht, ha⟩ := hr' t rfl
    rw [t.kind_symbol] at hx
    have hit := ha.read hw (vs ++ rest)
    rw [List.append_assoc, List.cons_append, itemsToBrace_item hx ht hit, ih vs rest hv hr]
    rfl

end Reader
end ObfuscationMap
