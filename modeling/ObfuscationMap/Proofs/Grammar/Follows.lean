import ObfuscationMap.Proofs.Grammar

/-!
When a reader follows a rule. What it takes is what the rule allows, and where it stops short, what it
took can still be completed. Either answer depends on the tokens that were taken and on the one after
them, so whatever comes later changes nothing. Readers built from readers that follow rules follow the
sequence of these rules.
-/

namespace ObfuscationMap
namespace Reader
open Grammar

variable {α β : Type}

/-- The symbols begin something the rule allows, and no end of input is needed to get there. -/
def Completable (G : List Symbol → α → Prop) (xs : List Symbol) : Prop :=
  ∃ ys a, Symbol.eof ∉ ys ∧ G (xs ++ ys) a

/-- The rule accounts for the answer that the reader gives to some tokens. -/
structure Explains (r : Reader α) (G : List Symbol → α → Prop) (ts : List Token) : Prop where
  ok : ∀ a rest, r ts = .ok (a, rest) → ∃ used, ts = used ++ rest ∧ G (symbols used) a ∧
    ∀ rest', rest'.head? = rest.head? → r (used ++ rest') = .ok (a, rest')
  error : ∀ m, r ts = .error m → ∃ used rest, ts = used ++ rest ∧ m.found = rest.head? ∧
    Completable G (symbols used) ∧
    ∀ rest', rest'.head? = rest.head? → r (used ++ rest') = .error m

structure Follows (r : Reader α) (G : List Symbol → α → Prop) : Prop where
  completable : Completable G []
  explains : ∀ ts, Explains r G ts

def behind (t : Token) (r : Reader α) : Reader α := fun ts => r (t :: ts)

theorem Completable.mono {G : List Symbol → α → Prop} {H : List Symbol → β → Prop}
    {xs zs : List Symbol} (h : Completable G xs) (f : α → β)
    (hi : ∀ ys a, G (xs ++ ys) a → H (zs ++ ys) (f a)) : Completable H zs := by
  obtain ⟨ys, a, hy, hg⟩ := h
  exact ⟨ys, f a, hy, hi ys a hg⟩

theorem Completable.next {G : List Symbol → α → Prop} {K : List Symbol → β → Prop} {xs : List Symbol}
    (h : Completable G xs) (hk : ∀ us a, G us a → Completable (fun vs b => K (us ++ vs) b) []) :
    Completable K xs := by
  obtain ⟨ys, a, hy, hg⟩ := h
  obtain ⟨zs, b, hz, hb⟩ := hk _ a hg
  refine ⟨ys ++ zs, b, ?_, by simpa using hb⟩
  rw [List.mem_append]
  exact fun hm => hm.elim hy hz

theorem head?_append_of_eq {γ : Type} (us : List γ) {vs ws : List γ} (h : vs.head? = ws.head?) :
    (us ++ vs).head? = (us ++ ws).head? := by
  rw [List.head?_append, List.head?_append, h]

theorem bind_ok {r : Reader α} {f : α → Reader β} {ts rest : List Token} {a : α}
    (h : r ts = .ok (a, rest)) : (r >>= f) ts = f a rest := by
  simp only [Bind.bind, StateT.bind, h, Except.bind]

theorem bind_error {r : Reader α} {f : α → Reader β} {ts : List Token} {m : Mismatch}
    (h : r ts = .error m) : (r >>= f) ts = .error m := by
  simp only [Bind.bind, StateT.bind, h, Except.bind]

theorem Explains.of_ok {r : Reader α} {G : List Symbol → α → Prop} (used : List Token)
    {rest : List Token} {a : α} (hg : G (symbols used) a)
    (hs : ∀ rest', rest'.head? = rest.head? → r (used ++ rest') = .ok (a, rest')) :
    Explains r G (used ++ rest) where
  ok b mid h := by
    rw [hs rest rfl] at h
    cases h
    exact ⟨used, rfl, hg, hs⟩
  error m h := by
    rw [hs rest rfl] at h
    cases h

theorem Explains.of_error {r : Reader α} {G : List Symbol → α → Prop} (used : List Token)
    {rest : List Token} {m : Mismatch} (hm : m.found = rest.head?) (hc : Completable G (symbols used))
    (hs : ∀ rest', rest'.head? = rest.head? → r (used ++ rest') = .error m) :
    Explains r G (used ++ rest) where
  ok a mid h := by
    rw [hs rest rfl] at h
    cases h
  error m' h := by
    rw [hs rest rfl] at h
    cases h
    exact ⟨used, rest, rfl, hm, hc, hs⟩

/-- A round of a loop: after some tokens, that do not depend on what follows them but for its first
token, the answer is that of another reader. -/
theorem Explains.round {r : Reader α} {r' : Reader β} {G : List Symbol → α → Prop}
    {H : List Symbol → β → Prop} (us : List Token) {mid : List Token} (f : β → α)
    (h : Explains r' H mid)
    (hr : ∀ mid', mid'.head? = mid.head? → r (us ++ mid') = (r' mid').map fun p => (f p.1, p.2))
    (hg : ∀ ys b, H ys b → G (symbols us ++ ys) (f b)) : Explains r G (us ++ mid) := by
  cases he : r' mid with
  | ok p =>
    obtain ⟨b, rest⟩ := p
    obtain ⟨vs, rfl, hb, hs⟩ := h.ok b rest he
    rw [← List.append_assoc]
    refine .of_ok (us ++ vs) (a := f b) ?_ fun rest' hh => ?_
    · rw [symbols_append]
      exact hg _ b hb
    · rw [List.append_assoc, hr _ (head?_append_of_eq vs hh), hs rest' hh]
      rfl
  | error m =>
    obtain ⟨vs, rest, rfl, hm, hc, hs⟩ := h.error m he
    rw [← List.append_assoc]
    refine .of_error (us ++ vs) hm (hc.mono f fun ys b hb => ?_) fun rest' hh => ?_
    · rw [symbols_append, List.append_assoc]
      exact hg _ b hb
    · rw [List.append_assoc, hr _ (head?_append_of_eq vs hh), hs rest' hh]
      rfl

theorem Explains.map {r : Reader α} {G : List Symbol → α → Prop} {K : List Symbol → β → Prop}
    {ts : List Token} (h : Explains r G ts) (f : α → β) (hf : ∀ xs a, G xs a → K xs (f a)) :
    Explains (f <$> r) K ts := by
  refine h.round [] f (fun ts' _ => ?_) hf
  rw [List.nil_append, map_eq_pure_bind]
  cases he : r ts' with
  | error m => exact bind_error he
  | ok p => exact bind_ok he

theorem follows_pure {G : List Symbol → α → Prop} {a : α} (h : G [] a) :
    (pure a : Reader α).Follows G where
  completable := ⟨[], a, by simp, h⟩
  explains _ := .of_ok [] h fun _ _ => rfl

theorem Follows.bind {r : Reader α} {f : α → Reader β} {G : List Symbol → α → Prop}
    {K : List Symbol → β → Prop} (hr : r.Follows G)
    (hf : ∀ us a, G us a → (f a).Follows fun vs b => K (us ++ vs) b) : (r >>= f).Follows K where
  completable := hr.completable.next fun us a hg => (hf us a hg).completable
  explains ts := by
    cases he : r ts with
    | error m =>
      obtain ⟨us, rest, rfl, hm, hc, hs⟩ := (hr.explains ts).error m he
      exact .of_error us hm (hc.next fun us a hg => (hf us a hg).completable) fun rest' hh =>
        bind_error (hs rest' hh)
    | ok p =>
      obtain ⟨a, mid⟩ := p
      obtain ⟨us, rfl, hg, hs⟩ := (hr.explains ts).ok a mid he
      refine Explains.round us id ((hf _ a hg).explains mid) (fun mid' hh => ?_) fun ys b hb => hb
      rw [bind_ok (hs mid' hh)]
      cases f a mid' <;> rfl

section opening

/- A loop that, seeing `t`, goes on as another reader does and after that as itself. -/
variable {loop : Reader β} {r : Reader α} {f : α → Reader β} {G : List Symbol → α → Prop}
  {K : List Symbol → β → Prop} {t : Token} {ts mid : List Token} {a : α}

theorem Explains.opening_error {m : Mismatch} (hr : r.Follows G) (he : r ts = .error m)
    (hl : ∀ ts', loop (t :: ts') = (r >>= f) ts')
    (hk : ∀ us a, G us a → Completable (fun vs b => K (t.symbol :: (us ++ vs)) b) []) :
    Explains loop K (t :: ts) := by
  obtain ⟨us, rest, rfl, hm, hc, hs⟩ := (hr.explains ts).error m he
  refine .of_error (t :: us) hm ?_ fun rest' hh => (hl _).trans (bind_error (hs rest' hh))
  exact hc.next (K := fun xs b => K (t.symbol :: xs) b) hk

theorem Explains.opening_ok {H : List Symbol → β → Prop} (hr : r.Follows G) (he : r ts = .ok (a, mid))
    (hl : ∀ ts', loop (t :: ts') = (r >>= f) ts') (h : Explains (f a) H mid)
    (hk : ∀ us ys b, G us a → H ys b → K (t.symbol :: (us ++ ys)) b) : Explains loop K (t :: ts) := by
  obtain ⟨us, rfl, hg, hs⟩ := (hr.explains ts).ok a mid he
  refine h.round (t :: us) id (fun mid' hh => ?_) fun ys b hb => hk _ ys b hg hb
  rw [List.cons_append, hl, bind_ok (hs mid' hh)]
  cases f a mid' <;> rfl

end opening

theorem Follows.map {r : Reader α} {G : List Symbol → α → Prop} {K : List Symbol → β → Prop}
    (hr : r.Follows G) (f : α → β) (hf : ∀ us a, G us a → K us (f a)) : (f <$> r).Follows K where
  completable := hr.completable.mono f hf
  explains ts := (hr.explains ts).map f hf

theorem Follows.imp {r : Reader α} {G H : List Symbol → α → Prop} (h : r.Follows G)
    (hi : ∀ xs a, G xs a → H xs a) : r.Follows H := by
  rw [← id_map r]
  exact h.map id hi

theorem completable_expect {kind : TokenKind} (hk : kind ≠ .eof) :
    Completable (fun xs s => xs = [Symbol.of kind s]) [] := by
  refine ⟨[.of kind ""], "", ?_, rfl⟩
  rw [List.mem_singleton]
  intro he
  apply hk
  rw [← Symbol.kind_of kind "", ← he]
  rfl

theorem expect_hit {kind : TokenKind} {wanted : Expected} {t : Token} (ht : t.kind = kind)
    (ts : List Token) : expect kind wanted (t :: ts) = .ok (t.lexeme, ts) := if_pos ht

theorem expect_miss {kind : TokenKind} {wanted : Expected} {ts : List Token}
    (hk : ∀ t ∈ ts.head?, t.kind ≠ kind) : expect kind wanted ts = .error ⟨wanted, ts.head?⟩ := by
  cases ts with
  | nil => rfl
  | cons t ts => exact if_neg (hk t rfl)

theorem head?_cases (kind : TokenKind) (ts : List Token) :
    (∃ t us, ts = t :: us ∧ t.kind = kind) ∨ ∀ t ∈ ts.head?, t.kind ≠ kind := by
  cases ts with
  | nil => exact .inr fun t ht => by cases ht
  | cons t ts =>
    by_cases ht : t.kind = kind
    · exact .inl ⟨t, ts, rfl, ht⟩
    · exact .inr fun u hu => by cases hu; exact ht

theorem follows_expect {kind : TokenKind} (hk : kind ≠ .eof) (wanted : Expected) :
    (expect kind wanted).Follows fun xs s => xs = [.of kind s] where
  completable := completable_expect hk
  explains ts := by
    obtain ⟨t, us, rfl, ht⟩ | hm := head?_cases kind ts
    · refine .of_ok [t] ?_ fun rest' _ => expect_hit ht rest'
      simp [Token.symbol, ht]
    · refine .of_error [] (m := ⟨wanted, ts.head?⟩) rfl (completable_expect hk) fun rest' hh => ?_
      rw [List.nil_append, ← hh]
      exact expect_miss (hh ▸ hm)

theorem accept_hit {kind : TokenKind} {t : Token} (ht : t.kind = kind) (ts : List Token) :
    accept kind (t :: ts) = .ok (true, ts) := if_pos ht

theorem accept_miss {kind : TokenKind} {ts : List Token} (hk : ∀ t ∈ ts.head?, t.kind ≠ kind) :
    accept kind ts = .ok (false, ts) := by
  cases ts with
  | nil => rfl
  | cons t ts => exact if_neg (hk t rfl)

theorem follows_accept {kind : TokenKind} {x : Symbol} (hx : ∀ s, Symbol.of kind s = x) :
    (accept kind).Follows fun xs b => xs = if b then [x] else [] where
  completable := ⟨[], false, by simp, rfl⟩
  explains ts := by
    obtain ⟨t, us, rfl, ht⟩ | hm := head?_cases kind ts
    · refine .of_ok [t] (a := true) ?_ fun rest' _ => accept_hit ht rest'
      simp [Token.symbol, ht, hx]
    · exact .of_ok [] rfl fun rest' hh => accept_miss (hh ▸ hm)

section steps

/- The steps that a reader is made of, each in front of what is read after it. -/
variable {kind : TokenKind} {wanted : Expected} {K : List Symbol → β → Prop}

theorem follows_expect_bind (hk : kind ≠ .eof) {f : String → Reader β}
    (hf : ∀ s, (f s).Follows fun vs b => K (.of kind s :: vs) b) :
    (expect kind wanted >>= f).Follows K := by
  apply (follows_expect hk wanted).bind
  intro us s hs
  subst hs
  exact hf s

theorem follows_name_bind {f : String → Reader β}
    (hf : ∀ w, (f w).Follows fun vs b => K (.name w :: vs) b) :
    (expect .identifier wanted >>= f).Follows K := follows_expect_bind (by decide) hf

theorem follows_text_bind {f : String → Reader β}
    (hf : ∀ s, (f s).Follows fun vs b => K (.text s :: vs) b) :
    (expect .text wanted >>= f).Follows K := follows_expect_bind (by decide) hf

theorem follows_mark_bind {m : Mark} {r : Reader β} (hr : r.Follows fun vs b => K (.mark m :: vs) b) :
    (expect (.mark m) wanted >>= fun _ => r).Follows K :=
  follows_expect_bind (fun he => by cases he) fun _ => hr

theorem follows_mark_pure {m : Mark} {b : β} (h : K [.mark m] b) :
    (expect (.mark m) wanted >>= fun _ => pure b).Follows K := follows_mark_bind (follows_pure h)

theorem follows_accept_bind {x : Symbol} (hx : ∀ s, Symbol.of kind s = x) {f : Bool → Reader β}
    (hn : (f false).Follows K) (hy : (f true).Follows fun vs b => K (x :: vs) b) :
    (accept kind >>= f).Follows K := by
  apply (follows_accept hx).bind
  intro us b hb
  subst hb
  cases b with
  | false => exact hn
  | true => exact hy

end steps

theorem follows_after {kind : TokenKind} {x : Symbol} (hx : ∀ s, Symbol.of kind s = x) {r : Reader α}
    {G : List Symbol → α → Prop} (hr : r.Follows G) : (after kind r).Follows (Opt x G) := by
  apply follows_accept_bind hx
  · exact follows_pure .absent
  · exact hr.map some fun us a hg => .present hg

section separated

variable {item : Reader α} {h : item.Takes 1} {ts rest : List Token} {a : α}

theorem separated_error {e : Mismatch} (hi : item ts = .error e) : separated item h ts = .error e := by
  rw [separated]
  split
  · next e' he => rw [hi] at he; cases he; rfl
  · next b mid he => rw [hi] at he; cases he

theorem separated_more {t : Token} (hi : item ts = .ok (a, t :: rest)) (ht : t.kind = .mark .comma) :
    separated item h ts = (separated item h rest).map fun r => (a :: r.1, r.2) := by
  rw [separated]
  split
  · next e he => rw [hi] at he; cases he
  · next b mid he => rw [hi] at he; cases he; simp [ht]

theorem separated_last (hi : item ts = .ok (a, rest)) (hk : ∀ t ∈ rest.head?, t.kind ≠ .mark .comma) :
    separated item h ts = .ok ([a], rest) := by
  rw [separated]
  split
  · next e he => rw [hi] at he; cases he
  · next b mid he =>
    rw [hi] at he
    cases he
    cases rest with
    | nil => rfl
    | cons t us => exact if_neg (hk t rfl)

end separated

section itemsToBrace

variable {item? : Token → Option (Reader α)} {h : ∀ t r, item? t = some r → r.Takes 1} {t : Token}
  {ts rest : List Token} {r : Reader α} {a : α}

theorem itemsToBrace_stop (hs : ∀ t ∈ ts.head?, t.kind = .mark .rightBrace) :
    itemsToBrace item? h ts = .ok ([], ts) := by
  cases ts with
  | nil => rw [itemsToBrace]
  | cons t ts => rw [itemsToBrace, if_pos (hs t rfl)]

theorem itemsToBrace_other (ht : t.kind ≠ .mark .rightBrace) (hn : item? t = none) :
    itemsToBrace item? h (t :: ts) = itemsToBrace item? h ts := by
  rw [itemsToBrace, if_neg ht]
  split
  · rfl
  · next r hr => rw [hn] at hr; cases hr

theorem itemsToBrace_error {e : Mismatch} (ht : t.kind ≠ .mark .rightBrace) (hi : item? t = some r)
    (hr : r (t :: ts) = .error e) : itemsToBrace item? h (t :: ts) = .error e := by
  rw [itemsToBrace, if_neg ht]
  split
  · next hn => rw [hi] at hn; cases hn
  · next r' hi' =>
    rw [hi] at hi'
    cases hi'
    split
    · next e' he => rw [hr] at he; cases he; rfl
    · next b mid he => rw [hr] at he; cases he

theorem itemsToBrace_item (ht : t.kind ≠ .mark .rightBrace) (hi : item? t = some r)
    (hr : r (t :: ts) = .ok (a, rest)) :
    itemsToBrace item? h (t :: ts) = (itemsToBrace item? h rest).map fun s => (a :: s.1, s.2) := by
  rw [itemsToBrace, if_neg ht]
  split
  · next hn => rw [hi] at hn; cases hn
  · next r' hi' =>
    rw [hi] at hi'
    cases hi'
    split
    · next e' he => rw [hr] at he; cases he
    · next b mid he => rw [hr] at he; cases he; rfl

end itemsToBrace

theorem follows_separated {item : Reader α} {h : item.Takes 1} {G : List Symbol → α → Prop}
    (hi : item.Follows G) : Follows (separated item h : Reader (List α)) (Separated G) where
  completable := hi.completable.mono (fun a => [a]) fun ys a hg => .one hg
  explains ts := by
    induction ts using separated.induct item h with
    | case1 ts m he =>
      obtain ⟨us, rest, rfl, hm, hc, hs⟩ := (hi.explains ts).error m he
      exact .of_error us hm (hc.mono (fun a => [a]) fun ys a hg => .one hg) fun rest' hh =>
        separated_error (hs rest' hh)
    | case2 ts a t rest he ht _ _ ih =>
      obtain ⟨us, rfl, hg, hs⟩ := (hi.explains ts).ok a _ he
      have hx : t.symbol = .mark .comma := Token.symbol_of_kind ht
      rw [List.append_cons]
      refine ih.round (us ++ [t]) (a :: ·) (fun rest' _ => ?_) fun ys as has => ?_
      · rw [← List.append_cons]
        exact separated_more (hs _ rfl) ht
      · simpa [hx] using Separated.more hg has
    | case3 ts a t rest he ht =>
      obtain ⟨us, rfl, hg, hs⟩ := (hi.explains ts).ok a _ he
      refine .of_ok us (.one hg) fun rest' hh => separated_last (hs rest' hh) ?_
      rw [hh]
      exact fun u hu => by cases hu; exact ht
    | case4 ts a he =>
      obtain ⟨us, rfl, hg, hs⟩ := (hi.explains ts).ok a _ he
      refine .of_ok us (.one hg) fun rest' hh => separated_last (hs rest' hh) ?_
      rw [hh]
      exact fun u hu => by cases hu

theorem follows_itemsToBrace {item? : Token → Option (Reader α)}
    {h : ∀ t r, item? t = some r → r.Takes 1} {kept : List TokenKind} {G : List Symbol → α → Prop}
    (hn : ∀ t, item? t = none → t.kind ≠ .mark .rightBrace → t.kind ∉ kept)
    (hi : ∀ t r, item? t = some r →
      (behind t r).Follows fun xs a => G (t.symbol :: xs) a) :
    Follows (itemsToBrace item? h : Reader (List α)) (Items kept G) where
  completable := ⟨[], [], by simp, .done⟩
  explains ts := by
    induction ts using itemsToBrace.induct item? h with
    | case1 => exact .of_ok [] .done fun rest' hh => itemsToBrace_stop (by simp [hh])
    | case2 t ts ht =>
      refine .of_ok [] .done fun rest' hh => itemsToBrace_stop ?_
      rw [List.nil_append, hh]
      exact fun u hu => by cases hu; exact ht
    | case3 t ts ht hnone ih =>
      refine ih.round [t] id (fun rest' _ => ?_) fun ys as has => ?_
      · rw [List.singleton_append, itemsToBrace_other ht hnone]
        cases itemsToBrace item? h rest' <;> rfl
      · exact .other (by simpa using hn t hnone ht) has
    | case4 t ts ht r hsome m he =>
      obtain ⟨us, rest, rfl, hm, hc, hs⟩ := ((hi t r hsome).explains ts).error m he
      refine .of_error (t :: us) hm (hc.mono (fun a => [a]) fun ys a hg => ?_) fun rest' hh =>
        itemsToBrace_error ht hsome (hs rest' hh)
      simpa using Items.item hg .done
    | case5 t ts ht r hsome a rest he _ ih =>
      obtain ⟨us, rfl, hg, hs⟩ := ((hi t r hsome).explains ts).ok a _ he
      exact ih.round (t :: us) (a :: ·) (fun rest' hh => itemsToBrace_item ht hsome (hs rest' hh))
        fun ys as has => .item hg has

end Reader
end ObfuscationMap
