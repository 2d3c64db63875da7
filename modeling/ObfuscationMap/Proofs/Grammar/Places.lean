import ObfuscationMap.Proofs.Grammar.Scripts

/-!
Readers do not look at places. When all tokens are taken out of their places, so are the tokens that a
reader leaves and the one that it stumbles over, and nothing else changes. What a place can reach is the
place that an error names.
-/

namespace ObfuscationMap

def Token.unplaced (t : Token) : Token := ⟨t.kind, t.lexeme, .start⟩

@[simp] theorem Token.kind_unplaced (t : Token) : t.unplaced.kind = t.kind := rfl

def Mismatch.unplaced (m : Mismatch) : Mismatch := ⟨m.expected, m.found.map Token.unplaced⟩

namespace Reader

variable {α β : Type}

/-- The answer of a reader with its tokens out of their places. -/
def unplaced : Except Mismatch (α × List Token) → Except Mismatch (α × List Token)
  | .ok (a, rest) => .ok (a, rest.map Token.unplaced)
  | .error m => .error m.unplaced

def Placeless (r : Reader α) : Prop := ∀ ts, r (ts.map Token.unplaced) = unplaced (r ts)

section answers

variable {r : Reader α} {ts rest : List Token} {a : α}

theorem Placeless.ok (h : r.Placeless) (he : r ts = .ok (a, rest)) :
    r (ts.map Token.unplaced) = .ok (a, rest.map Token.unplaced) := by
  rw [h, he]
  rfl

theorem Placeless.error (h : r.Placeless) {m : Mismatch} (he : r ts = .error m) :
    r (ts.map Token.unplaced) = .error m.unplaced := by
  rw [h, he]
  rfl

theorem unplaced_map (f : α → β) (x : Except Mismatch (α × List Token)) :
    unplaced (x.map fun p => (f p.1, p.2)) = (unplaced x).map fun p => (f p.1, p.2) := by
  cases x <;> rfl

end answers

theorem unplaced_bind_error {r r' : Reader α} {f : α → Reader β} {ts us : List Token} {m : Mismatch}
    (he : r ts = .error m) (he' : r' us = .error m.unplaced) : (r' >>= f) us = unplaced ((r >>= f) ts) := by
  rw [bind_error he, bind_error he']
  rfl

theorem unplaced_bind_ok {r r' : Reader α} {f : α → Reader β} {ts us rest : List Token} {a : α}
    (he : r ts = .ok (a, rest)) (he' : r' us = .ok (a, rest.map Token.unplaced))
    (hf : f a (rest.map Token.unplaced) = unplaced (f a rest)) :
    (r' >>= f) us = unplaced ((r >>= f) ts) := by
  rw [bind_ok he, bind_ok he', hf]

theorem placeless_pure (a : α) : (pure a : Reader α).Placeless := fun _ => rfl

theorem Placeless.bind {r : Reader α} {f : α → Reader β} (hr : r.Placeless)
    (hf : ∀ a, (f a).Placeless) : (r >>= f).Placeless := by
  intro ts
  cases he : r ts with
  | error m => exact unplaced_bind_error he (hr.error he)
  | ok p => exact unplaced_bind_ok he (hr.ok he) (hf p.1 p.2)

theorem Placeless.map {r : Reader α} (hr : r.Placeless) (f : α → β) : (f <$> r).Placeless := by
  rw [map_eq_pure_bind]
  exact hr.bind fun a => placeless_pure (f a)

theorem head?_unplaced {P : TokenKind → Prop} {ts : List Token} (h : ∀ t ∈ ts.head?, P t.kind) :
    ∀ t ∈ (ts.map Token.unplaced).head?, P t.kind := by
  cases ts with
  | nil => exact h
  | cons t ts =>
    rintro u hu
    cases hu
    exact h t rfl

theorem placeless_expect (kind : TokenKind) (wanted : Expected) : (expect kind wanted).Placeless := by
  intro ts
  obtain ⟨t, us, rfl, ht⟩ | hm := head?_cases kind ts
  · rw [expect_hit ht, List.map_cons, expect_hit (t := t.unplaced) ht]
    rfl
  · rw [expect_miss hm, expect_miss (head?_unplaced (P := (· ≠ kind)) hm), List.head?_map]
    rfl

theorem placeless_accept (kind : TokenKind) : (accept kind).Placeless := by
  intro ts
  obtain ⟨t, us, rfl, ht⟩ | hm := head?_cases kind ts
  · rw [accept_hit ht, List.map_cons, accept_hit (t := t.unplaced) ht]
    rfl
  · rw [accept_miss hm, accept_miss (head?_unplaced (P := (· ≠ kind)) hm)]
    rfl

theorem placeless_after (kind : TokenKind) {r : Reader α} (hr : r.Placeless) :
    (after kind r).Placeless := by
  apply (placeless_accept kind).bind
  intro b
  cases b with
  | false => exact placeless_pure none
  | true => exact hr.map some

theorem placeless_separated {item : Reader α} {h : item.Takes 1} (hi : item.Placeless) :
    Placeless (separated item h : Reader (List α)) := by
  intro ts
  induction ts using separated.induct item h with
  | case1 ts m he =>
    rw [separated_error he, separated_error (hi.error he)]
    rfl
  | case2 ts a t rest he ht _ _ ih =>
    rw [separated_more he ht, separated_more (hi.ok he) ht, ih, unplaced_map]
  | case3 ts a t rest he ht =>
    have hk : ∀ u ∈ (t :: rest).head?, u.kind ≠ .mark .comma := fun u hu => by cases hu; exact ht
    rw [separated_last he hk, separated_last (hi.ok he) (head?_unplaced (P := (· ≠ _)) hk)]
    rfl
  | case4 ts a he =>
    rw [separated_last he (by simp), separated_last (hi.ok he) (by simp)]
    rfl

theorem placeless_itemsToBrace {item? : Token → Option (Reader α)}
    {h : ∀ t r, item? t = some r → r.Takes 1} (hu : ∀ t, item? t.unplaced = item? t)
    (hi : ∀ t r, item? t = some r → r.Placeless) :
    Placeless (itemsToBrace item? h : Reader (List α)) := by
  intro ts
  induction ts using itemsToBrace.induct item? h with
  | case1 =>
    rw [List.map_nil, itemsToBrace_stop (by simp)]
    rfl
  | case2 t ts ht =>
    rw [List.map_cons, itemsToBrace_stop (by simpa using ht), itemsToBrace_stop (by simpa using ht)]
    rfl
  | case3 t ts ht hn ih =>
    rw [List.map_cons, itemsToBrace_other ht hn,
      itemsToBrace_other (t := t.unplaced) ht ((hu t).trans hn), ih]
  | case4 t ts ht r hs m he =>
    rw [List.map_cons, itemsToBrace_error ht hs he,
      itemsToBrace_error (t := t.unplaced) ht ((hu t).trans hs) ((hi t r hs).error he)]
    rfl
  | case5 t ts ht r hs a rest he _ ih =>
    rw [List.map_cons, itemsToBrace_item ht hs he,
      itemsToBrace_item (t := t.unplaced) ht ((hu t).trans hs) ((hi t r hs).ok he), ih, unplaced_map]

theorem placeless_dottedParts : Placeless (dottedParts : Reader (List String)) := by
  intro ts
  induction ts using dottedParts.induct with
  | case1 =>
    rw [List.map_nil, dottedParts_stop (by simp)]
    rfl
  | case2 t ht =>
    rw [List.map_cons, List.map_nil, dottedParts_error ht (by simp),
      dottedParts_error (t := t.unplaced) ht (by simp)]
    rfl
  | case3 t ht =>
    rw [List.map_cons, dottedParts_stop (by simpa using ht), dottedParts_stop (by simpa using ht)]
    rfl
  | case4 t p ts ht hp ih =>
    rw [List.map_cons, List.map_cons, dottedParts_part ht hp,
      dottedParts_part (t := t.unplaced) (p := p.unplaced) ht hp, ih, unplaced_map]
    rfl
  | case5 t p ts ht hp =>
    rw [List.map_cons, List.map_cons, dottedParts_error ht (by simpa using hp),
      dottedParts_error (t := t.unplaced) ht (by simpa using hp)]
    rfl
  | case6 t p ts ht =>
    rw [List.map_cons, dottedParts_stop (by simpa using ht), dottedParts_stop (by simpa using ht)]
    rfl

theorem placeless_qualifiedName (wanted : Expected) : (qualifiedName wanted).Placeless :=
  (placeless_expect _ _).bind fun _ => placeless_dottedParts.bind fun _ => placeless_pure _

theorem placeless_metadataEntry : metadataEntry.Placeless :=
  (placeless_expect _ _).bind fun _ => (placeless_expect _ _).bind fun _ =>
    (placeless_expect _ _).bind fun _ => placeless_pure _

theorem placeless_parameter : parameter.Placeless :=
  (placeless_qualifiedName _).bind fun _ => (placeless_accept _).bind fun _ => placeless_pure _

theorem placeless_enclosed {opening closing : Mark} {wanted : Expected} {item : Reader α}
    {h : item.Takes 1} (hi : item.Placeless) : (enclosed opening closing wanted item h).Placeless := by
  apply (placeless_accept _).bind
  intro opened
  cases opened with
  | false => exact placeless_pure _
  | true =>
    apply (placeless_accept _).bind
    intro closed
    cases closed with
    | false =>
      exact (placeless_separated hi).bind fun _ => (placeless_expect _ _).bind fun _ => placeless_pure _
    | true => exact placeless_pure _

theorem placeless_metadata : metadata.Placeless := (placeless_enclosed placeless_metadataEntry).map _

theorem placeless_parameters : parameters.Placeless := placeless_enclosed placeless_parameter

theorem placeless_removedAlias (marker : TokenKind) : (removedAlias marker).Placeless :=
  (placeless_expect _ _).bind fun _ => (placeless_expect _ _).bind fun _ =>
    (placeless_expect _ _).bind fun _ => placeless_pure _

theorem placeless_liveAlias : liveAlias.Placeless :=
  (placeless_expect _ _).bind fun _ => (placeless_expect _ _).bind fun _ =>
    placeless_metadata.bind fun _ => (placeless_expect _ _).bind fun _ => placeless_pure _

theorem placeless_aliasItems :
    Placeless (itemsToBrace aliasItem? takes_aliasItem? : Reader (List Alias)) := by
  refine placeless_itemsToBrace (fun _ => rfl) fun t r hr => ?_
  simp only [aliasItem?] at hr
  split at hr
  · cases hr
    exact placeless_removedAlias _
  · split at hr
    · cases hr
      split
      · exact placeless_removedAlias _
      · exact placeless_liveAlias
    · cases hr

theorem placeless_aliasesBlock : aliasesBlock.Placeless :=
  (placeless_expect _ _).bind fun _ => (placeless_expect _ _).bind fun _ =>
    placeless_aliasItems.bind fun _ => (placeless_expect _ _).bind fun _ => placeless_pure _

theorem placeless_memberItems :
    Placeless (itemsToBrace memberItem? takes_memberItem? : Reader (List (List Alias))) := by
  refine placeless_itemsToBrace (fun _ => rfl) fun t r hr => ?_
  simp only [memberItem?] at hr
  split at hr
  · cases hr
    exact placeless_aliasesBlock
  · cases hr

theorem placeless_memberBody (s : MemberSort) : (memberBody s).Placeless := by
  apply (placeless_accept _).bind
  intro opened
  cases opened with
  | false => exact (placeless_expect _ _).bind fun _ => placeless_pure _
  | true => exact placeless_memberItems.bind fun _ => (placeless_expect _ _).bind fun _ => placeless_pure _

theorem placeless_obfuscatedMember (s : MemberSort) : (obfuscatedMember s).Placeless :=
  placeless_after _ (placeless_expect _ _)

theorem placeless_method (doc : Option String) : (method doc).Placeless :=
  (placeless_expect _ _).bind fun _ => placeless_parameters.bind fun _ =>
    (placeless_obfuscatedMember _).bind fun _ => placeless_metadata.bind fun _ =>
      (placeless_memberBody _).bind fun _ => placeless_pure _

theorem placeless_field : field.Placeless :=
  (placeless_expect _ _).bind fun _ => (placeless_obfuscatedMember _).bind fun _ =>
    placeless_metadata.bind fun _ => (placeless_memberBody _).bind fun _ => placeless_pure _

theorem placeless_classHeader : classHeader.Placeless :=
  (placeless_expect _ _).bind fun _ => (placeless_after _ (placeless_qualifiedName _)).bind fun _ =>
    placeless_metadata.bind fun _ => (placeless_expect _ _).bind fun _ => placeless_pure _

theorem placeless_importDecl : importDecl.Placeless :=
  (placeless_qualifiedName _).bind fun _ => (placeless_after _ (placeless_expect _ _)).bind fun _ =>
    (placeless_expect _ _).bind fun _ => placeless_pure _

theorem placeless_packageDecl : packageDecl.Placeless := by
  apply (placeless_accept _).bind
  intro found
  cases found with
  | false => exact placeless_pure _
  | true =>
    exact (placeless_qualifiedName _).bind fun _ => (placeless_expect _ _).bind fun _ => placeless_pure _

theorem placeless_classBody (outer : List ClassDecl) (current : ClassDecl) (doc : Option String) :
    Placeless (classBody outer current doc : Reader ClassDecl) := by
  intro ts
  induction outer, current, doc, ts using classBody.induct with
  | case1 outer current doc =>
    rw [List.map_nil, classBody]
    rfl
  | case2 current doc t ts ht =>
    rw [List.map_cons, classBody_close ht, classBody_close (t := t.unplaced) ht]
    rfl
  | case3 current doc t ts ht parent outer ih =>
    rw [List.map_cons, classBody_closeInner ht, classBody_closeInner (t := t.unplaced) ht, ih]
  | case4 outer current doc t ts ht m he =>
    rw [List.map_cons, classBody_method ht, classBody_method (t := t.unplaced) ht]
    exact unplaced_bind_error he ((placeless_method doc).error he)
  | case5 outer current doc t ts ht m rest he _ ih =>
    rw [List.map_cons, classBody_method ht, classBody_method (t := t.unplaced) ht]
    exact unplaced_bind_ok he ((placeless_method doc).ok he) ih
  | case6 outer current doc t ts ht m he =>
    rw [List.map_cons, classBody_field ht, classBody_field (t := t.unplaced) ht]
    exact unplaced_bind_error he (placeless_field.error he)
  | case7 outer current doc t ts ht f rest he _ ih =>
    rw [List.map_cons, classBody_field ht, classBody_field (t := t.unplaced) ht]
    exact unplaced_bind_ok he (placeless_field.ok he) ih
  | case8 outer current doc t ts ht m he =>
    rw [List.map_cons, classBody_inner ht, classBody_inner (t := t.unplaced) ht]
    exact unplaced_bind_error he (placeless_classHeader.error he)
  | case9 outer current doc t ts ht c rest he _ ih =>
    rw [List.map_cons, classBody_inner ht, classBody_inner (t := t.unplaced) ht]
    exact unplaced_bind_ok he (placeless_classHeader.ok he) ih
  | case10 outer current doc t ts ht m he =>
    rw [List.map_cons, classBody_aliases ht, classBody_aliases (t := t.unplaced) ht]
    exact unplaced_bind_error he (placeless_aliasesBlock.error he)
  | case11 outer current doc t ts ht as rest he _ ih =>
    rw [List.map_cons, classBody_aliases ht, classBody_aliases (t := t.unplaced) ht]
    exact unplaced_bind_ok he (placeless_aliasesBlock.ok he) ih
  | case12 outer current doc t ts hb hm hf hc ha ih =>
    have hk : t.kind ∉ [.keyword .md, .keyword .fd, .keyword .classWord, .keyword .aliases,
        .mark .rightBrace] := by
      simp only [List.mem_cons, List.not_mem_nil, or_false, not_or]
      exact ⟨hm, hf, hc, ha, hb⟩
    have hs : t.unplaced.symbol = t.symbol := rfl
    rw [List.map_cons, classBody_other hk, classBody_other (t := t.unplaced) hk, hs, documentation?_symbol]
    exact ih

theorem placeless_classDecl : classDecl.Placeless :=
  placeless_classHeader.bind fun c => placeless_classBody [] c none

theorem mapError_map (x : Except Mismatch α) (f : α → β) :
    (x.map f).mapError Mismatch.unplaced = (x.mapError Mismatch.unplaced).map f := by
  cases x <;> rfl

theorem declarations_unplaced (ts : List Token) :
    declarations (ts.map Token.unplaced) = (declarations ts).mapError Mismatch.unplaced := by
  induction ts using declarations.induct with
  | case1 =>
    rw [List.map_nil, declarations]
    rfl
  | case2 t ts ht m he =>
    rw [List.map_cons, declarations_import_error ht he,
      declarations_import_error (t := t.unplaced) ht (placeless_importDecl.error he)]
    rfl
  | case3 t ts ht i rest he _ ih =>
    rw [List.map_cons, declarations_import ht he,
      declarations_import (t := t.unplaced) ht (placeless_importDecl.ok he), ih, mapError_map]
  | case4 t ts ht m he =>
    rw [List.map_cons, declarations_class_error ht he,
      declarations_class_error (t := t.unplaced) ht (placeless_classDecl.error he)]
    rfl
  | case5 t ts ht c rest he _ ih =>
    rw [List.map_cons, declarations_class ht he,
      declarations_class (t := t.unplaced) ht (placeless_classDecl.ok he), ih, mapError_map]
  | case6 t ts hi hc ih =>
    have hk : t.kind ∉ [.keyword .importWord, .keyword .classWord] := by
      simp only [List.mem_cons, List.not_mem_nil, or_false, not_or]
      exact ⟨hi, hc⟩
    rw [List.map_cons, declarations_other hk, declarations_other (t := t.unplaced) hk, ih]

theorem read_unplaced (ts : List Token) :
    Script.read (ts.map Token.unplaced) = (Script.read ts).mapError Mismatch.unplaced := by
  have hd : ((ts.map Token.unplaced).dropWhile fun t => t.kind.isComment) =
      (ts.dropWhile fun t => t.kind.isComment).map Token.unplaced := List.dropWhile_map
  rw [Script.read, Script.read, hd]
  generalize ts.dropWhile _ = us
  cases hp : packageDecl us with
  | error m =>
    rw [placeless_packageDecl.error hp]
    rfl
  | ok p =>
    obtain ⟨package, rest⟩ := p
    rw [placeless_packageDecl.ok hp]
    simp only [declarations_unplaced]
    cases declarations rest <;> rfl

end Reader

def ParseError.gist (e : ParseError) : Expected × String := (e.expected, e.found)

theorem Mismatch.gist_unplaced (m : Mismatch) (p q : Position) :
    (m.unplaced.toParseError p).gist = (m.toParseError q).gist := by
  obtain ⟨wanted, found⟩ := m
  cases found <;> rfl

theorem parse_unplaced (ts : List Token) :
    (parse (ts.map Token.unplaced)).mapError ParseError.gist = (parse ts).mapError ParseError.gist := by
  have ht : ((ts.map Token.unplaced).takeWhile fun t => t.kind != .eof) =
      (ts.takeWhile fun t => t.kind != .eof).map Token.unplaced := List.takeWhile_map
  rw [parse, parse, ht, Reader.read_unplaced]
  cases Script.read (ts.takeWhile _) with
  | error m => exact congrArg Except.error (m.gist_unplaced _ _)
  | ok s => rfl

end ObfuscationMap
