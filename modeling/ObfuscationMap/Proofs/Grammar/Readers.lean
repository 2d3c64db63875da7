import ObfuscationMap.Proofs.Grammar.Follows
import ObfuscationMap.Script.Parse

/-!
Every reader of the parser follows its rule of the grammar. Where a reader begins with a word that its
caller has already seen, what is stated is how it goes on after that word.
-/

namespace ObfuscationMap
namespace Reader
open Grammar

variable {α : Type}

theorem dottedParts_stop {ts : List Token} (hk : ∀ t ∈ ts.head?, t.kind ≠ .mark .dot) :
    dottedParts ts = .ok ([], ts) := by
  match ts with
  | [] => rw [dottedParts]
  | [t] => rw [dottedParts, if_neg (hk t rfl)]
  | t :: p :: ts => rw [dottedParts, if_neg (hk t rfl)]

theorem dottedParts_part {t p : Token} (ht : t.kind = .mark .dot) (hp : p.kind = .identifier)
    (ts : List Token) :
    dottedParts (t :: p :: ts) = (dottedParts ts).map fun r => (p.lexeme :: r.1, r.2) := by
  rw [dottedParts, if_pos ht, if_pos hp]

theorem dottedParts_error {t : Token} {ts : List Token} (ht : t.kind = .mark .dot)
    (hk : ∀ p ∈ ts.head?, p.kind ≠ .identifier) :
    dottedParts (t :: ts) = .error ⟨.namePart, ts.head?⟩ := by
  cases ts with
  | nil => rw [dottedParts, if_pos ht]; rfl
  | cons p ts => rw [dottedParts, if_pos ht, if_neg (hk p rfl)]; rfl

def MoreParts (xs : List Symbol) (parts : List String) : Prop :=
  ∀ first, QualifiedName (.name first :: xs) (".".intercalate (first :: parts))

theorem moreParts_nil : MoreParts [] [] := by
  intro first
  rw [String.intercalate_singleton]
  exact .single first

theorem moreParts_cons {xs : List Symbol} {parts : List String} (part : String)
    (h : MoreParts xs parts) : MoreParts (.mark .dot :: .name part :: xs) (part :: parts) := by
  intro first
  rw [String.intercalate_cons_cons]
  exact .dotted first (h part)

theorem follows_dottedParts : Follows (dottedParts : Reader (List String)) MoreParts where
  completable := ⟨[], [], by simp, moreParts_nil⟩
  explains ts := by
    have hd : ∀ t : Token, t.kind = .mark .dot → t.symbol = .mark .dot := fun t => Token.symbol_of_kind
    have hc : ∀ t : Token, t.kind = .mark .dot → Completable MoreParts (symbols [t]) := by
      intro t ht
      refine ⟨[.name ""], [""], by simp, ?_⟩
      simpa [hd t ht] using moreParts_cons "" moreParts_nil
    induction ts using dottedParts.induct with
    | case1 => exact .of_ok [] moreParts_nil fun rest' hh => dottedParts_stop (by simp [hh])
    | case2 t ht =>
      exact .of_error [t] rfl (hc t ht) fun rest' hh => by
        rw [List.singleton_append, dottedParts_error ht (by simp [hh]), hh]
    | case3 t ht =>
      exact .of_ok [] moreParts_nil fun rest' hh => dottedParts_stop (by simpa [hh] using ht)
    | case4 t p ts ht hp ih =>
      refine ih.round [t, p] (p.lexeme :: ·) (fun rest' _ => dottedParts_part ht hp rest') ?_
      intro ys parts hparts
      have hx : p.symbol = .name p.lexeme := Token.symbol_of_kind hp
      simpa [hd t ht, hx] using moreParts_cons p.lexeme hparts
    | case5 t p ts ht hp =>
      refine .of_error [t] (m := ⟨.namePart, some p⟩) rfl (hc t ht) fun rest' hh => ?_
      rw [List.singleton_append, dottedParts_error ht (by simpa [hh] using hp), hh]
      rfl
    | case6 t p ts ht =>
      exact .of_ok [] moreParts_nil fun rest' hh => dottedParts_stop (by simpa [hh] using ht)

theorem follows_qualifiedName (wanted : Expected) : (qualifiedName wanted).Follows QualifiedName := by
  apply follows_name_bind
  intro first
  apply follows_dottedParts.bind
  intro us parts hparts
  apply follows_pure
  rw [List.append_nil]
  exact hparts first

theorem follows_name (wanted : Expected) : (expect .identifier wanted).Follows Name :=
  (follows_expect (by decide) wanted).imp fun xs w hw => hw ▸ .mk w

theorem follows_metadataEntry : metadataEntry.Follows Entry := by
  apply follows_name_bind
  intro key
  apply follows_mark_bind
  apply follows_text_bind
  intro value
  exact follows_pure (.mk key value)

theorem follows_parameter : parameter.Follows ParameterRule := by
  apply (follows_qualifiedName _).bind
  intro us type hu
  apply follows_accept_bind fun _ => rfl
  · apply follows_pure
    rw [List.append_nil]
    exact .single hu
  · exact follows_pure (.varargs hu)

theorem follows_enclosed {opening closing : Mark} {wanted : Expected} {item : Reader α}
    {h : item.Takes 1} {G : List Symbol → α → Prop} (hi : item.Follows G) :
    (enclosed opening closing wanted item h).Follows (Enclosed opening closing G) := by
  apply follows_accept_bind fun _ => rfl
  · exact follows_pure .absent
  · apply follows_accept_bind fun _ => rfl
    · apply (follows_separated hi).bind
      intro us items hu
      exact follows_mark_pure (.full hu)
    · exact follows_pure .empty

theorem follows_metadata : metadata.Follows MetadataRule := by
  apply (follows_enclosed follows_metadataEntry).map
  intro us entries he
  exact .mk he (OrderedMap.collects_ofList entries)

theorem follows_parameters : parameters.Follows (Enclosed .leftParen .rightParen ParameterRule) :=
  follows_enclosed follows_parameter

theorem behind_expect {kind : TokenKind} {wanted : Expected} {t : Token} {f : String → Reader α}
    (ht : t.kind = kind) : behind t (expect kind wanted >>= f) = f t.lexeme := by
  funext ts
  exact bind_ok (expect_hit ht ts)

theorem follows_removedAlias {t : Token}
    (ht : t.symbol = .keyword .removed ∨ t.symbol = .name Keyword.removed.spelling) :
    (behind t (removedAlias t.kind)).Follows fun xs a => AliasRule (t.symbol :: xs) a := by
  rw [removedAlias, behind_expect rfl]
  apply follows_name_bind
  intro version
  exact follows_mark_pure (.removed version ht)

theorem follows_liveAlias {t : Token} (hk : t.kind = .identifier)
    (hv : t.lexeme ≠ Keyword.removed.spelling) :
    (behind t liveAlias).Follows fun xs a => AliasRule (t.symbol :: xs) a := by
  rw [liveAlias, behind_expect hk, Token.symbol_of_kind hk]
  apply follows_name_bind
  intro name
  apply follows_metadata.bind
  intro us data hu
  exact follows_mark_pure (.live name hv hu)

theorem follows_aliasItems :
    Follows (itemsToBrace aliasItem? takes_aliasItem? : Reader (List Alias))
      (Items [.identifier, .keyword .removed, .mark .rightBrace] AliasRule) := by
  refine follows_itemsToBrace (fun t hn hb => ?_) fun t r hr => ?_
  · simp only [aliasItem?] at hn
    split at hn
    · cases hn
    · split at hn
      · cases hn
      · simp_all
  · simp only [aliasItem?] at hr
    split at hr
    · next hk =>
      cases hr
      exact follows_removedAlias (.inl (Token.symbol_of_kind hk))
    · split at hr
      · next hk =>
        cases hr
        split
        · next hl => exact follows_removedAlias (.inr (by rw [Token.symbol_of_kind hk, hl]; rfl))
        · next hl => exact follows_liveAlias hk hl
      · cases hr

theorem follows_aliasesBlock {t : Token} (ht : t.kind = .keyword .aliases) :
    (behind t aliasesBlock).Follows fun xs as => AliasesRule (t.symbol :: xs) as := by
  rw [aliasesBlock, behind_expect ht, Token.symbol_of_kind ht]
  apply follows_mark_bind
  apply follows_aliasItems.bind
  intro us aliases hu
  exact follows_mark_pure (.mk hu)

theorem follows_memberItems :
    Follows (itemsToBrace memberItem? takes_memberItem? : Reader (List (List Alias)))
      (Items [.keyword .aliases, .mark .rightBrace] AliasesRule) := by
  refine follows_itemsToBrace (fun t hn hb => ?_) fun t r hr => ?_
  · simp only [memberItem?] at hn
    split at hn
    · cases hn
    · simp_all
  · simp only [memberItem?] at hr
    split at hr
    · next hk => cases hr; exact follows_aliasesBlock hk
    · cases hr

theorem follows_memberBody (s : MemberSort) : (memberBody s).Follows MemberEnd := by
  apply follows_accept_bind fun _ => rfl
  · exact follows_mark_pure .semicolon
  · apply follows_memberItems.bind
    intro us blocks hu
    exact follows_mark_pure (.body hu)

theorem follows_obfuscatedMember (s : MemberSort) :
    (obfuscatedMember s).Follows (Opt (.mark .leftArrow) Name) :=
  follows_after (fun _ => rfl) (follows_name _)

theorem follows_method (doc : Option String) : (method doc).Follows (MethodRule doc) := by
  apply follows_name_bind
  intro name
  apply follows_parameters.bind
  intro ps parameters hp
  apply (follows_obfuscatedMember _).bind
  intro os obfuscated ho
  apply follows_metadata.bind
  intro ds data hd
  apply (follows_memberBody _).bind
  intro es aliases he
  apply follows_pure
  rw [List.append_nil]
  exact .mk name hp ho hd he

theorem follows_field : field.Follows FieldRule := by
  apply follows_name_bind
  intro name
  apply (follows_obfuscatedMember _).bind
  intro os obfuscated ho
  apply follows_metadata.bind
  intro ds data hd
  apply (follows_memberBody _).bind
  intro es aliases he
  apply follows_pure
  rw [List.append_nil]
  exact .mk name ho hd he

theorem follows_classHeader : classHeader.Follows HeaderRule := by
  apply follows_name_bind
  intro name
  apply (follows_after (fun _ => rfl) (follows_qualifiedName _)).bind
  intro os obfuscated ho
  apply follows_metadata.bind
  intro ds data hd
  exact follows_mark_pure (.mk name ho hd)

theorem follows_importDecl : importDecl.Follows ImportRule := by
  apply (follows_qualifiedName _).bind
  intro ps path hp
  apply (follows_after (fun _ => rfl) (follows_name _)).bind
  intro as asName ha
  exact follows_mark_pure (.mk hp ha)

end Reader
end ObfuscationMap
