import ObfuscationMap.Proofs.Grammar.Accepts
import ObfuscationMap.Proofs.Grammar.Scripts

/-!
Whatever the grammar derives, the parser reads. For each rule, the symbols that derive a value are
accepted with this value; class bodies go by induction on their derivation, with any classes open around
them.
-/

namespace ObfuscationMap
namespace Reader
open Grammar

variable {α : Type} {wanted : Expected}

theorem accepts_dottedParts {xs : List Symbol} {name : String} (h : QualifiedName xs name) :
    ∃ first parts us, xs = .name first :: us ∧ name = ".".intercalate (first :: parts) ∧
      Accepts (dottedParts : Reader (List String)) us parts (· ≠ .mark .dot) := by
  induction h with
  | single w =>
    refine ⟨w, [], [], rfl, (String.intercalate_singleton ..).symm, fun ts rest hs hn => ?_⟩
    rw [List.map_eq_nil_iff.mp hs]
    exact dottedParts_stop hn
  | dotted w _ ih =>
    obtain ⟨first, parts, us, rfl, rfl, ha⟩ := ih
    refine ⟨w, first :: parts, _, rfl, (String.intercalate_cons_cons ..).symm, fun ts rest hs hn => ?_⟩
    obtain ⟨t, ts, rfl, ht, hs⟩ := symbols_eq_cons hs
    obtain ⟨p, ts, rfl, hp, hs⟩ := symbols_eq_cons hs
    have htk : t.kind = .mark .dot := Token.kind_of_symbol ht
    have hpk : p.kind = .identifier := Token.kind_of_symbol hp
    rw [List.cons_append, List.cons_append, dottedParts_part htk hpk, ha ts rest hs hn, lexeme_eq (.inl hp)]
    rfl

theorem accepts_qualifiedName {xs : List Symbol} {name : String} (h : QualifiedName xs name) :
    Accepts (qualifiedName wanted) xs name (· ≠ .mark .dot) := by
  obtain ⟨first, parts, us, rfl, rfl, ha⟩ := accepts_dottedParts h
  exact accepts_name_bind (by simpa using ha.map fun parts => ".".intercalate (first :: parts))

theorem accepts_metadataEntry {xs : List Symbol} {e : String × String} {next : TokenKind → Prop}
    (h : Entry xs e) : Accepts metadataEntry xs e next := by
  cases h with
  | mk key value =>
    exact accepts_name_bind (accepts_expect_bind rfl fun _ _ => accepts_text_bind (accepts_pure _ next))

theorem accepts_parameter {xs : List Symbol} {p : Parameter} (h : ParameterRule xs p) :
    Accepts parameter xs p fun k => k ≠ .mark .dot ∧ k ≠ .mark .varargs := by
  cases h with
  | single h =>
    rw [← List.append_nil xs]
    refine (accepts_qualifiedName h).bind ?_ ⟨by simp, fun _ _ hk => hk.1⟩
    exact accepts_accept_miss ⟨by simp, fun _ _ hk => hk.2⟩ (accepts_pure _ _)
  | varargs h =>
    refine (accepts_qualifiedName h).bind ?_ (leads_cons (by simp [Symbol.kind]))
    exact accepts_accept_hit rfl (accepts_pure _ _)

def Named (G : List Symbol → α → Prop) : Prop := ∀ xs a, G xs a → ∃ w ys, xs = .name w :: ys

theorem named_entry : Named Entry := by
  intro _ _ h
  cases h with
  | mk key value => exact ⟨key, _, rfl⟩

theorem named_qualifiedName : Named QualifiedName := by
  intro _ name h
  cases h with
  | single => exact ⟨name, _, rfl⟩
  | dotted w _ => exact ⟨w, _, rfl⟩

theorem named_parameter : Named ParameterRule := by
  intro _ _ h
  cases h with
  | single h => exact named_qualifiedName _ _ h
  | varargs h =>
    obtain ⟨w, ys, rfl⟩ := named_qualifiedName _ _ h
    exact ⟨w, _, List.cons_append⟩

theorem named_separated {G : List Symbol → α → Prop} (h : Named G) : Named (Separated G) := by
  intro _ _ hs
  cases hs with
  | one hg => exact h _ _ hg
  | more hg _ =>
    obtain ⟨w, ys, rfl⟩ := h _ _ hg
    exact ⟨w, _, List.cons_append⟩

theorem accepts_enclosed {opening closing : Mark} {item : Reader α} {h : item.Takes 1}
    {G : List Symbol → α → Prop} {next : TokenKind → Prop} (hi : ∀ us a, G us a → Accepts item us a next)
    (hg : Named G) (hcomma : next (.mark .comma)) (hclosing : next (.mark closing) ∧ closing ≠ .comma)
    {xs : List Symbol} {as : List α} (he : Enclosed opening closing G xs as) :
    Accepts (enclosed opening closing wanted item h) xs as (· ≠ .mark opening) := by
  cases he with
  | absent => exact accepts_accept_miss ⟨by simp, fun _ _ hk => hk⟩ (accepts_pure _ _)
  | empty => exact accepts_accept_hit rfl (accepts_accept_hit rfl (accepts_pure _ _))
  | full hs =>
    obtain ⟨w, ys, hw⟩ := named_separated hg _ _ hs
    refine accepts_accept_hit rfl (accepts_accept_miss ?_ ?_)
    · rw [hw]
      exact leads_cons (by simp [Symbol.kind])
    · refine (accepts_separated hi hcomma hs).bind ?_ (leads_cons ?_)
      · exact accepts_expect_pure rfl
      · simpa [Symbol.kind] using hclosing

theorem accepts_metadata {xs : List Symbol} {data : Metadata} (h : MetadataRule xs data) :
    Accepts metadata xs data (· ≠ .mark .leftBracket) := by
  cases h with
  | mk he hc =>
    rw [hc.eq_ofList]
    have hi : ∀ us e, Entry us e → Accepts metadataEntry us e anything := fun _ _ => accepts_metadataEntry
    apply Accepts.map
    exact accepts_enclosed hi named_entry trivial ⟨trivial, by decide⟩ he

theorem accepts_parameters {xs : List Symbol} {ps : List Parameter}
    (h : Enclosed .leftParen .rightParen ParameterRule xs ps) :
    Accepts parameters xs ps (· ≠ .mark .leftParen) :=
  accepts_enclosed (fun _ _ => accepts_parameter) named_parameter (by simp) (by simp) h

theorem accepts_alias {xs : List Symbol} {a : Alias} (h : AliasRule xs a) :
    ∃ x us, xs = x :: us ∧ x.kind ≠ .mark .rightBrace ∧
      ∀ t : Token, t.symbol = x → ∃ r, aliasItem? t = some r ∧ Accepts (behind t r) us a anything := by
  cases h with
  | @removed marker version hm =>
    have hb : marker.kind ≠ .mark .rightBrace := by rcases hm with rfl | rfl <;> decide
    refine ⟨_, _, rfl, hb, fun t ht => ⟨removedAlias t.kind, ?_, ?_⟩⟩
    · rw [aliasItem?]
      rcases hm with rfl | rfl
      · have hk : t.kind = .keyword .removed := Token.kind_of_symbol ht
        rw [if_pos hk]
      · have hk : t.kind = .identifier := Token.kind_of_symbol ht
        rw [if_neg (by simp [hk]), if_pos hk, if_pos (lexeme_eq (.inl ht))]
    · rw [removedAlias, behind_expect rfl]
      exact accepts_name_bind (accepts_expect_pure rfl)
  | live name hv hd =>
    refine ⟨_, _, rfl, by simp [Symbol.kind], fun t ht => ?_⟩
    have hk : t.kind = .identifier := Token.kind_of_symbol ht
    have hl := lexeme_eq (.inl ht)
    refine ⟨liveAlias, ?_, ?_⟩
    · rw [aliasItem?, if_neg (by simp [hk]), if_pos hk, if_neg (hl ▸ hv)]
    · rw [liveAlias, behind_expect hk, hl]
      apply accepts_name_bind
      exact (accepts_metadata hd).bind (accepts_expect_pure rfl) (leads_cons (by simp [Symbol.kind]))

theorem accepts_aliasesBlock {xs : List Symbol} {as : List Alias} (h : AliasesRule xs as) :
    ∃ us, xs = .keyword .aliases :: us ∧
      ∀ t : Token, t.kind = .keyword .aliases → Accepts (behind t aliasesBlock) us as anything := by
  cases h with
  | mk hi =>
    refine ⟨_, rfl, fun t ht => ?_⟩
    have hn : ∀ u : Token, u.kind ∉ [.identifier, .keyword .removed, .mark .rightBrace] →
        aliasItem? u = none := by
      intro u hu
      simp only [List.mem_cons, List.not_mem_nil, or_false, not_or] at hu
      rw [aliasItem?, if_neg hu.2.1, if_neg hu.1]
    have ha := accepts_itemsToBrace (h := takes_aliasItem?) (by simp) hn (fun _ _ => accepts_alias) hi
    rw [aliasesBlock, behind_expect ht]
    apply accepts_expect_bind rfl
    intro _ _
    exact ha.bind (accepts_expect_pure rfl) (leads_cons rfl)

theorem accepts_memberBody (s : MemberSort) {xs : List Symbol} {as : List Alias} (h : MemberEnd xs as) :
    Accepts (memberBody s) xs as anything := by
  cases h with
  | semicolon => exact accepts_accept_miss (leads_cons (by simp [Symbol.kind])) (accepts_expect_pure rfl)
  | body hi =>
    have hn : ∀ u : Token, u.kind ∉ [.keyword .aliases, .mark .rightBrace] → memberItem? u = none := by
      intro u hu
      simp only [List.mem_cons, List.not_mem_nil, or_false, not_or] at hu
      rw [memberItem?, if_neg hu.1]
    have ha := accepts_itemsToBrace (h := takes_memberItem?) (by simp) hn (fun xs as hg => ?_) hi
    · apply accepts_accept_hit rfl
      exact ha.bind (accepts_expect_pure rfl) (leads_cons rfl)
    · obtain ⟨us, rfl, hu⟩ := accepts_aliasesBlock hg
      refine ⟨_, us, rfl, by decide, fun t ht => ?_⟩
      have hk : t.kind = .keyword .aliases := Token.kind_of_symbol ht
      exact ⟨aliasesBlock, if_pos hk, hu t hk⟩

theorem leads_memberEnd {xs : List Symbol} {as : List Alias} (h : MemberEnd xs as) {k : TokenKind}
    (hk : k ∉ [.mark .semicolon, .mark .leftBrace]) : Leads xs anything (· ≠ k) := by
  simp only [List.mem_cons, List.not_mem_nil, or_false, not_or] at hk
  cases h with
  | semicolon => exact leads_cons fun he => hk.1 he.symm
  | body _ => exact leads_cons fun he => hk.2 he.symm

theorem accepts_memberRest (s : MemberSort) {os ds es : List Symbol} {obfuscated : Option String}
    {data : Metadata} {aliases : List Alias} (ho : Opt (.mark .leftArrow) Name os obfuscated)
    (hd : MetadataRule ds data) (he : MemberEnd es aliases)
    (f : Option String → Metadata → List Alias → α) : Accepts (do
      let obfuscated ← obfuscatedMember s
      let data ← metadata
      let aliases ← memberBody s
      return f obfuscated data aliases) (os ++ (ds ++ es)) (f obfuscated data aliases) anything := by
  have hn : Accepts (obfuscatedMember s) os obfuscated (· ≠ .mark .leftArrow) :=
    accepts_after rfl (fun us w hw => by cases hw; exact accepts_name w) (fun _ hk => hk) ho
  refine hn.bind ?_ (.append hd.head (by decide) (leads_memberEnd he (by decide)))
  refine (accepts_metadata hd).bind ?_ (leads_memberEnd he (by decide))
  exact (accepts_memberBody s he).bind_pure _

theorem accepts_method (doc : Option String) {xs : List Symbol} {m : MethodDecl} (h : MethodRule doc xs m) :
    Accepts (method doc) xs m anything := by
  cases h with
  | mk name hp ho hd he =>
    have hl : Leads _ anything (· ≠ .mark .leftParen) := leads_memberEnd he (by decide)
    apply accepts_name_bind
    apply (accepts_parameters hp).bind (accepts_memberRest .method ho hd he _)
    exact .append ho.head (by decide) (.append hd.head (by decide) hl)

theorem accepts_field {xs : List Symbol} {d : FieldDecl} (h : FieldRule xs d) :
    Accepts field xs d anything := by
  cases h with
  | mk name ho hd he => exact accepts_name_bind (accepts_memberRest .field ho hd he _)

theorem accepts_classHeader {xs : List Symbol} {c : ClassDecl} (h : HeaderRule xs c) :
    Accepts classHeader xs c anything := by
  cases h with
  | mk name ho hd =>
    have hn : Accepts (after (.mark .leftArrow) (qualifiedName .obfuscatedClassName)) _ _
        fun k => k ≠ .mark .dot ∧ k ≠ .mark .leftArrow :=
      accepts_after rfl (fun _ _ hw ts rest hs hk =>
        accepts_qualifiedName hw ts rest hs fun t ht => (hk t ht).1) (fun _ hk => hk.2) ho
    apply accepts_name_bind
    apply hn.bind
    · exact (accepts_metadata hd).bind (accepts_expect_pure rfl) (leads_cons (by decide))
    · exact .append hd.head (by decide) (leads_cons (by decide))

theorem accepts_importDecl {xs : List Symbol} {i : Import} (h : ImportRule xs i) :
    Accepts importDecl xs i anything := by
  cases h with
  | mk hp ha =>
    have hn : Accepts (after (.keyword .asWord) (expect .identifier .importAlias)) _ _
        (· ≠ .keyword .asWord) :=
      accepts_after rfl (fun us w hw => by cases hw; exact accepts_name w) (fun _ hk => hk) ha
    apply (accepts_qualifiedName hp).bind
    · exact hn.bind (accepts_expect_pure rfl) (leads_cons (by decide))
    · exact .append ha.head (by decide) (leads_cons (by decide))

theorem classBody_doc {outer : List ClassDecl} {current : ClassDecl} {t : Token}
    (ht : t.kind = .mark .rightBrace) (doc doc' : Option String) (ts : List Token) :
    classBody outer current doc (t :: ts) = classBody outer current doc' (t :: ts) := by
  cases outer with
  | nil => rw [classBody_close ht, classBody_close ht]
  | cons parent outer => rw [classBody_closeInner ht, classBody_closeInner ht]

theorem classBody_members {doc : Option String} {xs : List Symbol} {ms : List Member}
    (h : ClassBody doc xs ms) (outer : List ClassDecl) (current : ClassDecl) {t : Token}
    (ht : t.kind = .mark .rightBrace) (ts rest : List Token) (hs : symbols ts = xs) :
    classBody outer current doc (ts ++ t :: rest) =
      classBody outer (current.addMembers ms) none (t :: rest) := by
  induction h generalizing outer current t ts rest with
  | done =>
    rw [List.map_eq_nil_iff.mp hs, current.addMembers_nil]
    exact classBody_doc ht _ _ rest
  | @method doc xs ys m ms hm _ ih =>
    obtain ⟨u, us, rfl, hu, hs⟩ := symbols_eq_cons hs
    obtain ⟨us, vs, rfl, hus, hvs⟩ := symbols_eq_append hs
    have hr := (accepts_method doc hm).read hus (vs ++ t :: rest)
    rw [List.cons_append, List.append_assoc, classBody_method (Token.kind_of_symbol hu), bind_ok hr,
      ih outer _ ht vs rest hvs, current.addMembers_cons]
    rfl
  | field hd _ ih =>
    obtain ⟨u, us, rfl, hu, hs⟩ := symbols_eq_cons hs
    obtain ⟨us, vs, rfl, hus, hvs⟩ := symbols_eq_append hs
    have hr := (accepts_field hd).read hus (vs ++ t :: rest)
    rw [List.cons_append, List.append_assoc, classBody_field (Token.kind_of_symbol hu), bind_ok hr,
      ih outer _ ht vs rest hvs, current.addMembers_cons]
    rfl
  | inner hc _ _ ihb ih =>
    -- The inner body is read with the class around it on the stack, and its brace takes it off again.
    obtain ⟨u, us, rfl, hu, hs⟩ := symbols_eq_cons hs
    obtain ⟨us, vs, rfl, hus, hs⟩ := symbols_eq_append hs
    obtain ⟨vs, ws, rfl, hvs, hs⟩ := symbols_eq_append hs
    obtain ⟨v, ws, rfl, hv, hws⟩ := symbols_eq_cons hs
    have hb : v.kind = .mark .rightBrace := Token.kind_of_symbol hv
    have hr := (accepts_classHeader hc).read hus (vs ++ v :: (ws ++ t :: rest))
    rw [List.cons_append, List.append_assoc, List.append_assoc, List.cons_append,
      classBody_inner (Token.kind_of_symbol hu), bind_ok hr, ihb _ _ hb vs _ hvs, classBody_closeInner hb,
      ih outer _ ht ws rest hws, current.addMembers_cons]
    rfl
  | aliases ha _ ih =>
    obtain ⟨us, vs, rfl, hus, hvs⟩ := symbols_eq_append hs
    obtain ⟨xs, rfl, hx⟩ := accepts_aliasesBlock ha
    obtain ⟨u, us, rfl, hu, hus⟩ := symbols_eq_cons hus
    have hk : u.kind = .keyword .aliases := Token.kind_of_symbol hu
    have hr := (hx u hk).read hus (vs ++ t :: rest)
    rw [List.cons_append, List.cons_append, List.append_assoc, classBody_aliases hk, bind_ok hr,
      ih outer _ ht vs rest hvs, current.addMembers_cons]
    rfl
  | other hx _ ih =>
    obtain ⟨u, us, rfl, rfl, hus⟩ := symbols_eq_cons hs
    rw [u.kind_symbol] at hx
    rw [List.cons_append, classBody_other hx, ih outer current ht us rest hus]

theorem accepts_classDecl {xs : List Symbol} {c : ClassDecl} (h : ClassRule xs c) :
    Accepts classDecl xs c anything := by
  cases h with
  | mk hc hb =>
    refine (accepts_classHeader hc).bind (fun ts rest hs _ => ?_) leads_anything
    obtain ⟨us, vs, rfl, hus, hvs⟩ := symbols_eq_append hs
    obtain ⟨t, ws, rfl, ht, hws⟩ := symbols_eq_cons hvs
    have hk : t.kind = .mark .rightBrace := Token.kind_of_symbol ht
    rw [List.map_eq_nil_iff.mp hws, List.append_assoc, List.singleton_append,
      classBody_members hb [] _ hk us rest hus, classBody_close hk]

theorem declarations_complete {xs : List Symbol} {ds : List Declaration} (h : Declarations xs ds)
    (ts : List Token) (hs : symbols ts = xs) :
    declarations ts = .ok (ds.filterMap Declaration.import?, ds.filterMap Declaration.class?) := by
  induction h generalizing ts with
  | done =>
    rw [List.map_eq_nil_iff.mp hs, declarations]
    rfl
  | other hx _ ih =>
    obtain ⟨t, us, rfl, rfl, hu⟩ := symbols_eq_cons hs
    rw [declarations_other (t.kind_symbol ▸ hx), ih us hu]
  | item hd _ ih =>
    obtain ⟨us, vs, rfl, hu, hv⟩ := symbols_eq_append hs
    cases hd with
    | importDecl hi =>
      obtain ⟨t, us, rfl, ht, hu⟩ := symbols_eq_cons hu
      have hr := (accepts_importDecl hi).read hu vs
      rw [List.cons_append, declarations_import (Token.kind_of_symbol ht) hr, ih vs hv]
      rfl
    | classDecl hc =>
      obtain ⟨t, us, rfl, ht, hu⟩ := symbols_eq_cons hu
      have hr := (accepts_classDecl hc).read hu vs
      rw [List.cons_append, declarations_class (Token.kind_of_symbol ht) hr, ih vs hv]
      rfl

theorem accepts_packageName {xs : List Symbol} {name : String} (h : PackageRule xs name) :
    Accepts packageName xs name anything := by
  cases h with
  | mk hp =>
    exact (accepts_qualifiedName hp).bind (accepts_expect_pure rfl) (leads_cons (by decide))

theorem isComment_tokens {cs : List Token} (h : ∀ c ∈ symbols cs, c.kind.isComment) :
    ∀ c ∈ cs, c.kind.isComment := by
  simpa [symbols] using h

theorem read_complete {xs : List Symbol} {s : Script} (h : ScriptRule xs s) (ts : List Token)
    (hs : symbols ts = xs) : Script.read ts = .ok s := by
  cases h with
  | packaged hc hp hd =>
    obtain ⟨cs, us, rfl, hcs, hus⟩ := symbols_eq_append hs
    obtain ⟨t, us, rfl, ht, hus⟩ := symbols_eq_cons hus
    rw [List.append_cons] at hus
    obtain ⟨ps, us, rfl, hps, hus⟩ := symbols_eq_append hus
    have hc' : ∀ c ∈ cs, c.kind.isComment := isComment_tokens (hcs ▸ hc)
    have hr := (accepts_packageName (.mk hp)).read hps us
    rw [read_packaged hc' (Token.kind_of_symbol ht) hr, declarations_complete hd us hus]
    rfl
  | bare hc hx hd =>
    obtain ⟨cs, us, rfl, hcs, hus⟩ := symbols_eq_append hs
    have hu : ∀ t ∈ us.head?, ¬ t.kind.isComment ∧ t.kind ≠ .keyword .pkg := by
      intro t ht
      rw [← t.kind_symbol]
      exact hx _ (by rw [← hus, symbols, List.head?_map, Option.mem_def.mp ht]; rfl)
    rw [read_bare (isComment_tokens (hcs ▸ hc)) hu, declarations_complete hd us hus]
    rfl

end Reader
end ObfuscationMap
