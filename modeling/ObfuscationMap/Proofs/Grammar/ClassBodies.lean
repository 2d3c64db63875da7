import ObfuscationMap.Proofs.Grammar.Readers

/-!
Class bodies and what contains them. The reader of a class body keeps the classes that are still open on
a stack and reads on past the end of an inner body, so what it takes is the rest of every open body, each
with its closing brace (`Closing`). From there the reader of a class, the declarations of a script and
the script as a whole follow their rules.
-/

namespace ObfuscationMap

namespace ClassDecl

def addMember (c : ClassDecl) : Member → ClassDecl
  | .method m => c.addMethod m
  | .field f => c.addField f
  | .inner d => c.addInner d
  | .aliases as => c.addAliases as

theorem addMembers_nil (c : ClassDecl) : c.addMembers [] = c := by
  cases c
  simp only [addMembers, List.filterMap_nil, List.flatMap_nil, List.append_nil]

theorem addMembers_cons (c : ClassDecl) (m : Member) (ms : List Member) :
    c.addMembers (m :: ms) = (c.addMember m).addMembers ms := by
  cases m <;>
    simp [addMembers, addMember, addMethod, addField, addInner, addAliases, List.filterMap_cons,
      Member.method?, Member.field?, Member.inner?, Member.aliasList]

end ClassDecl

namespace Reader
open Grammar

section equations

variable {outer : List ClassDecl} {current : ClassDecl} {doc : Option String} {t : Token}

theorem classBody_close (ht : t.kind = .mark .rightBrace) (ts : List Token) :
    classBody [] current doc (t :: ts) = .ok (current, ts) := by
  rw [classBody]
  simp only [ht]

theorem classBody_closeInner {parent : ClassDecl} (ht : t.kind = .mark .rightBrace) (ts : List Token) :
    classBody (parent :: outer) current doc (t :: ts) =
      classBody outer (parent.addInner current) none ts := by
  rw [classBody]
  simp only [ht]

theorem classBody_method (ht : t.kind = .keyword .md) (ts : List Token) :
    classBody outer current doc (t :: ts) =
      (method doc >>= fun m => (classBody outer (current.addMethod m) none : Reader ClassDecl)) ts := by
  conv => lhs; rw [classBody.eq_def]
  simp only [ht]
  split
  · next e he => rw [bind_error he]
  · next m rest he => rw [bind_ok he]

theorem classBody_field (ht : t.kind = .keyword .fd) (ts : List Token) :
    classBody outer current doc (t :: ts) =
      (field >>= fun f => (classBody outer (current.addField f) none : Reader ClassDecl)) ts := by
  conv => lhs; rw [classBody.eq_def]
  simp only [ht]
  split
  · next e he => rw [bind_error he]
  · next f rest he => rw [bind_ok he]

theorem classBody_inner (ht : t.kind = .keyword .classWord) (ts : List Token) :
    classBody outer current doc (t :: ts) =
      (classHeader >>= fun c => (classBody (current :: outer) c none : Reader ClassDecl)) ts := by
  conv => lhs; rw [classBody.eq_def]
  simp only [ht]
  split
  · next e he => rw [bind_error he]
  · next c rest he => rw [bind_ok he]

theorem classBody_aliases (ht : t.kind = .keyword .aliases) (ts : List Token) :
    classBody outer current doc (t :: ts) =
      (behind t aliasesBlock >>= fun as =>
        (classBody outer (current.addAliases as) none : Reader ClassDecl)) ts := by
  conv => lhs; rw [classBody.eq_def]
  simp only [ht]
  split
  · next e he => rw [bind_error (r := behind t aliasesBlock) he]
  · next as rest he => rw [bind_ok (r := behind t aliasesBlock) he]

theorem documentation?_symbol (t : Token) :
    t.symbol.documentation? = if t.kind = .javadoc then some t.lexeme else none := by
  cases hk : t.kind <;> simp [Token.symbol, hk, Symbol.of, Symbol.documentation?]

theorem classBody_other
    (ht : t.kind ∉ [.keyword .md, .keyword .fd, .keyword .classWord, .keyword .aliases, .mark .rightBrace])
    (ts : List Token) :
    classBody outer current doc (t :: ts) = classBody outer current t.symbol.documentation? ts := by
  rw [documentation?_symbol]
  conv => lhs; rw [classBody.eq_def]
  simp only [List.mem_cons, List.not_mem_nil, or_false, not_or] at ht
  split <;> simp_all

end equations

/-- The rest of the innermost body and of all bodies around it, up to the brace of the outermost. -/
def Closing : List ClassDecl → ClassDecl → Option String → List Symbol → ClassDecl → Prop
  | [], current, doc, xs, c => ∃ bs ms, ClassBody doc bs ms ∧ xs = bs ++ [.mark .rightBrace] ∧
      c = current.addMembers ms
  | parent :: outer, current, doc, xs, c => ∃ bs ms ys, ClassBody doc bs ms ∧
      xs = bs ++ .mark .rightBrace :: ys ∧
      Closing outer (parent.addInner (current.addMembers ms)) none ys c

theorem Closing.grow {outer : List ClassDecl} {current current' c : ClassDecl} {doc doc' : Option String}
    (zs : List Symbol) {ys : List Symbol} (h : Closing outer current' doc' ys c)
    (hb : ∀ bs ms, ClassBody doc' bs ms → ∃ ms', ClassBody doc (zs ++ bs) ms' ∧
      current.addMembers ms' = current'.addMembers ms) : Closing outer current doc (zs ++ ys) c := by
  cases outer with
  | nil =>
    obtain ⟨bs, ms, hms, rfl, rfl⟩ := h
    obtain ⟨ms', hms', ha⟩ := hb bs ms hms
    exact ⟨zs ++ bs, ms', hms', by simp, ha.symm⟩
  | cons parent outer =>
    obtain ⟨bs, ms, vs, hms, rfl, hc⟩ := h
    obtain ⟨ms', hms', ha⟩ := hb bs ms hms
    exact ⟨zs ++ bs, ms', vs, hms', by simp, ha ▸ hc⟩

theorem Closing.member {outer : List ClassDecl} {current c : ClassDecl} {doc : Option String} (m : Member)
    (zs : List Symbol) {ys : List Symbol} (h : Closing outer (current.addMember m) none ys c)
    (hb : ∀ bs ms, ClassBody none bs ms → ClassBody doc (zs ++ bs) (m :: ms)) :
    Closing outer current doc (zs ++ ys) c :=
  h.grow zs fun bs ms hms => ⟨m :: ms, hb bs ms hms, current.addMembers_cons m ms⟩

theorem Closing.inner {outer : List ClassDecl} {current c d : ClassDecl} {doc : Option String}
    {hs ys : List Symbol} (hd : HeaderRule hs d) (h : Closing (current :: outer) d none ys c) :
    Closing outer current doc (.keyword .classWord :: (hs ++ ys)) c := by
  obtain ⟨bs, is, vs, his, rfl, hc⟩ := h
  have hm : ∀ ws ms, ClassBody none ws ms → ClassBody doc
      ((.keyword .classWord :: (hs ++ (bs ++ [.mark .rightBrace]))) ++ ws)
      (.inner (d.addMembers is) :: ms) := by
    intro ws ms hms
    simpa using ClassBody.inner hd his hms
  simpa using Closing.member (.inner (d.addMembers is)) _ hc hm

theorem completable_closing (outer : List ClassDecl) (current : ClassDecl) (doc : Option String) :
    Completable (Closing outer current doc) [] := by
  induction outer generalizing current doc with
  | nil => exact ⟨[.mark .rightBrace], current, by simp, [], [], .done, rfl, (current.addMembers_nil).symm⟩
  | cons parent outer ih =>
    obtain ⟨ys, c, hy, hc⟩ := ih (parent.addInner current) none
    refine ⟨.mark .rightBrace :: ys, c, by simpa using hy, [], [], ys, .done, rfl, ?_⟩
    rw [ClassDecl.addMembers_nil]
    exact hc

theorem follows_classBody (outer : List ClassDecl) (current : ClassDecl) (doc : Option String) :
    Follows (classBody outer current doc : Reader ClassDecl) (Closing outer current doc) where
  completable := completable_closing outer current doc
  explains ts := by
    -- Along the rounds of the loop, each of which begins with one symbol of the innermost open body.
    induction outer, current, doc, ts using classBody.induct with
    | case1 outer current doc =>
      have hc := completable_closing outer current doc
      refine .of_error [] (m := ⟨.classEnd, none⟩) rfl hc fun rest' hh => ?_
      rw [List.head?_nil, List.head?_eq_none_iff] at hh
      rw [hh, List.nil_append, classBody]
    | case2 current doc t ts ht =>
      refine .of_ok [t] ⟨[], [], .done, ?_, (current.addMembers_nil).symm⟩ fun rest' _ =>
        classBody_close ht rest'
      rw [symbols_cons, Token.symbol_of_kind ht]
      rfl
    | case3 current doc t ts ht parent outer ih =>
      refine ih.round [t] id (fun rest' _ => ?_) fun ys c hc => ?_
      · rw [List.singleton_append, classBody_closeInner ht]
        cases classBody outer (parent.addInner current) none rest' <;> rfl
      · refine ⟨[], [], ys, .done, ?_, ?_⟩
        · rw [symbols_cons, Token.symbol_of_kind ht]
          rfl
        · rw [ClassDecl.addMembers_nil]
          exact hc
    | case4 outer current doc t ts ht m he =>
      refine .opening_error (follows_method doc) he (classBody_method ht) fun us d hd => ?_
      refine (completable_closing outer (current.addMethod d) none).mono id fun ys c hc => ?_
      rw [Token.symbol_of_kind ht]
      exact hc.member (.method d) (.keyword .md :: us) fun _ _ hb => .method hd hb
    | case5 outer current doc t ts ht d rest he _ ih =>
      refine .opening_ok (follows_method doc) he (classBody_method ht) ih fun us ys c hd hc => ?_
      rw [Token.symbol_of_kind ht]
      exact hc.member (.method d) (.keyword .md :: us) fun _ _ hb => .method hd hb
    | case6 outer current doc t ts ht m he =>
      refine .opening_error follows_field he (classBody_field ht) fun us d hd => ?_
      refine (completable_closing outer (current.addField d) none).mono id fun ys c hc => ?_
      rw [Token.symbol_of_kind ht]
      exact hc.member (.field d) (.keyword .fd :: us) fun _ _ hb => .field hd hb
    | case7 outer current doc t ts ht d rest he _ ih =>
      refine .opening_ok follows_field he (classBody_field ht) ih fun us ys c hd hc => ?_
      rw [Token.symbol_of_kind ht]
      exact hc.member (.field d) (.keyword .fd :: us) fun _ _ hb => .field hd hb
    | case8 outer current doc t ts ht m he =>
      refine .opening_error follows_classHeader he (classBody_inner ht) fun us d hd => ?_
      refine (completable_closing (current :: outer) d none).mono id fun ys c hc => ?_
      rw [Token.symbol_of_kind ht]
      exact hc.inner hd
    | case9 outer current doc t ts ht d rest he _ ih =>
      refine .opening_ok follows_classHeader he (classBody_inner ht) ih fun us ys c hd hc => ?_
      rw [Token.symbol_of_kind ht]
      exact hc.inner hd
    | case10 outer current doc t ts ht m he =>
      refine .opening_error (follows_aliasesBlock ht) he (classBody_aliases ht) fun us as ha => ?_
      refine (completable_closing outer (current.addAliases as) none).mono id fun ys c hc => ?_
      exact hc.member (.aliases as) (t.symbol :: us) fun _ _ hb => .aliases ha hb
    | case11 outer current doc t ts ht as rest he _ ih =>
      refine .opening_ok (follows_aliasesBlock ht) he (classBody_aliases ht) ih fun us ys c ha hc => ?_
      exact hc.member (.aliases as) (t.symbol :: us) fun _ _ hb => .aliases ha hb
    | case12 outer current doc t ts hb hm hf hc ha ih =>
      have hk : t.kind ∉ [.keyword .md, .keyword .fd, .keyword .classWord, .keyword .aliases,
          .mark .rightBrace] := by
        simp only [List.mem_cons, List.not_mem_nil, or_false, not_or]
        exact ⟨hm, hf, hc, ha, hb⟩
      have ih' : Explains (classBody outer current t.symbol.documentation? : Reader ClassDecl)
          (Closing outer current t.symbol.documentation?) ts := by
        rw [documentation?_symbol]
        exact ih
      refine ih'.round [t] id (fun rest' _ => ?_) fun ys c hc => ?_
      · rw [List.singleton_append, classBody_other hk]
        cases classBody outer current t.symbol.documentation? rest' <;> rfl
      · exact hc.grow [t.symbol] fun _ ms hb => ⟨ms, .other (by simpa using hk) hb, rfl⟩

theorem follows_classDecl : classDecl.Follows ClassRule := by
  refine follows_classHeader.bind fun hs c hc => ?_
  refine (follows_classBody [] c none).imp fun xs d hd => ?_
  obtain ⟨bs, ms, hb, rfl, rfl⟩ := hd
  exact .mk hc hb

end Reader
end ObfuscationMap
