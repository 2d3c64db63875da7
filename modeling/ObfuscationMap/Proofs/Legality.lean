import ObfuscationMap.Compilation
import ObfuscationMap.Proofs.Names
import ObfuscationMap.Proofs.Parsing
import ObfuscationMap.Proofs.Segments

/-!
Scripts that were read are legal. Names of tokens are identifiers, their texts hold no quote and their
documentation does not end early, because that is how they are spelled. Each rule of the grammar hands
this on from its symbols to what it declares.
-/

namespace ObfuscationMap
open Grammar

variable {α : Type}

namespace Symbol

def Spellable : Symbol → Prop
  | .name w => isIdentifier w
  | .text s => '"' ∉ s.toList
  | .javadoc s => IsDocumentation s
  | _ => True

end Symbol

theorem Token.spellable {t : Token} {spelling rest : List Char} (h : Spelled t.piece spelling rest) :
    t.symbol.Spellable := by
  obtain ⟨kind, lexeme, place⟩ := t
  cases kind with
  | identifier =>
    change Spelled (.word lexeme.toList) _ _ at h
    generalize hl : lexeme.toList = cs at h
    cases h with
    | @word c cs _ hc hcs _ => exact isIdentifier_iff.mpr ⟨c, cs, hl, hc, hcs⟩
  | text =>
    change Spelled (.plain .text lexeme.toList) _ _ at h
    cases h with
    | text hq => exact hq
  | javadoc =>
    change Spelled (.plain .javadoc lexeme.toList) _ _ at h
    cases h with
    | javadoc he hs => exact ⟨he, hs⟩
  | _ => trivial

theorem spellable_symbols {source : String} {ts : List Token} (h : tokenize source = .ok ts) :
    ∀ x ∈ symbols ts, x.Spellable := by
  obtain ⟨gs, rfl, hseg⟩ := segmented_of_tokenize h
  obtain ⟨last, -, -, hstands⟩ := hseg.split
  intro x hx
  obtain ⟨t, ht, rfl⟩ := List.mem_map.mp hx
  rcases List.mem_append.mp ht with ht | ht
  · obtain ⟨g, hg, rfl⟩ := List.mem_map.mp ht
    obtain ⟨gs₁, gs₂, he⟩ := List.append_of_mem hg
    exact Token.spellable (hstands gs₁ g gs₂ he).spelled
  · rw [List.mem_singleton.mp ht]
    trivial

namespace Grammar

/-- Whatever the rule declares has the property if the symbols can be spelled. -/
def Keeps (rule : List Symbol → α → Prop) (P : α → Prop) : Prop :=
  ∀ xs a, rule xs a → (∀ x ∈ xs, x.Spellable) → P a

section combinators

variable {rule : List Symbol → α → Prop} {P : α → Prop} (h : Keeps rule P)
include h

theorem keeps_opt (opening : Symbol) : Keeps (Opt opening rule) fun o => ∀ a ∈ o, P a := by
  intro xs o ho hx
  cases ho with
  | absent => simp
  | present hr =>
    intro a ha
    cases ha
    exact h _ _ hr (List.forall_mem_cons.mp hx).2

theorem keeps_separated : Keeps (Separated rule) fun as => ∀ a ∈ as, P a := by
  intro xs as hs hx
  induction hs with
  | one ha => simpa using h _ _ ha hx
  | more ha _ ih =>
    rw [List.forall_mem_append, List.forall_mem_cons] at hx
    rw [List.forall_mem_cons]
    exact ⟨h _ _ ha hx.1, ih hx.2.2⟩

theorem keeps_enclosed (opening closing : Mark) :
    Keeps (Enclosed opening closing rule) fun as => ∀ a ∈ as, P a := by
  intro xs as he hx
  cases he with
  | absent => simp
  | empty => simp
  | full hs =>
    rw [List.forall_mem_cons, List.forall_mem_append] at hx
    exact keeps_separated h _ _ hs hx.2.1

theorem keeps_items (kept : List TokenKind) : Keeps (Items kept rule) fun as => ∀ a ∈ as, P a := by
  intro xs as hi hx
  induction hi with
  | done => simp
  | other _ _ ih => exact ih (List.forall_mem_cons.mp hx).2
  | item ha _ ih =>
    rw [List.forall_mem_append] at hx
    rw [List.forall_mem_cons]
    exact ⟨h _ _ ha hx.1, ih hx.2⟩

end combinators

theorem keeps_name : Keeps Name fun w => isIdentifier w := by
  intro xs w hn hx
  cases hn with
  | mk => exact hx _ List.mem_cons_self

theorem keeps_qualifiedName : Keeps QualifiedName fun name => isQualified name := by
  intro xs name hn hx
  induction hn with
  | single w => exact isQualified_identifier (hx _ List.mem_cons_self)
  | dotted w _ ih =>
    rw [List.forall_mem_cons, List.forall_mem_cons] at hx
    exact isQualified_append (isQualified_identifier hx.1) (ih hx.2.2)

theorem keeps_entry : Keeps Entry fun e => isIdentifier e.1 ∧ '"' ∉ e.2.toList := by
  intro xs e he hx
  cases he with
  | mk key value => exact ⟨hx (.name key) (by simp), hx (.text value) (by simp)⟩

theorem keeps_metadata : Keeps MetadataRule Metadata.Legal := by
  intro xs data hm hx
  cases hm with
  | mk he hc =>
    intro e hmem
    rw [hc.eq_ofList] at hmem
    exact keeps_enclosed keeps_entry _ _ _ _ he hx e (OrderedMap.mem_of_mem_ofList hmem)

theorem keeps_parameter : Keeps ParameterRule fun p => isQualified p.type := by
  intro xs p hp hx
  cases hp with
  | single hq => exact keeps_qualifiedName _ _ hq hx
  | varargs hq => exact keeps_qualifiedName _ _ hq (List.forall_mem_append.mp hx).1

theorem keeps_alias : Keeps AliasRule Alias.Legal := by
  intro xs a ha hx
  cases ha with
  | removed version _ =>
    have hv : isIdentifier version := hx (.name version) (by simp)
    exact ⟨hv, fun _ => ⟨rfl, rfl⟩, fun h => absurd rfl h⟩
  | live name hv hm =>
    simp only [List.forall_mem_cons, List.forall_mem_append] at hx
    exact ⟨hx.1, fun h => by simp [Alias.live] at h, fun _ => ⟨hx.2.1, keeps_metadata _ _ hm hx.2.2.1, hv⟩⟩

theorem keeps_aliases : Keeps AliasesRule fun as => ∀ a ∈ as, a.Legal := by
  intro xs as ha hx
  cases ha with
  | mk hi =>
    simp only [List.forall_mem_cons, List.forall_mem_append] at hx
    exact keeps_items keeps_alias _ _ _ hi hx.2.2.1

theorem keeps_memberEnd : Keeps MemberEnd fun as => ∀ a ∈ as, a.Legal := by
  intro xs as he hx
  cases he with
  | semicolon => simp
  | body hi =>
    simp only [List.forall_mem_cons, List.forall_mem_append] at hx
    have hb := keeps_items keeps_aliases _ _ _ hi hx.2.1
    intro a ha
    obtain ⟨as, has, ha⟩ := List.mem_flatten.mp ha
    exact hb as has a ha

theorem keeps_method {doc : Option String} (hd : ∀ s ∈ doc, IsDocumentation s) :
    Keeps (MethodRule doc) MethodDecl.Legal := by
  intro xs m hm hx
  cases hm with
  | mk name hp ho hdata he =>
    simp only [List.forall_mem_cons, List.forall_mem_append] at hx
    obtain ⟨hn, hps, hos, hds, hes⟩ := hx
    exact ⟨hn, keeps_enclosed keeps_parameter _ _ _ _ hp hps, keeps_opt keeps_name _ _ _ ho hos, hd,
      keeps_metadata _ _ hdata hds, keeps_memberEnd _ _ he hes⟩

theorem keeps_field : Keeps FieldRule FieldDecl.Legal := by
  intro xs f hf hx
  cases hf with
  | mk name ho hdata he =>
    simp only [List.forall_mem_cons, List.forall_mem_append] at hx
    obtain ⟨hn, hos, hds, hes⟩ := hx
    exact ⟨hn, keeps_opt keeps_name _ _ _ ho hos, keeps_metadata _ _ hdata hds, keeps_memberEnd _ _ he hes⟩

theorem keeps_header : Keeps HeaderRule ClassDecl.Legal := by
  intro xs c hc hx
  cases hc with
  | mk name ho hdata =>
    simp only [List.forall_mem_cons, List.forall_mem_append] at hx
    obtain ⟨hn, hos, hds, -⟩ := hx
    exact .ofHeader hn (keeps_opt keeps_qualifiedName _ _ _ ho hos) (keeps_metadata _ _ hdata hds)

end Grammar

def Member.Legal : Member → Prop
  | .method m => m.Legal
  | .field f => f.Legal
  | .inner c => c.Legal
  | .aliases as => ∀ a ∈ as, a.Legal

theorem Member.Legal.parts {m : Member} (h : m.Legal) : (∀ d ∈ m.method?, d.Legal) ∧
    (∀ f ∈ m.field?, f.Legal) ∧ (∀ c ∈ m.inner?, c.Legal) ∧ ∀ a ∈ m.aliasList, a.Legal := by
  cases m <;> simpa [Legal, method?, field?, inner?, aliasList] using h

theorem ClassDecl.Legal.addMembers {c : ClassDecl} (hc : c.Legal) {ms : List Member}
    (hm : ∀ m ∈ ms, m.Legal) : (c.addMembers ms).Legal := by
  have hp := fun m h => (hm m h).parts
  cases hc with
  | mk hn ho hd hms hfs his has =>
    refine .mk hn ho hd (List.forall_mem_append.mpr ⟨hms, ?_⟩) (List.forall_mem_append.mpr ⟨hfs, ?_⟩)
      (List.forall_mem_append.mpr ⟨his, ?_⟩) (List.forall_mem_append.mpr ⟨has, ?_⟩)
    · intro d hd
      obtain ⟨m, hmem, hmd⟩ := List.mem_filterMap.mp hd
      exact (hp m hmem).1 d hmd
    · intro f hf
      obtain ⟨m, hmem, hmf⟩ := List.mem_filterMap.mp hf
      exact (hp m hmem).2.1 f hmf
    · intro d hd
      obtain ⟨m, hmem, hmd⟩ := List.mem_filterMap.mp hd
      exact (hp m hmem).2.2.1 d hmd
    · intro a ha
      obtain ⟨m, hmem, hma⟩ := List.mem_flatMap.mp ha
      exact (hp m hmem).2.2.2 a hma

namespace Grammar

theorem keeps_classBody {doc : Option String} (hd : ∀ s ∈ doc, IsDocumentation s) :
    Keeps (ClassBody doc) fun ms => ∀ m ∈ ms, m.Legal := by
  intro xs ms hb hx
  have hnone : ∀ s ∈ (none : Option String), IsDocumentation s := by simp
  induction hb with
  | done => simp
  | method hm _ ih =>
    simp only [List.forall_mem_cons, List.forall_mem_append] at hx
    exact List.forall_mem_cons.mpr ⟨keeps_method hd _ _ hm hx.2.1, ih hnone hx.2.2⟩
  | field hf _ ih =>
    simp only [List.forall_mem_cons, List.forall_mem_append] at hx
    exact List.forall_mem_cons.mpr ⟨keeps_field _ _ hf hx.2.1, ih hnone hx.2.2⟩
  | inner hh _ _ ihi ih =>
    simp only [List.forall_mem_cons, List.forall_mem_append] at hx
    obtain ⟨-, hhs, hbs, -, hys⟩ := hx
    have hc := (keeps_header _ _ hh hhs).addMembers (ihi hnone hbs)
    exact List.forall_mem_cons.mpr ⟨hc, ih hnone hys⟩
  | aliases ha _ ih =>
    rw [List.forall_mem_append] at hx
    exact List.forall_mem_cons.mpr ⟨keeps_aliases _ _ ha hx.1, ih hnone hx.2⟩
  | @other doc x ys ms hk _ ih =>
    rw [List.forall_mem_cons] at hx
    refine ih (fun s hs => ?_) hx.2
    cases x with
    | javadoc d => cases hs; exact hx.1
    | _ => cases hs

theorem keeps_import : Keeps ImportRule Import.Legal := by
  intro xs i hi hx
  cases hi with
  | mk hp ha =>
    simp only [List.forall_mem_cons, List.forall_mem_append] at hx
    exact ⟨keeps_qualifiedName _ _ hp hx.1, keeps_opt keeps_name _ _ _ ha hx.2.1⟩

theorem keeps_class : Keeps ClassRule ClassDecl.Legal := by
  intro xs c hc hx
  cases hc with
  | mk hh hb =>
    simp only [List.forall_mem_append] at hx
    exact (keeps_header _ _ hh hx.1).addMembers (keeps_classBody (by simp) _ _ hb hx.2.1)

end Grammar

def Declaration.Legal : Declaration → Prop
  | .importDecl i => i.Legal
  | .classDecl c => c.Legal

namespace Grammar

theorem keeps_declaration : Keeps DeclarationRule Declaration.Legal := by
  intro xs d hd hx
  cases hd with
  | importDecl hi => exact keeps_import _ _ hi (List.forall_mem_cons.mp hx).2
  | classDecl hc => exact keeps_class _ _ hc (List.forall_mem_cons.mp hx).2

end Grammar

theorem legal_ofDeclarations {package : Option String} {ds : List Declaration}
    (hp : ∀ name ∈ package, isQualified name) (hd : ∀ d ∈ ds, d.Legal) :
    (Script.ofDeclarations package ds).Legal := by
  refine ⟨hp, fun i hi => ?_, fun c hc => ?_⟩
  · obtain ⟨d, hmem, hdi⟩ := List.mem_filterMap.mp hi
    have hl := hd d hmem
    cases d <;> cases hdi
    exact hl
  · obtain ⟨d, hmem, hdc⟩ := List.mem_filterMap.mp hc
    have hl := hd d hmem
    cases d <;> cases hdc
    exact hl

namespace Grammar

theorem keeps_script : Keeps ScriptRule Script.Legal := by
  intro xs s hs hx
  cases hs with
  | packaged _ hq hds =>
    simp only [List.forall_mem_append, List.forall_mem_cons] at hx
    have hp := keeps_qualifiedName _ _ hq hx.2.2.1
    exact legal_ofDeclarations (by simpa using hp) (keeps_items keeps_declaration _ _ _ hds hx.2.2.2.2)
  | bare _ _ hds =>
    rw [List.forall_mem_append] at hx
    exact legal_ofDeclarations (by simp) (keeps_items keeps_declaration _ _ _ hds hx.2)

end Grammar

theorem legal_of_parse {source : String} {ts : List Token} {s : Script} (ht : tokenize source = .ok ts)
    (hp : parse ts = .ok s) : s.Legal := by
  refine keeps_script _ _ (derives_of_read (read_of_parse hp)) fun x hx => ?_
  have hsub : (beforeEnd ts).Sublist ts := List.takeWhile_sublist _
  exact spellable_symbols ht x ((hsub.map Token.symbol).subset hx)

theorem compile_eq_ok {source : String} {t : Mapping} (h : compile source = .ok t) :
    ∃ ts s, tokenize source = .ok ts ∧ parse ts = .ok s ∧ t = s.resolve := by
  simp only [compile, parseSource] at h
  cases ht : tokenize source with
  | error e =>
    rw [ht] at h
    cases h
  | ok ts =>
    cases hp : parse ts with
    | error e =>
      rw [ht] at h
      simp only [hp] at h
      cases h
    | ok s =>
      rw [ht] at h
      simp only [hp] at h
      cases h
      exact ⟨ts, s, rfl, hp, rfl⟩

end ObfuscationMap
