import ObfuscationMap.Remapper
import ObfuscationMap.Proofs.Layout
import ObfuscationMap.Proofs.Versions.Answers

/-!
References to classes in descriptors. Any text is, in one way, a row of items, each a reference or another
character, and a remainder that is empty or an `L` without a semicolon after it. Remapping gives each reference
its new name and keeps the rest, so a text without references to known classes stays as it is. The descriptors of
fields and methods are such rows, whose references are the classes they mention.
-/

namespace ObfuscationMap

/-- Part of a descriptor. Only an `L` begins a reference, and the first semicolon ends it. -/
inductive DescriptorItem
  | mark (c : Char) (plain : c ≠ 'L')
  | reference (name : String) (closed : ';' ∉ name.toList)

/-- The end of a text, where no reference begins any more. -/
inductive Remainder
  | nothing
  | unclosed (cs : List Char) (h : ';' ∉ cs)

structure DescriptorText where
  items : List DescriptorItem
  remainder : Remainder

def DescriptorItem.reference? : DescriptorItem → Option String
  | .mark .. => none
  | .reference name _ => some name

def DescriptorItem.spell (rename : String → String) : DescriptorItem → List Char
  | .mark c _ => [c]
  | .reference name _ => 'L' :: ((rename name).toList ++ [';'])

def Remainder.spell : Remainder → List Char
  | .nothing => []
  | .unclosed cs _ => 'L' :: cs

namespace DescriptorText

def references (t : DescriptorText) : List String := t.items.filterMap (·.reference?)

def spell (rename : String → String) (t : DescriptorText) : List Char :=
  t.items.flatMap (·.spell rename) ++ t.remainder.spell

def text (rename : String → String) (t : DescriptorText) : String := String.ofList (t.spell rename)

theorem spell_cons (f : String → String) (i : DescriptorItem) (items : List DescriptorItem) (r : Remainder) :
    spell f ⟨i :: items, r⟩ = i.spell f ++ spell f ⟨items, r⟩ := by
  rw [spell, List.flatMap_cons, List.append_assoc]
  rfl

theorem spell_congr {f g : String → String} {t : DescriptorText} (h : ∀ name ∈ t.references, f name = g name) :
    t.spell f = t.spell g := by
  have hitems : ∀ i ∈ t.items, i.spell f = i.spell g := by
    intro i hi
    cases i with
    | mark c hc => rfl
    | reference name hn =>
      have hmem : name ∈ t.references := List.mem_filterMap.mpr ⟨_, hi, rfl⟩
      rw [DescriptorItem.spell, DescriptorItem.spell, h name hmem]
  rw [spell, spell, List.flatMap_congr hitems]

end DescriptorText

namespace Remapper

variable {f : String → String}

theorem mapReferences_nil : mapReferences f [] = [] := by rw [mapReferences]

theorem mapReferences_mark {c : Char} (h : c ≠ 'L') (cs : List Char) :
    mapReferences f (c :: cs) = c :: mapReferences f cs := by
  rw [mapReferences, if_neg h]

theorem mapReferences_reference {name : String} (h : ';' ∉ name.toList) (rest : List Char) :
    mapReferences f ('L' :: (name.toList ++ ';' :: rest)) =
      'L' :: ((f name).toList ++ ';' :: mapReferences f rest) := by
  have hrest := dropWhile_until h rest
  rw [mapReferences, if_pos rfl, takeWhile_until h, String.ofList_toList]
  split
  · next he => cases hrest.symm.trans he
  · next he =>
    cases hrest.symm.trans he
    rfl

theorem mapReferences_unclosed {cs : List Char} (h : ';' ∉ cs) : mapReferences f ('L' :: cs) = 'L' :: cs := by
  have hrest : cs.dropWhile (· != ';') = [] := List.dropWhile_eq_nil_iff.mpr (forall_bne h)
  rw [mapReferences, if_pos rfl]
  split
  · rfl
  · next he => cases hrest.symm.trans he

theorem mapReferences_spell (t : DescriptorText) : mapReferences f (t.spell id) = t.spell f := by
  obtain ⟨items, r⟩ := t
  induction items with
  | nil =>
    cases r with
    | nothing => exact mapReferences_nil
    | unclosed cs h => exact mapReferences_unclosed h
  | cons i items ih =>
    rw [DescriptorText.spell_cons, DescriptorText.spell_cons, ← ih]
    cases i with
    | mark c h => exact mapReferences_mark h _
    | reference name h =>
      simp only [DescriptorItem.spell, id, List.cons_append, List.append_assoc, List.nil_append]
      exact mapReferences_reference h _

end Remapper

theorem DescriptorItem.spell_append_inj {i j : DescriptorItem} {cs ds : List Char}
    (h : i.spell id ++ cs = j.spell id ++ ds) : i = j ∧ cs = ds := by
  cases i with
  | mark c hc =>
    cases j with
    | mark d hd =>
      obtain ⟨rfl, rfl⟩ := List.cons.inj h
      exact ⟨rfl, rfl⟩
    | reference name hn => exact absurd (List.cons.inj h).1 hc
  | reference name hn =>
    cases j with
    | mark d hd => exact absurd (List.cons.inj h).1.symm hd
    | reference other ho =>
      have hrest := (List.cons.inj h).2
      simp only [id, List.append_eq, List.append_assoc, List.singleton_append] at hrest
      obtain ⟨hname, rfl⟩ := (append_until_inj hn ho).mp hrest
      obtain rfl := String.toList_injective hname
      exact ⟨rfl, rfl⟩

theorem Remainder.spell_ne (r : Remainder) (i : DescriptorItem) (cs : List Char) :
    r.spell ≠ i.spell id ++ cs := by
  intro h
  cases r with
  | nothing => cases i <;> cases h
  | unclosed ds hd =>
    cases i with
    | mark c hc => exact hc (List.cons.inj h).1.symm
    | reference name hn =>
      apply hd
      rw [(List.cons.inj h).2]
      simp

theorem Remainder.spell_injective : Function.Injective Remainder.spell := by
  intro r s h
  cases r <;> cases s <;> cases h <;> rfl

namespace DescriptorText

theorem spell_injective : Function.Injective (spell id) := by
  rintro ⟨items, r⟩ ⟨others, s⟩ h
  induction items generalizing others with
  | nil =>
    cases others with
    | nil =>
      obtain rfl : r = s := Remainder.spell_injective h
      rfl
    | cons j others =>
      rw [spell_cons] at h
      exact absurd h (r.spell_ne j _)
  | cons i items ih =>
    rw [spell_cons] at h
    cases others with
    | nil => exact absurd h.symm (s.spell_ne i _)
    | cons j others =>
      rw [spell_cons] at h
      obtain ⟨rfl, hrest⟩ := DescriptorItem.spell_append_inj h
      obtain ⟨rfl, rfl⟩ := DescriptorText.mk.inj (ih others hrest)
      rfl

theorem spell_surjective : Function.Surjective (spell id) := by
  intro cs
  -- The rounds of the remapping are the items of the row.
  induction cs using Remapper.mapReferences.induct with
  | case1 => exact ⟨⟨[], .nothing⟩, rfl⟩
  | case2 cs hrest =>
    refine ⟨⟨[], .unclosed cs fun hm => ?_⟩, rfl⟩
    simpa using List.dropWhile_eq_nil_iff.mp hrest ';' hm
  | case3 cs d rest hrest _ ih =>
    obtain ⟨t, ht⟩ := ih
    obtain rfl : d = ';' := by simpa [hrest] using List.head?_dropWhile_not (· != ';') cs
    have hcut : cs.takeWhile (· != ';') ++ ';' :: rest = cs := by
      rw [← hrest, List.takeWhile_append_dropWhile]
    have hname : ';' ∉ (String.ofList (cs.takeWhile (· != ';'))).toList := by
      intro hm
      rw [String.toList_ofList] at hm
      simpa using List.mem_takeWhile_imp hm
    refine ⟨⟨.reference _ hname :: t.items, t.remainder⟩, (spell_cons ..).trans ?_⟩
    change _ ++ spell id t = _
    rw [ht]
    simpa [DescriptorItem.spell] using hcut
  | case4 c cs hc ih =>
    obtain ⟨t, rfl⟩ := ih
    exact ⟨⟨.mark c hc :: t.items, t.remainder⟩, spell_cons ..⟩

theorem text_bijective : Function.Bijective (text id) := by
  constructor
  · intro t u h
    exact spell_injective (String.ofList_injective h)
  · intro s
    obtain ⟨t, ht⟩ := spell_surjective s.toList
    exact ⟨t, by rw [text, ht, String.ofList_toList]⟩

end DescriptorText

/-- A name may hold anything but the semicolon that ends it. -/
inductive FieldType
  | base (letter : Char) (h : letter ∈ ['B', 'C', 'D', 'F', 'I', 'J', 'S', 'Z'])
  | object (name : String) (closed : ';' ∉ name.toList)
  | array (element : FieldType)

structure MethodType where
  parameters : List FieldType
  result : Option FieldType

namespace FieldType

def spell (rename : String → String) : FieldType → List Char
  | .base letter _ => [letter]
  | .object name _ => 'L' :: ((rename name).toList ++ [';'])
  | .array element => '[' :: element.spell rename

def text (rename : String → String) (t : FieldType) : String := String.ofList (t.spell rename)

def items : FieldType → List DescriptorItem
  | .base letter h => [.mark letter (by rintro rfl; simp at h)]
  | .object name h => [.reference name h]
  | .array element => .mark '[' (by decide) :: element.items

theorem spell_items (f : String → String) (t : FieldType) : t.items.flatMap (·.spell f) = t.spell f := by
  induction t with
  | base letter h => rfl
  | object name h => exact List.append_nil _
  | array element ih =>
    rw [items, List.flatMap_cons, ih]
    rfl

end FieldType

namespace MethodType

def resultSpelling (rename : String → String) : Option FieldType → List Char
  | none => ['V']
  | some type => type.spell rename

def spell (rename : String → String) (m : MethodType) : List Char :=
  '(' :: (m.parameters.flatMap (·.spell rename) ++ ')' :: resultSpelling rename m.result)

def text (rename : String → String) (m : MethodType) : String := String.ofList (m.spell rename)

def resultItems : Option FieldType → List DescriptorItem
  | none => [.mark 'V' (by decide)]
  | some type => type.items

def items (m : MethodType) : List DescriptorItem :=
  .mark '(' (by decide) ::
    (m.parameters.flatMap (·.items) ++ .mark ')' (by decide) :: resultItems m.result)

theorem spell_items (f : String → String) (m : MethodType) : m.items.flatMap (·.spell f) = m.spell f := by
  have hresult : (resultItems m.result).flatMap (·.spell f) = resultSpelling f m.result := by
    cases m.result with
    | none => rfl
    | some type => exact type.spell_items f
  rw [items, spell, List.flatMap_cons, List.flatMap_append, List.flatMap_cons, List.flatMap_assoc, hresult]
  simp only [FieldType.spell_items]
  rfl

end MethodType

namespace Remapper

theorem mapClass_unknown {r : Remapper} {name : String} (h : name ∉ r.classes) : r.mapClass name = name := by
  rw [mapClass_eq, Std.HashMap.getElem?_eq_none h]
  rfl

theorem mem_classes_ofSources {ts : List Mapping} {v : Version} {name : String} :
    name ∈ (ofSources ts v).classes ↔ ∃ c ∈ ownedClasses ts, address c = name := by
  rw [Std.HashMap.mem_iff_isSome_getElem?, classes_ofSources, List.find?_isSome]
  simp only [beq_iff_eq]

theorem mapDescriptor_text (r : Remapper) (t : DescriptorText) :
    r.mapDescriptor (t.text id) = t.text r.mapClass := by
  rw [mapDescriptor, DescriptorText.text, String.toList_ofList, mapReferences_spell]
  rfl

theorem mapDescriptor_items (r : Remapper) (items : List DescriptorItem) :
    r.mapDescriptor (String.ofList (items.flatMap (·.spell id))) =
      String.ofList (items.flatMap (·.spell r.mapClass)) := by
  have hspell : ∀ f, DescriptorText.spell f ⟨items, .nothing⟩ = items.flatMap (·.spell f) :=
    fun f => List.append_nil _
  have h := mapDescriptor_text r ⟨items, .nothing⟩
  rwa [DescriptorText.text, DescriptorText.text, hspell, hspell] at h

/-- Every text is a row of items in one way, and remapping renames the references in it and does nothing else. -/
theorem mapDescriptor_references (r : Remapper) :
    (∀ d : String, ∃! t : DescriptorText, t.text id = d) ∧
    (∀ t : DescriptorText, r.mapDescriptor (t.text id) = t.text r.mapClass) ∧
    (∀ t : FieldType, r.mapDescriptor (t.text id) = t.text r.mapClass) ∧
    (∀ m : MethodType, r.mapDescriptor (m.text id) = m.text r.mapClass) ∧
    ∀ t : DescriptorText, (∀ name ∈ t.references, name ∉ r.classes) →
      r.mapDescriptor (t.text id) = t.text id := by
  refine ⟨DescriptorText.text_bijective.existsUnique, mapDescriptor_text r, fun t => ?_, fun m => ?_,
    fun t h => ?_⟩
  · have hitems := mapDescriptor_items r t.items
    rwa [t.spell_items, t.spell_items] at hitems
  · have hitems := mapDescriptor_items r m.items
    rwa [m.spell_items, m.spell_items] at hitems
  · have hnames : ∀ name ∈ t.references, r.mapClass name = id name :=
      fun name hn => mapClass_unknown (h name hn)
    rw [mapDescriptor_text, DescriptorText.text, DescriptorText.spell_congr hnames]
    rfl

theorem mapDescriptor_references_unclosed :
    let c : ClassMapping := ⟨⟨"A", "a", []⟩, .empty, [], [], []⟩
    let r := ofSources [⟨"p", .empty, [c]⟩] none
    let t : DescriptorText := ⟨[.mark '[' (by decide), .reference "B" (by decide)],
      .unclosed ['p', '/', 'A'] (by decide)⟩
    r.mapClass "p/A" = "p/a" ∧ (∀ name ∈ t.references, name ∉ r.classes) ∧ t.text id = "[LB;Lp/A" ∧
      r.mapDescriptor "[LB;Lp/A" = "[LB;Lp/A" := by
  intro c r t
  let owned : OwnedClass := ⟨⟨"p", .empty, [c]⟩, c⟩
  have haddress : address owned = "p/A" := by cbv
  have hfound : r.classes["p/A"]? = some owned := by
    rw [classes_ofSources]
    exact (find?_eq_some_iff_first fun _ => beq_iff_eq).mpr (.head haddress)
  have hrenamed : internalName (owned.owner.obfuscatedFullName owned.mapping none) = "p/a" := by cbv
  have hknown : r.mapClass "p/A" = "p/a" := by
    rw [mapClass_eq, hfound]
    exact hrenamed
  have hunknown : ∀ name ∈ t.references, name ∉ r.classes := by
    intro name hn hmem
    obtain rfl : name = "B" := List.mem_singleton.mp hn
    obtain ⟨d, hd, hname⟩ := mem_classes_ofSources.mp hmem
    obtain rfl : d = owned := List.mem_singleton.mp hd
    exact absurd (haddress.symm.trans hname) (by decide)
  have htext : t.text id = "[LB;Lp/A" := by decide
  have hkept := (mapDescriptor_references r).2.2.2.2 t hunknown
  rw [htext] at hkept
  exact ⟨hknown, hunknown, htext, hkept⟩

end Remapper

end ObfuscationMap
