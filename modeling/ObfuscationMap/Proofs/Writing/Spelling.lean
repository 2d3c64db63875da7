import Mathlib.Data.List.Basic
import ObfuscationMap.Proofs.Writing

/-!
A legal script is written with symbols that can be spelled: every name is a word, no text ends too early
and no documentation does. With a blank behind each of them, none runs into the next, so what is written
is laid out from the script's symbols.
-/

namespace ObfuscationMap

def Symbol.Writable (x : Symbol) : Prop := ∀ rest, Spelled x.piece x.piece.write (' ' :: rest)

theorem writable_mark (m : Mark) : (Symbol.mark m).Writable := fun rest =>
  .mark fun _ hd => by simp at hd

theorem writable_name {w : String} (h : isIdentifier w) : (Symbol.name w).Writable := by
  intro rest
  rw [isIdentifier] at h
  rw [Symbol.piece, Piece.write]
  split at h
  · cases h
  · next c cs hw =>
    rw [Bool.and_eq_true, List.all_eq_true] at h
    rw [hw]
    exact .word h.1 h.2 fun d hd => by cases hd; decide

theorem writable_keyword (k : Keyword) : (Symbol.keyword k).Writable := by
  have hk : isIdentifier k.spelling := by cases k <;> decide
  exact writable_name hk

theorem writable_text {s : String} (h : '"' ∉ s.toList) : (Symbol.text s).Writable := fun _ => .text h

theorem writable_javadoc {s : String} (h : IsDocumentation s) : (Symbol.javadoc s).Writable :=
  fun _ => .javadoc h.1 h.2

theorem writable_qualified {name : String} (h : isQualified name) :
    ∀ x ∈ qualifiedSymbols name, x.Writable :=
  forall_qualified (fun m _ => writable_mark m) fun part hp => writable_name (List.all_eq_true.mp h part hp)

theorem writable_metadata {m : Metadata} (h : m.Legal) : ∀ x ∈ m.symbols, x.Writable :=
  forall_metadata (fun m _ => writable_mark m) fun e he =>
    ⟨writable_name (h e he).1, writable_text (h e he).2⟩

theorem writable_flatMap {α : Type} {write : α → List Symbol} {as : List α}
    (h : ∀ a ∈ as, ∀ x ∈ write a, x.Writable) : ∀ x ∈ as.flatMap write, x.Writable := by
  intro x hx
  obtain ⟨a, ha, hxa⟩ := List.mem_flatMap.mp hx
  exact h a ha x hxa

theorem writable_alias {a : Alias} (h : a.Legal) : ∀ x ∈ a.symbols, x.Writable := by
  have hv := writable_name h.version
  rw [Alias.symbols]
  split
  · have hr : (Symbol.name Keyword.removed.spelling).Writable := writable_name (by decide)
    simpa using ⟨hr, hv, writable_mark .semicolon⟩
  · next hr =>
    obtain ⟨hn, hm, -⟩ := h.live hr
    simp only [List.forall_mem_cons, List.forall_mem_append]
    exact ⟨hv, writable_name hn, writable_metadata hm, writable_mark _, List.forall_mem_nil _⟩

theorem writable_aliases {as : List Alias} (h : ∀ a ∈ as, a.Legal) :
    ∀ x ∈ aliasesSymbols as, x.Writable := by
  have hs := writable_flatMap fun a ha => writable_alias (h a ha)
  simp only [aliasesSymbols, List.forall_mem_cons, List.forall_mem_append]
  exact ⟨writable_keyword _, writable_mark _, hs, writable_mark _, List.forall_mem_nil _⟩

theorem writable_memberEnd {as : List Alias} (h : ∀ a ∈ as, a.Legal) :
    ∀ x ∈ memberEndSymbols as, x.Writable := by
  cases as with
  | nil => simpa [memberEndSymbols] using writable_mark .semicolon
  | cons a as =>
    simp only [memberEndSymbols, List.forall_mem_cons, List.forall_mem_append]
    exact ⟨writable_mark _, writable_aliases h, writable_mark _, List.forall_mem_nil _⟩

theorem writable_obfuscated {o : Option String} (h : ∀ w ∈ o, isIdentifier w) :
    ∀ x ∈ arrowSymbols (fun w => [.name w]) o, x.Writable :=
  forall_arrow (fun m _ => writable_mark m) _ o fun w hw => by simpa using writable_name (h w hw)

theorem writable_field {f : FieldDecl} (h : f.Legal) : ∀ x ∈ f.symbols, x.Writable := by
  simp only [FieldDecl.symbols, List.forall_mem_cons, List.forall_mem_append]
  exact ⟨writable_keyword _, writable_name h.name, writable_obfuscated h.obfuscated,
    writable_metadata h.metadata, writable_memberEnd h.aliases⟩

theorem writable_method {m : MethodDecl} (h : m.Legal) : ∀ x ∈ m.symbols, x.Writable := by
  have hd : ∀ x ∈ m.javadoc.toList.map Symbol.javadoc, x.Writable := by
    intro x hx
    obtain ⟨doc, hdoc, rfl⟩ := List.mem_map.mp hx
    exact writable_javadoc (h.javadoc doc (Option.mem_toList.mp hdoc))
  have hp := forall_parameters (fun m _ => writable_mark m) m.parameters fun p hp part hpart =>
    writable_name (List.all_eq_true.mp (h.parameters p hp) part hpart)
  simp only [MethodDecl.symbols, List.forall_mem_cons, List.forall_mem_append]
  exact ⟨hd, writable_keyword _, writable_name h.name, hp, writable_obfuscated h.obfuscated,
    writable_metadata h.metadata, writable_memberEnd h.aliases⟩

theorem writable_class {c : ClassDecl} (h : c.Legal) : ∀ x ∈ c.symbols, x.Writable := by
  induction h with
  | @mk c hn ho hd hm hf _ ha ih =>
    obtain ⟨name, obfuscated, metadata, methods, fields, inner, aliases⟩ := c
    have hos := forall_arrow (fun m _ => writable_mark m) qualifiedSymbols obfuscated fun o h =>
      writable_qualified (ho o h)
    have has : ∀ x ∈ if aliases = [] then [] else aliasesSymbols aliases, x.Writable := by
      split
      · exact List.forall_mem_nil _
      · exact writable_aliases ha
    have hms := writable_flatMap fun m h => writable_method (hm m h)
    have hfs := writable_flatMap fun f h => writable_field (hf f h)
    simp only [ClassDecl.symbols, classesSymbols_eq_flatMap, List.forall_mem_cons, List.forall_mem_append]
    exact ⟨writable_keyword _, writable_name hn, hos, writable_metadata hd, writable_mark _, hms, hfs,
      writable_flatMap ih, has, writable_mark _, List.forall_mem_nil _⟩

theorem writable_import {i : Import} (h : i.Legal) : ∀ x ∈ i.symbols, x.Writable := by
  have ha : ∀ x ∈ asNameSymbols i.asName, x.Writable := by
    cases hi : i.asName with
    | none => exact List.forall_mem_nil _
    | some name =>
      rw [asNameSymbols, List.forall_mem_cons, List.forall_mem_singleton]
      exact ⟨writable_keyword .asWord, writable_name (h.asName name hi)⟩
  simp only [Import.symbols, List.forall_mem_cons, List.forall_mem_append]
  exact ⟨writable_keyword _, writable_qualified h.path, ha, writable_mark _, List.forall_mem_nil _⟩

theorem writable_package {package : Option String} (h : ∀ name ∈ package, isQualified name) :
    ∀ x ∈ packageSymbols package, x.Writable := by
  cases package with
  | none => exact List.forall_mem_nil _
  | some name =>
    simp only [packageSymbols, List.forall_mem_cons, List.forall_mem_append]
    exact ⟨writable_keyword _, writable_qualified (h name rfl), writable_mark _, List.forall_mem_nil _⟩

theorem writable_script {s : Script} (h : s.Legal) : ∀ x ∈ s.symbols, x.Writable := by
  have hi := writable_flatMap fun i hi => writable_import (h.imports i hi)
  have hc := writable_flatMap fun c hc => writable_class (h.classes c hc)
  simp only [Script.symbols, classesSymbols_eq_flatMap, List.forall_mem_append]
  exact ⟨writable_package h.package, hi, hc⟩

theorem layout_write {xs : List Symbol} (h : ∀ x ∈ xs, x.Writable) :
    Layout (xs.map Symbol.piece) (xs.flatMap fun x => x.piece.write ++ [' ']) := by
  induction xs with
  | nil => exact .done
  | cons x xs ih =>
    have hxs := ih fun y hy => h y (List.mem_cons_of_mem _ hy)
    rw [List.map_cons, List.flatMap_cons, List.append_assoc]
    exact .piece (h x List.mem_cons_self _) (.blank (by decide) hxs)

theorem lays_write {s : Script} (h : s.Legal) : Lays s.symbols s.write := by
  rw [Lays, Script.write, String.toList_ofList]
  exact layout_write (writable_script h)

end ObfuscationMap
