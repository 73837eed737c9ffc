import Mathlib.Data.List.Basic
import ClassDiagram.Proofs.Inference.Edges

/-!
# Type parameters as targets

Inside a class the names of its type parameters stand for no classifier, and the passes over fields
and parameters look at every name from inside the class (`memberTarget?_ne_typeParameter`). So
neither an association nor a dependency leads from a class to one of its type parameters. What a
class constructs is looked up without regard to where it stands, and that is the one way in which a
type parameter becomes a target (`infer_typeParameter_iff`).
-/

namespace ClassDiagram.Inference

section Targets

variable {settings : Settings} {registry : Registry} {x y : String} {c : Classifier}
  (hc : registry.classifier? x = some c) (hy : y ∈ c.typeParameters)

include hy in
theorem memberTarget?_ne_typeParameter (t : TypeExpr) :
    memberTarget? settings registry c t ≠ some y := by
  intro htarget
  have hnone := (memberTarget?_eq_some_iff.1 htarget).2
  rw [Classifier.hasTypeParameter, List.contains_iff_mem.2 hy] at hnone
  cases hnone

include hc hy

theorem not_refers_typeParameter : ¬ Refers settings registry x y := by
  rintro ⟨c', hc', -, -, -, u, -, -, htarget⟩
  obtain rfl := Option.some.inj (hc.symm.trans hc')
  exact memberTarget?_ne_typeParameter hy u htarget

theorem not_uses_typeParameter : ¬ Uses settings registry x y := by
  rintro ⟨c', hc', -, -, -, -, -, ⟨-, u, -, -, htarget⟩, -⟩
  obtain rfl := Option.some.inj (hc.symm.trans hc')
  exact memberTarget?_ne_typeParameter hy u htarget

end Targets

section Owners

variable {settings : Settings} {registry : Registry} {x y : String}

theorem Constructs.owner_mem (h : Constructs settings registry x y) :
    x ∈ registry.construction.keys := by
  obtain ⟨⟨types, htypes, -⟩, -⟩ := h
  by_contra hnone
  rw [Registry.constructedBy?, OrderedMap.get?_eq_none_iff.2 hnone] at htypes
  cases htypes

/-- An ownership edge of two names leads from the one that comes first among the owners that
construct the other. -/
theorem exists_ownership_from (hr : registry.Extracted) (h : Constructs settings registry x y)
    (hfirst : Constructs settings registry y x →
      registry.construction.keys.idxOf x ≤ registry.construction.keys.idxOf y) :
    ∃ r, (infer settings registry).get? x y = some r ∧ r.source = x ∧ r.target = y ∧
      r.strength = .ownership ∧ OwnershipForm settings registry r := by
  rcases infer_pair_cases settings hr.toWF hr.simple_names x y with
    ⟨-, r, hget, hstrength, hform⟩ | ⟨hfree, -⟩ | ⟨hfree, -⟩
  · refine ⟨r, hget, ?_⟩
    rcases Relation.ends_eq_iff.1 (ends_of_get?_infer hget) with ⟨hs, ht⟩ | ⟨hs, ht⟩
    · exact ⟨hs, ht, hstrength, hform⟩
    · -- both construct the other, and neither comes before the other
      have hback := hform.constructs
      have hle := hform.first
      rw [hs, ht] at hback hle
      have hsame : x = y := (List.idxOf_inj h.owner_mem).1 (Nat.le_antisymm (hfirst hback) (hle h))
      exact ⟨hs.trans hsame.symm, ht.trans hsame, hstrength, hform⟩
  · exact absurd (Or.inl h) hfree
  · exact absurd (Or.inl h) hfree

end Owners

/-- **When a type parameter is a target.** In what is inferred from sources, a relation that leads
one way from a class to one of its own type parameters is an ownership edge. There is one exactly if
a constructor or entry point of the class constructs the type parameter, unless a class of that name
refers to the class, so that the edge leads both ways, or constructs it and comes before it. -/
theorem infer_typeParameter_iff (settings : Settings) (sources : List String) {x y : String}
    {c : Classifier} (hc : (Registry.ofSources settings sources).classifier? x = some c)
    (hy : y ∈ c.typeParameters) :
    (∀ r ∈ (infer settings (.ofSources settings sources)).relations,
      r.source = x → r.target = y → r.isTwoWay = false → r.strength = .ownership) ∧
    ((∃ r ∈ (infer settings (.ofSources settings sources)).relations,
        r.source = x ∧ r.target = y ∧ r.isTwoWay = false) ↔
      Constructs settings (.ofSources settings sources) x y ∧
        ¬ (x ≠ y ∧ Refers settings (.ofSources settings sources) y x) ∧
        (Constructs settings (.ofSources settings sources) y x →
          (Registry.ofSources settings sources).construction.keys.idxOf x ≤
            (Registry.ofSources settings sources).construction.keys.idxOf y)) := by
  have hr := Registry.extracted_ofSources settings sources
  generalize Registry.ofSources settings sources = registry at hc hr ⊢
  have hset := wf_infer settings registry
  have hform : ∀ r ∈ (infer settings registry).relations, r.source = x → r.target = y →
      r.strength = .ownership ∧ OwnershipForm settings registry r := by
    rintro r hmem rfl rfl
    cases edgeForm_of_get?_infer hr.toWF hr.simple_names (hset.get?_eq_some_iff.2 ⟨hmem, rfl⟩) with
    | ownership strength form => exact ⟨strength, form⟩
    | association _ _ form => exact absurd form.forward (not_refers_typeParameter hc hy)
    | dependency _ _ _ uses => exact absurd uses (not_uses_typeParameter hc hy)
  refine ⟨fun r hmem hs ht _ => (hform r hmem hs ht).1, ?_, ?_⟩
  · rintro ⟨r, hmem, rfl, rfl, hw⟩
    have form := (hform r hmem rfl rfl).2
    refine ⟨form.constructs, fun hback => ?_, form.first⟩
    rw [form.twoWay.2 hback] at hw
    cases hw
  · rintro ⟨hconstructs, hback, hfirst⟩
    obtain ⟨r, hget, rfl, rfl, -, form⟩ := exists_ownership_from hr hconstructs hfirst
    refine ⟨r, (hset.get?_eq_some_iff.1 hget).1, rfl, rfl, ?_⟩
    rw [Bool.eq_false_iff]
    exact fun hw => hback (form.twoWay.1 hw)

/-- A box that makes its own value. -/
def boxSource : String :=
  "class Box<T> \x7b\n    private T value;\n    public Box() \x7b\n" ++
    "        value = new T();\n    \x7d\n\x7d\n"

theorem relations_box : (infer .default (.ofSources .default [boxSource])).relations =
    [.plain "Box" "T" (.composition false)] := by
  decide +kernel

theorem exists_classifier_box : ∃ c,
    (Registry.ofSources .default [boxSource]).classifier? "Box" = some c ∧
      c.typeParameters = ["T"] := by
  have hparameters : ((Registry.ofSources .default [boxSource]).classifier? "Box").map
      Classifier.typeParameters = some ["T"] := by decide +kernel
  exact Option.map_eq_some_iff.1 hparameters

/-- The box is composed of its type parameter. -/
theorem infer_typeParameter_iff_box :
    (∃ c, (Registry.ofSources .default [boxSource]).classifier? "Box" = some c ∧
      c.typeParameters = ["T"]) ∧
    Constructs .default (.ofSources .default [boxSource]) "Box" "T" ∧
    (infer .default (.ofSources .default [boxSource])).relations =
      [.plain "Box" "T" (.composition false)] := by
  obtain ⟨c, hc, hparameters⟩ := exists_classifier_box
  have hmem : "T" ∈ c.typeParameters := hparameters ▸ List.mem_singleton.2 rfl
  have hiff := (infer_typeParameter_iff .default [boxSource] hc hmem).2
  have hbox := hiff.1 ⟨_, relations_box ▸ List.mem_singleton.2 rfl, rfl, rfl, rfl⟩
  exact ⟨exists_classifier_box, hbox.1, relations_box⟩

/-- A class may be related to one of its own type parameters. -/
theorem not_forall_ne_typeParameter_box :
    ¬ ∀ (settings : Settings) (sources : List String) (c : Classifier),
      ∀ r ∈ (infer settings (.ofSources settings sources)).relations,
        (Registry.ofSources settings sources).classifier? r.source = some c →
          r.isTwoWay = false → r.target ∉ c.typeParameters := by
  intro hnever
  obtain ⟨c, hc, hparameters⟩ := exists_classifier_box
  refine hnever .default [boxSource] c _ (relations_box ▸ List.mem_singleton.2 rfl) hc rfl ?_
  rw [hparameters]
  exact List.mem_singleton.2 rfl

end ClassDiagram.Inference
