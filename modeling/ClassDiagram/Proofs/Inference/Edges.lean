import ClassDiagram.Proofs.Extraction.Units
import ClassDiagram.Proofs.Inference.ClosedForm

/-!
# The relation of a pair

The closed form of ownership and association goes on to dependencies: `EdgeForm` is all that
inference says of a pair with a relation, and `get?_infer_ne_none_iff` says which pairs have one.
Strength and multiplicities of a relation are thresholds in what the registry says of the pair
(`EdgeForm.rank_le_iff`, `EdgeForm.carries_iff`), so they grow with the registry; `Registry.Within`
is the order in which it grows.
-/

namespace ClassDiagram

/-- The end called `name` carries the multiplicity `label`. -/
def Relation.Carries (r : Relation) (name label : String) : Prop :=
  (r.target = name ∧ r.targetLabel? = some label) ∨ (r.source = name ∧ r.sourceLabel? = some label)

theorem Relation.hasLabel_iff_carries {r : Relation} :
    r.hasLabel = true ↔ ∃ name label, r.Carries name label := by
  simp only [hasLabel, Bool.or_eq_true, Option.isSome_iff_exists]
  constructor
  · rintro (⟨label, hs⟩ | ⟨label, ht⟩)
    · exact ⟨r.source, label, Or.inr ⟨rfl, hs⟩⟩
    · exact ⟨r.target, label, Or.inl ⟨rfl, ht⟩⟩
  · rintro ⟨name, label, ⟨-, ht⟩ | ⟨-, hs⟩⟩
    · exact Or.inr ⟨label, ht⟩
    · exact Or.inl ⟨label, hs⟩

/-- What is said from one name of a pair to the other, in one order or the other. -/
def NamePair.Between (P : String → String → Prop) (pair : NamePair) : Prop :=
  ∃ x y, NamePair.of x y = pair ∧ P x y

namespace NamePair

variable {P Q : String → String → Prop}

theorem between_of {a b : String} : Between P (.of a b) ↔ P a b ∨ P b a := by
  constructor
  · rintro ⟨x, y, hxy, h⟩
    rcases of_eq_of_iff.1 hxy with ⟨rfl, rfl⟩ | ⟨rfl, rfl⟩
    · exact Or.inl h
    · exact Or.inr h
  · rintro (h | h)
    · exact ⟨a, b, rfl, h⟩
    · exact ⟨b, a, of_comm b a, h⟩

theorem Between.mono {pair : NamePair} (h : Between P pair) (hPQ : ∀ x y, P x y → Q x y) :
    Between Q pair := by
  obtain ⟨x, y, hxy, hP⟩ := h
  exact ⟨x, y, hxy, hPQ x y hP⟩

end NamePair

namespace Inference

open NamePair

section Forms

variable (settings : Settings) (registry : Registry)

/-- The class `x` has a method with a parameter that is about the target `y`, and no field that is
about a type with this simple name; constructors do not count. -/
def Uses (x y : String) : Prop :=
  ∃ c, registry.classifier? x = some c ∧ ∃ m ∈ c.methods, m.role ≠ .constructor ∧
    ∃ p ∈ m.parameters, (∃ t u, TypeExpr.read? p.type = some t ∧ subject? settings t = some u ∧
      memberTarget? settings registry c u = some y) ∧
      ∀ a ∈ c.attributes, ∀ t u, a.type? = some t → subject? settings t = some u →
        u.simpleName ≠ y

/-- All that inference says of a pair with a relation: it is owned, or else associated, or else one
of its names uses the other. -/
inductive EdgeForm (r : Relation) : Prop
  | ownership (strength : r.strength = .ownership) (form : OwnershipForm settings registry r)
  | association (free : ¬ Between (Constructs settings registry) r.ends)
      (kind : r.kind = .association r.isTwoWay) (form : AssociationForm settings registry r)
  | dependency (free : ¬ Between (Constructs settings registry) r.ends)
      (unreferred : ¬ Between (Refers settings registry) r.ends)
      (plain : r = .plain r.source r.target .dependency)
      (uses : Uses settings registry r.source r.target)

/-- What has to be said of a pair for a relation of at least the given strength. -/
def Warrants (pair : NamePair) : Strength → Prop
  | .dependency => True
  | .association => Between (Constructs settings registry) pair ∨
      Between (Refers settings registry) pair
  | .multiplicity => Between (Constructs settings registry) pair ∨
      Between (Collects settings registry) pair
  | .ownership => Between (Constructs settings registry) pair

end Forms

section Edges

variable {settings : Settings} {registry : Registry}

theorem mem_usageEvidence_iff (hwf : registry.WF) {x y : String} :
    (x, y) ∈ usageEvidence settings registry ↔ Uses settings registry x y := by
  unfold usageEvidence Uses
  simp only [List.mem_flatMap, List.mem_map, List.mem_filterMap, List.mem_filter, bne_iff_ne,
    Prod.mk.injEq, hwf.classifier?_eq_some_iff, usageTarget?_eq_some_iff]
  constructor
  · rintro ⟨c, hc, y', ⟨p, ⟨m, ⟨hm, hrole⟩, hp⟩, hy⟩, rfl, rfl⟩
    exact ⟨c, ⟨hc, rfl⟩, m, hm, hrole, p, hp, hy⟩
  · rintro ⟨c, ⟨hc, rfl⟩, m, hm, hrole, p, hp, hy⟩
    exact ⟨c, hc, y, ⟨p, ⟨m, ⟨hm, hrole⟩, hp⟩, hy⟩, rfl, rfl⟩

theorem Collects.refers {x y : String} (h : Collects settings registry x y) :
    Refers settings registry x y := by
  obtain ⟨c, hc, a, ha, t, u, ht, hcontainer, helement, hy⟩ := h
  refine ⟨c, hc, a, ha, t, u, ht, ?_, hy⟩
  rw [subject?, if_pos hcontainer, helement]

/-! ## Which relation a pair has -/

/-- The pairs with a relation. -/
theorem get?_infer_ne_none_iff (settings : Settings) (hwf : registry.WF)
    (hdots : ∀ e ∈ registry.evidence, '.' ∉ e.constructed.toList) (a b : String) :
    (infer settings registry).get? a b ≠ none ↔
      Between (Constructs settings registry) (.of a b) ∨
        Between (Refers settings registry) (.of a b) ∨
          Between (Uses settings registry) (.of a b) := by
  simp only [between_of (P := Constructs settings registry),
    between_of (P := Refers settings registry)]
  rcases infer_pair_forms settings hwf hdots a b with
    ⟨hconstructs, r, hget, -⟩ | ⟨-, hrefers, r, hget, -⟩ | ⟨hfree, hnoref, hget⟩
  · rw [hget]
    exact iff_of_true nofun (Or.inl hconstructs)
  · rw [hget]
    exact iff_of_true nofun (Or.inr (Or.inl hrefers))
  · rw [hget, or_iff_right hfree, or_iff_right hnoref, ne_eq, Option.map_eq_none_iff,
      List.find?_eq_none]
    simp only [← mem_usageEvidence_iff hwf, decide_eq_true_eq, Between]
    constructor
    · intro h
      by_contra hnone
      exact h fun piece hmem hpair => hnone ⟨piece.1, piece.2, hpair, hmem⟩
    · rintro ⟨x, y, hxy, hmem⟩ hnone
      exact hnone (x, y) hmem hxy

theorem ends_of_get?_infer {a b : String} {r : Relation}
    (hget : (infer settings registry).get? a b = some r) : r.ends = NamePair.of a b :=
  ((wf_infer settings registry).get?_eq_some_iff.1 hget).2

/-- Every inferred relation has the form that the registry gives it. -/
theorem edgeForm_of_get?_infer (hwf : registry.WF)
    (hdots : ∀ e ∈ registry.evidence, '.' ∉ e.constructed.toList) {a b : String} {r : Relation}
    (hget : (infer settings registry).get? a b = some r) : EdgeForm settings registry r := by
  have hends := ends_of_get?_infer hget
  rcases infer_pair_forms settings hwf hdots a b with
    ⟨-, r', hget', hstrength, hform⟩ | ⟨hfree, -, r', hget', ⟨twoWay, hk⟩, hform⟩ |
      ⟨hfree, hnoref, hget'⟩
  · rw [hget] at hget'
    cases hget'
    exact .ownership hstrength hform
  · rw [hget] at hget'
    cases hget'
    refine .association ?_ ?_ hform
    · rwa [hends, between_of]
    · rw [Relation.isTwoWay_of_association hk]
      exact hk
  · rw [hget] at hget'
    obtain ⟨⟨x, y⟩, hfind, hr⟩ := Option.map_eq_some_iff.1 hget'.symm
    refine .dependency ?_ ?_ ?_ ?_
    · rwa [hends, between_of]
    · rwa [hends, between_of]
    · rw [← hr]
      rfl
    · rw [← hr]
      exact (mem_usageEvidence_iff hwf).1 (List.mem_of_find?_eq_some hfind)

/-! ## Multiplicities and strength -/

theorem CarriesCollections.carries_iff {r : Relation} (h : CarriesCollections settings registry r)
    {name label : String} :
    r.Carries name label ↔
      label = "0..*" ∧ ∃ x, NamePair.of x name = r.ends ∧ Collects settings registry x name := by
  obtain ⟨htarget, hsource⟩ := h
  constructor
  · rintro (⟨rfl, hlabel⟩ | ⟨rfl, hlabel⟩)
    · rcases htarget with ⟨hmany, hcollects⟩ | ⟨hnone, -⟩
      · rw [hmany] at hlabel
        exact ⟨(Option.some.inj hlabel).symm, r.source, rfl, hcollects⟩
      · rw [hnone] at hlabel
        cases hlabel
    · rcases hsource with ⟨hmany, -, hcollects⟩ | ⟨hnone, -⟩
      · rw [hmany] at hlabel
        exact ⟨(Option.some.inj hlabel).symm, r.target, NamePair.of_comm _ _, hcollects⟩
      · rw [hnone] at hlabel
        cases hlabel
  · rintro ⟨rfl, x, hx, hcollects⟩
    have hright : Collects settings registry r.source r.target → r.targetLabel? = some "0..*" :=
      fun h => (htarget.resolve_right fun hnone => hnone.2 h).1
    rcases NamePair.of_eq_of_iff.1 hx with ⟨rfl, rfl⟩ | ⟨rfl, rfl⟩
    · exact Or.inl ⟨rfl, hright hcollects⟩
    · -- A loop carries the multiplicity at its right end.
      by_cases hloop : r.source = r.target
      · refine Or.inl ⟨hloop.symm, hright ?_⟩
        rwa [hloop] at hcollects ⊢
      · exact Or.inr ⟨rfl, (hsource.resolve_right fun hnone => hnone.2 ⟨hloop, hcollects⟩).1⟩

namespace EdgeForm

variable {r : Relation}

/-- An end carries a multiplicity if the other end collects it. -/
theorem carries_iff (h : EdgeForm settings registry r) {name label : String} :
    r.Carries name label ↔
      label = "0..*" ∧ ∃ x, NamePair.of x name = r.ends ∧ Collects settings registry x name := by
  cases h with
  | ownership _ form => exact form.labels.carries_iff
  | association _ _ form => exact form.labels.carries_iff
  | dependency _ unreferred plain _ =>
    refine iff_of_false ?_ ?_
    · rw [plain]
      rintro (⟨-, hlabel⟩ | ⟨-, hlabel⟩) <;> cases hlabel
    · rintro ⟨-, x, hx, hcollects⟩
      exact unreferred ⟨x, name, hx, hcollects.refers⟩

theorem hasLabel_iff (h : EdgeForm settings registry r) :
    r.hasLabel = true ↔ Between (Collects settings registry) r.ends := by
  rw [Relation.hasLabel_iff_carries]
  simp only [h.carries_iff]
  constructor
  · rintro ⟨name, -, -, x, hx, hcollects⟩
    exact ⟨x, name, hx, hcollects⟩
  · rintro ⟨x, name, hx, hcollects⟩
    exact ⟨name, _, rfl, x, hx, hcollects⟩

/-- The strength of a relation is the highest one that the registry warrants. -/
theorem rank_le_iff (h : EdgeForm settings registry r) (s : Strength) :
    s.rank ≤ r.strength.rank ↔ Warrants settings registry r.ends s := by
  have hlabel := h.hasLabel_iff
  cases h with
  | ownership strength form =>
    have howned : Between (Constructs settings registry) r.ends := ⟨_, _, rfl, form.constructs⟩
    rw [strength]
    cases s <;> simp [Strength.rank, Warrants, howned]
  | association free kind form =>
    have hrefers : Between (Refers settings registry) r.ends := ⟨_, _, rfl, form.forward⟩
    cases hl : r.hasLabel with
    | false =>
      rw [hl] at hlabel
      rw [Relation.strength_of_plain kind hl]
      cases s <;> simp [Strength.rank, Warrants, free, hrefers, ← hlabel]
    | true =>
      rw [hl] at hlabel
      rw [Relation.strength_of_labelled kind hl]
      cases s <;> simp [Strength.rank, Warrants, free, hrefers, ← hlabel]
  | dependency free unreferred plain _ =>
    have hstrength : r.strength = .dependency := by
      rw [plain]
      rfl
    have huncollected : ¬ Between (Collects settings registry) r.ends :=
      fun hcollects => unreferred (hcollects.mono fun _ _ => Collects.refers)
    rw [hstrength]
    cases s <;> simp [Strength.rank, Warrants, free, unreferred, huncollected]

end EdgeForm

end Edges

end Inference

/-! ## Growing registries -/

/-- Whatever a registry answers, another one answers too. -/
structure Registry.Within (r r' : Registry) : Prop where
  classifier? : ∀ {name c}, r.classifier? name = some c → r'.classifier? name = some c
  constructedBy? : ∀ {owner types}, r.constructedBy? owner = some types →
    r'.constructedBy? owner = some types

namespace Registry.Within

open Inference

variable {settings : Settings} {r r' : Registry} (h : r.Within r') {x y : String}

include h

theorem declares (hx : r.declares x = true) : r'.declares x = true := by
  obtain ⟨c, hc⟩ := Option.isSome_iff_exists.1 hx
  exact Option.isSome_iff_exists.2 ⟨c, h.classifier? hc⟩

theorem knownTarget? {t : TypeExpr} (ht : knownTarget? settings r t = some y) :
    Inference.knownTarget? settings r' t = some y := by
  obtain ⟨hrelatable, hdeclared, hname⟩ := knownTarget?_eq_some_iff.1 ht
  exact knownTarget?_eq_some_iff.2 ⟨hrelatable, fun hd => h.declares (hdeclared hd), hname⟩

theorem memberTarget? {c : Classifier} {t : TypeExpr} (ht : memberTarget? settings r c t = some y) :
    Inference.memberTarget? settings r' c t = some y := by
  obtain ⟨hknown, hparameter⟩ := memberTarget?_eq_some_iff.1 ht
  exact memberTarget?_eq_some_iff.2 ⟨h.knownTarget? hknown, hparameter⟩

theorem refers (hxy : Refers settings r x y) : Refers settings r' x y := by
  obtain ⟨c, hc, a, ha, t, u, ht, hu, hy⟩ := hxy
  exact ⟨c, h.classifier? hc, a, ha, t, u, ht, hu, h.memberTarget? hy⟩

theorem collects (hxy : Collects settings r x y) : Collects settings r' x y := by
  obtain ⟨c, hc, a, ha, t, u, ht, hcontainer, hu, hy⟩ := hxy
  exact ⟨c, h.classifier? hc, a, ha, t, u, ht, hcontainer, hu, h.memberTarget? hy⟩

theorem constructs (hxy : Constructs settings r x y) : Constructs settings r' x y := by
  obtain ⟨⟨types, htypes, hy⟩, hknown⟩ := hxy
  exact ⟨⟨types, h.constructedBy? htypes, hy⟩, h.knownTarget? hknown⟩

theorem uses (hxy : Uses settings r x y) : Uses settings r' x y := by
  obtain ⟨c, hc, m, hm, hrole, p, hp, ⟨t, u, ht, hu, hy⟩, hheld⟩ := hxy
  exact ⟨c, h.classifier? hc, m, hm, hrole, p, hp, ⟨t, u, ht, hu, h.memberTarget? hy⟩, hheld⟩

theorem warrants {pair : NamePair} {s : Strength} (hs : Warrants settings r pair s) :
    Warrants settings r' pair s := by
  cases s with
  | dependency => trivial
  | association =>
    exact hs.imp (fun hc => hc.mono fun _ _ => h.constructs) fun hr => hr.mono fun _ _ => h.refers
  | multiplicity =>
    exact hs.imp (fun hc => hc.mono fun _ _ => h.constructs) fun hc => hc.mono fun _ _ => h.collects
  | ownership => exact NamePair.Between.mono hs fun _ _ => h.constructs

theorem hierarchyEvidence (hwf : r.WF) (hwf' : r'.WF) {e : HierarchyEdge}
    (he : e ∈ hierarchyEvidence settings r) : e ∈ Inference.hierarchyEvidence settings r' := by
  obtain ⟨c, hc, hmem⟩ := List.mem_flatMap.1 he
  obtain ⟨hedge, htarget⟩ := List.mem_filter.1 hmem
  have hc' := (hwf'.classifier?_eq_some_iff.1
    (h.classifier? (hwf.classifier?_eq_some_iff.2 ⟨hc, rfl⟩))).1
  refine List.mem_flatMap.2 ⟨c, hc', List.mem_filter.2 ⟨hedge, ?_⟩⟩
  unfold isHierarchyTarget at htarget ⊢
  rw [Bool.or_eq_true] at htarget ⊢
  exact htarget.imp_right h.declares

/-- Pairs keep having a relation. -/
theorem get?_infer_ne_none (hr : r.Extracted) (hr' : r'.Extracted) {a b : String}
    (hget : (infer settings r).get? a b ≠ none) : (infer settings r').get? a b ≠ none := by
  rw [get?_infer_ne_none_iff settings hr.toWF hr.simple_names] at hget
  rw [get?_infer_ne_none_iff settings hr'.toWF hr'.simple_names]
  rcases hget with hc | href | huse
  · exact Or.inl (hc.mono fun _ _ => h.constructs)
  · exact Or.inr (Or.inl (href.mono fun _ _ => h.refers))
  · exact Or.inr (Or.inr (huse.mono fun _ _ => h.uses))

/-- Multiplicities stay. -/
theorem carries {e e' : Relation} (he : EdgeForm settings r e) (he' : EdgeForm settings r' e')
    (hends : e'.ends = e.ends) {name label : String} (hlabel : e.Carries name label) :
    e'.Carries name label := by
  obtain ⟨hmany, x, hx, hcollects⟩ := he.carries_iff.1 hlabel
  exact he'.carries_iff.2 ⟨hmany, x, hx.trans hends.symm, h.collects hcollects⟩

end Registry.Within

end ClassDiagram
