import ClassDiagram.Inference

/-!
# What may be related to

The targets that types, fields and parameters lead to, said without the tests that look for them.
The registry decides only, and only if the settings say so, whether a target has to be declared
(`knownTarget?_eq_some_iff`); everything else about a target is a matter of the type and the class
in which it stands.
-/

namespace ClassDiagram.Inference

variable {settings : Settings} {registry : Registry} {c : Classifier} {y : String}

/-- A type that may be related to, wherever it is declared. -/
def Relatable (settings : Settings) (t : TypeExpr) : Prop :=
  (t.isWildcard || t.isArray || t.isParameterized) = false ∧
    (t.simpleName.isEmpty || settings.isBuiltin t.simpleName || settings.isBuiltin t.name) = false

theorem knownTarget?_eq_some_iff {t : TypeExpr} :
    knownTarget? settings registry t = some y ↔
      Relatable settings t ∧ (settings.declaredOnly = true → registry.declares y = true) ∧
        t.simpleName = y := by
  unfold knownTarget? Relatable
  simp only
  split
  next hshape => exact iff_of_false nofun fun h => Bool.noConfusion (hshape.symm.trans h.1.1)
  next hshape =>
    split
    next hname => exact iff_of_false nofun fun h => Bool.noConfusion (hname.symm.trans h.1.2)
    next hname =>
      have hrelatable := And.intro (Bool.eq_false_iff.2 hshape) (Bool.eq_false_iff.2 hname)
      split
      next hundeclared =>
        simp only [Bool.and_eq_true, Bool.not_eq_true'] at hundeclared
        refine iff_of_false nofun ?_
        rintro ⟨-, hdeclared, rfl⟩
        exact Bool.noConfusion (hundeclared.2.symm.trans (hdeclared hundeclared.1))
      next hdeclared =>
        simp only [Bool.and_eq_true, Bool.not_eq_true', not_and, Bool.not_eq_false] at hdeclared
        constructor
        · rintro ⟨⟩
          exact ⟨hrelatable, hdeclared, rfl⟩
        · rintro ⟨-, -, rfl⟩
          rfl

theorem memberTarget?_eq_some_iff {t : TypeExpr} :
    memberTarget? settings registry c t = some y ↔
      knownTarget? settings registry t = some y ∧ c.hasTypeParameter y = false := by
  unfold memberTarget?
  rw [Option.filter_eq_some_iff, Bool.not_eq_true']

theorem referenceTarget?_eq_some_iff {a : Attribute} :
    referenceTarget? settings registry c a = some y ↔
      ∃ t, a.type? = some t ∧ isContainer settings t = false ∧
        memberTarget? settings registry c t = some y := by
  unfold referenceTarget?
  cases ht : a.type? with
  | none => simp
  | some t => cases hc : isContainer settings t <;> simp [hc]

theorem collectionTarget?_eq_some_iff {a : Attribute} :
    collectionTarget? settings registry c a = some y ↔
      ∃ t u, a.type? = some t ∧ isContainer settings t = true ∧ t.element? = some u ∧
        memberTarget? settings registry c u = some y := by
  unfold collectionTarget?
  cases ht : a.type? with
  | none => simp
  | some t =>
    cases hc : isContainer settings t with
    | false => simp [hc]
    | true => simp [hc, Option.bind_eq_some_iff]

theorem mem_heldNames_iff :
    y ∈ heldNames settings c ↔
      ∃ a ∈ c.attributes, ∃ t u, a.type? = some t ∧ subject? settings t = some u ∧
        u.simpleName = y := by
  simp only [heldNames, List.mem_filterMap, Option.map_eq_some_iff, Option.bind_eq_some_iff]
  constructor
  · rintro ⟨a, ha, u, ⟨t, ht, hu⟩, hname⟩
    exact ⟨a, ha, t, u, ht, hu, hname⟩
  · rintro ⟨a, ha, t, u, ht, hu, hname⟩
    exact ⟨a, ha, u, ⟨t, ht, hu⟩, hname⟩

theorem not_mem_heldNames_iff :
    y ∉ heldNames settings c ↔
      ∀ a ∈ c.attributes, ∀ t u, a.type? = some t → subject? settings t = some u →
        u.simpleName ≠ y := by
  rw [mem_heldNames_iff]
  constructor
  · intro hnone a ha t u ht hu hname
    exact hnone ⟨a, ha, t, u, ht, hu, hname⟩
  · rintro hall ⟨a, ha, t, u, ht, hu, hname⟩
    exact hall a ha t u ht hu hname

theorem usageTarget?_eq_some_iff {p : Parameter} :
    usageTarget? settings registry c p = some y ↔
      (∃ t u, TypeExpr.read? p.type = some t ∧ subject? settings t = some u ∧
        memberTarget? settings registry c u = some y) ∧
      ∀ a ∈ c.attributes, ∀ t u, a.type? = some t → subject? settings t = some u →
        u.simpleName ≠ y := by
  unfold usageTarget?
  rw [Option.filter_eq_some_iff, Option.bind_assoc, ← not_mem_heldNames_iff]
  simp [Option.bind_eq_some_iff]

end ClassDiagram.Inference
