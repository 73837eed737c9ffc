import ClassDiagram.Proofs.Inference.Edges
import ClassDiagram.Proofs.Inference.Fixpoint

/-!
# Dependencies

The last pass only ever adds: what is there stays, with its place in the order, and what comes
behind it are dependencies (`exists_entries_takeIn_depend`). The passes before it make none
(`kind_ne_dependency_beforeUsage`), so the dependencies of a relation set are the relations that the
last pass has added. It adds one for a pair that nothing else relates as soon as one class of the
pair uses the other, and classes come in the order of the registry.
-/

namespace ClassDiagram

/-! ## What one transition does to the dependencies -/

namespace RelationSet

/-- A transition that is no use makes no dependency. -/
theorem kind_ne_dependency_run {s : RelationSet} (h : ∀ r ∈ s.relations, r.kind ≠ .dependency)
    {op : Transition} (hop : op ≠ .depend) (owner target : String) :
    ∀ r ∈ (op.run s owner target).2.relations, r.kind ≠ .dependency := by
  rw [op.run_eq_apply]
  unfold apply
  cases hwrite : (op.rule owner target (s.get? owner target)).relation? with
  | none => simpa only [hwrite] using h
  | some r =>
    simp only [hwrite]
    intro r' hr'
    obtain ⟨e, he, rfl⟩ := List.mem_map.1 hr'
    rcases OrderedMap.mem_entries_put he with rfl | hold
    · exact op.kind_ne_dependency hop hwrite
    · exact h e.2 (List.mem_map.2 ⟨e, hold, rfl⟩)

/-- A use adds a dependency behind everything else, or nothing. -/
theorem exists_entries_depend (s : RelationSet) (owner target : String) :
    ∃ added, (s.depend owner target).2.edges.entries = s.edges.entries ++ added ∧
      ∀ e ∈ added, e.2.kind = .dependency := by
  unfold depend apply
  cases hget : s.get? owner target with
  | none =>
    refine ⟨[(.of owner target, .plain owner target .dependency)], ?_, by simp [Relation.plain]⟩
    simp only [Evidence.usage, Evidence.write]
    rw [OrderedMap.put_of_not_mem (OrderedMap.get?_eq_none_iff.1 hget)]
  | some r => exact ⟨[], by simp [Evidence.usage, Evidence.keep], by simp⟩

end RelationSet

namespace Inference

open NamePair

/-! ## What the passes do to the dependencies -/

theorem kind_ne_dependency_takeIn (op : Transition) (hop : op ≠ .depend) (pieces : List Piece)
    {s : RelationSet} (h : ∀ r ∈ s.relations, r.kind ≠ .dependency) :
    ∀ r ∈ (takeIn op.run pieces s).relations, r.kind ≠ .dependency := by
  unfold takeIn
  induction pieces generalizing s with
  | nil => exact h
  | cons piece rest ih => exact ih (s.kind_ne_dependency_run h hop piece.1 piece.2)

theorem exists_entries_takeIn_depend (pieces : List Piece) (s : RelationSet) :
    ∃ added, (takeIn Transition.depend.run pieces s).edges.entries = s.edges.entries ++ added ∧
      ∀ e ∈ added, e.2.kind = .dependency := by
  unfold takeIn
  induction pieces generalizing s with
  | nil => exact ⟨[], by simp, by simp⟩
  | cons piece rest ih =>
    obtain ⟨first, hfirst, hkind⟩ := s.exists_entries_depend piece.1 piece.2
    obtain ⟨later, hlater, hkind'⟩ := ih (s.depend piece.1 piece.2).2
    refine ⟨first ++ later, ?_, List.forall_mem_append.2 ⟨hkind, hkind'⟩⟩
    rw [List.foldl_cons, ← List.append_assoc, ← hfirst]
    exact hlater

section Registry

variable (settings : Settings) (registry : Registry)

/-- The relation set when all but the uses have been taken in. -/
def beforeUsage : RelationSet :=
  constructionPass settings registry <| collectionPass settings registry <|
    referencePass settings registry <| hierarchyPass settings registry .empty

theorem infer_eq_usagePass :
    infer settings registry = usagePass settings registry (beforeUsage settings registry) :=
  rfl

theorem kind_ne_dependency_beforeUsage :
    ∀ r ∈ (beforeUsage settings registry).relations, r.kind ≠ .dependency := by
  have hnone : ∀ r ∈ (hierarchyPass settings registry .empty).relations, r.kind ≠ .dependency := by
    unfold RelationSet.relations
    rw [edges_hierarchyPass]
    exact nofun
  have hreferences := kind_ne_dependency_takeIn .associate nofun
    (referenceEvidence settings registry) hnone
  have hcollections := kind_ne_dependency_takeIn .associateMany nofun
    (collectionEvidence settings registry) hreferences
  have hcreations := kind_ne_dependency_takeIn .compose nofun
    (creationEvidence settings registry) hcollections
  exact kind_ne_dependency_takeIn .share nofun (sharingEvidence registry) hcreations

end Registry

section Pairs

variable {settings : Settings} {registry : Registry}

theorem wf_beforeUsage : (beforeUsage settings registry).WF :=
  RelationSet.wf_after [.hierarchyPass settings registry, .referencePass settings registry,
    .collectionPass settings registry, .constructionPass settings registry]

/-- What the last pass finds of a pair decides whether it looks at the uses of the pair. -/
theorem get?_infer_of_beforeUsage (a b : String) :
    (infer settings registry).get? a b =
      ((beforeUsage settings registry).get? a b).or
        (((usageEvidence settings registry).find? fun piece =>
          NamePair.of piece.1 piece.2 = NamePair.of a b).map fun piece =>
            .plain piece.1 piece.2 .dependency) := by
  have hpass : (infer settings registry).get? a b =
      (usageEvidence settings registry).foldl (settle .depend (.of a b))
        ((beforeUsage settings registry).get? a b) := by
    rw [infer_eq_usagePass]
    exact get?_takeIn .depend (usageEvidence settings registry) (beforeUsage settings registry) a b
  rw [hpass]
  cases (beforeUsage settings registry).get? a b with
  | none => rw [foldl_usage_none, Option.none_or]
  | some r => rw [foldl_usage_some, Option.some_or]

/-- A pair holds a dependency when nothing else relates it and the first use found about it is the
one that the dependency tells. -/
theorem get?_infer_dependency_iff {a b : String} {r : Relation} :
    (infer settings registry).get? a b = some r ∧ r.kind = .dependency ↔
      (beforeUsage settings registry).get? a b = none ∧
        ∃ s t, (usageEvidence settings registry).find? (fun piece =>
          NamePair.of piece.1 piece.2 = NamePair.of a b) = some (s, t) ∧
            r = .plain s t .dependency := by
  rw [get?_infer_of_beforeUsage]
  cases hbefore : (beforeUsage settings registry).get? a b with
  | none =>
    simp only [Option.none_or, Option.map_eq_some_iff, Prod.exists, true_and]
    constructor
    · rintro ⟨⟨s, t, hfind, rfl⟩, -⟩
      exact ⟨s, t, hfind, rfl⟩
    · rintro ⟨s, t, hfind, rfl⟩
      exact ⟨⟨s, t, hfind, rfl⟩, rfl⟩
  | some r' =>
    refine iff_of_false ?_ nofun
    rintro ⟨hr, hk⟩
    rw [Option.some_or] at hr
    have hmem := (wf_beforeUsage.get?_eq_some_iff.1 (hbefore.trans hr)).1
    exact kind_ne_dependency_beforeUsage settings registry r hmem hk

theorem find?_usageEvidence_ne_none_iff (hwf : registry.WF) {a b : String} :
    (∃ s t, (usageEvidence settings registry).find? (fun piece =>
        NamePair.of piece.1 piece.2 = NamePair.of a b) = some (s, t)) ↔
      Uses settings registry a b ∨ Uses settings registry b a := by
  rw [← between_of (P := Uses settings registry), Between]
  simp only [← mem_usageEvidence_iff hwf]
  constructor
  · rintro ⟨s, t, hfind⟩
    exact ⟨s, t, by simpa using List.find?_some hfind, List.mem_of_find?_eq_some hfind⟩
  · rintro ⟨x, y, hxy, hmem⟩
    have hsome : ((usageEvidence settings registry).find? (fun piece =>
        NamePair.of piece.1 piece.2 = NamePair.of a b)).isSome = true :=
      List.find?_isSome.2 ⟨(x, y), hmem, by simpa using hxy⟩
    obtain ⟨⟨s, t⟩, hfind⟩ := Option.isSome_iff_exists.1 hsome
    exact ⟨s, t, hfind⟩

/-! ## The order of the classes -/

theorem pairwise_usageEvidence (hwf : registry.WF) :
    (usageEvidence settings registry).Pairwise fun p p' =>
      registry.names.idxOf p.1 ≤ registry.names.idxOf p'.1 := by
  have hclasses : registry.classifiers.values.Pairwise fun c c' =>
      registry.names.idxOf c.name ≤ registry.names.idxOf c'.name := by
    have hentries := List.pairwise_map.1 (pairwise_idxOf hwf.names_nodup)
    refine List.pairwise_map.2 (hentries.imp_of_mem ?_)
    rintro ⟨name, c⟩ ⟨name', c'⟩ hc hc' hle
    rw [hwf.named name c hc, hwf.named name' c' hc']
    exact hle
  unfold usageEvidence
  rw [List.pairwise_flatMap]
  constructor
  · intro c _
    rw [List.pairwise_map]
    exact List.pairwise_of_forall fun _ _ => Nat.le_refl _
  · refine hclasses.imp ?_
    intro c c' hle p hp p' hp'
    obtain ⟨-, -, rfl⟩ := List.mem_map.1 hp
    obtain ⟨-, -, rfl⟩ := List.mem_map.1 hp'
    exact hle

end Pairs

/-- **Dependencies are the uses that nothing else relates.** A pair holds a dependency exactly if
the other passes left it without a relation and one of its names uses the other. The dependency leads
from the user that comes first in the registry and carries no multiplicities. In the order of
relations, the dependencies come behind all others; and taking in uses leaves what any set of
relations holds as it is. -/
theorem infer_dependencies (settings : Settings) (registry : Registry) (hwf : registry.WF) :
    (∀ a b, (∃ r, (infer settings registry).get? a b = some r ∧ r.kind = .dependency) ↔
      (beforeUsage settings registry).get? a b = none ∧
        (Uses settings registry a b ∨ Uses settings registry b a)) ∧
    (∀ a b r, (infer settings registry).get? a b = some r → r.kind = .dependency →
      NamePair.of r.source r.target = NamePair.of a b ∧ r.sourceLabel? = none ∧
        r.targetLabel? = none ∧ Uses settings registry r.source r.target ∧
        (Uses settings registry r.target r.source →
          registry.names.idxOf r.source ≤ registry.names.idxOf r.target)) ∧
    (∃ dependencies,
      (infer settings registry).relations =
        (beforeUsage settings registry).relations ++ dependencies ∧
      (∀ r ∈ (beforeUsage settings registry).relations, r.kind ≠ .dependency) ∧
      ∀ r ∈ dependencies, r.kind = .dependency) ∧
    ∀ s : RelationSet, (usagePass settings registry s).hierarchy = s.hierarchy ∧
      s.edges.entries <+: (usagePass settings registry s).edges.entries := by
  refine ⟨fun a b => ?_, fun a b r hget hk => ?_, ?_, fun s => ⟨?_, ?_⟩⟩
  · simp only [get?_infer_dependency_iff, ← find?_usageEvidence_ne_none_iff hwf]
    constructor
    · rintro ⟨r, hbefore, s, t, hfind, -⟩
      exact ⟨hbefore, s, t, hfind⟩
    · rintro ⟨hbefore, s, t, hfind⟩
      exact ⟨_, hbefore, s, t, hfind, rfl⟩
  · obtain ⟨-, s, t, hfind, rfl⟩ := get?_infer_dependency_iff.1 ⟨hget, hk⟩
    have hpair : NamePair.of s t = NamePair.of a b := by simpa using List.find?_some hfind
    rw [← hpair] at hfind
    refine ⟨hpair, rfl, rfl, (mem_usageEvidence_iff hwf).1 (List.mem_of_find?_eq_some hfind), ?_⟩
    intro hback
    exact owner_le_of_find? registry.names.idxOf (pairwise_usageEvidence hwf) hfind
      ((mem_usageEvidence_iff hwf).2 hback)
  · obtain ⟨added, hentries, hkind⟩ := exists_entries_takeIn_depend
      (usageEvidence settings registry) (beforeUsage settings registry)
    refine ⟨added.map Prod.snd, ?_, kind_ne_dependency_beforeUsage settings registry, ?_⟩
    · rw [infer_eq_usagePass]
      unfold RelationSet.relations OrderedMap.values
      rw [← List.map_append, ← hentries]
      rfl
    · intro r hr
      obtain ⟨e, he, rfl⟩ := List.mem_map.1 hr
      exact hkind e he
  · exact hierarchy_takeIn .depend _ s
  · obtain ⟨added, hentries, -⟩ :=
      exists_entries_takeIn_depend (usageEvidence settings registry) s
    exact ⟨added, hentries.symm⟩

/-- The driver holds a car and an array of trucks, and uses cars, a truck and a road. -/
def driverClass : Classifier :=
  { Classifier.empty "Driver" .classType with
    attributes :=
      [⟨"car", "Car", some (.ofName "Car"), .owner⟩,
       ⟨"trucks", "Truck[]", some ⟨"Truck", [], 1⟩, .owner⟩]
    methods :=
      [⟨"drive", .everyone, [⟨"cars", "List<Car>"⟩, ⟨"truck", "Truck"⟩, ⟨"road", "Road"⟩],
        .regular⟩] }

/-- A driver, and a road that in turn uses drivers. -/
def traffic : Registry where
  classifiers := ⟨[
    ("Driver", driverClass),
    ("Road", { Classifier.empty "Road" .classType with
      methods := [⟨"carry", .everyone, [⟨"driver", "Driver"⟩], .regular⟩] })]⟩
  construction := .empty

theorem wf_traffic : traffic.WF where
  names_nodup := by decide
  named name c h := by
    simp only [traffic, List.mem_cons, Prod.mk.injEq, List.not_mem_nil, or_false] at h
    rcases h with ⟨rfl, rfl⟩ | ⟨rfl, rfl⟩ <;> rfl
  owners_nodup := List.nodup_nil
  evidence_nodup _ _ h := by cases h

/-- Of two classes that use each other, the one that was declared first depends on the other. The
truck could be a target, and nothing else relates it to the driver; but because of the array of
trucks the driver does not use it. -/
theorem infer_dependencies_traffic :
    (infer .default traffic).relations =
      [.plain "Driver" "Car" (.association false), .plain "Driver" "Road" .dependency] ∧
    (beforeUsage .default traffic).get? "Road" "Driver" = none ∧
    Uses .default traffic "Driver" "Road" ∧
    (Uses .default traffic "Road" "Driver" →
      traffic.names.idxOf "Driver" ≤ traffic.names.idxOf "Road") ∧
    TypeExpr.read? "Truck" = some (.ofName "Truck") ∧
    memberTarget? .default traffic driverClass (.ofName "Truck") = some "Truck" ∧
    (beforeUsage .default traffic).get? "Driver" "Truck" = none ∧
    ¬ Uses .default traffic "Driver" "Truck" := by
  have hget : (infer .default traffic).get? "Road" "Driver" =
      some (.plain "Driver" "Road" .dependency) := by decide +kernel
  obtain ⟨hiff, hform, -⟩ := infer_dependencies .default traffic wf_traffic
  obtain ⟨-, -, -, huses, hfirst⟩ := hform "Road" "Driver" _ hget rfl
  have hbefore : (beforeUsage .default traffic).get? "Driver" "Truck" = none := by decide +kernel
  have htruck : ¬ Uses .default traffic "Driver" "Truck" := by
    intro h
    obtain ⟨r, hr, -⟩ := (hiff "Driver" "Truck").2 ⟨hbefore, .inl h⟩
    have hnone : (infer .default traffic).get? "Driver" "Truck" = none := by decide +kernel
    rw [hnone] at hr
    cases hr
  exact ⟨by decide +kernel, ((hiff "Road" "Driver").1 ⟨_, hget, rfl⟩).1, huses, hfirst,
    rfl, by decide, hbefore, htruck⟩

end Inference

end ClassDiagram
