import ClassDiagram.Proofs.Inference.Pairs

/-!
# Inference is a fixpoint of its passes

A set absorbs a piece of evidence when the transition that takes it in has nothing to write
(`RelationSet.Absorbs`). A transition leaves its own piece absorbed, and a piece that is absorbed
stays so whatever evidence comes later, because relations only advance. The one exception is that a
construction may make a composition out of a relation that was none when its construction was found
to be shared; inference takes in all constructions before it looks at the shared ones. So at the end
every piece of every pass is absorbed, and any pass that is run again changes nothing.
-/

namespace ClassDiagram

open Evidence

theorem Strength.eq_of_rank_eq {a b : Strength} (h : a.rank = b.rank) : a = b := by
  cases a <;> cases b <;> simp_all [rank]

/-- A multiplicity does not change the kind. -/
theorem Relation.kind_mark (r : Relation) (name label : String) :
    (r.mark name label).kind = r.kind := by
  unfold mark
  split
  · rfl
  · split <;> rfl

/-! ## When a rule has nothing to write -/

namespace Transition

/-- The rule writes nothing for a pair that holds the relation `current?`. -/
def Silent (op : Transition) (owner target : String) (current? : Option Relation) : Prop :=
  (op.rule owner target current?).relation? = none

variable {op op' : Transition} {owner target : String} {r r' : Relation}

theorem silent_of_settles (h : Settles (op.rule owner target) r) :
    op.Silent owner target (some r) := by
  obtain ⟨c, -, hkeep⟩ := h
  rw [Silent, hkeep]
  rfl

/-- A reference is absorbed by an association of its direction, and by what is stronger. -/
theorem silent_associate_iff (he : r.ends = NamePair.of owner target) :
    Silent .associate owner target (some r) ↔
      1 ≤ r.strength.rank ∧ (r.strength = .association → r.Navigates owner target) := by
  unfold Silent
  cases hk : r.kind with
  | dependency => simp [rule, reference, Relation.strength, hk, write, Strength.rank]
  | association twoWay =>
    cases hl : r.hasLabel with
    | false =>
      rw [Relation.strength_of_plain hk hl, rule, reference_association he hk hl]
      by_cases hn : r.Navigates owner target
      · simp [hn, keep, Strength.rank]
      · simp [hn, write]
    | true => simp [rule, reference, Relation.strength, hk, hl, keep, Strength.rank]
  | composition twoWay | aggregation twoWay =>
    simp [rule, reference, Relation.strength, hk, keep, Strength.rank]

/-- A collection is absorbed by an association of its direction with the multiplicity at its
element, and by ownership. -/
theorem silent_associateMany_iff (hr : r.WellShaped) (he : r.ends = NamePair.of owner target) :
    Silent .associateMany owner target (some r) ↔
      2 ≤ r.strength.rank ∧
        (r.strength = .multiplicity → r.Navigates owner target ∧ r.Labelled target) := by
  unfold Silent
  cases hk : r.kind with
  | dependency => simp [rule, collection, Relation.strength, hk, write, Strength.rank]
  | association twoWay =>
    cases hl : r.hasLabel with
    | false =>
      rw [Relation.strength_of_plain hk hl, rule, collection_plain hr he hk hl]
      split <;> simp [write, Strength.rank]
    | true =>
      rw [Relation.strength_of_labelled hk hl, rule, collection_labelled hr he hk hl]
      by_cases hn : r.Navigates owner target ∧ r.Labelled target
      · simp [hn, keep, Strength.rank]
      · rw [if_neg hn]
        exact iff_of_false (by simp [write]) fun h => hn (h.2 rfl)
  | composition twoWay | aggregation twoWay =>
    simp [rule, collection, Relation.strength, hk, keep, Strength.rank]

/-- A construction is absorbed by ownership alone. -/
theorem silent_compose_iff :
    Silent .compose owner target (some r) ↔ 3 ≤ r.strength.rank := by
  unfold Silent
  cases hs : r.strength <;> simp [rule, creation, hs, write, keep, Strength.rank]

/-- That a construction is shared is absorbed by all but the composition of its owner. -/
theorem silent_share_iff :
    Silent .share owner target (some r) ↔
      ∀ twoWay, r.kind = .composition twoWay → r.source ≠ owner := by
  constructor
  · intro h twoWay hk hs
    rw [Silent, rule, sharing_composition hk hs] at h
    cases h
  · intro h
    exact silent_of_settles (sharing_other h)

/-- The kind of the relations that a transition writes. -/
def kind : Transition → Bool → RelationKind
  | associate, twoWay | associateMany, twoWay => .association twoWay
  | compose, twoWay => .composition twoWay
  | share, twoWay => .aggregation twoWay
  | depend, _ => .dependency

theorem kind_eq {current? : Option Relation}
    (h : (op.rule owner target current?).relation? = some r) :
    r.kind = op.kind r.kind.isTwoWay := by
  cases op with
  | associate =>
    have h : (reference owner target current?).relation? = some r := h
    cases current? with
    | none => grind [reference, write, Relation.plain, kind, RelationKind.isTwoWay]
    | some r₀ =>
      cases hs : r₀.strength <;>
        grind [reference, write, keep, Relation.plain, kind, RelationKind.isTwoWay]
  | associateMany =>
    have h : (collection owner target current?).relation? = some r := h
    cases current? with
    | none => grind [collection, write, kind, RelationKind.isTwoWay]
    | some r₀ =>
      cases hs : r₀.strength <;>
        grind [collection, write, keep, Relation.kind_mark, Relation.strength, kind,
          RelationKind.isTwoWay]
  | compose =>
    have h : (creation owner target current?).relation? = some r := h
    cases current? with
    | none => grind [creation, write, Relation.plain, kind, RelationKind.isTwoWay]
    | some r₀ =>
      cases hs : r₀.strength <;>
        grind [creation, write, keep, Relation.plain, kind, RelationKind.isTwoWay]
  | share =>
    have h : (sharing owner current?).relation? = some r := h
    cases current? with
    | none => grind [sharing, keep]
    | some r₀ => cases hk : r₀.kind <;> grind [sharing, write, keep, kind, RelationKind.isTwoWay]
  | depend =>
    have h : (usage owner target current?).relation? = some r := h
    cases current? <;> grind [usage, write, keep, Relation.plain, kind]

/-- Only a construction makes a composition. -/
theorem kind_ne_composition (hop : op ≠ .compose) {current? : Option Relation}
    (h : (op.rule owner target current?).relation? = some r) (twoWay : Bool) :
    r.kind ≠ .composition twoWay := by
  rw [kind_eq h]
  cases op <;> simp [kind] at hop ⊢

/-- Only a use makes a dependency. -/
theorem kind_ne_dependency (hop : op ≠ .depend) {current? : Option Relation}
    (h : (op.rule owner target current?).relation? = some r) : r.kind ≠ .dependency := by
  rw [kind_eq h]
  cases op <;> simp [kind] at hop ⊢

/-! ## What stays absorbed -/

/-- What is absorbed by a relation is absorbed by one that says more. -/
theorem Silent.advance (h : op.Silent owner target (some r)) (hop : op ≠ .share)
    (hr : r.WellShaped) (he : r.ends = NamePair.of owner target)
    (hr' : r'.WellShaped) (he' : r'.ends = NamePair.of owner target) (hadv : Advances r r') :
    op.Silent owner target (some r') := by
  have hrank := hadv.strength
  have hdependency : 1 ≤ r.strength.rank → r.kind ≠ .dependency := by
    intro hle hk
    simp [Relation.strength, hk, Strength.rank] at hle
  cases op with
  | associate =>
    obtain ⟨hle, hnavigates⟩ := (silent_associate_iff he).1 h
    refine (silent_associate_iff he').2 ⟨Nat.le_trans hle hrank, fun hs' => ?_⟩
    rw [hs'] at hrank
    have hs : r.strength = .association := Strength.eq_of_rank_eq (Nat.le_antisymm hrank hle)
    exact hadv.navigates (hdependency hle) owner target (hnavigates hs)
  | associateMany =>
    obtain ⟨hle, htold⟩ := (silent_associateMany_iff hr he).1 h
    refine (silent_associateMany_iff hr' he').2 ⟨Nat.le_trans hle hrank, fun hs' => ?_⟩
    rw [hs'] at hrank
    have hs : r.strength = .multiplicity := Strength.eq_of_rank_eq (Nat.le_antisymm hrank hle)
    have hk := hdependency (Nat.le_of_succ_le hle)
    exact ⟨hadv.navigates hk owner target (htold hs).1, hadv.labelled hk target (htold hs).2⟩
  | compose =>
    rw [silent_compose_iff] at h ⊢
    exact Nat.le_trans h hrank
  | share => exact absurd rfl hop
  | depend => rfl

section Settle

variable {current? : Option Relation}
  (hcurrent : ∀ r, current? = some r → r.ends = NamePair.of owner target ∧ r.WellShaped)

include hcurrent

/-- A transition has nothing to add to what it made of a pair. -/
theorem silent_settle_self :
    op.Silent owner target ((op.rule owner target current?).relation?.or current?) := by
  cases current? with
  | none =>
    rcases (op.rule_lawful owner target).fresh with hkeep | ⟨r, hwrite, -, -, hsettles⟩
    · rw [hkeep, Silent, keep, Option.none_or, hkeep]
      rfl
    · rw [hwrite]
      exact silent_of_settles hsettles
  | some r =>
    obtain ⟨he, hr⟩ := hcurrent r rfl
    rcases (op.rule_lawful owner target).present r he hr with
      hsettles | ⟨c, r', -, hwrite, -, -, -, hsettles⟩
    · obtain ⟨c, -, hkeep⟩ := id hsettles
      rw [hkeep]
      exact silent_of_settles hsettles
    · rw [hwrite]
      exact silent_of_settles hsettles

/-- Whatever is taken in about a pair, it keeps what it has absorbed, except that a construction may
make a composition which turns out to be shared. -/
theorem Silent.settle (h : op.Silent owner target current?) (hop : op = .share → op' ≠ .compose)
    {owner' target' : String} (hpair : NamePair.of owner' target' = NamePair.of owner target) :
    op.Silent owner target ((op'.rule owner' target' current?).relation?.or current?) := by
  by_cases hshare : op = .share
  · subst hshare
    cases hwrite : (op'.rule owner' target' current?).relation? with
    | none => exact h
    | some r =>
      refine silent_share_iff.2 fun twoWay hk => ?_
      exact absurd hk (kind_ne_composition (hop rfl) hwrite twoWay)
  · cases current? with
    | none =>
      -- Only what is shared has nothing to say about a pair without a relation.
      cases op with
      | share => exact absurd rfl hshare
      | associate | associateMany | compose | depend => cases h
    | some r =>
      obtain ⟨he, hr⟩ := hcurrent r rfl
      rcases (op'.rule_lawful owner' target').present r (he.trans hpair.symm) hr with
        ⟨c, -, hkeep⟩ | ⟨c, r', -, hwrite, he', hr', hadv, -⟩
      · rw [hkeep]
        exact h
      · rw [hwrite]
        exact h.advance hshare hr he hr' (he'.trans hpair) hadv

end Settle

end Transition

/-! ## Sets that absorb evidence -/

namespace RelationSet

open Inference

/-- The set says already what the piece of evidence would tell it. -/
def Absorbs (s : RelationSet) (op : Transition) (piece : Piece) : Prop :=
  op.Silent piece.1 piece.2 (s.get? piece.1 piece.2)

variable {s : RelationSet} {op op' : Transition} {piece : Piece}

theorem run_of_absorbs (h : s.Absorbs op piece) : (op.run s piece.1 piece.2).2 = s := by
  have h : (op.rule piece.1 piece.2 (s.get? piece.1 piece.2)).relation? = none := h
  rw [op.run_eq_apply, apply]
  simp only [h]

theorem takeIn_of_absorbs {pieces : List Piece} (h : ∀ piece ∈ pieces, s.Absorbs op piece) :
    takeIn op.run pieces s = s := by
  unfold takeIn
  induction pieces with
  | nil => rfl
  | cons piece rest ih =>
    rw [List.foldl_cons, run_of_absorbs (h piece List.mem_cons_self)]
    exact ih fun p hp => h p (List.mem_cons_of_mem _ hp)

theorem WF.current (h : s.WF) (a b : String) (r : Relation) (hget : s.get? a b = some r) :
    r.ends = NamePair.of a b ∧ r.WellShaped :=
  have hmem := h.get?_eq_some_iff.1 hget
  ⟨hmem.2, h.shaped r hmem.1⟩

theorem WF.absorbs_run_self (h : s.WF) (op : Transition) (piece : Piece) :
    (op.run s piece.1 piece.2).2.Absorbs op piece := by
  rw [Absorbs, get?_run, settle_self]
  exact Transition.silent_settle_self (h.current piece.1 piece.2)

theorem WF.absorbs_run (h : s.WF) (habsorbs : s.Absorbs op piece)
    (hop : op = .share → op' ≠ .compose) (piece' : Piece) :
    (op'.run s piece'.1 piece'.2).2.Absorbs op piece := by
  rw [Absorbs, get?_run, settle]
  split
  next hpair => exact habsorbs.settle (h.current piece.1 piece.2) hop hpair
  next => exact habsorbs

theorem WF.absorbs_takeIn (h : s.WF) (habsorbs : s.Absorbs op piece)
    (hop : op = .share → op' ≠ .compose) (pieces : List Piece) :
    (Inference.takeIn op'.run pieces s).Absorbs op piece := by
  induction pieces generalizing s with
  | nil => exact habsorbs
  | cons piece' rest ih =>
    exact ih (h.run op' piece'.1 piece'.2) (h.absorbs_run habsorbs hop piece')

theorem WF.absorbs_takeIn_self (h : s.WF) (op : Transition) {pieces : List Piece}
    (hpiece : piece ∈ pieces) : (Inference.takeIn op.run pieces s).Absorbs op piece := by
  induction pieces generalizing s with
  | nil => cases hpiece
  | cons piece' rest ih =>
    have hrun := h.run op piece'.1 piece'.2
    have hop : op = .share → op ≠ .compose := by
      rintro rfl
      nofun
    rcases List.mem_cons.1 hpiece with rfl | hrest
    · exact hrun.absorbs_takeIn (h.absorbs_run_self op piece) hop rest
    · exact ih hrun hrest

end RelationSet

/-! ## Passes in any order -/

namespace Inference

section Passes

variable (settings : Settings) (registry : Registry)

/-- The evidence of a registry that a transition takes in. -/
def evidenceFor : Transition → List Piece
  | .associate => referenceEvidence settings registry
  | .associateMany => collectionEvidence settings registry
  | .compose => creationEvidence settings registry
  | .share => sharingEvidence registry
  | .depend => usageEvidence settings registry

/-- Takes in the evidence for several transitions, one after the other. -/
def takeInAll (ops : List Transition) (s : RelationSet) : RelationSet :=
  ops.foldl (fun s op => takeIn op.run (evidenceFor settings registry op) s) s

theorem infer_eq_takeInAll :
    infer settings registry =
      takeInAll settings registry [.associate, .associateMany, .compose, .share, .depend]
        (hierarchyPass settings registry .empty) :=
  rfl

variable {settings registry}

theorem absorbs_takeInAll_of_absorbs {s : RelationSet} (h : s.WF) {op : Transition} {piece : Piece}
    (habsorbs : s.Absorbs op piece) {ops : List Transition}
    (hops : ∀ op' ∈ ops, op = .share → op' ≠ .compose) :
    (takeInAll settings registry ops s).Absorbs op piece := by
  induction ops generalizing s with
  | nil => exact habsorbs
  | cons op' rest ih =>
    exact ih (h.takeIn op' _) (h.absorbs_takeIn habsorbs (hops op' List.mem_cons_self) _)
      fun op'' hmem => hops op'' (List.mem_cons_of_mem _ hmem)

/-- Evidence that is taken in is absorbed in the end, if constructions come before what is
shared. -/
theorem absorbs_takeInAll {s : RelationSet} (h : s.WF) {ops : List Transition}
    (hops : ops.Pairwise fun op op' => op = .share → op' ≠ .compose) {op : Transition}
    (hop : op ∈ ops) {piece : Piece} (hpiece : piece ∈ evidenceFor settings registry op) :
    (takeInAll settings registry ops s).Absorbs op piece := by
  induction ops generalizing s with
  | nil => cases hop
  | cons op' rest ih =>
    obtain ⟨hfirst, hrest⟩ := List.pairwise_cons.1 hops
    rcases List.mem_cons.1 hop with rfl | hmem
    · exact absorbs_takeInAll_of_absorbs (h.takeIn op _) (h.absorbs_takeIn_self op hpiece) hfirst
    · exact ih (h.takeIn op' _) hrest hmem

theorem infer_absorbs (op : Transition) {piece : Piece}
    (hpiece : piece ∈ evidenceFor settings registry op) :
    (infer settings registry).Absorbs op piece := by
  rw [infer_eq_takeInAll]
  refine absorbs_takeInAll (RelationSet.WF.empty.hierarchyPass settings registry) ?_ ?_ hpiece
  · simp
  · cases op <;> simp

theorem takeIn_infer (op : Transition) :
    takeIn op.run (evidenceFor settings registry op) (infer settings registry) =
      infer settings registry :=
  RelationSet.takeIn_of_absorbs fun _ hpiece => infer_absorbs op hpiece

theorem foldl_addHierarchy_of_mem {s : RelationSet} {edges : List HierarchyEdge}
    (h : ∀ e ∈ edges, e ∈ s.hierarchy) :
    edges.foldl (fun s e => (s.addHierarchy e).2) s = s := by
  induction edges with
  | nil => rfl
  | cons e rest ih =>
    have hadd : (s.addHierarchy e).2 = s := by
      simp [RelationSet.addHierarchy, appendNew, h e List.mem_cons_self]
    rw [List.foldl_cons, hadd]
    exact ih fun e' he' => h e' (List.mem_cons_of_mem _ he')

end Passes

/-- The five passes. -/
inductive Pass where
  | hierarchy
  | reference
  | collection
  | construction
  | usage

/-- Runs a pass over a registry. -/
def Pass.run (settings : Settings) (registry : Registry) (s : RelationSet) : Pass → RelationSet
  | hierarchy => hierarchyPass settings registry s
  | reference => referencePass settings registry s
  | collection => collectionPass settings registry s
  | construction => constructionPass settings registry s
  | usage => usagePass settings registry s

theorem Pass.run_infer (settings : Settings) (registry : Registry) (pass : Pass) :
    pass.run settings registry (infer settings registry) = infer settings registry := by
  cases pass with
  | hierarchy => exact foldl_addHierarchy_of_mem fun e he => mem_hierarchy_infer.2 he
  | reference => exact takeIn_infer .associate
  | collection => exact takeIn_infer .associateMany
  | construction =>
    have hcompose : takeIn RelationSet.compose (creationEvidence settings registry)
        (infer settings registry) = infer settings registry := takeIn_infer .compose
    rw [run, constructionPass, hcompose]
    exact takeIn_infer .share
  | usage => exact takeIn_infer .depend

/-- **Inference is a fixpoint of its passes.** Whatever passes are run again over the same registry,
in any number and order, the hierarchy and the relations stay as they are, each in its place. -/
theorem foldl_passes_infer (settings : Settings) (registry : Registry) (passes : List Pass) :
    passes.foldl (Pass.run settings registry) (infer settings registry) =
      infer settings registry := by
  induction passes with
  | nil => rfl
  | cons pass rest ih => rw [List.foldl_cons, pass.run_infer, ih]

end Inference

end ClassDiagram
