import ClassDiagram.Inference
import ClassDiagram.Proofs.OrderedMap
import ClassDiagram.Proofs.Relation.Rules

/-!
# Relation sets over whole runs

The sets that any sequence of operations can lead to. `RelationSet.WF` is what all of them have in
common: every relation sits under the pair of its own ends and has the shape of
`Relation.WellShaped`, and nothing is kept twice. `RelationSet.apply_cases` says what a lawful rule
can do to such a set; the invariant over runs (`wf_after`) and everything that is kept and reported
by one more transition rest on it.
-/

namespace ClassDiagram

open Evidence

namespace RelationSet

/-- The invariant of relation sets. -/
structure WF (s : RelationSet) : Prop where
  /-- No two relations are kept under one pair. -/
  keys_nodup : s.edges.keys.Nodup
  /-- Every relation sits under the pair of its ends. -/
  keyed : ∀ key r, (key, r) ∈ s.edges.entries → key = NamePair.of r.source r.target
  /-- Every relation is well shaped. -/
  shaped : ∀ r ∈ s.relations, r.WellShaped
  /-- No hierarchy edge is kept twice. -/
  hierarchy_nodup : s.hierarchy.Nodup

/-- Writes the relation of a pair. -/
def write (s : RelationSet) (a b : String) (r : Relation) : RelationSet :=
  { s with edges := s.edges.put (NamePair.of a b) r }

theorem get?_comm (s : RelationSet) (a b : String) : s.get? a b = s.get? b a := by
  unfold get?
  rw [NamePair.of_comm]

theorem get?_write_self (s : RelationSet) (a b : String) (r : Relation) :
    (s.write a b r).get? a b = some r :=
  s.edges.get?_put_self _ r

theorem get?_write_of_ne (s : RelationSet) {a b c d : String} (r : Relation)
    (h : NamePair.of c d ≠ NamePair.of a b) : (s.write a b r).get? c d = s.get? c d :=
  s.edges.get?_put_of_ne h r

namespace WF

theorem empty : RelationSet.empty.WF where
  keys_nodup := List.nodup_nil
  keyed _ _ h := by cases h
  shaped _ h := by cases h
  hierarchy_nodup := List.nodup_nil

variable {s : RelationSet} (h : s.WF) {a b : String} {r : Relation}

include h

/-- What a set answers for two names is its one relation between them. -/
theorem get?_eq_some_iff : s.get? a b = some r ↔ r ∈ s.relations ∧ r.ends = NamePair.of a b := by
  unfold get?
  rw [OrderedMap.get?_eq_some_iff h.keys_nodup]
  constructor
  · intro hmem
    exact ⟨List.mem_map.2 ⟨_, hmem, rfl⟩, (h.keyed _ r hmem).symm⟩
  · rintro ⟨hmem, he⟩
    obtain ⟨⟨key, r'⟩, hentry, rfl⟩ := List.mem_map.1 hmem
    have hkey : key = NamePair.of a b := (h.keyed key r' hentry).trans he
    exact hkey ▸ hentry

/-- The pairs under which relations are kept are those of their ends. -/
theorem keys_eq : s.edges.keys = s.relations.map Relation.ends := by
  unfold OrderedMap.keys relations OrderedMap.values
  rw [List.map_map]
  exact List.map_congr_left fun e he => h.keyed e.1 e.2 he

theorem addHierarchy (e : HierarchyEdge) : (s.addHierarchy e).2.WF :=
  ⟨h.keys_nodup, h.keyed, h.shaped, nodup_appendNew h.hierarchy_nodup e⟩

theorem write (he : r.ends = NamePair.of a b) (hr : r.WellShaped) : (s.write a b r).WF where
  keys_nodup := OrderedMap.nodup_keys_put h.keys_nodup _ r
  keyed key r' hmem := by
    rcases OrderedMap.mem_entries_put hmem with heq | hold
    · cases heq
      exact he.symm
    · exact h.keyed key r' hold
  shaped r' hmem := by
    obtain ⟨e, hentry, rfl⟩ := List.mem_map.1 hmem
    rcases OrderedMap.mem_entries_put hentry with rfl | hold
    · exact hr
    · exact h.shaped e.2 (List.mem_map.2 ⟨e, hold, rfl⟩)
  hierarchy_nodup := h.hierarchy_nodup

end WF

/-! ## One transition -/

/-- What a lawful rule can do to a set: leave it as it is, add a relation for a pair that had none,
or replace the relation of the pair by one that says more. -/
theorem apply_cases {s : RelationSet} (h : s.WF) {a b : String} {rule : Option Relation → Outcome}
    (hrule : Lawful a b rule) :
    (∃ c, IsQuiet c ∧ s.apply a b rule = (c, s)) ∨
    (∃ r, s.get? a b = none ∧ s.apply a b rule = (.inserted, s.write a b r) ∧
      r.ends = NamePair.of a b ∧ r.WellShaped ∧ Settles rule r) ∨
    (∃ r c r', s.get? a b = some r ∧ IsRewrite c ∧ s.apply a b rule = (c, s.write a b r') ∧
      r'.ends = NamePair.of a b ∧ r'.WellShaped ∧ Advances r r' ∧ Settles rule r') := by
  cases hget : s.get? a b with
  | none =>
    rcases hrule.fresh with hkeep | ⟨r, hwrite, he, hr, hsettles⟩
    · exact Or.inl ⟨.unchanged, Or.inl rfl, by simp [apply, hget, hkeep, keep]⟩
    · exact Or.inr (Or.inl ⟨r, rfl, by simp [apply, hget, hwrite, Evidence.write, write], he, hr,
        hsettles⟩)
  | some r =>
    obtain ⟨hmem, he⟩ := h.get?_eq_some_iff.1 hget
    rcases hrule.present r he (h.shaped r hmem) with
      ⟨c, hc, hkeep⟩ | ⟨c, r', hc, hwrite, he', hr', hadv, hsettles⟩
    · exact Or.inl ⟨c, hc, by simp [apply, hget, hkeep, keep]⟩
    · exact Or.inr (Or.inr ⟨r, c, r', rfl, hc,
        by simp [apply, hget, hwrite, Evidence.write, write], he', hr', hadv, hsettles⟩)

/-- A rule that leaves a relation as it is leaves every set as it is that holds this relation. -/
theorem apply_of_settles {s : RelationSet} {a b : String} {rule : Option Relation → Outcome}
    {r : Relation} (hget : s.get? a b = some r) (h : Settles rule r) :
    (s.apply a b rule).2 = s := by
  obtain ⟨c, -, hkeep⟩ := h
  simp [apply, hget, hkeep, keep]

/-! Whatever the rule, only the pair it is applied to can change. -/

theorem apply_snd (s : RelationSet) (a b : String) (rule : Option Relation → Outcome) :
    (s.apply a b rule).2 = s ∨ ∃ r, (s.apply a b rule).2 = s.write a b r := by
  unfold apply
  cases h : (rule (s.get? a b)).relation? with
  | none => exact Or.inl (by simp only [h])
  | some r => exact Or.inr ⟨r, by simp only [h, write]⟩

theorem get?_apply_of_ne (s : RelationSet) {a b c d : String} (rule : Option Relation → Outcome)
    (hne : NamePair.of c d ≠ NamePair.of a b) : (s.apply a b rule).2.get? c d = s.get? c d := by
  rcases s.apply_snd a b rule with heq | ⟨r, heq⟩
  · rw [heq]
  · rw [heq, s.get?_write_of_ne r hne]

theorem hierarchy_apply (s : RelationSet) (a b : String) (rule : Option Relation → Outcome) :
    (s.apply a b rule).2.hierarchy = s.hierarchy := by
  rcases s.apply_snd a b rule with heq | ⟨r, heq⟩
  · rw [heq]
  · rw [heq]
    rfl

theorem keys_write (s : RelationSet) (a b : String) (r : Relation) :
    (s.write a b r).edges.keys =
      if (s.get? a b).isSome then s.edges.keys else s.edges.keys ++ [NamePair.of a b] := by
  unfold write
  rw [OrderedMap.keys_put]
  cases hget : s.get? a b with
  | none => simp [OrderedMap.get?_eq_none_iff.1 hget]
  | some r => simp [OrderedMap.mem_keys_of_get?_eq_some hget]

theorem keys_apply_prefix (s : RelationSet) (a b : String) (rule : Option Relation → Outcome) :
    s.edges.keys <+: (s.apply a b rule).2.edges.keys := by
  rcases s.apply_snd a b rule with heq | ⟨r, heq⟩
  · exact ⟨[], by rw [List.append_nil, heq]⟩
  · rw [heq, keys_write]
    split
    · exact List.prefix_rfl
    · exact List.prefix_append _ _

theorem WF.apply {s : RelationSet} (h : s.WF) {a b : String} {rule : Option Relation → Outcome}
    (hrule : Lawful a b rule) : (s.apply a b rule).2.WF := by
  rcases apply_cases h hrule with
    ⟨c, -, heq⟩ | ⟨r, -, heq, he, hr, -⟩ | ⟨r, c, r', -, -, heq, he, hr, -, -⟩
  · rw [heq]
    exact h
  · rw [heq]
    exact h.write he hr
  · rw [heq]
    exact h.write he hr

end RelationSet

/-- The five ways to take in evidence about a pair. -/
inductive Transition where
  | associate
  | associateMany
  | compose
  | share
  | depend

namespace Transition

/-- Takes in one piece of evidence. -/
def run (op : Transition) (s : RelationSet) (owner target : String) : Change × RelationSet :=
  match op with
  | associate => s.associate owner target
  | associateMany => s.associateMany owner target
  | compose => s.compose owner target
  | share => s.share owner target
  | depend => s.depend owner target

/-- The rule that a transition applies to its pair. -/
def rule (op : Transition) (owner target : String) : Option Relation → Outcome :=
  match op with
  | associate => reference owner target
  | associateMany => collection owner target
  | compose => creation owner target
  | share => sharing owner
  | depend => usage owner target

theorem run_eq_apply (op : Transition) (s : RelationSet) (owner target : String) :
    op.run s owner target = s.apply owner target (op.rule owner target) := by
  cases op <;> rfl

theorem rule_lawful (op : Transition) (owner target : String) :
    Lawful owner target (op.rule owner target) := by
  cases op with
  | associate => exact reference_lawful owner target
  | associateMany => exact collection_lawful owner target
  | compose => exact creation_lawful owner target
  | share => exact sharing_lawful owner target
  | depend => exact usage_lawful owner target

end Transition

theorem RelationSet.WF.run {s : RelationSet} (h : s.WF) (op : Transition) (owner target : String) :
    (op.run s owner target).2.WF := by
  rw [op.run_eq_apply]
  exact h.apply (op.rule_lawful owner target)

/-! ## Whole runs -/

/-- Anything that can be done to a relation set. -/
inductive Operation where
  | transition (op : Transition) (owner target : String)
  | addHierarchy (e : HierarchyEdge)
  | clear
  | hierarchyPass (settings : Settings) (registry : Registry)
  | referencePass (settings : Settings) (registry : Registry)
  | collectionPass (settings : Settings) (registry : Registry)
  | constructionPass (settings : Settings) (registry : Registry)
  | usagePass (settings : Settings) (registry : Registry)

/-- The set after an operation. -/
def Operation.run (s : RelationSet) : Operation → RelationSet
  | transition op owner target => (op.run s owner target).2
  | addHierarchy e => (s.addHierarchy e).2
  | clear => .empty
  | hierarchyPass settings registry => Inference.hierarchyPass settings registry s
  | referencePass settings registry => Inference.referencePass settings registry s
  | collectionPass settings registry => Inference.collectionPass settings registry s
  | constructionPass settings registry => Inference.constructionPass settings registry s
  | usagePass settings registry => Inference.usagePass settings registry s

namespace RelationSet

/-- The set after a sequence of operations on the empty one. -/
def after (ops : List Operation) : RelationSet := ops.foldl Operation.run .empty

theorem WF.takeIn {s : RelationSet} (h : s.WF) (op : Transition) (pieces : List Inference.Piece) :
    (Inference.takeIn op.run pieces s).WF := by
  unfold Inference.takeIn
  induction pieces generalizing s with
  | nil => exact h
  | cons piece rest ih => exact ih (h.run op piece.1 piece.2)

theorem WF.hierarchyPass {s : RelationSet} (h : s.WF) (settings : Settings) (registry : Registry) :
    (Inference.hierarchyPass settings registry s).WF := by
  unfold Inference.hierarchyPass
  induction Inference.hierarchyEvidence settings registry generalizing s with
  | nil => exact h
  | cons e rest ih => exact ih (h.addHierarchy e)

theorem WF.operation {s : RelationSet} (h : s.WF) (op : Operation) : (op.run s).WF := by
  cases op with
  | transition op owner target => exact h.run op owner target
  | addHierarchy e => exact h.addHierarchy e
  | clear => exact WF.empty
  | hierarchyPass settings registry => exact h.hierarchyPass settings registry
  | referencePass settings registry => exact h.takeIn .associate _
  | collectionPass settings registry => exact h.takeIn .associateMany _
  | constructionPass settings registry => exact (h.takeIn .compose _).takeIn .share _
  | usagePass settings registry => exact h.takeIn .depend _

theorem wf_after (ops : List Operation) : (after ops).WF := by
  have hrun : ∀ s : RelationSet, s.WF → (ops.foldl Operation.run s).WF := by
    induction ops with
    | nil => exact fun s h => h
    | cons op rest ih => exact fun s h => ih _ (h.operation op)
  exact hrun .empty WF.empty

/-- **The representation invariant** of relation sets holds after every sequence of operations.
Every relation sits under the pair of its ends, so that no two relations share a pair and reading a
pair, in either order of its names, gives the one relation between them; no hierarchy edge is kept
twice; and every relation has the shape that `Relation.WellShaped` describes. -/
theorem after_representation (ops : List Operation) :
    (∀ key r, (key, r) ∈ (after ops).edges.entries → key = NamePair.of r.source r.target) ∧
    ((after ops).relations.map Relation.ends).Nodup ∧
    (∀ a b, (after ops).get? a b = (after ops).get? b a ∧
      ∀ r, (after ops).get? a b = some r ↔
        r ∈ (after ops).relations ∧ r.ends = NamePair.of a b) ∧
    (after ops).hierarchy.Nodup ∧
    ∀ r ∈ (after ops).relations,
      (∀ label, r.sourceLabel? = some label ∨ r.targetLabel? = some label → label = "0..*") ∧
      (r.kind = .dependency → r.sourceLabel? = none ∧ r.targetLabel? = none) ∧
      (r.isTwoWay = false → r.sourceLabel? = none) ∧
      (∀ twoWay, r.kind = .association twoWay →
        r.sourceLabel?.isSome = true ∨ r.targetLabel?.isSome = true →
        r.targetLabel?.isSome = true) ∧
      (r.source = r.target → r.isTwoWay = false) := by
  have h := wf_after ops
  refine ⟨h.keyed, h.keys_eq ▸ h.keys_nodup, ?_, h.hierarchy_nodup, ?_⟩
  · intro a b
    exact ⟨get?_comm _ a b, fun r => h.get?_eq_some_iff⟩
  · intro r hr
    have hshape := h.shaped r hr
    refine ⟨?_, ?_, hshape.oneWay_source, ?_, hshape.loop_oneWay⟩
    · intro label hlabel
      exact hlabel.elim (hshape.source_label label) (hshape.target_label label)
    · intro hk
      exact Relation.hasLabel_eq_false.1 (hshape.dependency_plain hk)
    · intro twoWay hk hlabel
      exact hshape.association_target twoWay hk (by simpa [Relation.hasLabel] using hlabel)

/-! ## What a transition keeps and reports -/

section Transitions

variable {s : RelationSet} (h : s.WF) {a b : String} {rule : Option Relation → Outcome}
  (hrule : Lawful a b rule)

include h hrule

theorem apply_advances {r : Relation} (hget : s.get? a b = some r) :
    ∃ r', (s.apply a b rule).2.get? a b = some r' ∧ r.strength.rank ≤ r'.strength.rank ∧
      (r.kind ≠ .dependency → (∀ x y, r.Navigates x y → r'.Navigates x y) ∧
        ∀ x, r.Labelled x → r'.Labelled x) := by
  rcases apply_cases h hrule with
    ⟨c, -, heq⟩ | ⟨r₀, hnone, -⟩ | ⟨r₀, c, r', hsome, -, heq, -, -, hadv, -⟩
  · rw [heq]
    exact ⟨r, hget, Nat.le_refl _, fun _ => ⟨fun _ _ hxy => hxy, fun _ hx => hx⟩⟩
  · rw [hnone] at hget
    cases hget
  · rw [hget] at hsome
    cases hsome
    rw [heq]
    exact ⟨r', get?_write_self s a b r', hadv.strength,
      fun hk => ⟨hadv.navigates hk, hadv.labelled hk⟩⟩

theorem apply_inserted_iff :
    (s.apply a b rule).1 = .inserted ↔
      s.get? a b = none ∧ (s.apply a b rule).2.get? a b ≠ none := by
  rcases apply_cases h hrule with
    ⟨c, hc, heq⟩ | ⟨r, hnone, heq, -⟩ | ⟨r, c, r', hsome, hc, heq, -⟩
  · rw [heq]
    rcases hc with rfl | rfl <;> simp
  · rw [heq, get?_write_self]
    simp [hnone]
  · rw [heq]
    rcases hc with rfl | rfl | rfl <;> simp [hsome]

theorem apply_quiet_iff :
    ((s.apply a b rule).1 = .unchanged ∨ (s.apply a b rule).1 = .suppressed) ↔
      (s.apply a b rule).2 = s := by
  -- A write shows in what the set answers for the pair, so it never gives the same set back.
  have hwrite : ∀ r, s.get? a b ≠ some r → s.write a b r ≠ s := by
    intro r hne heq
    exact hne (heq ▸ get?_write_self s a b r)
  rcases apply_cases h hrule with
    ⟨c, hc, heq⟩ | ⟨r, hnone, heq, -⟩ | ⟨r, c, r', hsome, hc, heq, -, -, hadv, -⟩
  · rw [heq]
    exact ⟨fun _ => rfl, fun _ => hc⟩
  · have hne := hwrite r (by simp [hnone])
    simp [heq, hne]
  · have hne := hwrite r' (by simpa [hsome] using hadv.ne.symm)
    rw [heq]
    rcases hc with rfl | rfl | rfl <;> simp [hne]

theorem apply_rewrites
    (hc : (s.apply a b rule).1 = .upgraded ∨ (s.apply a b rule).1 = .collapsed ∨
      (s.apply a b rule).1 = .downgraded) :
    ∃ r r', s.get? a b = some r ∧ (s.apply a b rule).2.get? a b = some r' ∧ r' ≠ r ∧
      (s.apply a b rule).2.edges.keys = s.edges.keys := by
  rcases apply_cases h hrule with
    ⟨c, hquiet, heq⟩ | ⟨r, hnone, heq, -⟩ | ⟨r, c, r', hsome, -, heq, -, -, hadv, -⟩
  · rw [heq] at hc
    rcases hquiet with rfl | rfl <;> simp at hc
  · rw [heq] at hc
    simp at hc
  · refine ⟨r, r', hsome, ?_, hadv.ne, ?_⟩
    · rw [heq, get?_write_self]
    · rw [heq, keys_write, hsome]
      rfl

theorem apply_again : ((s.apply a b rule).2.apply a b rule).2 = (s.apply a b rule).2 := by
  rcases apply_cases h hrule with
    ⟨c, -, heq⟩ | ⟨r, -, heq, -, -, hsettles⟩ | ⟨r, c, r', -, -, heq, -, -, -, hsettles⟩
  · rw [heq, heq]
  · rw [heq]
    exact apply_of_settles (get?_write_self s a b r) hsettles
  · rw [heq]
    exact apply_of_settles (get?_write_self s a b r') hsettles

end Transitions

/-- **Every transition is local, monotone and truthfully reported**, on every set that a sequence of
operations leads to: it touches its own pair only, keeps the places of the pairs, never weakens or
removes a relation, says what it did, and has nothing to add when it is repeated. -/
theorem transition_local_monotone_reported (ops : List Operation) (op : Transition)
    (owner target : String) :
    let s := after ops
    let change := (op.run s owner target).1
    let s' := (op.run s owner target).2
    (∀ a b, NamePair.of a b ≠ NamePair.of owner target → s'.get? a b = s.get? a b) ∧
    s'.hierarchy = s.hierarchy ∧
    s.edges.keys <+: s'.edges.keys ∧
    (∀ r, s.get? owner target = some r →
      ∃ r', s'.get? owner target = some r' ∧ r.strength.rank ≤ r'.strength.rank ∧
        (r.kind ≠ .dependency → (∀ x y, r.Navigates x y → r'.Navigates x y) ∧
          ∀ x, r.Labelled x → r'.Labelled x)) ∧
    (change = .inserted ↔ s.get? owner target = none ∧ s'.get? owner target ≠ none) ∧
    ((change = .unchanged ∨ change = .suppressed) ↔ s' = s) ∧
    (change = .upgraded ∨ change = .collapsed ∨ change = .downgraded →
      ∃ r r', s.get? owner target = some r ∧ s'.get? owner target = some r' ∧ r' ≠ r ∧
        s'.edges.keys = s.edges.keys) ∧
    (op.run s' owner target).2 = s' := by
  intro s change s'
  have h : s.WF := wf_after ops
  have hrule := op.rule_lawful owner target
  have hrun : op.run s owner target = s.apply owner target (op.rule owner target) :=
    op.run_eq_apply s owner target
  have hagain : op.run s' owner target = s'.apply owner target (op.rule owner target) :=
    op.run_eq_apply s' owner target
  rw [hagain]
  simp only [change, s', hrun]
  exact ⟨fun a b hne => get?_apply_of_ne s _ hne, hierarchy_apply s owner target _,
    keys_apply_prefix s owner target _, fun r hget => apply_advances h hrule hget,
    apply_inserted_iff h hrule, apply_quiet_iff h hrule, apply_rewrites h hrule,
    apply_again h hrule⟩

end RelationSet

end ClassDiagram
