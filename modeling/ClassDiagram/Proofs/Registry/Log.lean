import Mathlib.Data.List.DropRight
import Mathlib.Data.List.Induction
import ClassDiagram.Proofs.Registry

/-!
# The registry as a log

A registry answers every question as the list of what was declared and recorded since it was last
cleared does. `Registry.Logs` ties the two together by four questions (the names, the classifier of
a name, the owners, the types of an owner). One declaration or recording more makes one line more in
the list (`Logs.declare`, `Logs.record`), so the tie holds after every run (`logs_after`); the other
questions are answered from these four.
-/

namespace ClassDiagram

theorem eraseDups_concat (xs : List String) (x : String) :
    (xs ++ [x]).eraseDups = appendNew xs.eraseDups x := by
  have hfold : ∀ ys : List String, ys.eraseDups = ys.foldl appendNew [] := by
    intro ys
    rw [Registry.foldl_appendNew, List.nil_append, List.filter_eq_self.2 (by simp)]
  rw [hfold, hfold, List.foldl_append, List.foldl_cons, List.foldl_nil]

theorem nodup_eraseDups (xs : List String) : xs.eraseDups.Nodup := by
  induction xs using List.reverseRecOn with
  | nil => exact List.nodup_nil
  | append_singleton xs x ih =>
    rw [eraseDups_concat]
    exact nodup_appendNew ih x

namespace Registry

/-! ## Runs and what they log -/

/-- Anything that can be done to a registry. -/
inductive Operation where
  | declare (c : Classifier)
  | addClassifier (c : Classifier)
  | record (owner constructed : String)
  | addEvidence (piece : Construction)
  | clear

namespace Operation

/-- The registry after an operation. -/
def run (r : Registry) : Operation → Registry
  | declare c | addClassifier c => (r.declare c).2
  | record owner constructed => (r.record owner constructed).2
  | addEvidence piece => (r.record piece.owner piece.constructed).2
  | clear => .empty

def isClear : Operation → Bool
  | clear => true
  | _ => false

def declared? : Operation → Option Classifier
  | declare c | addClassifier c => some c
  | _ => none

def recorded? : Operation → Option Construction
  | record owner constructed => some ⟨owner, constructed⟩
  | addEvidence piece => some piece
  | _ => none

theorem eq_clear {op : Operation} (h : op.isClear = true) : op = clear := by
  cases op with
  | clear => rfl
  | declare | addClassifier | record | addEvidence => cases h

end Operation

/-- The registry after a sequence of operations on the empty one. -/
def after (ops : List Operation) : Registry := ops.foldl Operation.run .empty

/-- The operations behind the last clearing. -/
def sinceClear (ops : List Operation) : List Operation := ops.rtakeWhile fun op => !op.isClear

/-- Everything declared since the last clearing, as often as it was declared. -/
def declarations (ops : List Operation) : List Classifier :=
  (sinceClear ops).filterMap Operation.declared?

/-- Everything recorded since the last clearing, as often as it was recorded. -/
def recordings (ops : List Operation) : List Construction :=
  (sinceClear ops).filterMap Operation.recorded?

/-- The types recorded for an owner, as often as they were recorded. -/
def typesFor (owner : String) (recorded : List Construction) : List String :=
  (recorded.filter fun piece => piece.owner == owner).map Construction.constructed

theorem typesFor_concat (owner : String) (recorded : List Construction) (piece : Construction) :
    typesFor owner (recorded ++ [piece]) =
      if piece.owner = owner then typesFor owner recorded ++ [piece.constructed]
      else typesFor owner recorded := by
  unfold typesFor
  split
  next h => simp [h]
  next h => simp [h]

theorem mem_typesFor_iff {owner type : String} {recorded : List Construction} :
    type ∈ typesFor owner recorded ↔ ⟨owner, type⟩ ∈ recorded := by
  unfold typesFor
  constructor
  · intro h
    obtain ⟨⟨o, t⟩, hmem, rfl⟩ := List.mem_map.1 h
    obtain ⟨hmem, howner⟩ := List.mem_filter.1 hmem
    exact beq_iff_eq.1 howner ▸ hmem
  · intro h
    exact List.mem_map.2 ⟨_, List.mem_filter.2 ⟨h, beq_self_eq_true owner⟩, rfl⟩

/-! ## One operation -/

theorem names_declare (r : Registry) (c : Classifier) :
    (r.declare c).2.names = appendNew r.names c.name := by
  unfold declare
  split
  next h =>
    have hmem : c.name ∈ r.names := declares_iff.1 h
    rw [appendNew, if_pos (List.contains_iff_mem.2 hmem)]
  next => exact r.classifiers.keys_put_eq_appendNew c.name c

theorem classifier?_declare (r : Registry) (c : Classifier) (name : String) :
    (r.declare c).2.classifier? name =
      (r.classifier? name).or (if c.name = name then some c else none) := by
  unfold declare
  split
  next h =>
    by_cases hname : c.name = name
    · subst hname
      obtain ⟨c', hc'⟩ := Option.isSome_iff_exists.1 h
      have hget : r.classifier? c.name = some c' := hc'
      rw [hget, Option.some_or]
    · rw [if_neg hname, Option.or_none]
  next h =>
    by_cases hname : c.name = name
    · subst hname
      have hget : r.classifier? c.name = none := Option.not_isSome_iff_eq_none.1 h
      rw [hget, if_pos rfl, Option.none_or]
      exact OrderedMap.get?_put_self _ _ _
    · rw [if_neg hname, Option.or_none]
      exact OrderedMap.get?_put_of_ne _ (Ne.symm hname) _

theorem constructedBy?_record (r : Registry) (owner constructed name : String) :
    (r.record owner constructed).2.constructedBy? name =
      if owner = name then some (appendNew ((r.constructedBy? name).getD []) constructed)
      else r.constructedBy? name := by
  by_cases hname : owner = name
  · subst hname
    rw [if_pos rfl]
    exact OrderedMap.get?_put_self _ _ _
  · rw [if_neg hname]
    exact OrderedMap.get?_put_of_ne _ (Ne.symm hname) _

/-- Declaring says truly whether it changed anything. -/
theorem declare_fst_iff (r : Registry) (c : Classifier) :
    (r.declare c).1 = true ↔ (r.declare c).2 ≠ r := by
  unfold declare
  split
  next => simp
  next h =>
    refine ⟨fun _ heq => h ?_, fun _ => rfl⟩
    rw [← heq]
    exact Option.isSome_iff_exists.2 ⟨c, OrderedMap.get?_put_self _ _ _⟩

/-- Recording says truly whether it changed anything. -/
theorem record_fst_iff (r : Registry) (owner constructed : String) :
    (r.record owner constructed).1 = true ↔ (r.record owner constructed).2 ≠ r := by
  have hanswer : (r.record owner constructed).1 =
      !((r.constructedBy? owner).getD []).contains constructed := rfl
  rw [hanswer, Bool.not_eq_true', ← Bool.not_eq_true, List.contains_iff_mem]
  constructor
  · intro hnew heq
    -- The recorded type is among the owner's types afterwards.
    have hget := constructedBy?_record r owner constructed owner
    rw [heq, if_pos rfl] at hget
    apply hnew
    rw [hget, Option.getD_some, mem_appendNew]
    exact Or.inr rfl
  · intro hchanged hknown
    apply hchanged
    cases hget : r.constructedBy? owner with
    | none =>
      rw [hget] at hknown
      cases hknown
    | some types =>
      rw [hget, Option.getD_some] at hknown
      have hsame : appendNew types constructed = types :=
        if_pos (List.contains_iff_mem.2 hknown)
      have hput : r.construction.put owner types = r.construction := OrderedMap.put_get? hget
      simp only [record, hget, Option.getD_some, hsame, hput]

/-! ## The tie between a registry and its log -/

/-- The registry answers the four basic questions as the lists of what was declared and recorded
do. -/
structure Logs (declared : List Classifier) (recorded : List Construction) (r : Registry) :
    Prop where
  names : r.names = (declared.map Classifier.name).eraseDups
  classifier? : ∀ name, r.classifier? name = declared.find? fun c => c.name == name
  owners : r.construction.keys = (recorded.map Construction.owner).eraseDups
  constructedBy? : ∀ owner, r.constructedBy? owner =
    if typesFor owner recorded = [] then none else some (typesFor owner recorded).eraseDups

namespace Logs

variable {declared : List Classifier} {recorded : List Construction} {r : Registry}

theorem empty : Registry.empty.Logs [] [] := ⟨rfl, fun _ => rfl, rfl, fun _ => rfl⟩

variable (h : r.Logs declared recorded)

include h

theorem declare (c : Classifier) : (r.declare c).2.Logs (declared ++ [c]) recorded := by
  have hconstruction : (r.declare c).2.construction = r.construction := by
    unfold Registry.declare
    split <;> rfl
  refine ⟨?_, ?_, hconstruction ▸ h.owners, ?_⟩
  · rw [names_declare, h.names, List.map_append, List.map_singleton, eraseDups_concat]
  · intro name
    rw [classifier?_declare, h.classifier?, List.find?_append, List.find?_singleton]
    simp only [beq_iff_eq]
  · intro owner
    rw [Registry.constructedBy?, hconstruction]
    exact h.constructedBy? owner

theorem typesFor_eq (owner : String) :
    (r.constructedBy? owner).getD [] = (typesFor owner recorded).eraseDups := by
  rw [h.constructedBy?]
  split
  next hnone =>
    rw [hnone]
    rfl
  next => rfl

theorem record (piece : Construction) :
    (r.record piece.owner piece.constructed).2.Logs declared (recorded ++ [piece]) := by
  refine ⟨h.names, h.classifier?, ?_, ?_⟩
  · rw [List.map_append, List.map_singleton, eraseDups_concat, ← h.owners]
    exact r.construction.keys_put_eq_appendNew _ _
  · intro owner
    rw [constructedBy?_record, typesFor_concat]
    split
    next => rw [h.typesFor_eq, ← eraseDups_concat, if_neg (by simp)]
    next => exact h.constructedBy? owner

/-- One operation makes at most one line more in the log. -/
theorem operation {op : Operation} (hop : op.isClear = false) :
    (op.run r).Logs (declared ++ op.declared?.toList) (recorded ++ op.recorded?.toList) := by
  cases op with
  | declare c | addClassifier c =>
    simpa [Operation.run, Operation.declared?, Operation.recorded?] using h.declare c
  | record owner constructed =>
    simpa [Operation.run, Operation.declared?, Operation.recorded?]
      using h.record ⟨owner, constructed⟩
  | addEvidence piece =>
    simpa [Operation.run, Operation.declared?, Operation.recorded?] using h.record piece
  | clear => cases hop

/-! ## The other questions -/

theorem nodup_owners : r.construction.keys.Nodup := h.owners ▸ nodup_eraseDups _

theorem evidence_eq :
    r.evidence = (recorded.map Construction.owner).eraseDups.flatMap fun owner =>
      (typesFor owner recorded).eraseDups.map (Construction.mk owner) := by
  rw [evidence, OrderedMap.entries_eq_map h.nodup_owners [], List.flatMap_map, h.owners]
  congr 1
  funext owner
  exact congrArg (List.map (Construction.mk owner)) (h.typesFor_eq owner)

theorem ownersOf_eq (type : String) :
    r.ownersOf type = (recorded.map Construction.owner).eraseDups.filter fun owner =>
      recorded.contains ⟨owner, type⟩ := by
  rw [ownersOf, OrderedMap.entries_eq_map h.nodup_owners [], List.filter_map, List.map_map,
    h.owners]
  have hsame : ((fun entry : String × List String => entry.2.contains type) ∘
      fun owner => (owner, (r.construction.get? owner).getD [])) =
      fun owner => recorded.contains ⟨owner, type⟩ := by
    funext owner
    have htypes : (r.construction.get? owner).getD [] = (typesFor owner recorded).eraseDups :=
      h.typesFor_eq owner
    rw [Function.comp_apply, htypes, Bool.eq_iff_iff, List.contains_iff_mem, List.contains_iff_mem,
      List.mem_eraseDups, mem_typesFor_iff]
  rw [hsame]
  exact List.map_id _

end Logs

theorem foldl_count (evidence : List (List String)) (count : Nat) :
    evidence.foldl (fun count types => count + types.length) count =
      count + evidence.flatten.length := by
  induction evidence generalizing count with
  | nil => rfl
  | cons types rest ih =>
    rw [List.foldl_cons, ih, List.flatten_cons, List.length_append, Nat.add_assoc]

theorem evidenceCount_eq (r : Registry) : r.evidenceCount = r.evidence.length := by
  rw [evidenceCount, foldl_count, Nat.zero_add]
  simp [evidence, OrderedMap.values, List.length_flatMap, List.length_flatten, Function.comp_def]

/-! ## Whole runs -/

theorem after_concat (ops : List Operation) (op : Operation) :
    after (ops ++ [op]) = op.run (after ops) := by
  simp [after]

theorem sinceClear_concat (ops : List Operation) (op : Operation) :
    sinceClear (ops ++ [op]) = if op.isClear then [] else sinceClear ops ++ [op] := by
  unfold sinceClear
  rw [List.rtakeWhile_concat]
  cases op.isClear <;> rfl

theorem logs_after (ops : List Operation) :
    (after ops).Logs (declarations ops) (recordings ops) := by
  induction ops using List.reverseRecOn with
  | nil => exact Logs.empty
  | append_singleton ops op ih =>
    unfold declarations recordings at ih ⊢
    rw [after_concat, sinceClear_concat]
    cases hop : op.isClear with
    | true =>
      rw [Operation.eq_clear hop, if_pos rfl]
      exact Logs.empty
    | false =>
      rw [if_neg Bool.false_ne_true, List.filterMap_append, List.filterMap_append]
      exact ih.operation hop

/-- **A registry is a faithful log.** After every sequence of operations, what counts is what came
behind the last clearing. Names and owners are listed in the order in which they first came, the
first classifier of a name stays, and an owner's types are listed once, in the order in which they
were first recorded; evidence goes owner by owner. Declaring and recording say whether they changed
anything. -/
theorem after_faithful (ops : List Operation) :
    let r := after ops
    let declared := declarations ops
    let recorded := recordings ops
    let owners := (recorded.map Construction.owner).eraseDups
    r.names = (declared.map Classifier.name).eraseDups ∧
    (∀ name, r.classifier? name = declared.find? fun c => c.name == name) ∧
    (∀ owner, r.constructedBy? owner =
      if typesFor owner recorded = [] then none else some (typesFor owner recorded).eraseDups) ∧
    (r.evidence = owners.flatMap fun owner =>
      (typesFor owner recorded).eraseDups.map (Construction.mk owner)) ∧
    (∀ type, r.ownersOf type = owners.filter fun owner => recorded.contains ⟨owner, type⟩) ∧
    r.classifierCount = r.names.length ∧
    r.evidenceCount = r.evidence.length ∧
    (∀ c, (r.declare c).1 = true ↔ (r.declare c).2 ≠ r) ∧
    ∀ owner type, (r.record owner type).1 = true ↔ (r.record owner type).2 ≠ r := by
  intro r declared recorded owners
  have h : r.Logs declared recorded := logs_after ops
  refine ⟨h.names, h.classifier?, h.constructedBy?, h.evidence_eq, h.ownersOf_eq, ?_,
    evidenceCount_eq r, declare_fst_iff r, record_fst_iff r⟩
  exact (List.length_map Prod.fst).symm

end Registry

end ClassDiagram
