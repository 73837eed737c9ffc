import ClassDiagram.Relation.Basic

/-!
# What evidence does to a pair

Two classifiers hold at most one relation. Each kind of evidence about a pair is a rule that looks
at the relation which the pair holds: it inserts one, replaces it by a stronger one, merges two
opposite references into one relation of both directions, or gives way to a stronger relation.
-/

namespace ClassDiagram

/-- What a rule did. -/
inductive Change where
  /-- The pair held no relation and now holds one. -/
  | inserted
  /-- The relation was replaced by a stronger one. -/
  | upgraded
  /-- Opposite directions were merged. -/
  | collapsed
  /-- A composition became an aggregation. -/
  | downgraded
  /-- The relation says this already. -/
  | unchanged
  /-- A stronger relation holds the pair. -/
  | suppressed
  deriving Repr, DecidableEq

/-- The name of the change. -/
def Change.label : Change → String
  | inserted => "inserted"
  | upgraded => "upgraded"
  | collapsed => "collapsed"
  | downgraded => "downgraded"
  | unchanged => "unchanged"
  | suppressed => "suppressed"

/-- The outcome of a rule: what it did, and the relation to write, if any. -/
structure Outcome where
  /-- What the rule did. -/
  change : Change
  /-- The relation that the pair holds from now on; none leaves the pair as it is. -/
  relation? : Option Relation
  deriving Repr, DecidableEq

namespace Evidence

/-- The multiplicity of a collection. -/
def many : String := "0..*"

/-- Leaves the pair as it is. -/
def keep (change : Change) : Outcome := ⟨change, none⟩

/-- Writes a relation. -/
def write (change : Change) (r : Relation) : Outcome := ⟨change, some r⟩

/-- The class `owner` holds a reference to `target`. -/
def reference (owner target : String) : Option Relation → Outcome
  | none => write .inserted (.plain owner target (.association false))
  | some r =>
    match r.strength with
    | .dependency => write .upgraded (.plain owner target (.association false))
    | .association =>
      if r.isTwoWay || r.pointsFrom owner then keep .unchanged
      else write .collapsed (.plain owner target (.association true))
    | .multiplicity | .ownership => keep .suppressed

/-- The class `owner` holds a collection of `element`. -/
def collection (owner element : String) : Option Relation → Outcome
  | none => write .inserted ⟨owner, element, .association false, none, some many⟩
  | some r =>
    match r.strength with
    | .dependency => write .upgraded ⟨owner, element, .association false, none, some many⟩
    | .association =>
      if r.pointsFrom owner then
        write .upgraded ⟨owner, element, .association false, none, some many⟩
      else write .collapsed ⟨owner, element, .association true, none, some many⟩
    | .multiplicity =>
      if r.pointsFrom owner then keep .unchanged
      else if r.isTwoWay then
        let marked := r.mark element many
        if marked = r then keep .unchanged else write .upgraded marked
      else write .collapsed ({ r with kind := .association true }.mark element many)
    | .ownership => keep .suppressed

/-- The class `owner` constructs `target` in a constructor or entry point. A reference in the other
direction means that the target navigates back. -/
def creation (owner target : String) : Option Relation → Outcome
  | none => write .inserted (.plain owner target (.composition false))
  | some r =>
    match r.strength with
    | .ownership => keep (if r.source = owner then .unchanged else .suppressed)
    | .dependency => write .upgraded (.plain owner target (.composition false))
    | .association | .multiplicity =>
      let twoWay := r.isTwoWay || !r.pointsFrom owner
      write .upgraded { r.orientFrom owner with kind := .composition twoWay }

/-- Others construct what `owner` constructs, so its composition becomes an aggregation. -/
def sharing (owner : String) : Option Relation → Outcome
  | none => keep .unchanged
  | some r =>
    match r.kind with
    | .composition twoWay =>
      if r.source = owner then write .downgraded { r with kind := .aggregation twoWay }
      else keep .unchanged
    | _ => keep .unchanged

/-- The class `owner` uses `target` in passing. -/
def usage (owner target : String) : Option Relation → Outcome
  | none => write .inserted (.plain owner target .dependency)
  | some _ => keep .suppressed

end Evidence

end ClassDiagram
