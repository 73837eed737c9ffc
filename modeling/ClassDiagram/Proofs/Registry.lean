import ClassDiagram.Extraction
import ClassDiagram.Proofs.OrderedMap

/-!
# Registries

What holds of every registry: names and owners are distinct, a classifier is kept under its own
name, and no owner's evidence is listed twice. Declaring and recording keep it, so it holds of what
is read from any sources.
-/

namespace ClassDiagram

namespace Registry

theorem declares_iff {r : Registry} {name : String} :
    r.declares name = true ↔ name ∈ r.classifiers.keys := by
  unfold declares OrderedMap.contains
  rw [Option.isSome_iff_ne_none, ne_eq, OrderedMap.get?_eq_none_iff, Classical.not_not]

/-- The invariant of registries. -/
structure WF (r : Registry) : Prop where
  names_nodup : r.classifiers.keys.Nodup
  named : ∀ name c, (name, c) ∈ r.classifiers.entries → c.name = name
  owners_nodup : r.construction.keys.Nodup
  evidence_nodup : ∀ owner types, (owner, types) ∈ r.construction.entries → types.Nodup

namespace WF

theorem empty : Registry.empty.WF where
  names_nodup := List.nodup_nil
  named _ _ h := by cases h
  owners_nodup := List.nodup_nil
  evidence_nodup _ _ h := by cases h

variable {r : Registry} (h : r.WF)

include h

theorem classifier?_eq_some_iff {name : String} {c : Classifier} :
    r.classifier? name = some c ↔ c ∈ r.classifiers.values ∧ c.name = name := by
  unfold classifier?
  rw [OrderedMap.get?_eq_some_iff h.names_nodup]
  constructor
  · intro hmem
    exact ⟨List.mem_map.2 ⟨_, hmem, rfl⟩, h.named name c hmem⟩
  · rintro ⟨hmem, hname⟩
    obtain ⟨⟨key, c'⟩, hentry, rfl⟩ := List.mem_map.1 hmem
    have hkey : key = name := (h.named key c' hentry).symm.trans hname
    exact hkey ▸ hentry

theorem declares_of_mem {c : Classifier} (hc : c ∈ r.classifiers.values) :
    r.declares c.name = true :=
  declares_iff.2 <|
    OrderedMap.mem_keys_of_get?_eq_some (h.classifier?_eq_some_iff.2 ⟨hc, rfl⟩)

theorem mem_evidence_iff {owner constructed : String} :
    ⟨owner, constructed⟩ ∈ r.evidence ↔
      ∃ types, r.constructedBy? owner = some types ∧ constructed ∈ types := by
  unfold evidence constructedBy?
  constructor
  · intro hmem
    obtain ⟨⟨o, types⟩, hentry, hmem⟩ := List.mem_flatMap.1 hmem
    obtain ⟨t, ht, heq⟩ := List.mem_map.1 hmem
    cases heq
    exact ⟨types, (OrderedMap.get?_eq_some_iff h.owners_nodup).2 hentry, ht⟩
  · rintro ⟨types, hget, ht⟩
    refine List.mem_flatMap.2 ⟨(owner, types), OrderedMap.mem_of_get?_eq_some hget, ?_⟩
    exact List.mem_map.2 ⟨constructed, ht, rfl⟩

theorem declare (c : Classifier) : (r.declare c).2.WF := by
  unfold Registry.declare
  split
  · exact h
  · refine ⟨OrderedMap.nodup_keys_put h.names_nodup _ c, ?_, h.owners_nodup, h.evidence_nodup⟩
    intro name c' hmem
    rcases OrderedMap.mem_entries_put hmem with heq | hold
    · cases heq
      rfl
    · exact h.named name c' hold

theorem record (owner constructed : String) : (r.record owner constructed).2.WF := by
  refine ⟨h.names_nodup, h.named, OrderedMap.nodup_keys_put h.owners_nodup _ _, ?_⟩
  intro o types hmem
  rcases OrderedMap.mem_entries_put hmem with heq | hold
  · cases heq
    apply nodup_appendNew
    cases hget : r.constructedBy? owner with
    | none => exact List.nodup_nil
    | some types => exact h.evidence_nodup owner types (OrderedMap.mem_of_get?_eq_some hget)
  · exact h.evidence_nodup o types hold

theorem enroll (e : Extract) : (r.enroll e).WF := by
  have hrecord : ∀ (types : List String) (r : Registry), r.WF →
      (types.foldl (fun r type => (r.record e.classifier.name type).2) r).WF := by
    intro types
    induction types with
    | nil => exact fun r h => h
    | cons type rest ih => exact fun r h => ih _ (h.record e.classifier.name type)
  unfold Registry.enroll
  split
  · exact h
  · exact hrecord e.constructed _ (h.declare e.classifier)

theorem read (settings : Settings) (source : String) : (r.read settings source).WF := by
  unfold Registry.read
  split
  · exact h.enroll _
  · exact h

end WF

/-- Every registry that is read from sources keeps the invariant. -/
theorem wf_ofSources (settings : Settings) (sources : List String) :
    (ofSources settings sources).WF := by
  have hread : ∀ r : Registry, r.WF → (sources.foldl (Registry.read settings) r).WF := by
    induction sources with
    | nil => exact fun r h => h
    | cons source rest ih => exact fun r h => ih _ (h.read settings source)
  exact hread .empty WF.empty

/-! ## Evidence for one owner -/

theorem foldl_appendNew (known types : List String) :
    types.foldl appendNew known = known ++ (types.filter fun t => !known.contains t).eraseDups := by
  induction types generalizing known with
  | nil => simp
  | cons t ts ih =>
    rw [List.foldl_cons, ih, appendNew]
    by_cases ht : t ∈ known
    · simp [ht]
    · have hfilter : ts.filter (fun s => !(known ++ [t]).contains s) =
          (ts.filter fun s => !known.contains s).filter fun s => !s == t := by
        rw [List.filter_filter]
        congr 1
        funext s
        by_cases hs : s ∈ known <;> by_cases hst : s = t <;> simp [hs, hst]
      have hnew : known.contains t = false := by simpa using ht
      rw [hnew, if_neg Bool.false_ne_true, hfilter, List.filter_cons_of_pos (by simp [ht]),
        List.eraseDups_cons]
      simp

section Owner

variable (owner : String) (classifiers : OrderedMap String Classifier) (types : List String)

variable {front : List (String × List String)} (hnew : owner ∉ front.map Prod.fst)

include hnew

theorem foldl_record_owner (known : List String) :
    types.foldl (fun (r : Registry) type => (r.record owner type).2)
        ⟨classifiers, ⟨front ++ [(owner, known)]⟩⟩ =
      ⟨classifiers, ⟨front ++ [(owner, types.foldl appendNew known)]⟩⟩ := by
  induction types generalizing known with
  | nil => rfl
  | cons t ts ih =>
    have hrecord : (Registry.record ⟨classifiers, ⟨front ++ [(owner, known)]⟩⟩ owner t).2 =
        ⟨classifiers, ⟨front ++ [(owner, appendNew known t)]⟩⟩ := by
      simp [record, constructedBy?, OrderedMap.get?, OrderedMap.put, OrderedMap.putEntry,
        OrderedMap.lookup_append_of_not_mem hnew, OrderedMap.putEntry_append_of_not_mem hnew]
    rw [List.foldl_cons, List.foldl_cons, hrecord, ih]

/-- Evidence for a new owner comes last. It is kept once, in the order in which it first came. -/
theorem foldl_record_new :
    types.foldl (fun (r : Registry) type => (r.record owner type).2) ⟨classifiers, ⟨front⟩⟩ =
      ⟨classifiers,
        ⟨front ++ if types.eraseDups = [] then [] else [(owner, types.eraseDups)]⟩⟩ := by
  cases types with
  | nil => simp
  | cons t ts =>
    have hfirst : (Registry.record ⟨classifiers, ⟨front⟩⟩ owner t).2 =
        ⟨classifiers, ⟨front ++ [(owner, [t])]⟩⟩ := by
      have hnone : constructedBy? ⟨classifiers, ⟨front⟩⟩ owner = none :=
        OrderedMap.get?_eq_none_iff.2 hnew
      simp [record, hnone, OrderedMap.put_of_not_mem hnew, appendNew]
    have hdups : (t :: ts).eraseDups = ts.foldl appendNew [t] := by
      rw [foldl_appendNew, List.eraseDups_cons]
      simp only [List.contains_cons, List.contains_nil, Bool.or_false, List.singleton_append]
    rw [List.foldl_cons, hfirst, foldl_record_owner owner classifiers ts hnew, ← hdups,
      if_neg (by simp [List.eraseDups_cons])]

omit hnew in
/-- Evidence for the only owner. -/
theorem foldl_record :
    types.foldl (fun (r : Registry) type => (r.record owner type).2) ⟨classifiers, .empty⟩ =
      ⟨classifiers, ⟨if types.eraseDups = [] then [] else [(owner, types.eraseDups)]⟩⟩ :=
  foldl_record_new owner classifiers types List.not_mem_nil

end Owner

end Registry

end ClassDiagram
