import ClassDiagram.Proofs.Source.Progress
import ClassDiagram.Proofs.Source.Readings

/-!
# Members in order

The search for the next signature begins at the brace or semicolon that ends the last one, because
that mark may open the next member. Nothing is found twice for it: a member begins with a character
of a name, so its first modifier, type or name stands behind the mark (`Member.head?_start_ne_mark`).
Along a run of the search each signature therefore begins behind the end of the one before it, and
with it behind the brace of its body (`Signature.pairwise_of_run`).
-/

namespace ClassDiagram.Source

open Text Cursor

/-! ## Members and marks -/

namespace Member

variable {α : Type} {modifiers : List String} {rest? : Cursor → Option α}

theorem stop_mem_of_at? {k : Cursor} {reading : Reading α}
    (h : at? modifiers rest? k = some reading) :
    reading.stop ∈ reading.start.iterates (modifier? modifiers) := by
  obtain ⟨first, -, hstart⟩ := List.exists_of_findSome?_eq_some h
  obtain ⟨stop, hstop, hread⟩ := List.exists_of_findSome?_eq_some hstart
  obtain ⟨rest, -, rfl⟩ := Option.map_eq_some_iff.1 hread
  exact List.mem_reverse.1 hstop

/-- A member does not begin with a mark, whether modifiers are written or not. -/
theorem head?_start_ne_mark (hmods : ∀ word ∈ modifiers, IsName word.toList)
    (hrest : ∀ u w, Stops isNameStart w → Stops isPathChar w → rest? (between u w) = none)
    {u v : List Char} {reading : Reading α}
    (h : at? modifiers rest? (between u v) = some reading) {c : Char} (hc : isMark c = true) :
    reading.start.rest.head? ≠ some c := by
  intro hhead
  obtain ⟨hreaches, -, hread⟩ := reaches_of_at? h
  have hstop := stop_mem_of_at? h
  obtain ⟨p, w, rfl, hstart⟩ := hreaches.exists_between
  rw [hstart, rest_between] at hhead
  obtain ⟨w, rfl⟩ := List.head?_eq_some_iff.1 hhead
  have hstops : Stops isNameStart (c :: w) ∧ Stops isPathChar (c :: w) := by
    simp only [isMark, Bool.or_eq_true, beq_iff_eq] at hc
    rcases hc with (rfl | rfl) | rfl <;> exact ⟨stops_cons.2 (by decide), stops_cons.2 (by decide)⟩
  -- there is no modifier in front of the mark, so the rest would begin with it
  rw [hstart, iterates_of_none (modifier?_of_stops hmods _ hstops.1), List.mem_singleton] at hstop
  rw [hstop, hrest _ _ hstops.1 hstops.2] at hread
  cases hread

/-- A brace or semicolon stands at an offset of the text. -/
def MarkAt (text : List Char) (pos : Nat) : Prop :=
  ∃ k c, atOffset? text pos = some k ∧ k.rest.head? = some c ∧ isMark c = true

theorem markAt_append {u v : List Char} (h : MarkAt (u ++ v) (byteSize u)) :
    ∃ c, v.head? = some c ∧ isMark c = true := by
  obtain ⟨k, c, hk, hhead, hc⟩ := h
  rw [atOffset?_append] at hk
  cases hk
  exact ⟨c, hhead, hc⟩

end Member

/-! ## Signatures -/

namespace Signature

open Member (MarkAt)

/-- A signature that is found from the offset `pos` on, and after which the search goes on at `next`:
it begins at `pos` or later, and behind a mark at `pos`; it ends with a mark at `next`, which opens
its body if there is one. -/
structure FoundFrom (text : List Char) (pos : Nat) (s : Signature) (next : Nat) : Prop where
  le_start : pos ≤ s.start.offset
  lt_start : MarkAt text pos → pos < s.start.offset
  start_lt : s.start.offset < next
  markAt : MarkAt text next
  opens : ∀ k, s.body? = some k →
    k.offset = next ∧ atOffset? text next = some k ∧ k.rest.head? = some '{'

theorem FoundFrom.earlier {text : List Char} {pos pos' next : Nat} {s : Signature}
    (h : FoundFrom text pos' s next) (hlt : pos < pos') : FoundFrom text pos s next where
  le_start := Nat.le_trans (Nat.le_of_lt hlt) h.le_start
  lt_start _ := Nat.lt_of_lt_of_le hlt h.le_start
  start_lt := h.start_lt
  markAt := h.markAt
  opens := h.opens

theorem head?_start_ne_mark {u v : List Char} {s : Signature} {next : Nat}
    (h : at? (between u v) = some (s, next)) {c : Char} (hc : Member.isMark c = true) :
    s.start.rest.head? ≠ some c := by
  obtain ⟨reading, hmember, heq⟩ := Option.map_eq_some_iff.1 h
  cases heq
  exact Member.head?_start_ne_mark isName_modifierWords tail?_of_stops hmember hc

/-- What a search passes: a part in front of the signature, and the signature up to the mark that
ends it. -/
theorem exists_parts_of_find? {u v : List Char} {s : Signature} {next : Nat}
    (h : find? at? (between u v) = some (s, next)) :
    ∃ gap p w, p ≠ [] ∧ v = gap ++ p ++ w ∧ s.start = between (u ++ gap) (p ++ w) ∧
      next = byteSize (u ++ gap ++ p) ∧
      (s.body? = if w.head? == some '{' then some (between (u ++ gap ++ p) w) else none) ∧
      (w.head? = some '{' ∨ w.head? = some ';') ∧
      ∀ c, Member.isMark c = true → (p ++ w).head? ≠ some c := by
  obtain ⟨v₁, v₂, rfl, hread⟩ := exists_append_of_find? h
  have hfirst := fun c => head?_start_ne_mark hread (c := c)
  obtain ⟨stop, hstart, hstop, rfl, hbody, hmark⟩ := exists_of_at? hread
  obtain ⟨v₃, v₄, rfl, hs⟩ := hstart.exists_between
  rw [hs] at hstop hfirst
  obtain ⟨p, w, hp, rfl, rfl⟩ := hstop.exists_between
  rw [List.append_assoc u] at hs hbody
  exact ⟨v₁ ++ v₃, p, w, hp, by simp, hs, by simp, hbody, hmark, hfirst⟩

theorem foundFrom_of_find? {u v : List Char} {s : Signature} {next : Nat}
    (h : find? at? (between u v) = some (s, next)) : FoundFrom (u ++ v) (byteSize u) s next := by
  obtain ⟨gap, p, w, hp, rfl, hs, rfl, hbody, hmark, hfirst⟩ := exists_parts_of_find? h
  have hpos := byteSize_pos hp
  have hstop : atOffset? (u ++ (gap ++ p ++ w)) (byteSize (u ++ gap ++ p)) =
      some (between (u ++ gap ++ p) w) := by
    rw [← atOffset?_append (u ++ gap ++ p) w]
    simp
  constructor
  · rw [hs, offset_between, byteSize_append]
    exact Nat.le_add_right _ _
  · intro hmarkAt
    obtain ⟨c, hhead, hc⟩ := Member.markAt_append hmarkAt
    -- without a part in front the signature would begin with the mark
    have hgap : gap ≠ [] := by
      rintro rfl
      exact hfirst c hc hhead
    have := byteSize_pos hgap
    rw [hs, offset_between, byteSize_append]
    omega
  · rw [hs, offset_between, byteSize_append (u ++ gap)]
    omega
  · rcases hmark with hmark | hmark
    · exact ⟨_, '{', hstop, hmark, rfl⟩
    · exact ⟨_, ';', hstop, hmark, rfl⟩
  · intro k hk
    rw [hbody] at hk
    split at hk
    next hbrace =>
      cases hk
      exact ⟨rfl, hstop, eq_of_beq hbrace⟩
    next => cases hk

section Run

variable {text : List Char} {pos : Nat} {run : List (Signature × Nat)}

theorem foundFrom_of_turn {k : Cursor} {s : Signature} {next : Nat}
    (hk : atOffset? text pos = some k)
    (hfind : k.find? (ByOffset.resumed at?) = some (s, next)) : FoundFrom text pos s next := by
  obtain ⟨u, v, rfl, rfl, rfl⟩ := atOffset?_eq_some_iff.1 hk
  rw [ByOffset.resumed_eq progressive] at hfind
  exact foundFrom_of_find? hfind

theorem foundFrom_of_run (h : ByOffset.Run at? text pos run) :
    ∀ found ∈ run, FoundFrom text pos found.1 found.2 := by
  induction h with
  | finished => simp
  | fruitless => simp
  | turn _ hk hfind _ ih =>
    obtain ⟨hlt, -⟩ := ByOffset.lt_of_find? progressive hk hfind
    refine List.forall_mem_cons.2 ⟨foundFrom_of_turn hk hfind, fun found hfound => ?_⟩
    exact (ih found hfound).earlier hlt

/-- Each signature begins behind the end of all those before it. -/
theorem pairwise_of_run (h : ByOffset.Run at? text pos run) :
    run.Pairwise fun found later => found.2 < later.1.start.offset := by
  induction h with
  | finished => exact .nil
  | fruitless => exact .nil
  | turn _ hk hfind hrun ih =>
    refine .cons (fun later hlater => ?_) ih
    exact (foundFrom_of_run hrun later hlater).lt_start (foundFrom_of_turn hk hfind).markAt

end Run

/-- The signatures of members of `owner`, from the offset `least` of a text on: in the order of the
text and apart from each other, and with admissible words. -/
structure Ordered (text : List Char) (least : Nat) (owner : String) (found : List Signature) :
    Prop where
  /-- None begins before the search. -/
  least_le : ∀ s ∈ found, least ≤ s.start.offset
  /-- A body opens at a brace of the text, behind the start of its signature. -/
  opens : ∀ s ∈ found, ∀ k, s.body? = some k →
    s.start.offset < k.offset ∧ atOffset? text k.offset = some k ∧ k.rest.head? = some '{'
  /-- A signature begins behind the start of each one before it. -/
  increasing : found.Pairwise fun s later => s.start.offset < later.start.offset
  /-- A signature begins behind the opening brace of each one before it. -/
  apart : found.Pairwise fun s later => ∀ k, s.body? = some k → k.offset < later.start.offset
  /-- No name is a reserved word. -/
  name : ∀ s ∈ found, s.name ∉ reservedWords
  /-- No return type is a reserved word. -/
  returnType : ∀ s ∈ found, ∀ type, s.returnType? = some type → type ∉ reservedWords
  /-- Without a return type it is a constructor. -/
  constructor : ∀ s ∈ found, s.returnType? = none → s.name = owner

theorem isMember_iff {owner : String} {s : Signature} :
    isMember owner s = true ↔ s.name ∉ reservedWords ∧
      (∀ type, s.returnType? = some type → type ∉ reservedWords) ∧
      (s.returnType? = none → s.name = owner) := by
  cases htype : s.returnType? <;> simp [isMember, htype, isReserved]

section FindAll

variable (u v : List Char) (owner : String)

theorem exists_run_findAll :
    ∃ run, ByOffset.Ends at? (u ++ v) (byteSize u) run ∧
      findAll (u ++ v) (byteSize u) owner = (run.map Prod.fst).filter (isMember owner) := by
  obtain ⟨run, hends, hscan⟩ := ByOffset.exists_ends progressive u v
  exact ⟨run, hends, by rw [findAll, hscan]⟩

theorem foundFrom_of_mem_findAll :
    ∀ s ∈ findAll (u ++ v) (byteSize u) owner,
      isMember owner s = true ∧ ∃ next, FoundFrom (u ++ v) (byteSize u) s next := by
  obtain ⟨run, hends, hfindAll⟩ := exists_run_findAll u v owner
  intro s hs
  rw [hfindAll] at hs
  obtain ⟨hmap, hmember⟩ := List.mem_filter.1 hs
  obtain ⟨found, hfound, rfl⟩ := List.mem_map.1 hmap
  exact ⟨hmember, found.2, foundFrom_of_run ((hends.run_iff run).2 rfl) found hfound⟩

theorem pairwise_findAll :
    (findAll (u ++ v) (byteSize u) owner).Pairwise fun s later =>
      ∃ next, FoundFrom (u ++ v) (byteSize u) s next ∧ next < later.start.offset := by
  obtain ⟨run, hends, hfindAll⟩ := exists_run_findAll u v owner
  have hrun := (hends.run_iff run).2 rfl
  rw [hfindAll]
  -- leaving out a signature keeps the others in order
  refine List.Pairwise.filter _ (List.pairwise_map.2 ?_)
  refine (pairwise_of_run hrun).imp_of_mem fun {found later} hfound _ hlt => ?_
  exact ⟨found.2, foundFrom_of_run hrun found hfound, hlt⟩

theorem ordered_findAll :
    Ordered (u ++ v) (byteSize u) owner (findAll (u ++ v) (byteSize u) owner) := by
  have hmem := foundFrom_of_mem_findAll u v owner
  have hpairwise := pairwise_findAll u v owner
  constructor
  case least_le =>
    intro s hs
    obtain ⟨-, next, hfound⟩ := hmem s hs
    exact hfound.le_start
  case opens =>
    intro s hs k hk
    obtain ⟨-, next, hfound⟩ := hmem s hs
    obtain ⟨rfl, hbrace⟩ := hfound.opens k hk
    exact ⟨hfound.start_lt, hbrace⟩
  case increasing =>
    refine hpairwise.imp fun {s later} ⟨next, hfound, hlt⟩ => ?_
    exact Nat.lt_trans hfound.start_lt hlt
  case apart =>
    refine hpairwise.imp fun {s later} ⟨next, hfound, hlt⟩ k hk => ?_
    rw [(hfound.opens k hk).1]
    exact hlt
  case name => exact fun s hs => (isMember_iff.1 (hmem s hs).1).1
  case returnType => exact fun s hs => (isMember_iff.1 (hmem s hs).1).2.1
  case constructor => exact fun s hs => (isMember_iff.1 (hmem s hs).1).2.2

end FindAll

end Signature

/-! ## Fields -/

namespace Field

/-- The field of the modifiers, type and name that are read, if no reserved word is among them. -/
def ofParts? : List Char × List Char × List Char → Option Field
  | (modifiers, type, name) =>
    if isReserved (String.ofList type) || isReserved (String.ofList name) then none
    else some ⟨String.ofList name, String.ofList (normalizeType type),
      Visibility.ofModifiers modifiers⟩

theorem exists_run_findAll (text : List Char) :
    ∃ run, ByOffset.Ends at? text 0 run ∧
      findAll text = (run.map Prod.fst).filterMap ofParts? := by
  obtain ⟨run, hends, hscan⟩ := ByOffset.exists_ends progressive [] text
  refine ⟨run, hends, ?_⟩
  rw [← hscan]
  rfl

end Field

/-- **The searches for members advance, and signatures are found in order.** For every text, searched
from the end of any leading part `u` on, and every owner: the loop over the signatures ends, each of
its turns begins at a later offset than the one before it, and what it finds is listed, less what is
no member of the owner; so does the loop over the fields, from the start of the text. The listed
signatures begin at the end of `u` or later, in strictly increasing order; the body of each opens at
a brace behind its start and in front of all later signatures; no name or return type is a reserved
word; and a signature without a return type bears the owner's name. -/
theorem members_ordered (u v : List Char) (owner : String) :
    (∃ run, ByOffset.Ends Signature.at? (u ++ v) (byteSize u) run ∧
      Signature.findAll (u ++ v) (byteSize u) owner =
        (run.map Prod.fst).filter (Signature.isMember owner)) ∧
    (∃ run, ByOffset.Ends Field.at? (u ++ v) 0 run ∧
      Field.findAll (u ++ v) = (run.map Prod.fst).filterMap Field.ofParts?) ∧
    Signature.Ordered (u ++ v) (byteSize u) owner
      (Signature.findAll (u ++ v) (byteSize u) owner) :=
  ⟨Signature.exists_run_findAll u v owner, Field.exists_run_findAll (u ++ v),
    Signature.ordered_findAll u v owner⟩

/-- Each brace ends one signature and opens the next. -/
example :
    (Signature.findAll "A()\x7bA()\x7bA();".toList 0 "A").map
      (fun s => (s.start.offset, s.body?.map Cursor.offset)) =
        [(0, some 3), (4, some 7), (8, none)] := by
  decide +kernel

end ClassDiagram.Source
