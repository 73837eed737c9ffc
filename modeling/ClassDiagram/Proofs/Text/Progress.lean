import ClassDiagram.Proofs.Text.Slices

/-!
# Progress

A reading passes characters and never goes back. `Cursor.Reaches` says so of two positions; it is
kept by every way to put readings together. An attempt whose successes resume strictly later in the
same text is called progressive. Scanning with such an attempt is the same as searching for it again
and again, each time from the offset at which the last search ended (`ByOffset.scan_eq`): no search
begins inside a character or where an earlier one began, so there is an end to them.

Turn by turn, the searches make up a `ByOffset.Run`. The loop has one run, in which the offsets
increase, and the scan lists what it finds (`ByOffset.exists_ends`).
-/

namespace ClassDiagram

namespace Text.Cursor

/-- Passing what comes next leads from one position to the other. -/
def Reaches (k k' : Cursor) : Prop := ∃ v w, k.rest = v ++ w ∧ k' = k.past v w

variable {k k' k'' : Cursor}

namespace Reaches

theorem refl (k : Cursor) : k.Reaches k := ⟨[], k.rest, rfl, by simp [Cursor.past]⟩

theorem trans (h : k.Reaches k') (h' : k'.Reaches k'') : k.Reaches k'' := by
  obtain ⟨v, w, hv, rfl⟩ := h
  obtain ⟨v', w', hv', rfl⟩ := h'
  have hw : w = v' ++ w' := hv'
  refine ⟨v ++ v', w', by rw [hv, hw, List.append_assoc], ?_⟩
  simp [Cursor.past, byteSize_append, List.getLast?_append, Nat.add_assoc, Option.or_assoc]

theorem offset_le (h : k.Reaches k') : k.offset ≤ k'.offset := by
  obtain ⟨v, w, -, rfl⟩ := h
  exact Nat.le_add_right _ _

/-- In a text, a later position stands behind a longer leading part. -/
theorem exists_between {u v : List Char} (h : (between u v).Reaches k') :
    ∃ p w, v = p ++ w ∧ k' = between (u ++ p) w := by
  obtain ⟨p, w, rfl, rfl⟩ := h
  exact ⟨p, w, rfl, past_between u p w⟩

theorem of_front {v : List Char} (h : v <+: k.rest) :
    k.Reaches (k.past v (k.rest.drop v.length)) := by
  obtain ⟨w, hw⟩ := h
  exact ⟨v, w, hw.symm, by rw [← hw, List.drop_left]⟩

theorem skipWhile (p : Char → Bool) (k : Cursor) : k.Reaches (k.skipWhile p) :=
  ⟨_, _, List.takeWhile_append_dropWhile.symm, rfl⟩

theorem token? {word : String} (h : k.token? word = some k') : k.Reaches k' := by
  unfold Cursor.token? at h
  split at h
  next hword =>
    cases h
    exact of_front (List.isPrefixOf_iff_prefix.1 hword)
  next => cases h

theorem getD {next? : Option Cursor} (h : ∀ k', next? = some k' → k.Reaches k') :
    k.Reaches (next?.getD k) := by
  cases next? with
  | none => exact refl k
  | some k' => exact h k' rfl

/-! ### Repetition -/

variable {step : Cursor → Option Cursor}

theorem of_mem_iteratesUpTo (hstep : ∀ k k', step k = some k' → k.Reaches k') {n : Nat}
    (h : k' ∈ iteratesUpTo step n k) : k.Reaches k' := by
  induction n generalizing k with
  | zero =>
    rw [List.mem_singleton.1 h]
    exact refl k
  | succ n ih =>
    rw [iteratesUpTo] at h
    split at h
    next next hnext =>
      rcases List.mem_cons.1 h with rfl | h
      · exact refl k'
      · exact (hstep k next hnext).trans (ih h)
    next =>
      rw [List.mem_singleton.1 h]
      exact refl k

theorem of_mem_iterates (hstep : ∀ k k', step k = some k' → k.Reaches k')
    (h : k' ∈ iterates step k) : k.Reaches k' :=
  of_mem_iteratesUpTo hstep h

theorem repeatedly (hstep : ∀ k k', step k = some k' → k.Reaches k') (k : Cursor) :
    k.Reaches (k.repeatedly step) :=
  getD fun _ h => of_mem_iterates hstep (List.mem_of_getLast? h)

end Reaches

/-- Passing at least one character leads from one position to the other. -/
def Advances (k k' : Cursor) : Prop := k.Reaches k' ∧ k.offset < k'.offset

theorem Reaches.trans_advances (h : k.Reaches k') (h' : k'.Advances k'') : k.Advances k'' :=
  ⟨h.trans h'.1, Nat.lt_of_le_of_lt h.offset_le h'.2⟩

namespace Advances

theorem trans_reaches (h : k.Advances k') (h' : k'.Reaches k'') : k.Advances k'' :=
  ⟨h.1.trans h', Nat.lt_of_lt_of_le h.2 h'.offset_le⟩

theorem skipSome? {p : Char → Bool} (h : k.skipSome? p = some k') : k.Advances k' := by
  unfold Cursor.skipSome? at h
  split at h
  next c cs hrest =>
    split at h
    next hc =>
      cases h
      have hne : k.rest.takeWhile p ≠ [] := by simp [hrest, hc]
      exact ⟨.skipWhile p k, Nat.lt_add_of_pos_right (byteSize_pos hne)⟩
    next => cases h
  next => cases h

theorem token? {word : String} (hword : word.toList ≠ []) (h : k.token? word = some k') :
    k.Advances k' := by
  refine ⟨.token? h, ?_⟩
  unfold Cursor.token? at h
  split at h
  · cases h
    exact Nat.lt_add_of_pos_right (byteSize_pos hword)
  · cases h

theorem exists_between {u v : List Char} (h : (between u v).Advances k') :
    ∃ p w, p ≠ [] ∧ v = p ++ w ∧ k' = between (u ++ p) w := by
  obtain ⟨hreaches, hlt⟩ := h
  obtain ⟨p, w, rfl, rfl⟩ := hreaches.exists_between
  refine ⟨p, w, ?_, rfl, rfl⟩
  rintro rfl
  rw [List.append_nil] at hlt
  exact Nat.lt_irrefl _ hlt

end Advances

/-- A success resumes at a later position of the same text. -/
def Progressive {α : Type} (attempt : Cursor → Option (α × Nat)) : Prop :=
  ∀ k a next, attempt k = some (a, next) → ∃ k', k.Advances k' ∧ next = k'.offset

theorem Progressive.exists_append {α : Type} {attempt : Cursor → Option (α × Nat)}
    (h : Progressive attempt) {u v : List Char} {a : α} {next : Nat}
    (hread : attempt (between u v) = some (a, next)) :
    ∃ p w, p ≠ [] ∧ v = p ++ w ∧ next = byteSize (u ++ p) := by
  obtain ⟨k', hadvances, rfl⟩ := h _ a next hread
  obtain ⟨p, w, hp, rfl, rfl⟩ := hadvances.exists_between
  exact ⟨p, w, hp, rfl, rfl⟩

end Text.Cursor

namespace ByOffset

open Text

variable {α : Type} {attempt : Cursor → Option (α × Nat)}

/-- Resumes behind the position of a success, even if nothing was read there. -/
def resumed (attempt : Cursor → Option (α × Nat)) (k : Cursor) : Option (α × Nat) :=
  (attempt k).map fun (a, stop) => (a, max stop (k.offset + 1))

/-- The results of `attempt`, found by one search after the other, each from the offset at which the
one before it resumes. -/
def scan (attempt : Cursor → Option (α × Nat)) (text : List Char) (pos : Nat) :
    Except Fault (List α) :=
  if pos < byteSize text then
    match Cursor.atOffset? text pos with
    | none => .error .slice
    | some k =>
      match k.find? (resumed attempt) with
      | none => .ok []
      | some (a, next) =>
        if pos < next then do return a :: (← scan attempt text next) else .error .standstill
  else .ok []
termination_by byteSize text - pos

theorem resumed_eq (h : Cursor.Progressive attempt) : resumed attempt = attempt := by
  funext k
  unfold resumed
  cases hread : attempt k with
  | none => rfl
  | some found =>
    obtain ⟨a, stop⟩ := found
    obtain ⟨k', ⟨-, hlt⟩, rfl⟩ := h k a stop hread
    have hmax : max k'.offset (k.offset + 1) = k'.offset := Nat.max_eq_left hlt
    simp only [Option.map_some, hmax]

open Cursor in
theorem scan_eq (h : Progressive attempt) (u v : List Char) :
    scan attempt (u ++ v) (byteSize u) = .ok (Cursor.scan attempt 0 (between u v)) := by
  -- the unread text gets shorter with each search
  induction hlength : v.length using Nat.strongRecOn generalizing u v with
  | ind n ih =>
    rw [scan, atOffset?_append, resumed_eq h, byteSize_append]
    by_cases hv : v = []
    · subst hv
      simp [Cursor.scan_nil]
    have hpos : byteSize u < byteSize u + byteSize v := Nat.lt_add_of_pos_right (byteSize_pos hv)
    rw [if_pos hpos]
    cases hfind : find? attempt (between u v) with
    | none =>
      have hscan := scan_barren (barren_of_find?_eq_none hfind)
      rw [List.append_nil] at hscan
      simp only [hfind, hscan, Cursor.scan_nil]
    | some found =>
      obtain ⟨a, next⟩ := found
      obtain ⟨v₁, v₂, rfl, hbarren, hread⟩ := exists_barren_of_find? hfind
      obtain ⟨p, w, hp, rfl, rfl⟩ := h.exists_append hread
      have hshorter : w.length < n := by
        have := List.length_pos_iff.2 hp
        simp only [List.length_append] at hlength
        omega
      have hnext := ih _ hshorter (u ++ v₁ ++ p) w rfl
      have hlater : byteSize u < byteSize (u ++ v₁ ++ p) := by
        have := byteSize_pos hp
        simp only [byteSize_append]
        omega
      simp only [List.append_assoc] at hnext
      simp only [hfind, if_pos hlater]
      rw [scan_barren hbarren, scan_success hp hread]
      simp [hnext]

/-- The same from the start of the text, for a scan that begins at the end of a leading part. -/
theorem scan_ofText (h : Cursor.Progressive attempt) (u v : List Char) :
    scan attempt (u ++ v) (byteSize u) =
      .ok ((Cursor.ofText (u ++ v)).scan attempt (byteSize u)) := by
  rw [scan_eq h, Cursor.ofText_eq]
  exact congrArg _ (Cursor.scan_skip attempt [] u v).symm

/-! ## Turns of the loop -/

/-- The turns of the loop from an offset to its end: what each search finds, and the offset at which
the next one begins. Where a search would begin inside a character, there is no run. -/
inductive Run (attempt : Cursor → Option (α × Nat)) (text : List Char) :
    Nat → List (α × Nat) → Prop
  | finished {pos : Nat} (hpos : byteSize text ≤ pos) : Run attempt text pos []
  | fruitless {pos : Nat} {k : Cursor} (hpos : pos < byteSize text)
      (hk : Cursor.atOffset? text pos = some k) (hfind : k.find? (resumed attempt) = none) :
      Run attempt text pos []
  | turn {pos next : Nat} {k : Cursor} {a : α} {run : List (α × Nat)} (hpos : pos < byteSize text)
      (hk : Cursor.atOffset? text pos = some k)
      (hfind : k.find? (resumed attempt) = some (a, next)) (hrun : Run attempt text next run) :
      Run attempt text pos ((a, next) :: run)

/-- The loop ends: it has one run, every turn of which leads to a later offset, and there are no more
turns than bytes to read. -/
structure Ends (attempt : Cursor → Option (α × Nat)) (text : List Char) (pos : Nat)
    (run : List (α × Nat)) : Prop where
  run_iff : ∀ run', Run attempt text pos run' ↔ run' = run
  increasing : (pos :: run.map Prod.snd).Pairwise (· < ·)
  length_le : pos + run.length ≤ byteSize text

variable {text : List Char} {pos : Nat}

theorem exists_run_of_scan {found : List α} (h : scan attempt text pos = .ok found) :
    ∃ run, Run attempt text pos run ∧ run.map Prod.fst = found := by
  fun_induction scan attempt text pos generalizing found with
  | case1 => cases h
  | case2 pos hpos k hk hfind =>
    cases h
    exact ⟨[], .fruitless hpos hk hfind, rfl⟩
  | case3 pos hpos k hk a next hfind hlt ih =>
    cases hscan : scan attempt text next with
    | error fault =>
      rw [hscan] at h
      cases h
    | ok later =>
      rw [hscan] at h
      cases h
      obtain ⟨run, hrun, rfl⟩ := ih hscan
      exact ⟨(a, next) :: run, .turn hpos hk hfind hrun, rfl⟩
  | case4 => cases h
  | case5 pos hpos =>
    cases h
    exact ⟨[], .finished (Nat.not_lt.1 hpos), rfl⟩

namespace Run

variable {run run' : List (α × Nat)}

theorem unique (h : Run attempt text pos run) (h' : Run attempt text pos run') : run = run' := by
  induction h generalizing run' with
  | finished hpos =>
    cases h' with
    | finished => rfl
    | fruitless hpos' => omega
    | turn hpos' => omega
  | fruitless hpos hk hfind =>
    cases h' with
    | finished => rfl
    | fruitless => rfl
    | turn _ hk' hfind' =>
      rw [Option.some.inj (hk.symm.trans hk')] at hfind
      simp [hfind] at hfind'
  | turn hpos hk hfind _ ih =>
    cases h' with
    | finished hpos' => omega
    | fruitless _ hk' hfind' =>
      rw [Option.some.inj (hk.symm.trans hk')] at hfind
      simp [hfind] at hfind'
    | turn _ hk' hfind' hrun' =>
      rw [Option.some.inj (hk.symm.trans hk'), hfind'] at hfind
      cases hfind
      rw [ih hrun']

end Run

/-- One turn: the next search begins behind this one, in the text. -/
theorem lt_of_find? (h : Cursor.Progressive attempt) {k : Cursor} {a : α} {next : Nat}
    (hk : Cursor.atOffset? text pos = some k) (hfind : k.find? (resumed attempt) = some (a, next)) :
    pos < next ∧ next ≤ byteSize text := by
  obtain ⟨u, v, rfl, rfl, rfl⟩ := Cursor.atOffset?_eq_some_iff.1 hk
  rw [resumed_eq h] at hfind
  obtain ⟨v₁, v₂, rfl, hread⟩ := Cursor.exists_append_of_find? hfind
  obtain ⟨p, w, hp, rfl, rfl⟩ := h.exists_append hread
  have := byteSize_pos hp
  simp only [byteSize_append]
  omega

theorem Run.increasing (h : Cursor.Progressive attempt) {run : List (α × Nat)}
    (hrun : Run attempt text pos run) : (pos :: run.map Prod.snd).Pairwise (· < ·) := by
  induction hrun with
  | finished => simp
  | fruitless => simp
  | turn _ hk hfind _ ih =>
    obtain ⟨hlt, -⟩ := lt_of_find? h hk hfind
    rw [List.map_cons, List.pairwise_cons]
    refine ⟨List.forall_mem_cons.2 ⟨hlt, fun later hlater => ?_⟩, ih⟩
    exact Nat.lt_trans hlt ((List.pairwise_cons.1 ih).1 later hlater)

theorem Run.length_le (h : Cursor.Progressive attempt) {run : List (α × Nat)}
    (hrun : Run attempt text pos run) (hpos : pos ≤ byteSize text) :
    pos + run.length ≤ byteSize text := by
  induction hrun with
  | finished => simpa using hpos
  | fruitless => simpa using hpos
  | turn _ hk hfind _ ih =>
    obtain ⟨hlt, hle⟩ := lt_of_find? h hk hfind
    have := ih hle
    rw [List.length_cons]
    omega

/-- **Progress of a scan.** From the end of every leading part of a text on, the loop ends, and the
scan lists what its turns find. -/
theorem exists_ends (h : Cursor.Progressive attempt) (u v : List Char) :
    ∃ run, Ends attempt (u ++ v) (byteSize u) run ∧
      (Cursor.ofText (u ++ v)).scan attempt (byteSize u) = run.map Prod.fst := by
  obtain ⟨run, hrun, hfound⟩ := exists_run_of_scan (scan_ofText h u v)
  have hpos : byteSize u ≤ byteSize (u ++ v) := by
    rw [byteSize_append]
    exact Nat.le_add_right _ _
  refine ⟨run, ⟨fun run' => ⟨fun hrun' => hrun'.unique hrun, ?_⟩, hrun.increasing h,
    hrun.length_le h hpos⟩, hfound.symm⟩
  rintro rfl
  exact hrun

end ByOffset

end ClassDiagram
