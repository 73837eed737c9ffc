import Mathlib.Data.List.Forall2
import ClassDiagram.Proofs.Text.Nesting

/-!
# Texts that agree outside angle brackets

`SameOutside cs cs'` says that two texts differ only in what stands in some groups in angle
brackets. A reading that stops at an angle bracket gives the same result on both
(`SameOutside.span`), and cutting the texts at a separator gives pieces that again differ in such
groups only (`SameOutside.piecesFrom`). A search gives related results where its first success, if any, stands
outside all angle brackets in both texts (`SameOutside.find?`).
-/

namespace ClassDiagram.Text

open Cursor

/-- A text in angle brackets: its brackets are nested, and there are no braces. -/
def isGroupText (g : List Char) : Bool := nested typeBrackets g && !g.contains '{'

theorem nested_of_isGroupText {g : List Char} (h : isGroupText g = true) :
    nested typeBrackets g = true :=
  (Bool.and_eq_true_iff.1 h).1

/-- The texts differ in what stands in some groups in angle brackets. -/
inductive SameOutside : List Char → List Char → Prop
  | nil : SameOutside [] []
  | char (c : Char) {cs cs' : List Char} :
      SameOutside cs cs' → SameOutside (c :: cs) (c :: cs')
  | group {g g' cs cs' : List Char} :
      isGroupText g = true → isGroupText g' = true → SameOutside cs cs' →
        SameOutside ('<' :: (g ++ '>' :: cs)) ('<' :: (g' ++ '>' :: cs'))

namespace SameOutside

theorem append (front : List Char) {cs cs' : List Char} (h : SameOutside cs cs') :
    SameOutside (front ++ cs) (front ++ cs') := by
  induction front with
  | nil => exact h
  | cons c front ih => exact ih.char c

theorem refl (cs : List Char) : SameOutside cs cs := by
  simpa using append cs nil

theorem symm {cs cs' : List Char} (h : SameOutside cs cs') : SameOutside cs' cs := by
  induction h with
  | nil => exact nil
  | char c _ ih => exact ih.char c
  | group hg hg' _ ih => exact ih.group hg' hg

theorem head?_eq {cs cs' : List Char} (h : SameOutside cs cs') : cs.head? = cs'.head? := by
  cases h <;> rfl

/-! ## Readings -/

/-- A run of characters other than `<` is the same in both texts. -/
theorem span {p : Char → Bool} (hp : p '<' = false) {cs cs' : List Char} (h : SameOutside cs cs') :
    ∃ run ds ds', cs = run ++ ds ∧ cs' = run ++ ds' ∧ (∀ c ∈ run, p c = true) ∧ Stops p ds ∧
      Stops p ds' ∧ SameOutside ds ds' := by
  induction h with
  | nil => exact ⟨[], [], [], rfl, rfl, by simp, stops_nil, stops_nil, nil⟩
  | @char c cs cs' h ih =>
    cases hc : p c with
    | true =>
      obtain ⟨run, ds, ds', rfl, rfl, hrun, hds, hds', hsame⟩ := ih
      exact ⟨c :: run, ds, ds', rfl, rfl, List.forall_mem_cons.2 ⟨hc, hrun⟩, hds, hds', hsame⟩
    | false =>
      exact ⟨[], c :: cs, c :: cs', rfl, rfl, by simp, stops_cons.2 hc, stops_cons.2 hc, h.char c⟩
  | group hg hg' h _ =>
    exact ⟨[], _, _, rfl, rfl, by simp, stops_cons.2 hp, stops_cons.2 hp, h.group hg hg'⟩

theorem takeWhile_eq {p : Char → Bool} (hp : p '<' = false) {cs cs' : List Char}
    (h : SameOutside cs cs') : cs.takeWhile p = cs'.takeWhile p := by
  obtain ⟨run, ds, ds', rfl, rfl, hrun, hds, hds', -⟩ := h.span hp
  rw [takeWhile_append_of_stops hrun hds, takeWhile_append_of_stops hrun hds']

theorem dropWhile {p : Char → Bool} (hp : p '<' = false) {cs cs' : List Char}
    (h : SameOutside cs cs') : SameOutside (cs.dropWhile p) (cs'.dropWhile p) := by
  obtain ⟨run, ds, ds', rfl, rfl, hrun, hds, hds', hsame⟩ := h.span hp
  rw [dropWhile_append_of_stops hrun hds, dropWhile_append_of_stops hrun hds']
  exact hsame

theorem takeWhile_ne_brace {cs cs' : List Char} (h : SameOutside cs cs') :
    SameOutside (cs.takeWhile (· != '{')) (cs'.takeWhile (· != '{')) := by
  have hgroup {g : List Char} (hg : isGroupText g = true) (ds : List Char) :
      ('<' :: (g ++ '>' :: ds)).takeWhile (· != '{') =
        '<' :: (g ++ '>' :: ds.takeWhile (· != '{')) := by
    have hbrace : ∀ c ∈ g, (c != '{') = true := fun c hc => by
      have hnot : '{' ∉ g := by simpa [isGroupText] using (Bool.and_eq_true_iff.1 hg).2
      exact bne_iff_ne.2 fun heq => hnot (heq ▸ hc)
    rw [List.takeWhile_cons, if_pos (by decide), List.takeWhile_append_of_pos hbrace,
      List.takeWhile_cons, if_pos (by decide)]
  induction h with
  | nil => exact nil
  | char c _ ih =>
    rw [List.takeWhile_cons, List.takeWhile_cons]
    split
    · exact ih.char c
    · exact nil
  | group hg hg' _ ih =>
    rw [hgroup hg, hgroup hg']
    exact ih.group hg hg'

theorem exists_of_append {word : List Char} (hword : '<' ∉ word) {cs cs' : List Char}
    (h : SameOutside (word ++ cs) cs') : ∃ ds, cs' = word ++ ds ∧ SameOutside cs ds := by
  induction word generalizing cs' with
  | nil => exact ⟨cs', rfl, h⟩
  | cons c word ih =>
    rw [List.mem_cons, not_or] at hword
    generalize htext : c :: word ++ cs = text at h
    cases h with
    | nil => cases htext
    | char d h =>
      obtain ⟨rfl, rfl⟩ := List.cons.inj htext
      obtain ⟨ds, rfl, hds⟩ := ih hword.2 h
      exact ⟨ds, rfl, hds⟩
    | group => exact absurd (List.cons.inj htext).1.symm hword.1

/-! ## Pieces -/

theorem forall₂_extendFirst (front front' : List Char)
    (hfront : ∀ {cs cs'}, SameOutside cs cs' → SameOutside (front ++ cs) (front' ++ cs'))
    {ps ps' : List (List Char)} (hne : ps ≠ []) (h : List.Forall₂ SameOutside ps ps') :
    List.Forall₂ SameOutside (front.foldr extendFirst ps) (front'.foldr extendFirst ps') := by
  cases h with
  | nil => exact absurd rfl hne
  | cons hp hps =>
    rw [foldr_extendFirst, foldr_extendFirst]
    exact .cons (hfront hp) hps

/-- A group in angle brackets goes to the first piece. -/
theorem piecesFrom_group {g : List Char} (hg : isGroupText g = true) (separator : Char)
    (depth : Nat) (cs : List Char) :
    Text.piecesFrom separator depth ('<' :: (g ++ '>' :: cs)) =
      ('<' :: (g ++ ['>'])).foldr extendFirst (Text.piecesFrom separator depth cs) := by
  have hangle : ('<', '>') ∈ typeBrackets := by decide
  have hnested := nested_of_isGroupText hg
  have happend := (uncut_group hangle hnested separator depth).piecesFrom_append cs
  rw [depthBehind_group hangle hnested] at happend
  simpa using happend

theorem piecesFrom (separator : Char) (depth : Nat) {cs cs' : List Char} (h : SameOutside cs cs') :
    List.Forall₂ SameOutside (Text.piecesFrom separator depth cs)
      (Text.piecesFrom separator depth cs') := by
  induction h generalizing depth with
  | nil => exact .cons nil .nil
  | char c _ ih =>
    rw [piecesFrom_cons, piecesFrom_cons]
    split
    · exact .cons nil (ih 0)
    · exact forall₂_extendFirst [c] [c] (fun h => h.char c) (piecesFrom_ne_nil _ _ _) (ih _)
  | group hg hg' _ ih =>
    rw [piecesFrom_group hg, piecesFrom_group hg']
    refine forall₂_extendFirst _ _ (fun h => ?_) (piecesFrom_ne_nil _ _ _) (ih _)
    simpa using h.group hg hg'

end SameOutside

/-! ## Searches -/

/-- The number of angle brackets that are open behind a character. -/
def angleDepth (depth : Nat) (c : Char) : Nat :=
  if c == '<' then depth + 1 else if c == '>' then depth - 1 else depth

theorem steady_angleDepth : Steady typeBrackets angleDepth fun c => if c == '>' then 1 else 0 where
  opening p hp n := by
    simp only [typeBrackets, codeBrackets, List.mem_cons, List.not_mem_nil, or_false] at hp
    rcases hp with rfl | rfl | rfl | rfl <;> rfl
  closing p hp n := by
    simp only [typeBrackets, codeBrackets, List.mem_cons, List.not_mem_nil, or_false] at hp
    rcases hp with rfl | rfl | rfl | rfl <;> rfl
  other c hc n := by
    simp only [typeBrackets, codeBrackets, List.forall_mem_cons] at hc
    simp [angleDepth, hc]

section Related

variable {α β : Type} {r : α → α → Prop}

theorem rel_refl (hr : ∀ a, r a a) (a? : Option α) : Option.Rel r a? a? := by
  cases a? with
  | none => exact .none
  | some a => exact .some (hr a)

theorem eq_of_rel {a? b? : Option α} (h : Option.Rel (· = ·) a? b?) : a? = b? := by
  cases h with
  | some h => rw [h]
  | none => rfl

theorem rel_map {r' : β → β → Prop} {f f' : α → β} {a? b? : Option α} (h : Option.Rel r a? b?)
    (hf : ∀ a b, r a b → r' (f a) (f' b)) : Option.Rel r' (a?.map f) (b?.map f') := by
  cases h with
  | some h => exact .some (hf _ _ h)
  | none => exact .none

theorem rel_or {a? b? c? d? : Option α} (h : Option.Rel r a? b?)
    (hnone : a? = none → b? = none → Option.Rel r c? d?) :
    Option.Rel r (a?.or c?) (b?.or d?) := by
  cases h with
  | some h => exact .some h
  | none => exact hnone rfl rfl

theorem rel_findSome? {f f' : β → Option α} (h : ∀ b, Option.Rel r (f b) (f' b)) (bs : List β) :
    Option.Rel r (bs.findSome? f) (bs.findSome? f') := by
  induction bs with
  | nil => exact .none
  | cons b bs ih =>
    have hb := h b
    rw [List.findSome?_cons, List.findSome?_cons]
    generalize f b = a?, f' b = b? at hb
    cases hb with
    | some h => exact .some h
    | none => exact ih

end Related

section Search

variable {α : Type} {attempt : Cursor → Option α}

/-- The first success in `v`, read behind `u`, stands outside angle brackets; `depth` of them are
open in front of `v`. -/
def firstOutside (attempt : Cursor → Option α) : Nat → List Char → List Char → Bool
  | depth, u, [] => (attempt (between u [])).isNone || depth == 0
  | depth, u, c :: v =>
    if (attempt (between u (c :: v))).isSome then depth == 0
    else firstOutside attempt (angleDepth depth c) (u ++ [c]) v

/-- Inside angle brackets there is no success before the first one outside. -/
theorem barren_of_firstOutside {depth : Nat} {u v w : List Char}
    (hv : StaysAbove angleDepth 1 depth v)
    (h : firstOutside attempt depth u (v ++ w) = true) :
    Barren attempt u v w ∧
      firstOutside attempt (v.foldl angleDepth depth) (u ++ v) w = true := by
  induction v generalizing depth u with
  | nil => exact ⟨trivial, by simpa using h⟩
  | cons c v ih =>
    have hdepth : depth ≠ 0 := Nat.ne_of_gt hv.1
    rw [List.cons_append, firstOutside] at h
    cases hread : attempt (between u (c :: (v ++ w))) with
    | some a => simp [hread, hdepth] at h
    | none =>
      obtain ⟨hbarren, hrest⟩ := ih hv.2 (by simpa [hread] using h)
      exact ⟨⟨hread, hbarren⟩, by simpa using hrest⟩

theorem barren_group {depth : Nat} {u g w : List Char} (hg : isGroupText g = true)
    (hread : attempt (between u ('<' :: (g ++ '>' :: w))) = none)
    (h : firstOutside attempt depth u ('<' :: (g ++ '>' :: w)) = true) :
    Barren attempt u ('<' :: (g ++ ['>'])) w ∧
      firstOutside attempt depth (u ++ '<' :: (g ++ ['>'])) w = true := by
  have hnested := nested_of_isGroupText hg
  have hstays : StaysAbove angleDepth 1 (depth + 1) g :=
    (steady_angleDepth.stays hnested (depth + 1)).mono (Nat.le_add_left 1 depth)
  have hinside : firstOutside attempt (depth + 1) (u ++ ['<']) (g ++ '>' :: w) = true := by
    rw [firstOutside, hread] at h
    exact h
  obtain ⟨hbarren, hclose⟩ := barren_of_firstOutside hstays hinside
  rw [steady_angleDepth.foldl_eq hnested, firstOutside] at hclose
  have hdepth : angleDepth (depth + 1) '>' = depth := rfl
  obtain ⟨hlast, hrest⟩ : attempt (between (u ++ ['<'] ++ g) ('>' :: w)) = none ∧
      firstOutside attempt depth (u ++ '<' :: (g ++ ['>'])) w = true := by
    simpa [hdepth] using hclose
  refine ⟨⟨by simpa using hread, Barren.append (by simpa using hbarren) ?_⟩, hrest⟩
  exact ⟨hlast, trivial⟩

/-- **Searching in texts that agree outside angle brackets**: where the attempts at corresponding
places are related and the first success stands outside in both texts, so are the results. -/
theorem SameOutside.find? {r : α → α → Prop}
    (hattempt : ∀ {u u' v v' : List Char}, u.getLast? = u'.getLast? → SameOutside v v' →
      Option.Rel r (attempt (between u v)) (attempt (between u' v')))
    {v v' : List Char} (h : SameOutside v v') {depth : Nat} {u u' : List Char}
    (hlast : u.getLast? = u'.getLast?) (hv : firstOutside attempt depth u v = true)
    (hv' : firstOutside attempt depth u' v' = true) :
    Option.Rel r (Cursor.find? attempt (between u v)) (Cursor.find? attempt (between u' v')) := by
  induction h generalizing depth u u' with
  | nil => exact hattempt hlast nil
  | char c h ih =>
    rw [find?_cons, find?_cons]
    refine rel_or (hattempt hlast (h.char c)) fun hread hread' => ?_
    rw [firstOutside, hread] at hv
    rw [firstOutside, hread'] at hv'
    exact ih (by simp) hv hv'
  | group hg hg' h ih =>
    rw [find?_cons, find?_cons]
    refine rel_or (hattempt hlast (h.group hg hg')) fun hread hread' => ?_
    obtain ⟨⟨-, hbarren⟩, hrest⟩ := barren_group hg hread hv
    obtain ⟨⟨-, hbarren'⟩, hrest'⟩ := barren_group hg' hread' hv'
    have hfind := find?_barren hbarren
    have hfind' := find?_barren hbarren'
    simp only [List.append_assoc, List.singleton_append] at hfind hfind'
    rw [hfind, hfind']
    have hclosed (u g : List Char) : (u ++ '<' :: (g ++ ['>'])).getLast? = some '>' := by
      rw [← List.cons_append, ← List.append_assoc, List.getLast?_concat]
    exact ih (by rw [hclosed, hclosed]) hrest hrest'

end Search

end ClassDiagram.Text
