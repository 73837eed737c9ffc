import ClassDiagram.Proofs.Text.Position
import ClassDiagram.Source.Noise

/-!
# Comments and literals

A scan from left to right tells comments from literals (`places`): in a literal nothing opens a
comment, and in a comment nothing opens another one or a literal. The sweeps look for the marks of
comments alone, of block comments first and of line comments then. Followed along a scan (`swept`),
they leave the same of the text unless a block comment overlaps a line comment or a literal holds
the marks of a comment (`swept_eq_iff`).
-/

namespace ClassDiagram.Source

open Text

/-! ## One scan -/

/-- The mark at both ends of a literal. -/
inductive Quote where
  | single
  | double
  deriving DecidableEq

def Quote.char : Quote → Char
  | single => '\''
  | double => '"'

def Quote.ofChar? (c : Char) : Option Quote :=
  if c = '"' then some double else if c = '\'' then some single else none

/-- What a scan is in. -/
inductive Mode where
  | code
  | literal (quote : Quote)
  /-- In a literal, behind a backslash. -/
  | escape (quote : Quote)
  | lineComment
  | blockComment
  deriving DecidableEq

/-- The mode behind a character that is not part of a comment's mark. -/
def Mode.after : Mode → Char → Mode
  | code, c => ((Quote.ofChar? c).map literal).getD code
  | literal quote, c =>
    if c = quote.char then code else if c = '\\' then escape quote else literal quote
  | escape quote, _ => literal quote
  | lineComment, c => if c = '\n' then code else lineComment
  | blockComment, _ => blockComment

structure Place where
  mode : Mode
  unread : List Char

/-- The places that a scan comes to, from left to right. -/
def places : Mode → List Char → List Place
  | mode, [] => [⟨mode, []⟩]
  | .code, '/' :: '*' :: cs => ⟨.code, '/' :: '*' :: cs⟩ :: places .blockComment cs
  | .code, '/' :: '/' :: cs => ⟨.code, '/' :: '/' :: cs⟩ :: places .lineComment cs
  | .blockComment, '*' :: '/' :: cs => ⟨.blockComment, '*' :: '/' :: cs⟩ :: places .code cs
  | mode, c :: cs => ⟨mode, c :: cs⟩ :: places (mode.after c) cs

/-- Whether the text starts with a block comment. -/
def opensBlock : List Char → Bool
  | '/' :: '*' :: cs => closesComment cs
  | _ => false

/-- Whether the text starts with a line comment. -/
def opensLine : List Char → Bool
  | '/' :: '/' :: _ => true
  | _ => false

namespace Place

/-- What is left of a place when comments are removed. -/
def shown : Place → List Char
  | ⟨.code, '/' :: '*' :: _⟩ => [' ']
  | ⟨.code, '/' :: '/' :: _⟩ => []
  | ⟨.lineComment, c :: _⟩ => if c = '\n' then [c] else []
  | ⟨.blockComment, _⟩ => []
  | ⟨_, c :: _⟩ => [c]
  | ⟨_, []⟩ => []

/-- A literal goes on before the end of its line, a block comment before the end of the text. -/
def isClosed : Place → Bool
  | ⟨.literal _, cs⟩ | ⟨.escape _, cs⟩ => cs.head?.any (· != '\n')
  | ⟨.blockComment, cs⟩ => !cs.isEmpty
  | _ => true

/-- A block comment takes the second slash of a line comment for its own, or opens in the line
comment and is closed on a later line. -/
def overlaps : Place → Bool
  | ⟨.code, '/' :: '/' :: cs⟩ => opensBlock ('/' :: cs)
  | ⟨.lineComment, '/' :: '*' :: cs⟩ =>
    closesComment cs && !closesComment (cs.takeWhile (· != '\n'))
  | _ => false

/-- In a literal, the marks of a comment follow. -/
def opensComment : Place → Bool
  | ⟨.literal _, cs⟩ | ⟨.escape _, cs⟩ => opensLine cs || opensBlock cs
  | _ => false

end Place

/-! ## The sweeps on their own -/

theorem closesComment_of_append (cs : List Char) {ds : List Char}
    (h : closesComment (cs ++ ds) = false) : closesComment ds = false := by
  induction cs with
  | nil => exact h
  | cons c cs ih =>
    refine ih ?_
    rw [List.cons_append, closesComment.eq_def] at h
    split at h <;> simp_all

/-- Where no block comment is closed, none is replaced. -/
theorem replaceBlockComments_of_not_closes {cs : List Char} (h : closesComment cs = false) :
    replaceBlockComments false cs = cs := by
  induction cs with
  | nil => rfl
  | cons c cs ih =>
    by_cases hmark : ∃ ds, c = '/' ∧ cs = '*' :: ds
    · obtain ⟨ds, rfl, rfl⟩ := hmark
      have hds : closesComment ds = false := closesComment_of_append ['/', '*'] h
      simp [replaceBlockComments, hds]
    · rw [replaceBlockComments, ih (closesComment_of_append [c] h)]
      exact fun ds hc hcs => hmark ⟨ds, hc, hcs⟩

theorem replaceBlockComments_cons {c : Char} {cs : List Char} (h : opensBlock (c :: cs) = false) :
    replaceBlockComments false (c :: cs) = c :: replaceBlockComments false cs := by
  by_cases hmark : ∃ ds, c = '/' ∧ cs = '*' :: ds
  · obtain ⟨ds, rfl, rfl⟩ := hmark
    have hds : closesComment ds = false := h
    simp [replaceBlockComments, hds, replaceBlockComments_of_not_closes hds]
  · rw [replaceBlockComments]
    exact fun ds hc hcs => hmark ⟨ds, hc, hcs⟩

theorem replaceBlockComments_of_opensBlock {cs : List Char} (h : opensBlock cs = true) :
    ∃ ds, replaceBlockComments false cs = ' ' :: ds := by
  unfold opensBlock at h
  split at h
  next ds => exact ⟨replaceBlockComments true ds, by rw [replaceBlockComments, if_pos h]⟩
  next => cases h

theorem dropLineComments_cons {c : Char} {cs : List Char} (h : opensLine (c :: cs) = false) :
    dropLineComments false (c :: cs) = c :: dropLineComments false cs := by
  rw [dropLineComments.eq_def]
  split <;> simp_all [opensLine]

theorem dropLineComments_true_cons {c : Char} (hc : c ≠ '\n') (cs : List Char) :
    dropLineComments true (c :: cs) = dropLineComments true cs := by
  rw [dropLineComments]
  exact hc

theorem dropWhile_of_not_end {c : Char} (hc : c ≠ '\n') (cs : List Char) :
    (c :: cs).dropWhile (· != '\n') = cs.dropWhile (· != '\n') := by
  simp [hc]

/-- A line comment vanishes up to the end of its line. -/
theorem dropLineComments_dropWhile (cs : List Char) :
    dropLineComments true (cs.dropWhile (· != '\n')) = dropLineComments true cs := by
  induction cs with
  | nil => rfl
  | cons c cs ih =>
    by_cases hc : c = '\n'
    · simp [hc]
    · rw [dropWhile_of_not_end hc, ih, dropLineComments_true_cons hc]

theorem dropLineComments_true_ne (cs ds : List Char) : dropLineComments true cs ≠ '/' :: ds := by
  induction cs with
  | nil => nofun
  | cons c cs ih =>
    by_cases hc : c = '\n'
    · simp [dropLineComments, hc]
    · rwa [dropLineComments_true_cons hc]

/-! ## Both sweeps -/

/-- What the sweeps make of the unread text at a place. They do not tell literals from code, and in
a line comment they have nothing to do before its end. -/
def swept : Mode → List Char → List Char
  | .lineComment, cs =>
    dropLineComments true (replaceBlockComments false (cs.dropWhile (· != '\n')))
  | .blockComment, cs => dropLineComments false (replaceBlockComments true cs)
  | _, cs => dropLineComments false (replaceBlockComments false cs)

theorem places_lineComment {c : Char} (hc : c ≠ '\n') (cs : List Char) :
    places .lineComment (c :: cs) = ⟨.lineComment, c :: cs⟩ :: places .lineComment cs := by
  simp [places, Mode.after, hc]

theorem closesComment_line {c : Char} {cs : List Char}
    (hmark : ∀ ds, c = '*' → cs = '/' :: ds → False)
    (h : closesComment ((c :: cs).takeWhile (· != '\n')) = true) :
    closesComment (cs.takeWhile (· != '\n')) = true := by
  by_cases hc : c = '\n'
  · simp [hc, closesComment] at h
  · have hline : (c :: cs).takeWhile (· != '\n') = c :: cs.takeWhile (· != '\n') := by simp [hc]
    rw [hline, closesComment] at h
    · exact h
    · intro ds hstar hslash
      cases cs with
      | nil => cases hslash
      | cons d cs =>
        rw [List.takeWhile_cons] at hslash
        split at hslash
        next => exact hmark cs hstar (by rw [(List.cons.inj hslash).1])
        next => cases hslash

/-- The block comments that open in a line comment end in it, so the sweep is in code at the end of
the line. It starts in code as well, or in a block comment that is closed on the line. -/
theorem swept_lineComment (inside : Bool) (cs : List Char)
    (hplaces : ∀ p ∈ places .lineComment cs, p.overlaps = false)
    (hinside : inside = true → closesComment (cs.takeWhile (· != '\n')) = true) :
    dropLineComments true (replaceBlockComments inside cs) = swept .lineComment cs := by
  simp only [swept]
  fun_induction replaceBlockComments inside cs with
  | case1 inside => rfl
  | case2 cs ih =>
    rw [places_lineComment (by decide), List.forall_mem_cons, places_lineComment (by decide),
      List.forall_mem_cons] at hplaces
    rw [dropWhile_of_not_end (by decide), dropWhile_of_not_end (by decide)]
    exact ih hplaces.2.2 nofun
  | case3 c cs hmark ih =>
    have hcloses := hinside rfl
    have hc : c ≠ '\n' := by
      rintro rfl
      simp [closesComment] at hcloses
    rw [places_lineComment hc, List.forall_mem_cons] at hplaces
    rw [dropWhile_of_not_end hc]
    refine ih hplaces.2 fun _ => ?_
    exact closesComment_line hmark hcloses
  | case4 cs hcloses ih =>
    rw [places_lineComment (by decide), List.forall_mem_cons, places_lineComment (by decide),
      List.forall_mem_cons] at hplaces
    rw [dropWhile_of_not_end (by decide), dropWhile_of_not_end (by decide),
      dropLineComments_true_cons (by decide)]
    refine ih hplaces.2.2 fun _ => ?_
    simpa [Place.overlaps, hcloses] using hplaces.1
  | case5 cs hcloses =>
    rw [Bool.not_eq_true] at hcloses
    have hrest : closesComment (cs.dropWhile (· != '\n')) = false := by
      refine closesComment_of_append (cs.takeWhile (· != '\n')) ?_
      rwa [List.takeWhile_append_dropWhile]
    rw [← dropLineComments_dropWhile, dropWhile_of_not_end (by decide),
      dropWhile_of_not_end (by decide), replaceBlockComments_of_not_closes hrest]
  | case6 c cs hmark ih =>
    by_cases hc : c = '\n'
    · simp [hc, replaceBlockComments]
    · rw [places_lineComment hc, List.forall_mem_cons] at hplaces
      rw [dropWhile_of_not_end hc, dropLineComments_true_cons hc]
      exact ih hplaces.2 nofun

theorem opensLine_replaceBlockComments {c : Char} {cs : List Char}
    (h : opensLine (c :: cs) = false) : opensLine (c :: replaceBlockComments false cs) = false := by
  cases cs with
  | nil => exact h
  | cons d cs =>
    cases hblock : opensBlock (d :: cs) with
    | true =>
      obtain ⟨ds, hds⟩ := replaceBlockComments_of_opensBlock hblock
      simp [hds, opensLine]
    | false =>
      rw [replaceBlockComments_cons hblock]
      unfold opensLine at h ⊢
      split <;> simp_all

theorem swept_ne_of_opensBlock {cs : List Char} (h : opensBlock cs = true) (ds : List Char) :
    swept .code cs ≠ '/' :: ds := by
  obtain ⟨es, hes⟩ := replaceBlockComments_of_opensBlock h
  simp only [swept]
  rw [hes, dropLineComments_cons rfl]
  simp

theorem swept_ne_slashes (cs ds : List Char) :
    swept .code ('/' :: '/' :: cs) ≠ '/' :: '/' :: ds := by
  simp only [swept]
  rw [replaceBlockComments_cons rfl]
  -- The second slash may open a block comment.
  cases hnext : opensBlock ('/' :: cs) with
  | true =>
    obtain ⟨es, hes⟩ := replaceBlockComments_of_opensBlock hnext
    rw [hes, dropLineComments_cons rfl, dropLineComments_cons rfl]
    simp
  | false =>
    rw [replaceBlockComments_cons hnext, dropLineComments]
    exact dropLineComments_true_ne _ _

/-- Where a comment opens, its mark does not stay. -/
theorem swept_ne_of_opens {cs ds : List Char} (h : (opensLine cs || opensBlock cs) = true)
    (hds : cs.take 2 <+: ds) : swept .code cs ≠ ds := by
  obtain ⟨back, rfl⟩ := hds
  rcases Bool.or_eq_true_iff.1 h with hline | hblock
  · unfold opensLine at hline
    split at hline
    next rest => exact swept_ne_slashes rest back
    next => cases hline
  · have hne := swept_ne_of_opensBlock hblock
    unfold opensBlock at hblock
    split at hblock
    next rest => exact hne _
    next => cases hblock

theorem swept_slashes {cs : List Char} (hopens : opensBlock ('/' :: cs) = false)
    (hplaces : ∀ p ∈ places .lineComment cs, p.overlaps = false) :
    swept .code ('/' :: '/' :: cs) = swept .lineComment cs := by
  rw [← swept_lineComment false cs hplaces nofun]
  simp only [swept]
  rw [replaceBlockComments_cons rfl, replaceBlockComments_cons hopens, dropLineComments]

theorem closesComment_of_closed {cs : List Char}
    (h : ∀ p ∈ places .blockComment cs, p.isClosed = true) : closesComment cs = true := by
  fun_induction closesComment cs with
  | case1 => simp [places, Place.isClosed] at h
  | case2 cs => rfl
  | case3 c cs hmark ih =>
    refine ih fun p hp => h p ?_
    rw [places]
    · exact List.mem_cons_of_mem _ hp
    · nofun
    · nofun
    · exact fun ds _ => hmark ds

/-! ## The sweeps along a scan -/

def Mode.isComment : Mode → Bool
  | lineComment | blockComment => true
  | _ => false

theorem Mode.isComment_after {mode : Mode} (h : mode.isComment = false) (c : Char) :
    (mode.after c).isComment = false := by
  cases mode with
  | code =>
    rw [after]
    cases Quote.ofChar? c <;> rfl
  | literal quote =>
    rw [after]
    split
    · rfl
    · split <;> rfl
  | escape quote => rfl
  | lineComment | blockComment => cases h

theorem swept_of_not_isComment {mode : Mode} (h : mode.isComment = false) (cs : List Char) :
    swept mode cs = swept .code cs := by
  cases mode with
  | code | literal | escape => rfl
  | lineComment | blockComment => cases h

theorem swept_cons {mode : Mode} (hmode : mode.isComment = false) {c : Char} {cs : List Char}
    (hblock : opensBlock (c :: cs) = false) (hline : opensLine (c :: cs) = false) :
    swept mode (c :: cs) = c :: swept (mode.after c) cs := by
  rw [swept_of_not_isComment hmode, swept_of_not_isComment (mode.isComment_after hmode c)]
  simp only [swept]
  rw [replaceBlockComments_cons hblock,
    dropLineComments_cons (opensLine_replaceBlockComments hline)]

theorem swept_lineComment_cons (c : Char) (cs : List Char) :
    swept .lineComment (c :: cs) =
      Place.shown ⟨.lineComment, c :: cs⟩ ++ swept (Mode.after .lineComment c) cs := by
  by_cases hc : c = '\n'
  · subst hc
    rfl
  · simp [swept, Place.shown, Mode.after, hc]

theorem swept_blockComment_cons {c : Char} {cs : List Char}
    (hend : ∀ ds, c = '*' → cs = '/' :: ds → False) :
    swept .blockComment (c :: cs) = swept .blockComment cs := by
  simp only [swept]
  rw [replaceBlockComments]
  exact hend

theorem shown_places_literal (quote : Quote) (cs : List Char) :
    cs.take 1 <+: (places (.literal quote) cs).flatMap Place.shown := by
  cases cs with
  | nil => simp
  | cons c cs => simp [places, Place.shown]

theorem eq_slash_of_opens {c : Char} {cs : List Char}
    (h : (opensLine (c :: cs) || opensBlock (c :: cs)) = true) : c = '/' := by
  refine Decidable.byContradiction fun hc => ?_
  simp [opensLine, opensBlock, hc] at h

/-- The sweeps and the scan agree from a place on if they do so behind it. -/
theorem iff_of_step (p : Place) {ps : List Place} {now rest : List Char}
    (hopens : p.opensComment = false) (hstep : now = p.shown ++ rest)
    (hrest : rest = ps.flatMap Place.shown ↔ ∀ q ∈ ps, q.opensComment = false) :
    now = (p :: ps).flatMap Place.shown ↔ ∀ q ∈ p :: ps, q.opensComment = false := by
  rw [hstep, List.flatMap_cons, List.append_cancel_left_eq, hrest, List.forall_mem_cons]
  exact ⟨fun h => ⟨hopens, h⟩, And.right⟩

/-- In a literal they agree only if no comment opens at the place. -/
theorem iff_of_literal {mode : Mode} {quote : Quote} {c : Char} {cs : List Char}
    (hmode : mode = .literal quote ∨ mode = .escape quote)
    (hrest : swept (mode.after c) cs = (places (mode.after c) cs).flatMap Place.shown ↔
      ∀ q ∈ places (mode.after c) cs, q.opensComment = false) :
    swept mode (c :: cs) =
        ((⟨mode, c :: cs⟩ : Place) :: places (mode.after c) cs).flatMap Place.shown ↔
      ∀ q ∈ (⟨mode, c :: cs⟩ : Place) :: places (mode.after c) cs, q.opensComment = false := by
  have hnot : mode.isComment = false := by
    rcases hmode with rfl | rfl <;> rfl
  have hshown : Place.shown ⟨mode, c :: cs⟩ = [c] := by
    rcases hmode with rfl | rfl <;> rfl
  have hopens : Place.opensComment ⟨mode, c :: cs⟩ =
      (opensLine (c :: cs) || opensBlock (c :: cs)) := by
    rcases hmode with rfl | rfl <;> rfl
  cases h : opensLine (c :: cs) || opensBlock (c :: cs) with
  | true =>
    -- The scan leaves the two characters of the mark, which the sweeps do not.
    have hafter : mode.after c = .literal quote := by
      rcases hmode with rfl | rfl
      · rw [eq_slash_of_opens h]
        cases quote <;> rfl
      · rfl
    refine iff_of_false ?_ fun hall => ?_
    · rw [swept_of_not_isComment hnot, List.flatMap_cons, hshown, hafter]
      exact swept_ne_of_opens h ((List.prefix_cons_inj c).2 (shown_places_literal quote cs))
    · have hhere := hall _ List.mem_cons_self
      rw [hopens, h] at hhere
      cases hhere
  | false =>
    rw [h] at hopens
    rw [Bool.or_eq_false_iff] at h
    refine iff_of_step ⟨mode, c :: cs⟩ hopens ?_ hrest
    rw [hshown]
    exact swept_cons hnot h.2 h.1

/-- Where block comments do not overlap line comments, the sweeps do what the scan does exactly if
literals hold no marks of comments. -/
theorem swept_eq_iff (mode : Mode) (cs : List Char)
    (hclosed : ∀ p ∈ places mode cs, p.isClosed = true)
    (hlines : ∀ p ∈ places mode cs, p.overlaps = false) :
    swept mode cs = (places mode cs).flatMap Place.shown ↔
      ∀ p ∈ places mode cs, p.opensComment = false := by
  fun_induction places mode cs with
  | case1 mode =>
    refine iff_of_true ?_ ?_
    · cases mode <;> rfl
    · cases mode <;> simp [Place.opensComment, opensLine, opensBlock]
  | case2 cs ih =>
    rw [List.forall_mem_cons] at hclosed hlines
    refine iff_of_step ⟨.code, '/' :: '*' :: cs⟩ rfl ?_ (ih hclosed.2 hlines.2)
    have hcloses : closesComment cs = true := closesComment_of_closed hclosed.2
    simp [swept, Place.shown, replaceBlockComments, hcloses, dropLineComments]
  | case3 cs ih =>
    rw [List.forall_mem_cons] at hclosed hlines
    refine iff_of_step ⟨.code, '/' :: '/' :: cs⟩ rfl ?_ (ih hclosed.2 hlines.2)
    exact swept_slashes hlines.1 hlines.2
  | case4 cs ih =>
    rw [List.forall_mem_cons] at hclosed hlines
    exact iff_of_step ⟨.blockComment, '*' :: '/' :: cs⟩ rfl rfl (ih hclosed.2 hlines.2)
  | case5 mode c cs hblock hline hend ih =>
    rw [List.forall_mem_cons] at hclosed hlines
    have hrest := ih hclosed.2 hlines.2
    cases mode with
    | code =>
      refine iff_of_step ⟨.code, c :: cs⟩ rfl ?_ hrest
      have hnoBlock : opensBlock (c :: cs) = false := by
        unfold opensBlock
        split <;> simp_all
      have hnoLine : opensLine (c :: cs) = false := by
        unfold opensLine
        split <;> simp_all
      have hshown : Place.shown ⟨.code, c :: cs⟩ = [c] := by
        rw [Place.shown.eq_def]
        split <;> simp_all
      rw [hshown]
      exact swept_cons rfl hnoBlock hnoLine
    | literal quote => exact iff_of_literal (.inl rfl) hrest
    | escape quote => exact iff_of_literal (.inr rfl) hrest
    | lineComment => exact iff_of_step _ rfl (swept_lineComment_cons c cs) hrest
    | blockComment =>
      refine iff_of_step ⟨.blockComment, c :: cs⟩ rfl ?_ hrest
      exact swept_blockComment_cons fun ds hc hcs => hend ds rfl hc hcs

/-- The text without comments, by one scan from left to right. -/
def withoutComments (text : List Char) : List Char := (places .code text).flatMap Place.shown

/-- **Comments are removed as a scan tells them, if they are free of each other and of literals.**
In a text with closed literals and block comments, let no block comment overlap a line comment. Then
the sweeps do what one scan does exactly if no literal holds the marks of a comment. A text with no
package clause is then stripped to what the scan leaves. -/
theorem stripNoise_eq_withoutComments {text : List Char}
    (hclosed : ∀ p ∈ places .code text, p.isClosed = true)
    (hlines : ∀ p ∈ places .code text, p.overlaps = false) :
    (dropLineComments false (replaceBlockComments false text) = withoutComments text ↔
      ∀ p ∈ places .code text, p.opensComment = false) ∧
    ((∀ p ∈ places .code text, p.opensComment = false) →
      (Cursor.ofText (withoutComments text)).find? packageClause? = none →
        stripNoise text = withoutComments text) := by
  have hiff := swept_eq_iff .code text hclosed hlines
  refine ⟨hiff, fun hliterals hpackage => ?_⟩
  have hswept : dropLineComments false (replaceBlockComments false text) = withoutComments text :=
    hiff.2 hliterals
  rw [stripNoise, hswept]
  exact Cursor.cut_barren (Cursor.barren_of_find?_eq_none hpackage)

/-- Quotes in literals and comments, and a comment with the marks of others. -/
theorem stripNoise_quotes :
    stripNoise "char q = '\"'; /* \"http://a\" */ s = \"\\\"/ */\"; // it's /* b */\n".toList =
      "char q = '\"';   s = \"\\\"/ */\"; \n".toList :=
  (stripNoise_eq_withoutComments (by decide) (by decide)).2 (by decide) (by decide)

/-- The address in a literal is cut off behind its first mark, and a pattern in a line comment takes
what follows up to the end of a block comment. -/
theorem stripNoise_ne_withoutComments :
    let address := "String url = \"http://example.com\";".toList
    let pattern := "// src/*.java\nint a; /* b */".toList
    ((∀ p ∈ places .code address, p.isClosed = true) ∧ withoutComments address = address ∧
      (Cursor.ofText address).find? packageClause? = none ∧
      stripNoise address = "String url = \"http:".toList) ∧
    (∀ p ∈ places .code pattern, p.isClosed = true) ∧
      withoutComments pattern = "\nint a;  ".toList ∧
      (Cursor.ofText (withoutComments pattern)).find? packageClause? = none ∧
      stripNoise pattern = [] := by
  decide

end ClassDiagram.Source
