import ClassDiagram.Proofs.Source.Comments
import ClassDiagram.Source.Block

/-!
# Blocks and balanced braces

The braces of a text outside its literals are counted along the text (`braceBalance`). The contents
of a block reach to the first place at which as many braces are closed as are open, and to the end
of the text if there is no such place (`IsBlock`); up to there the count stays positive, so it is
never lowered below zero. Such a text is unique, and it is what the search for the closing brace
gives (`stopsAt_blockFrom`).

Braces, quotes and backslashes are single bytes in UTF-8, and no other character holds one of these
bytes. The search may thus read bytes instead of characters and skip one byte behind a backslash: it
still ends at the same brace, between two characters (`block?_bytes`).
-/

namespace ClassDiagram.Source

open Text

/-! ## Balanced braces -/

/-- What a character adds to the number of open braces. In a literal it adds nothing. -/
def braceWeight : Mode → Char → Int
  | .code, c => if c = '{' then 1 else if c = '}' then -1 else 0
  | _, _ => 0

/-- Opening minus closing braces outside the literals of a text that begins in the given mode. -/
def braceBalance : Mode → List Char → Int
  | _, [] => 0
  | mode, c :: cs => braceWeight mode c + braceBalance (mode.after c) cs

/-- Of the text `cs`, which begins with `depth` open braces, `b` is the part in front of the first
character behind which none is open, or all of it if there is no such character. -/
structure StopsAt (depth : Int) (mode : Mode) (cs b : List Char) : Prop where
  positive : ∀ p, p <+: b → 0 < depth + braceBalance mode p
  stops : cs = b ∨ ∃ c rest, cs = b ++ c :: rest ∧ depth + braceBalance mode (b ++ [c]) = 0

namespace StopsAt

variable {depth : Int} {mode : Mode} {c : Char} {cs b b' : List Char}

theorem nil (h : 0 < depth) : StopsAt depth mode [] [] where
  positive p hp := by
    rw [List.prefix_nil.1 hp]
    simpa [braceBalance] using h
  stops := .inl rfl

/-- The character closes the last open brace. -/
theorem here (h : 0 < depth) (hc : depth + braceWeight mode c = 0) (cs : List Char) :
    StopsAt depth mode (c :: cs) [] where
  positive := (nil h).positive
  stops := .inr ⟨c, cs, rfl, by simpa [braceBalance] using hc⟩

/-- The character leaves a brace open. -/
theorem cons {depth' : Int} {mode' : Mode} (h : 0 < depth)
    (hdepth : depth + braceWeight mode c = depth') (hmode : mode.after c = mode')
    (hcs : StopsAt depth' mode' cs b) : StopsAt depth mode (c :: cs) (c :: b) := by
  subst hdepth hmode
  constructor
  · intro p hp
    rcases List.prefix_cons_iff.1 hp with rfl | ⟨q, rfl, hq⟩
    · simpa [braceBalance] using h
    · rw [braceBalance, ← Int.add_assoc]
      exact hcs.positive q hq
  · rcases hcs.stops with rfl | ⟨d, rest, rfl, hd⟩
    · exact .inl rfl
    · refine .inr ⟨d, rest, rfl, ?_⟩
      rw [List.cons_append, braceBalance, ← Int.add_assoc]
      exact hd

theorem front (h : StopsAt depth mode cs b) : b <+: cs := by
  rcases h.stops with rfl | ⟨c, rest, rfl, -⟩
  · exact List.prefix_rfl
  · exact List.prefix_append _ _

theorem eq_of_front (h : StopsAt depth mode cs b) (h' : StopsAt depth mode cs b')
    (hb : b <+: b') : b = b' := by
  obtain ⟨tail, rfl⟩ := hb
  cases tail with
  | nil => exact (List.append_nil b).symm
  | cons d tail =>
    have hfront := h'.front
    rcases h.stops with rfl | ⟨c, rest, rfl, hc⟩
    · have hlength := hfront.length_le
      simp only [List.length_append, List.length_cons] at hlength
      omega
    · -- the longer text holds the character at which the shorter one stops
      obtain ⟨rfl, -⟩ := List.cons_prefix_cons.1 ((List.prefix_append_right_inj b).1 hfront)
      have hpositive := h'.positive (b ++ [d]) ⟨tail, by simp⟩
      omega

theorem unique (h : StopsAt depth mode cs b) (h' : StopsAt depth mode cs b') : b = b' := by
  rcases List.prefix_or_prefix_of_prefix h.front h'.front with hb | hb
  · exact h.eq_of_front h' hb
  · exact (h'.eq_of_front h hb).symm

end StopsAt

/-! ## The search for the closing brace -/

/-- A search from `depth` open braces, in a literal that the quote closes or in none, passes `b`. -/
inductive Search : (depth : Nat) → (quote? : Option Quote) → (cs b : List Char) → Prop
  | done {depth : Nat} {quote? : Option Quote} : Search depth quote? [] []
  | close {cs : List Char} : Search 1 none ('}' :: cs) []
  | opening {depth : Nat} {cs b : List Char} (h : Search (depth + 1) none cs b) :
      Search depth none ('{' :: cs) ('{' :: b)
  | closing {depth : Nat} {cs b : List Char} (h : Search (depth + 1) none cs b) :
      Search (depth + 2) none ('}' :: cs) ('}' :: b)
  | enter {depth : Nat} {quote : Quote} {cs b : List Char} (h : Search depth (some quote) cs b) :
      Search depth none (quote.char :: cs) (quote.char :: b)
  | code {depth : Nat} {c : Char} {cs b : List Char} (hopening : c ≠ '{') (hclosing : c ≠ '}')
      (hquote : Quote.ofChar? c = none) (h : Search depth none cs b) :
      Search depth none (c :: cs) (c :: b)
  | leave {depth : Nat} {quote : Quote} {cs b : List Char} (h : Search depth none cs b) :
      Search depth (some quote) (quote.char :: cs) (quote.char :: b)
  | escape {depth : Nat} {quote : Quote} {c : Char} {cs b : List Char}
      (h : Search depth (some quote) cs b) :
      Search depth (some quote) ('\\' :: c :: cs) ('\\' :: c :: b)
  | backslash {depth : Nat} {quote : Quote} : Search depth (some quote) ['\\'] ['\\']
  | literal {depth : Nat} {quote : Quote} {c : Char} {cs b : List Char} (hquote : c ≠ quote.char)
      (hbackslash : c ≠ '\\') (h : Search depth (some quote) cs b) :
      Search depth (some quote) (c :: cs) (c :: b)

theorem search_blockFrom {depth : Nat} (hdepth : 0 < depth) (quote? : Option Quote)
    (cs : List Char) : Search depth quote? cs (blockFrom depth (quote?.map Quote.char) cs) := by
  generalize hmark : quote?.map Quote.char = mark?
  fun_induction blockFrom depth mark? cs generalizing quote? with
  | case1 => exact .done
  | case2 depth mark c cs ih =>
    obtain ⟨quote, rfl, rfl⟩ := Option.map_eq_some_iff.1 hmark
    exact .escape (ih hdepth (some quote) rfl)
  | case3 depth mark c cs hbackslash ih =>
    obtain ⟨quote, rfl, rfl⟩ := Option.map_eq_some_iff.1 hmark
    by_cases hc : c = quote.char
    · subst hc
      simpa using Search.leave (ih hdepth none (by simp))
    · by_cases hc' : c = '\\'
      · subst hc'
        cases cs with
        | nil => simpa [blockFrom] using Search.backslash
        | cons d ds => exact (hbackslash d ds rfl rfl).elim
      · simpa [hc] using Search.literal hc hc' (ih hdepth (some quote) (by simp [hc]))
  | case4 depth c cs hc ih =>
    obtain rfl := Option.map_eq_none_iff.1 hmark
    obtain rfl := eq_of_beq hc
    exact .opening (ih (Nat.succ_pos depth) none rfl)
  | case5 depth c cs _ hc hlast =>
    obtain rfl := Option.map_eq_none_iff.1 hmark
    obtain rfl := eq_of_beq hc
    obtain rfl : depth = 1 := by omega
    exact .close
  | case6 depth c cs _ hc hmore ih =>
    obtain rfl := Option.map_eq_none_iff.1 hmark
    obtain rfl := eq_of_beq hc
    obtain ⟨depth, rfl⟩ : ∃ n, depth = n + 2 := ⟨depth - 2, by omega⟩
    exact .closing (ih (Nat.succ_pos depth) none rfl)
  | case7 depth c cs _ _ hc ih =>
    obtain rfl := Option.map_eq_none_iff.1 hmark
    obtain ⟨quote, rfl⟩ : ∃ quote : Quote, quote.char = c := by
      rcases Bool.or_eq_true_iff.1 hc with hc | hc
      · exact ⟨.double, (eq_of_beq hc).symm⟩
      · exact ⟨.single, (eq_of_beq hc).symm⟩
    exact .enter (ih hdepth (some quote) rfl)
  | case8 depth c cs hopening hclosing hc ih =>
    obtain rfl := Option.map_eq_none_iff.1 hmark
    simp only [beq_iff_eq, Bool.or_eq_true, not_or] at hopening hclosing hc
    exact .code hopening hclosing (by simp [Quote.ofChar?, hc]) (ih hdepth none rfl)

/-- The mode of a search. -/
def Mode.ofQuote? : Option Quote → Mode
  | none => .code
  | some quote => .literal quote

theorem Quote.char_ne_backslash (quote : Quote) : '\\' ≠ quote.char := by
  cases quote <;> decide

theorem Mode.after_quote (quote : Quote) : Mode.code.after quote.char = .literal quote := by
  cases quote <;> rfl

theorem Search.stopsAt {depth : Nat} {quote? : Option Quote} {cs b : List Char}
    (h : Search depth quote? cs b) (hdepth : 0 < depth) :
    StopsAt depth (.ofQuote? quote?) cs b := by
  have hpositive : (0 : Int) < depth := Int.natCast_pos.2 hdepth
  induction h with
  | done => exact .nil hpositive
  | close => exact .here hpositive rfl _
  | opening _ ih => exact .cons hpositive rfl rfl (ih (by omega) (by omega))
  | closing _ ih =>
    refine .cons hpositive ?_ rfl (ih (by omega) (by omega))
    have hlower : braceWeight .code '}' = -1 := rfl
    rw [Mode.ofQuote?, hlower]
    omega
  | @enter _ quote _ _ _ ih =>
    refine .cons hpositive ?_ (Mode.after_quote quote) (ih hdepth hpositive)
    cases quote <;> exact Int.add_zero _
  | code hopening hclosing hquote _ ih =>
    refine .cons hpositive ?_ ?_ (ih hdepth hpositive)
    · simp [Mode.ofQuote?, braceWeight, hopening, hclosing]
    · simp [Mode.ofQuote?, Mode.after, hquote]
  | @leave _ quote _ _ _ ih =>
    have hmode : (Mode.literal quote).after quote.char = .code := by simp [Mode.after]
    exact .cons hpositive (Int.add_zero _) hmode (ih hdepth hpositive)
  | @escape _ quote _ _ _ _ ih =>
    have hmode : (Mode.literal quote).after '\\' = .escape quote := by
      simp [Mode.after, quote.char_ne_backslash]
    exact .cons hpositive (Int.add_zero _) hmode
      (.cons hpositive (Int.add_zero _) rfl (ih hdepth hpositive))
  | backslash => exact .cons hpositive (Int.add_zero _) rfl (.nil hpositive)
  | literal hquote hbackslash _ ih =>
    exact .cons hpositive (Int.add_zero _) (by simp [Mode.ofQuote?, Mode.after, hquote, hbackslash])
      (ih hdepth hpositive)

/-! ## Bytes -/

/-- The bytes of a character in UTF-8, each as the character with its code. -/
def byteChars (c : Char) : List Char :=
  (String.utf8EncodeChar c).map fun byte => Char.ofNat byte.toNat

/-- The bytes of a text. -/
def bytes (cs : List Char) : List Char := cs.flatMap byteChars

theorem bytes_cons (c : Char) (cs : List Char) : bytes (c :: cs) = byteChars c ++ bytes cs :=
  List.flatMap_cons

theorem toNat_ofNat_byte (byte : UInt8) : (Char.ofNat byte.toNat).toNat = byte.toNat := by
  have hbyte := byte.toNat_lt
  have hvalid : byte.toNat.isValidChar := .inl (by omega)
  rw [Char.ofNat, dif_pos hvalid]
  rfl

theorem utf8EncodeChar_ascii {c : Char} (h : c.toNat ≤ 127) :
    String.utf8EncodeChar c = [UInt8.ofNat c.toNat] :=
  if_pos h

/-- Every byte of a longer encoding is beyond the codes of single bytes. -/
theorem le_of_mem_utf8EncodeChar {c : Char} (h : ¬ c.toNat ≤ 127) :
    ∀ byte ∈ String.utf8EncodeChar c, 128 ≤ byte.toNat := by
  have hlong : ¬ c.val.toNat ≤ 127 := h
  simp only [String.utf8EncodeChar, hlong, if_false]
  split
  · simp
    omega
  · split <;> · simp; omega

/-- The bytes of a character are the character itself, or no characters of one byte. -/
theorem byteChars_cases (c : Char) :
    byteChars c = [c] ∨ ∀ d ∈ byteChars c, 128 ≤ d.toNat := by
  unfold byteChars
  by_cases h : c.toNat ≤ 127
  · left
    have hcode : (UInt8.ofNat c.toNat).toNat = c.toNat :=
      UInt8.toNat_ofNat_of_lt' (Nat.lt_of_le_of_lt h (by decide))
    rw [utf8EncodeChar_ascii h, List.map_singleton, hcode, Char.ofNat_toNat]
  · right
    intro d hd
    obtain ⟨byte, hbyte, rfl⟩ := List.mem_map.1 hd
    rw [toNat_ofNat_byte]
    exact le_of_mem_utf8EncodeChar h byte hbyte

theorem byteChars_ne_nil (c : Char) : byteChars c ≠ [] := by
  have hlength := String.length_utf8EncodeChar c
  have hpos := c.utf8Size_pos
  intro hnil
  rw [List.map_eq_nil_iff.1 hnil, List.length_nil] at hlength
  omega

/-- What sets a character apart from one of a single byte sets its bytes apart from it too. -/
theorem ne_of_mem_byteChars {c d e : Char} (hd : d ∈ byteChars c) (he : e.toNat < 128)
    (hc : c ≠ e) : d ≠ e := by
  rcases byteChars_cases c with hself | hhigh
  · rw [hself] at hd
    rwa [List.mem_singleton.1 hd]
  · rintro rfl
    exact absurd (hhigh d hd) (by omega)

theorem le_of_mem_tail_byteChars {c d : Char} (hd : d ∈ (byteChars c).tail) : 128 ≤ d.toNat := by
  rcases byteChars_cases c with hself | hhigh
  · rw [hself] at hd
    cases hd
  · exact hhigh d (List.mem_of_mem_tail hd)

theorem Search.append_code {depth : Nat} {v cs b : List Char} (h : Search depth none cs b)
    (hv : ∀ d ∈ v, d ≠ '{' ∧ d ≠ '}' ∧ Quote.ofChar? d = none) :
    Search depth none (v ++ cs) (v ++ b) := by
  induction v with
  | nil => exact h
  | cons d v ih =>
    obtain ⟨⟨hopening, hclosing, hquote⟩, hv⟩ := List.forall_mem_cons.1 hv
    exact .code hopening hclosing hquote (ih hv)

theorem Search.append_literal {depth : Nat} {quote : Quote} {v cs b : List Char}
    (h : Search depth (some quote) cs b) (hv : ∀ d ∈ v, d ≠ quote.char ∧ d ≠ '\\') :
    Search depth (some quote) (v ++ cs) (v ++ b) := by
  induction v with
  | nil => exact h
  | cons d v ih =>
    obtain ⟨⟨hquote, hbackslash⟩, hv⟩ := List.forall_mem_cons.1 hv
    exact .literal hquote hbackslash (ih hv)

theorem Quote.ofChar?_eq_none_iff {c : Char} :
    Quote.ofChar? c = none ↔ ∀ quote : Quote, c ≠ quote.char := by
  constructor
  · rintro hnone quote rfl
    cases quote <;> cases hnone
  · intro hne
    have hdouble : c ≠ '"' := hne .double
    have hsingle : c ≠ '\'' := hne .single
    simp [Quote.ofChar?, hdouble, hsingle]

theorem Quote.char_lt (quote : Quote) : quote.char.toNat < 128 := by
  cases quote <;> decide

theorem Quote.byteChars_char (quote : Quote) : byteChars quote.char = [quote.char] := by
  cases quote <;> rfl

/-- A search finds its way on the bytes of a text, too. -/
theorem Search.bytes {depth : Nat} {quote? : Option Quote} {cs b : List Char}
    (h : Search depth quote? cs b) : Search depth quote? (bytes cs) (Source.bytes b) := by
  have hopening : '{'.toNat < 128 := by decide
  have hclosing : '}'.toNat < 128 := by decide
  have hbackslash : '\\'.toNat < 128 := by decide
  induction h with
  | done => exact .done
  | close => exact .close
  | opening _ ih => exact .opening ih
  | closing _ ih => exact .closing ih
  | @enter _ quote _ _ _ ih =>
    rw [bytes_cons, bytes_cons, quote.byteChars_char]
    exact .enter ih
  | code hopen hclose hquote _ ih =>
    rw [bytes_cons, bytes_cons]
    refine ih.append_code fun d hd => ⟨ne_of_mem_byteChars hd hopening hopen,
      ne_of_mem_byteChars hd hclosing hclose, ?_⟩
    rw [Quote.ofChar?_eq_none_iff] at hquote ⊢
    exact fun quote => ne_of_mem_byteChars hd quote.char_lt (hquote quote)
  | @leave _ quote _ _ _ ih =>
    rw [bytes_cons, bytes_cons, quote.byteChars_char]
    exact .leave ih
  | @escape _ quote c _ _ _ ih =>
    -- one byte is skipped, and what is left of a longer character is ordinary text
    obtain ⟨first, others, hfirst⟩ := List.exists_cons_of_ne_nil (byteChars_ne_nil c)
    have hothers : ∀ d ∈ others, d ≠ quote.char ∧ d ≠ '\\' := by
      intro d hd
      have hhigh : 128 ≤ d.toNat := le_of_mem_tail_byteChars (by rwa [hfirst])
      have hlow := quote.char_lt
      constructor <;> rintro rfl <;> omega
    rw [bytes_cons, bytes_cons, bytes_cons, bytes_cons, hfirst]
    exact .escape (ih.append_literal hothers)
  | backslash => exact .backslash
  | @literal _ quote _ _ _ hquote hback _ ih =>
    rw [bytes_cons, bytes_cons]
    exact ih.append_literal fun d hd => ⟨ne_of_mem_byteChars hd quote.char_lt hquote,
      ne_of_mem_byteChars hd hbackslash hback⟩

/-! ## Blocks -/

/-- `b` is what stands between the brace that opens the text `cs` and the first place at which as
many braces are closed as are open, or all that follows the opening brace if there is no such
place. Up to there a brace is open. -/
structure IsBlock (cs b : List Char) : Prop where
  positive : ∀ p, p <+: b → 0 < braceBalance .code ('{' :: p)
  stops : cs = '{' :: b ∨
    ∃ c rest, cs = '{' :: b ++ c :: rest ∧ braceBalance .code ('{' :: b ++ [c]) = 0

theorem isBlock_cons_iff {cs b : List Char} :
    IsBlock ('{' :: cs) b ↔ StopsAt 1 .code cs b := by
  have hbalance : ∀ p, braceBalance .code ('{' :: p) = 1 + braceBalance .code p := fun _ => rfl
  constructor
  · rintro ⟨hpositive, hstops⟩
    exact ⟨hpositive, by simpa [hbalance] using hstops⟩
  · rintro ⟨hpositive, hstops⟩
    exact ⟨hpositive, by simpa [hbalance] using hstops⟩

theorem IsBlock.exists_append {cs b : List Char} (h : IsBlock cs b) :
    ∃ rest, cs = '{' :: (b ++ rest) := by
  rcases h.stops with rfl | ⟨c, rest, rfl, -⟩
  · exact ⟨[], by simp⟩
  · exact ⟨c :: rest, rfl⟩

theorem stopsAt_blockFrom (cs : List Char) : StopsAt 1 .code cs (blockFrom 1 none cs) :=
  (search_blockFrom Nat.one_pos none cs).stopsAt Nat.one_pos

theorem block?_eq_none_iff {k : Cursor} : block? k = none ↔ k.rest.head? ≠ some '{' := by
  unfold block?
  split
  next hrest => simp [hrest]
  next hrest =>
    refine iff_of_true rfl fun hhead => ?_
    obtain ⟨cs, hcs⟩ := List.head?_eq_some_iff.1 hhead
    exact hrest cs hcs

theorem block?_eq_some_iff {k : Cursor} {b : List Char} :
    block? k = some b ↔ IsBlock k.rest b := by
  unfold block?
  split
  next cs hrest =>
    rw [hrest, isBlock_cons_iff, Option.some.injEq]
    constructor
    · rintro rfl
      exact stopsAt_blockFrom cs
    · exact (stopsAt_blockFrom cs).unique
  next hrest =>
    refine iff_of_false (by simp) fun hblock => ?_
    obtain ⟨rest, hcs⟩ := hblock.exists_append
    exact hrest (b ++ rest) hcs

theorem IsBlock.bytes {cs b : List Char} (h : IsBlock cs b) :
    IsBlock (bytes cs) (Source.bytes b) := by
  obtain ⟨rest, rfl⟩ := h.exists_append
  have hsearch := search_blockFrom Nat.one_pos none (b ++ rest)
  rw [Option.map_none, (stopsAt_blockFrom _).unique (isBlock_cons_iff.1 h)] at hsearch
  exact isBlock_cons_iff.2 (hsearch.bytes.stopsAt Nat.one_pos)

theorem head?_bytes_ne {cs : List Char} (h : cs.head? ≠ some '{') :
    (bytes cs).head? ≠ some '{' := by
  cases cs with
  | nil => simp [bytes]
  | cons c cs =>
    have hc : c ≠ '{' := by simpa using h
    intro hhead
    obtain ⟨d, ds, hd⟩ := List.exists_cons_of_ne_nil (byteChars_ne_nil c)
    rw [bytes_cons, hd, List.cons_append, List.head?_cons, Option.some.injEq] at hhead
    exact ne_of_mem_byteChars (hd ▸ List.mem_cons_self) (by decide) hc hhead

/-- The block is found on the bytes, too. -/
theorem block?_bytes (k : Cursor) : block? (.ofText (bytes k.rest)) = (block? k).map bytes := by
  cases hblock : block? k with
  | none => exact block?_eq_none_iff.2 (head?_bytes_ne (block?_eq_none_iff.1 hblock))
  | some b => exact block?_eq_some_iff.2 (block?_eq_some_iff.1 hblock).bytes

/-- **A block reaches to the brace that closes it.** At every position of a text between two
characters: there is no block exactly if no brace opens here; a block is exactly what stands in
front of the first place at which the braces outside literals are balanced, or all the rest; both
its ends are positions between two characters; and reading bytes in place of characters leads to the
same block. -/
theorem block_balanced (before rest : List Char) :
    ∃ k, Cursor.atOffset? (before ++ rest) (byteSize before) = some k ∧
      (block? k = none ↔ rest.head? ≠ some '{') ∧
      (∀ b, block? k = some b ↔ IsBlock rest b) ∧
      (∀ b, block? k = some b → ∃ start stop,
        Cursor.atOffset? (before ++ rest) (byteSize before + 1) = some start ∧
        Cursor.atOffset? (before ++ rest) (byteSize before + 1 + byteSize b) = some stop ∧
        start.upTo stop = b) ∧
      block? (.ofText (bytes rest)) = (block? k).map bytes := by
  refine ⟨.between before rest, Cursor.atOffset?_append before rest, block?_eq_none_iff,
    fun b => block?_eq_some_iff, fun b hb => ?_, block?_bytes (.between before rest)⟩
  obtain ⟨tail, htail⟩ := (block?_eq_some_iff.1 hb).exists_append
  rw [Cursor.rest_between] at htail
  subst htail
  have hstart : byteSize (before ++ ['{']) = byteSize before + 1 := byteSize_append before ['{']
  have hstop : byteSize (before ++ ['{'] ++ b) = byteSize before + 1 + byteSize b := by
    rw [byteSize_append, hstart]
  refine ⟨.between (before ++ ['{']) (b ++ tail), .between (before ++ ['{'] ++ b) tail, ?_, ?_,
    Cursor.upTo_between _ _ _⟩
  · rw [← hstart, ← Cursor.atOffset?_append]
    simp
  · rw [← hstop, ← Cursor.atOffset?_append]
    simp

end ClassDiagram.Source
