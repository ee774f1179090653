import Art.Machine.LittleEndian
import Art.Runtime.Gc.Accounting.SpaceBitmap

/-!
# The card table

A `CardTable` (`card_table.h`) keeps one byte, a card, for each `kCardSize` bytes of the
heap, at `biased_begin_ + (addr >> kCardShift)`. `Create` places `biased_begin_` where its
low byte is `kCardDirty`, so the cards of a word of memory are the cards `8 * word` to
`8 * word + 7`.

**`ModifyCardsAtomic`** modifies the cards of a range byte by byte at its unaligned ends and
a word at a time between them, and skips a clean word without asking the visitor. With no
other thread writing cards, it sets each card that it modifies to the visitor's value of
it and reports each change once (`modifyCardsAtomic_eq`); the cards it modifies are those
of the range outside the clean words between the ends (`modifiedCards`). A clean word in
the middle of the range therefore keeps its cards even when the visitor maps a clean card
to another value (`modifyCardsAtomic_keeps_clean_word`).

**`Scan`** reads the cards of a range the same way, skipping clean words, and visits the
marked objects of each card whose value is at least `minimum_age`. With `minimum_age` at
least 1 it visits, card after card, the objects of the cards it reads (`scan_eq`,
`scannedCards`): the cards of the range, each once, when the loop over the unaligned cards
at the start reaches an aligned card (`scan_of_reaches_aligned`). A range that starts at an
unaligned card and ends within the same word is read a second time from the first card of
the word, which the loop over the cards at the end starts from (`scan_rescans_within_word`).

Cards are bytes of a memory addressed by their own addresses; a failed `DCHECK` is `none`.
-/

set_option autoImplicit false

namespace Art.Runtime.Gc.Accounting

open Art.Machine

/-- `kCardShift`. -/
def kCardShift : Nat := 10

/-- `kCardSize`: `1 << kCardShift`. -/
def kCardSize : Nat := 2 ^ kCardShift

/-- `kCardClean`. -/
def kCardClean : BitVec 8 := 0

/-- `kCardDirty`. -/
def kCardDirty : BitVec 8 := 0x70

/-- `AlignUp(x, n)`: `RoundDown(x + n - 1, n)`. -/
def alignUp (x n : Nat) : Nat := (x + n - 1) / n * n

/-- A `CardTable`: the bytes of memory by address, `biased_begin_`, and the valid cards from
`mem_map_->Begin() + offset_` below `mem_map_->End()`. -/
structure CardTable where
  memory : Nat → BitVec 8
  biasedBegin : Nat
  cardsBegin : Nat
  cardsEnd : Nat
  /-- `Create` displaces `biased_begin_` until its low byte is `kCardDirty`. -/
  biasedByte : biasedBegin % 256 = kCardDirty.toNat
  /-- `biased_begin_` is the card of address 0, at or below the first card. -/
  biasedBelow : biasedBegin ≤ cardsBegin

namespace CardTable

/-- `CardFromAddr`. -/
def cardFromAddr (t : CardTable) (addr : Nat) : Nat := t.biasedBegin + (addr >>> kCardShift)

/-- `IsValidCard`. -/
def isValidCard (t : CardTable) (card : Nat) : Bool := decide (t.cardsBegin ≤ card ∧ card < t.cardsEnd)

/-- `AddrFromCard`, whose `DCHECK` asks for a valid card. -/
def addrFromCard (t : CardTable) (card : Nat) : Option Nat :=
  if t.isValidCard card then some ((card - t.biasedBegin) <<< kCardShift) else none

/-- The card of the start of a range comes no later than the card of its end rounded up. -/
theorem cardFromAddr_le_alignUp (t : CardTable) {scanBegin scanEnd : Nat} (ordered : scanBegin ≤ scanEnd) :
    t.cardFromAddr scanBegin ≤ t.cardFromAddr (alignUp scanEnd kCardSize) := by
  unfold cardFromAddr alignUp kCardSize kCardShift
  simp only [Nat.shiftRight_eq_div_pow]
  exact Nat.add_le_add_left (Nat.div_le_div_right (by omega)) _

/-- The eight cards of a word of memory are clean. -/
def IsClean (memory : Nat → BitVec 8) (word : Nat) : Prop := ∀ i < 8, memory (8 * word + i) = kCardClean

instance (memory : Nat → BitVec 8) (word : Nat) : Decidable (IsClean memory word) :=
  inferInstanceAs (Decidable (∀ i < 8, memory (8 * word + i) = kCardClean))

/-! ## `ModifyCardsAtomic` -/

/-- The cards as `ModifyCardsAtomic` leaves them, and the calls of `modified` so far, each
with the card, its old value and its new value. -/
structure Modification where
  memory : Nat → BitVec 8
  modified : List (Nat × BitVec 8 × BitVec 8)

/-- One card at an end of the range: the visitor's value stored by `byte_cas`, which
succeeds when no other thread writes the card, and `modified` called if it changed. -/
def modifyCard (visitor : BitVec 8 → BitVec 8) (s : Modification) (card : Nat) : Modification :=
  let expected := s.memory card
  let newValue := visitor expected
  if expected ≠ newValue then ⟨Function.update s.memory card newValue, s.modified ++ [(card, expected, newValue)]⟩
  else s

/-- One word of cards between the ends of the range, read as `expected_word` and as its
`expected_bytes`: a clean word is left alone; otherwise the visitor's value of each byte,
stored by a compare-and-swap of the word, and `modified` called for each byte that
changed. -/
def modifyWord (visitor : BitVec 8 → BitVec 8) (s : Modification) (word : Nat) : Modification :=
  let expectedWord : BitVec 64 := sumLittleEndian 64 (fun i => s.memory (8 * word + i)) 8
  if expectedWord = 0 then s
  else
    let expectedBytes := littleEndianByte expectedWord
    let newBytes := fun i => visitor (expectedBytes i)
    let newWord : BitVec 64 := sumLittleEndian 64 newBytes 8
    ⟨fun card => if 8 * word ≤ card ∧ card < 8 * word + 8 then littleEndianByte newWord (card - 8 * word) else s.memory card,
      s.modified ++ ((List.range 8).filter fun i => expectedBytes i != newBytes i).map fun i =>
        (8 * word + i, expectedBytes i, newBytes i)⟩

/-- `ModifyCardsAtomic`: the card table after, and the calls of `modified` in order. -/
def modifyCardsAtomic (t : CardTable) (visitor : BitVec 8 → BitVec 8) (scanBegin scanEnd : Nat) :
    Option (CardTable × List (Nat × BitVec 8 × BitVec 8)) :=
  let cardCur := t.cardFromAddr scanBegin
  let cardEnd := t.cardFromAddr (alignUp scanEnd kCardSize)
  if ¬(t.isValidCard cardCur ∧ t.isValidCard cardEnd) then none
  else
    let card := fun c s => some (modifyCard visitor s c)
    -- the unaligned cards at the start, then those at the end, from the last backwards
    (whileUp (fun c => c % 8 != 0) card cardEnd cardCur ⟨t.memory, []⟩).bind fun head =>
    (whileDown (fun c => c % 8 != 0) card head.1 cardEnd head.2).bind fun tail =>
    -- the words between, `word_cur` counted in words
    (whileUp (fun _ => true) (fun word s => some (modifyWord visitor s word)) (tail.1 / 8) (head.1 / 8) tail.2).map
      fun words => ({ t with memory := words.2.memory }, words.2.modified)

/-- Where the loop over the unaligned cards at the start of a range of cards stops: at the
first aligned card, or at the end. -/
def headEnd (cardBegin cardEnd : Nat) : Nat := min (alignUp cardBegin 8) cardEnd

/-- Where the loop over the unaligned cards at the end of a range of cards stops, going
backwards: at the last aligned card, or where the first loop stopped. -/
def tailBegin (cardBegin cardEnd : Nat) : Nat := max (cardEnd / 8 * 8) (headEnd cardBegin cardEnd)

/-- The cards of the words between the unaligned ends of a range of cards that are not clean,
in order. -/
def dirtyWordCards (memory : Nat → BitVec 8) (cardBegin cardEnd : Nat) : List Nat :=
  ((List.range' (headEnd cardBegin cardEnd / 8) (tailBegin cardBegin cardEnd / 8 - headEnd cardBegin cardEnd / 8)).filter
    fun word => !decide (IsClean memory word)).flatMap fun word => List.range' (8 * word) 8

/-- The cards `ModifyCardsAtomic` modifies, in order, for the cards from `cardBegin` below
`cardEnd`: those up to the first aligned card, those from the last aligned card backwards,
and the cards of each word between that is not clean. -/
def modifiedCards (memory : Nat → BitVec 8) (cardBegin cardEnd : Nat) : List Nat :=
  List.range' cardBegin (headEnd cardBegin cardEnd - cardBegin) ++
    (List.range' (tailBegin cardBegin cardEnd) (cardEnd - tailBegin cardBegin cardEnd)).reverse ++
    dirtyWordCards memory cardBegin cardEnd

/-! ## The loops over a range of cards -/

/-- The words between the two loops over unaligned cards lie between where they stop. -/
theorem word_between {cardBegin cardEnd word : Nat} (low : headEnd cardBegin cardEnd / 8 ≤ word)
    (high : word < tailBegin cardBegin cardEnd / 8) :
    headEnd cardBegin cardEnd ≤ 8 * word ∧ 8 * word + 8 ≤ tailBegin cardBegin cardEnd := by
  unfold tailBegin headEnd alignUp at *
  omega

theorem mem_dirtyWordCards {cardBegin cardEnd : Nat} (memory : Nat → BitVec 8) (c : Nat) :
    c ∈ dirtyWordCards memory cardBegin cardEnd ↔
      headEnd cardBegin cardEnd ≤ c ∧ c < tailBegin cardBegin cardEnd ∧ ¬IsClean memory (c / 8) := by
  simp only [dirtyWordCards, List.mem_flatMap, List.mem_filter, List.mem_range'_1, Bool.not_eq_true',
    decide_eq_false_iff_not]
  constructor
  · rintro ⟨word, ⟨⟨low, high⟩, dirty⟩, inWord⟩
    have between := word_between low (by omega)
    have same : c / 8 = word := by omega
    exact ⟨by omega, by omega, same ▸ dirty⟩
  · rintro ⟨low, high, dirty⟩
    refine ⟨c / 8, ⟨⟨Nat.div_le_div_right low, ?_⟩, dirty⟩, by omega, by omega⟩
    unfold tailBegin headEnd alignUp at *
    omega

section Loops

variable {cardBegin cardEnd : Nat} (ordered : cardBegin ≤ cardEnd)
include ordered

theorem headEnd_bounds : cardBegin ≤ headEnd cardBegin cardEnd ∧ headEnd cardBegin cardEnd ≤ cardEnd := by
  unfold headEnd alignUp
  omega

theorem tailBegin_bounds :
    headEnd cardBegin cardEnd ≤ tailBegin cardBegin cardEnd ∧ tailBegin cardBegin cardEnd ≤ cardEnd := by
  have := headEnd_bounds ordered
  unfold tailBegin
  omega

/-- The loop over the unaligned cards at the start of a range. -/
theorem whileUp_unaligned {State : Type} (body : Nat → State → Option State) (state : State) :
    whileUp (fun c => c % 8 != 0) body cardEnd cardBegin state =
      ((List.range' cardBegin (headEnd cardBegin cardEnd - cardBegin)).foldlM (fun state c => body c state) state).map
        (headEnd cardBegin cardEnd, ·) := by
  have bounds := headEnd_bounds ordered
  apply whileUp_eq _ body bounds.1 bounds.2
  · intro k low high
    unfold headEnd alignUp at high
    simp only [bne_iff_ne, ne_eq]
    omega
  · unfold headEnd alignUp
    rcases le_total ((cardBegin + 8 - 1) / 8 * 8) cardEnd with before | after
    · left
      simp only [bne_eq_false_iff_eq]
      omega
    · right
      omega

/-- The loop over the unaligned cards at the end of a range, from the last backwards. -/
theorem whileDown_unaligned {State : Type} (body : Nat → State → Option State) (state : State) :
    whileDown (fun c => c % 8 != 0) body (headEnd cardBegin cardEnd) cardEnd state =
      ((List.range' (tailBegin cardBegin cardEnd) (cardEnd - tailBegin cardBegin cardEnd)).reverse.foldlM
        (fun state c => body c state) state).map (tailBegin cardBegin cardEnd, ·) := by
  have bounds := tailBegin_bounds ordered
  apply whileDown_eq _ body bounds.2 bounds.1
  · intro k low high
    unfold tailBegin at low
    simp only [bne_iff_ne, ne_eq]
    omega
  · unfold tailBegin
    rcases le_total (cardEnd / 8 * 8) (headEnd cardBegin cardEnd) with before | after
    · right
      omega
    · left
      simp only [bne_eq_false_iff_eq]
      omega

/-- The cards `ModifyCardsAtomic` modifies are those of the range outside the clean words
between the unaligned ends. -/
theorem mem_modifiedCards (memory : Nat → BitVec 8) (c : Nat) :
    c ∈ modifiedCards memory cardBegin cardEnd ↔ cardBegin ≤ c ∧ c < cardEnd ∧
      ¬(headEnd cardBegin cardEnd ≤ c ∧ c < tailBegin cardBegin cardEnd ∧ IsClean memory (c / 8)) := by
  have head := headEnd_bounds ordered
  have tail := tailBegin_bounds ordered
  simp only [modifiedCards, List.mem_append, List.mem_reverse, List.mem_range'_1, mem_dirtyWordCards]
  constructor
  · rintro ((⟨low, high⟩ | ⟨low, high⟩) | ⟨low, high, dirty⟩)
    · exact ⟨low, by omega, fun ⟨atHead, _⟩ => by omega⟩
    · exact ⟨by omega, by omega, fun ⟨_, belowTail, _⟩ => by omega⟩
    · exact ⟨by omega, by omega, fun ⟨_, _, clean⟩ => dirty clean⟩
  · rintro ⟨low, high, kept⟩
    by_cases early : c < headEnd cardBegin cardEnd
    · exact Or.inl (Or.inl ⟨low, by omega⟩)
    · by_cases late : tailBegin cardBegin cardEnd ≤ c
      · exact Or.inl (Or.inr ⟨late, by omega⟩)
      · exact Or.inr ⟨by omega, by omega, fun clean => kept ⟨by omega, by omega, clean⟩⟩

theorem modifiedCards_nodup (memory : Nat → BitVec 8) : (modifiedCards memory cardBegin cardEnd).Nodup := by
  have tail := tailBegin_bounds ordered
  have words : (dirtyWordCards memory cardBegin cardEnd).Nodup := by
    refine List.nodup_flatMap.2 ⟨fun _ _ => List.nodup_range', (List.Nodup.filter _ List.nodup_range').pairwise_of_forall_ne ?_⟩
    intro w _ v _ apart c inW inV
    rw [List.mem_range'_1] at inW inV
    omega
  refine List.nodup_append.2 ⟨List.nodup_append.2 ⟨List.nodup_range', List.nodup_reverse.2 List.nodup_range', ?_⟩,
    words, ?_⟩
  · intro a inHead b inTail
    rw [List.mem_range'_1] at inHead
    rw [List.mem_reverse, List.mem_range'_1] at inTail
    omega
  · intro a inEnds b inWords
    rw [mem_dirtyWordCards] at inWords
    rw [List.mem_append, List.mem_reverse, List.mem_range'_1, List.mem_range'_1] at inEnds
    omega

end Loops

/-! ## Modifying cards -/

section Modify

variable (visitor : BitVec 8 → BitVec 8)

@[simp] theorem modifyCard_memory (s : Modification) (card : Nat) :
    (modifyCard visitor s card).memory = Function.update s.memory card (visitor (s.memory card)) := by
  dsimp only [modifyCard]
  by_cases same : s.memory card = visitor (s.memory card)
  · rw [if_neg (not_not.2 same), ← same, Function.update_eq_self]
  · rw [if_pos same]

@[simp] theorem modifyCard_modified (s : Modification) (card : Nat) :
    (modifyCard visitor s card).modified = s.modified ++
      if s.memory card != visitor (s.memory card) then [(card, s.memory card, visitor (s.memory card))] else [] := by
  dsimp only [modifyCard]
  by_cases same : s.memory card = visitor (s.memory card)
  · rw [if_neg (not_not.2 same), ← same, bne_self_eq_false, if_neg Bool.false_ne_true, List.append_nil]
  · rw [if_pos same, bne_iff_ne.2 same, if_pos rfl]

/-- Cards outside the list are left alone. -/
theorem memory_foldl_modifyCard_of_not_mem {c : Nat} : ∀ (cards : List Nat) (s : Modification), c ∉ cards →
    (cards.foldl (modifyCard visitor) s).memory c = s.memory c
  | [], _, _ => rfl
  | card :: cards, s, absent => by
      rw [List.foldl_cons, memory_foldl_modifyCard_of_not_mem cards _ fun mem => absent (List.mem_cons_of_mem _ mem),
        modifyCard_memory, Function.update_of_ne fun same => absent (by rw [same]; exact List.mem_cons_self)]

/-- **The cards of a list, no two the same, modified one after another**: each is set to the
visitor's value of it, and each change is reported once, in the order of the list. -/
theorem foldl_modifyCard : ∀ (cards : List Nat) (s : Modification), cards.Nodup →
    cards.foldl (modifyCard visitor) s =
      ⟨fun c => if c ∈ cards then visitor (s.memory c) else s.memory c,
        s.modified ++ (cards.filter fun c => s.memory c != visitor (s.memory c)).map fun c =>
          (c, s.memory c, visitor (s.memory c))⟩
  | [], ⟨memory, modified⟩, _ => by simp
  | card :: cards, s, distinct => by
      obtain ⟨fresh, rest⟩ := List.nodup_cons.1 distinct
      -- the later cards read what `s` holds
      have frame : ∀ c ∈ cards, (modifyCard visitor s card).memory c = s.memory c := fun c mem => by
        rw [modifyCard_memory, Function.update_of_ne (ne_of_mem_of_not_mem mem fresh)]
      have later : ((cards.filter fun c => (modifyCard visitor s card).memory c !=
            visitor ((modifyCard visitor s card).memory c)).map fun c =>
            (c, (modifyCard visitor s card).memory c, visitor ((modifyCard visitor s card).memory c))) =
          (cards.filter fun c => s.memory c != visitor (s.memory c)).map fun c => (c, s.memory c, visitor (s.memory c)) := by
        rw [List.filter_congr fun c mem => by rw [frame c mem]]
        exact List.map_congr_left fun c mem => by rw [frame c (List.mem_of_mem_filter mem)]
      rw [List.foldl_cons, foldl_modifyCard cards _ rest, later, modifyCard_modified, List.filter_cons]
      congr 1
      · funext c
        by_cases here : c = card
        · subst here
          simp [fresh]
        · by_cases inCards : c ∈ cards
          · simp [inCards, frame c inCards]
          · simp [here, inCards]
      · cases s.memory card != visitor (s.memory card) <;> simp

/-- **A word of cards** is left alone when clean, and otherwise has each of its cards
modified in turn. -/
theorem modifyWord_eq (s : Modification) (word : Nat) :
    modifyWord visitor s word =
      if IsClean s.memory word then s else (List.range' (8 * word) 8).foldl (modifyCard visitor) s := by
  obtain ⟨expectedWord, expected⟩ : ∃ e, sumLittleEndian 64 (fun i => s.memory (8 * word + i)) 8 = e := ⟨_, rfl⟩
  have zero := sumLittleEndian_eq_zero_iff (w := 64) (fun i => s.memory (8 * word + i)) (n := 8) (le_refl _)
  -- the bytes of the word are its cards
  have bytes : ∀ i < 8, littleEndianByte expectedWord i = s.memory (8 * word + i) := fun i inside => by
    rw [← expected, littleEndianByte_sumLittleEndian _ (le_refl _) inside]
  have stored : ∀ i < 8, littleEndianByte (sumLittleEndian 64 (fun i => visitor (littleEndianByte expectedWord i)) 8) i =
      visitor (s.memory (8 * word + i)) := fun i inside => by
    rw [littleEndianByte_sumLittleEndian _ (le_refl _) inside, bytes i inside]
  rw [expected] at zero
  dsimp only [modifyWord]
  rw [expected]
  by_cases clean : IsClean s.memory word
  · rw [if_pos (zero.2 clean), if_pos clean]
  · rw [if_neg (mt zero.1 clean), if_neg clean, foldl_modifyCard visitor _ s List.nodup_range']
    have filtered : ((List.range 8).filter fun i => littleEndianByte expectedWord i !=
          visitor (littleEndianByte expectedWord i)) =
        (List.range 8).filter fun i => s.memory (8 * word + i) != visitor (s.memory (8 * word + i)) :=
      List.filter_congr fun i mem => by rw [bytes i (List.mem_range.1 mem)]
    congr 1
    · funext c
      simp only [List.mem_range'_1]
      split_ifs with inside
      · obtain ⟨i, rfl⟩ : ∃ i, c = 8 * word + i := ⟨c - 8 * word, by omega⟩
        rw [Nat.add_sub_cancel_left, stored i (by omega)]
      · rfl
    · rw [filtered, List.range'_eq_map_range, List.filter_map, List.map_map]
      simp only [Function.comp_def]
      congr 1
      exact List.map_congr_left fun i mem => by rw [bytes i (List.mem_range.1 (List.mem_of_mem_filter mem))]

/-- **Words of cards, no two the same, modified one after another**: the cards of each word
that is not clean when the loop starts, modified in turn. -/
theorem foldl_modifyWord : ∀ (words : List Nat) (s : Modification), words.Nodup →
    words.foldl (modifyWord visitor) s =
      ((words.filter fun word => !decide (IsClean s.memory word)).flatMap fun word => List.range' (8 * word) 8).foldl
        (modifyCard visitor) s
  | [], _, _ => by simp only [List.filter_nil, List.flatMap_nil, List.foldl_nil]
  | word :: words, s, distinct => by
      obtain ⟨fresh, rest⟩ := List.nodup_cons.1 distinct
      rw [List.foldl_cons, modifyWord_eq, List.filter_cons]
      by_cases clean : IsClean s.memory word
      · rw [if_pos clean, decide_eq_true clean, Bool.not_true, if_neg Bool.false_ne_true]
        exact foldl_modifyWord words s rest
      · -- the later words are read after this one is modified, and none of its cards is theirs
        have others : (words.filter fun w =>
              !decide (IsClean ((List.range' (8 * word) 8).foldl (modifyCard visitor) s).memory w)) =
            words.filter fun w => !decide (IsClean s.memory w) := by
          refine List.filter_congr fun w mem => ?_
          have apart : w ≠ word := ne_of_mem_of_not_mem mem fresh
          have same : IsClean ((List.range' (8 * word) 8).foldl (modifyCard visitor) s).memory w ↔
              IsClean s.memory w :=
            forall₂_congr fun i inside => by
              rw [memory_foldl_modifyCard_of_not_mem visitor _ _ (by rw [List.mem_range'_1]; omega)]
          rw [decide_eq_decide.2 same]
        rw [if_neg clean, decide_eq_false clean, Bool.not_false, if_pos rfl, List.flatMap_cons, List.foldl_append,
          foldl_modifyWord words _ rest, others]

/-- **`ModifyCardsAtomic`.** With no other thread writing cards, over a range whose first and
end cards are valid, it sets each card it modifies (`modifiedCards`) to the visitor's value
of it, leaves every other card alone, and calls `modified` once for each of those cards whose
value changed, with the old and the new value, in the order in which it modifies them. -/
theorem modifyCardsAtomic_eq (t : CardTable) {scanBegin scanEnd : Nat} (ordered : scanBegin ≤ scanEnd)
    (valid : t.isValidCard (t.cardFromAddr scanBegin) ∧ t.isValidCard (t.cardFromAddr (alignUp scanEnd kCardSize))) :
    t.modifyCardsAtomic visitor scanBegin scanEnd =
      let cards := modifiedCards t.memory (t.cardFromAddr scanBegin) (t.cardFromAddr (alignUp scanEnd kCardSize))
      some ({ t with memory := fun c => if c ∈ cards then visitor (t.memory c) else t.memory c },
        (cards.filter fun c => t.memory c != visitor (t.memory c)).map fun c => (c, t.memory c, visitor (t.memory c))) := by
  have cardsOrdered := t.cardFromAddr_le_alignUp ordered
  obtain ⟨cardBegin, beginEq⟩ : ∃ c, t.cardFromAddr scanBegin = c := ⟨_, rfl⟩
  obtain ⟨cardEnd, endEq⟩ : ∃ c, t.cardFromAddr (alignUp scanEnd kCardSize) = c := ⟨_, rfl⟩
  rw [beginEq, endEq] at cardsOrdered valid
  have tail := tailBegin_bounds cardsOrdered
  have words : headEnd cardBegin cardEnd / 8 ≤ tailBegin cardBegin cardEnd / 8 := Nat.div_le_div_right tail.1
  dsimp only [modifyCardsAtomic]
  rw [beginEq, endEq, if_neg (not_not.2 valid)]
  simp only [whileUp_unaligned cardsOrdered, whileDown_unaligned cardsOrdered, foldlM_some, Option.map_some,
    Option.bind_some, whileUp_true (fun word s => some (modifyWord visitor s word)) words]
  obtain ⟨ends, endsEq⟩ : ∃ s, (List.range' (tailBegin cardBegin cardEnd) (cardEnd - tailBegin cardBegin cardEnd)).reverse.foldl
      (modifyCard visitor) ((List.range' cardBegin (headEnd cardBegin cardEnd - cardBegin)).foldl (modifyCard visitor)
        ⟨t.memory, []⟩) = s := ⟨_, rfl⟩
  -- the words between are read as the loops over the ends leave them: as they were
  have between : ∀ c, headEnd cardBegin cardEnd ≤ c → c < tailBegin cardBegin cardEnd → ends.memory c = t.memory c := by
    intro c low high
    rw [← endsEq, memory_foldl_modifyCard_of_not_mem visitor _ _ (by rw [List.mem_reverse, List.mem_range'_1]; omega),
      memory_foldl_modifyCard_of_not_mem visitor _ _ (by rw [List.mem_range'_1]; omega)]
  have dirty : ((List.range' (headEnd cardBegin cardEnd / 8) (tailBegin cardBegin cardEnd / 8 -
      headEnd cardBegin cardEnd / 8)).filter fun word => !decide (IsClean ends.memory word)).flatMap
        (fun word => List.range' (8 * word) 8) = dirtyWordCards t.memory cardBegin cardEnd := by
    rw [dirtyWordCards]
    congr 1
    refine List.filter_congr fun word mem => ?_
    rw [List.mem_range'_1] at mem
    have inside := word_between mem.1 (by omega)
    have same : IsClean ends.memory word ↔ IsClean t.memory word :=
      forall₂_congr fun i small => by rw [between (8 * word + i) (by omega) (by omega)]
    rw [decide_eq_decide.2 same]
  have cards : List.range' cardBegin (headEnd cardBegin cardEnd - cardBegin) ++
      ((List.range' (tailBegin cardBegin cardEnd) (cardEnd - tailBegin cardBegin cardEnd)).reverse ++
        dirtyWordCards t.memory cardBegin cardEnd) = modifiedCards t.memory cardBegin cardEnd := by
    rw [modifiedCards, List.append_assoc]
  rw [endsEq, foldl_modifyWord visitor _ _ List.nodup_range', dirty, ← endsEq, ← List.foldl_append, ← List.foldl_append,
    cards, foldl_modifyCard visitor _ _ (modifiedCards_nodup cardsOrdered t.memory)]
  simp only [List.nil_append]

/-- **A visitor that keeps clean cards clean**, such as `AgeCardVisitor`: `ModifyCardsAtomic`
sets every card of the range to the visitor's value of it, leaves every other card alone,
and calls `modified` exactly once for each card whose value changed, with its old and new
values. -/
theorem modifyCardsAtomic_of_keeps_clean (t : CardTable) {scanBegin scanEnd : Nat} (ordered : scanBegin ≤ scanEnd)
    (valid : t.isValidCard (t.cardFromAddr scanBegin) ∧ t.isValidCard (t.cardFromAddr (alignUp scanEnd kCardSize)))
    (keepsClean : visitor kCardClean = kCardClean) :
    ∃ t' modified, t.modifyCardsAtomic visitor scanBegin scanEnd = some (t', modified) ∧
      (∀ c, t'.memory c = if t.cardFromAddr scanBegin ≤ c ∧ c < t.cardFromAddr (alignUp scanEnd kCardSize) then
        visitor (t.memory c) else t.memory c) ∧
      (modified.map Prod.fst).Nodup ∧
      (∀ c, c ∈ modified.map Prod.fst ↔ t.cardFromAddr scanBegin ≤ c ∧
        c < t.cardFromAddr (alignUp scanEnd kCardSize) ∧ t.memory c ≠ visitor (t.memory c)) ∧
      ∀ change ∈ modified, change = (change.1, t.memory change.1, visitor (t.memory change.1)) := by
  have cardsOrdered := t.cardFromAddr_le_alignUp ordered
  -- a card of a clean word is clean, and the visitor keeps it
  have fixed : ∀ c, IsClean t.memory (c / 8) → visitor (t.memory c) = t.memory c := fun c clean => by
    have card := clean (c % 8) (Nat.mod_lt c (by decide))
    rw [Nat.div_add_mod] at card
    rw [card, keepsClean]
  have entries : List.map Prod.fst (((modifiedCards t.memory (t.cardFromAddr scanBegin)
      (t.cardFromAddr (alignUp scanEnd kCardSize))).filter fun c => t.memory c != visitor (t.memory c)).map
        fun c => (c, t.memory c, visitor (t.memory c))) =
      (modifiedCards t.memory (t.cardFromAddr scanBegin) (t.cardFromAddr (alignUp scanEnd kCardSize))).filter
        fun c => t.memory c != visitor (t.memory c) := by
    rw [List.map_map]
    exact List.map_id' _
  refine ⟨_, _, modifyCardsAtomic_eq visitor t ordered valid, fun c => ?_, ?_, fun c => ?_, fun change mem => ?_⟩
  · simp only [mem_modifiedCards cardsOrdered]
    by_cases inRange : t.cardFromAddr scanBegin ≤ c ∧ c < t.cardFromAddr (alignUp scanEnd kCardSize)
    · by_cases skipped : headEnd (t.cardFromAddr scanBegin) (t.cardFromAddr (alignUp scanEnd kCardSize)) ≤ c ∧
          c < tailBegin (t.cardFromAddr scanBegin) (t.cardFromAddr (alignUp scanEnd kCardSize)) ∧ IsClean t.memory (c / 8)
      · rw [if_neg (fun kept => kept.2.2 skipped), if_pos inRange, fixed c skipped.2.2]
      · rw [if_pos ⟨inRange.1, inRange.2, skipped⟩, if_pos inRange]
    · rw [if_neg (fun kept => inRange ⟨kept.1, kept.2.1⟩), if_neg inRange]
  · rw [entries]
    exact List.Nodup.filter _ (modifiedCards_nodup cardsOrdered t.memory)
  · rw [entries, List.mem_filter, mem_modifiedCards cardsOrdered, bne_iff_ne]
    constructor
    · rintro ⟨⟨low, high, _⟩, changed⟩
      exact ⟨low, high, changed⟩
    · rintro ⟨low, high, changed⟩
      exact ⟨⟨low, high, fun skipped => changed (fixed c skipped.2.2).symm⟩, changed⟩
  · obtain ⟨c, -, rfl⟩ := List.mem_map.1 mem
    rfl

end Modify

/-- A clean word between the unaligned ends of the range keeps its cards: `ModifyCardsAtomic`
does not ask the visitor, even one that maps a clean card to another value. -/
theorem modifyCardsAtomic_keeps_clean_word (t : CardTable) (visitor : BitVec 8 → BitVec 8)
    {scanBegin scanEnd word : Nat} (ordered : scanBegin ≤ scanEnd)
    (valid : t.isValidCard (t.cardFromAddr scanBegin) ∧ t.isValidCard (t.cardFromAddr (alignUp scanEnd kCardSize)))
    (inside : t.cardFromAddr scanBegin ≤ 8 * word ∧ 8 * word + 8 ≤ t.cardFromAddr (alignUp scanEnd kCardSize))
    (clean : IsClean t.memory word) (moves : visitor kCardClean ≠ kCardClean) :
    ∃ t' modified, t.modifyCardsAtomic visitor scanBegin scanEnd = some (t', modified) ∧
      ∀ i < 8, t'.memory (8 * word + i) = kCardClean ∧ t'.memory (8 * word + i) ≠ visitor (t.memory (8 * word + i)) := by
  have cardsOrdered := t.cardFromAddr_le_alignUp ordered
  refine ⟨_, _, modifyCardsAtomic_eq visitor t ordered valid, fun i small => ?_⟩
  have skipped : 8 * word + i ∉ modifiedCards t.memory (t.cardFromAddr scanBegin)
      (t.cardFromAddr (alignUp scanEnd kCardSize)) := by
    rw [mem_modifiedCards cardsOrdered]
    rintro ⟨-, -, kept⟩
    refine kept ⟨?_, ?_, by rwa [show (8 * word + i) / 8 = word by omega]⟩
    · unfold headEnd alignUp
      omega
    · unfold tailBegin
      omega
  dsimp only
  rw [if_neg skipped, clean i small]
  exact ⟨rfl, moves.symm⟩

/-- A card table of 2048 cards for a heap from address 0, all clean. -/
def cleanTable : CardTable := ⟨fun _ => kCardClean, 0x70, 0x70, 0x70 + 2048, rfl, le_refl _⟩

/-- `UpdateVisitor` of `card_table_test.cc`. -/
def updateVisitor (card : BitVec 8) : BitVec 8 := card * 93 + 123

/-- Sixteen clean cards modified by `UpdateVisitor`: the word of the cards 112 to 119 keeps
them clean, where the visitor gives 123. -/
theorem cleanTable_keeps_first_word :
    ∃ t' modified, cleanTable.modifyCardsAtomic updateVisitor 0 (16 * kCardSize) = some (t', modified) ∧
      ∀ i < 8, t'.memory (8 * 14 + i) = kCardClean ∧ t'.memory (8 * 14 + i) ≠ updateVisitor (cleanTable.memory (8 * 14 + i)) :=
  modifyCardsAtomic_keeps_clean_word cleanTable updateVisitor (by decide) (by decide) (by decide) (by decide) (by decide)

/-! ## `Scan` -/

/-- `kObjectAlignment`. -/
def kObjectAlignment : Nat := 8

/-- One card from its first address `start`: when its value is at least `minimum_age`, the
marked objects of the card, visited by `VisitMarkedRange`, and one more card scanned. -/
def scanCard (bitmap : SpaceBitmap kObjectAlignment) (minimumAge value : BitVec 8) (start : Nat)
    (state : List Nat × Nat) : Option (List Nat × Nat) :=
  if minimumAge ≤ value then
    (bitmap.visitMarkedRange start (start + kCardSize)).map fun visited => (state.1 ++ visited, state.2 + 1)
  else some state

/-- A card at an unaligned end of the range: its address, through `AddrFromCard`, is taken
only when its value is at least `minimum_age`. -/
def scanUnaligned (t : CardTable) (bitmap : SpaceBitmap kObjectAlignment) (minimumAge : BitVec 8) (card : Nat)
    (state : List Nat × Nat) : Option (List Nat × Nat) :=
  if minimumAge ≤ t.memory card then
    (t.addrFromCard card).bind fun start =>
      (bitmap.visitMarkedRange start (start + kCardSize)).map fun visited => (state.1 ++ visited, state.2 + 1)
  else some state

/-- One word of cards between the ends, read as `start_word`: a clean word is skipped;
otherwise each of its bytes from the lowest, with `start` moving on a card at a time. -/
def scanWord (t : CardTable) (bitmap : SpaceBitmap kObjectAlignment) (minimumAge : BitVec 8) (word : Nat)
    (state : List Nat × Nat) : Option (List Nat × Nat) :=
  let startWord : BitVec 64 := sumLittleEndian 64 (fun i => t.memory (8 * word + i)) 8
  if startWord = 0 then some state
  else
    (t.addrFromCard (8 * word)).bind fun start =>
      (List.range 8).foldlM (fun state i =>
        scanCard bitmap minimumAge (littleEndianByte startWord i) (start + i * kCardSize) state) state

/-- `ClearCardRange`: the cards of `[start, end)`, both `kCardSize`-aligned, made clean by
`ZeroAndReleasePages`. -/
def clearCardRange (t : CardTable) (start endAddress : Nat) : Option CardTable :=
  if ¬(start % kCardSize = 0 ∧ endAddress % kCardSize = 0) then none
  else
    let startCard := t.cardFromAddr start
    let endCard := t.cardFromAddr endAddress
    some { t with memory := fun c => if startCard ≤ c ∧ c < endCard then kCardClean else t.memory c }

/-- `Scan<kClearCard>`: the objects visited in order, the number of cards scanned, and the
card table after. -/
def scan (t : CardTable) (bitmap : SpaceBitmap kObjectAlignment) (kClearCard : Bool) (scanBegin scanEnd : Nat)
    (minimumAge : BitVec 8) : Option (List Nat × Nat × CardTable) :=
  if ¬(bitmap.heapBegin ≤ scanBegin ∧ scanEnd ≤ bitmap.heapLimit) then none
  else
    let cardBegin := t.cardFromAddr scanBegin
    let cardEnd := t.cardFromAddr (alignUp scanEnd kCardSize)
    if ¬(t.isValidCard cardBegin ∧ t.isValidCard cardEnd) then none
    else
      let card := scanUnaligned t bitmap minimumAge
      -- the unaligned cards at the start
      (whileUp (fun c => c % 8 != 0) card cardEnd cardBegin ([], 0)).bind fun head =>
      let alignedEnd := cardEnd - (cardEnd &&& (8 - 1))
      -- the words from `card_cur` below `word_end`, counted in words
      (whileUp (fun _ => true) (scanWord t bitmap minimumAge) (alignedEnd / 8) (head.1 / 8) head.2).bind fun words =>
      -- the unaligned cards at the end, from `word_end`
      (whileUp (fun _ => true) card cardEnd alignedEnd words.2).bind fun tail =>
      (if kClearCard then t.clearCardRange scanBegin scanEnd else some t).map fun cleared =>
        (tail.2.1, tail.2.2, cleared)

/-- The cards `Scan` reads, in order, for the cards from `cardBegin` below `cardEnd`: those up
to the first aligned card, the cards of the words from there below the last aligned card,
and the cards from the last aligned card on. -/
def scannedCards (cardBegin cardEnd : Nat) : List Nat :=
  List.range' cardBegin (headEnd cardBegin cardEnd - cardBegin) ++
    (List.range' (headEnd cardBegin cardEnd / 8) (cardEnd / 8 - headEnd cardBegin cardEnd / 8)).flatMap
      (fun word => List.range' (8 * word) 8) ++
    List.range' (cardEnd / 8 * 8) (cardEnd - cardEnd / 8 * 8)

/-- The marked objects of a card, from its first address. -/
def cardObjects (t : CardTable) (bitmap : SpaceBitmap kObjectAlignment) (card : Nat) : List Nat :=
  let start := (card - t.biasedBegin) * kCardSize
  bitmap.markedSlots ((start - bitmap.heapBegin) / kObjectAlignment)
    ((start + kCardSize - bitmap.heapBegin) / kObjectAlignment)

/-- A card of the table whose addresses lie in the bitmap's heap. -/
def Readable (t : CardTable) (bitmap : SpaceBitmap kObjectAlignment) (card : Nat) : Prop :=
  t.isValidCard card ∧ bitmap.heapBegin ≤ (card - t.biasedBegin) * kCardSize ∧
    (card - t.biasedBegin) * kCardSize + kCardSize ≤ bitmap.heapLimit

instance (t : CardTable) (bitmap : SpaceBitmap kObjectAlignment) (card : Nat) : Decidable (Readable t bitmap card) :=
  inferInstanceAs (Decidable (_ ∧ _))

/-- When the first loop reaches an aligned card, `Scan` reads each card of the range once, in
order. -/
theorem scannedCards_of_reaches_aligned {cardBegin cardEnd : Nat} (reaches : alignUp cardBegin 8 ≤ cardEnd) :
    scannedCards cardBegin cardEnd = List.range' cardBegin (cardEnd - cardBegin) := by
  have head : headEnd cardBegin cardEnd = 8 * (headEnd cardBegin cardEnd / 8) := by
    unfold headEnd alignUp at *
    omega
  rw [scannedCards, flatMap_range'_words, ← head, show 8 * (cardEnd / 8 - headEnd cardBegin cardEnd / 8) =
      cardEnd / 8 * 8 - headEnd cardBegin cardEnd by unfold headEnd alignUp at *; omega,
    range'_append_of_le (headEnd_bounds (by unfold alignUp at reaches; omega)).1 (by unfold headEnd alignUp at *; omega),
    range'_append_of_le (by unfold headEnd alignUp at *; omega) (by omega)]

/-- When the range starts at an unaligned card and ends within the same word, the first loop
reaches the end and the last loop starts again from the first card of the word. -/
theorem scannedCards_of_within_word {cardBegin cardEnd : Nat} (unaligned : cardBegin % 8 ≠ 0)
    (sameWord : cardEnd / 8 = cardBegin / 8) :
    scannedCards cardBegin cardEnd =
      List.range' cardBegin (cardEnd - cardBegin) ++ List.range' (cardEnd / 8 * 8) (cardEnd - cardEnd / 8 * 8) := by
  have head : headEnd cardBegin cardEnd = cardEnd := by
    unfold headEnd alignUp
    omega
  rw [scannedCards, head, Nat.sub_self, List.range'_zero, List.flatMap_nil, List.append_nil]

section Scan

variable (t : CardTable) (bitmap : SpaceBitmap kObjectAlignment) (minimumAge : BitVec 8)
  (covers : bitmap.heapLimit - bitmap.heapBegin ≤ bitmap.bitmap.length * kBitsPerIntPtrT * kObjectAlignment)
include covers

/-- A readable card is visited when its value is at least `minimum_age`. -/
theorem scanUnaligned_eq {card : Nat} (readable : Readable t bitmap card) (state : List Nat × Nat) :
    scanUnaligned t bitmap minimumAge card state =
      some (if minimumAge ≤ t.memory card then (state.1 ++ cardObjects t bitmap card, state.2 + 1) else state) := by
  obtain ⟨valid, lower, upper⟩ := readable
  have firstWord : SpaceBitmap.offsetToIndex kObjectAlignment ((card - t.biasedBegin) * kCardSize - bitmap.heapBegin) <
      bitmap.bitmap.length := by
    unfold SpaceBitmap.offsetToIndex kObjectAlignment kBitsPerIntPtrT kCardSize kCardShift at *
    rw [Nat.div_div_eq_div_mul, Nat.div_lt_iff_lt_mul (by decide)]
    have := Nat.mul_assoc bitmap.bitmap.length 64 8
    omega
  rw [scanUnaligned]
  split_ifs with aged
  · rw [addrFromCard, if_pos valid, Option.bind_some, Nat.shiftLeft_eq, ← kCardSize,
      SpaceBitmap.visitMarkedRange_eq_markedSlots bitmap lower (Nat.le_add_right _ _) upper covers firstWord,
      Option.map_some]
    rfl
  · rfl

/-- Readable cards visited one after another. -/
theorem foldlM_scanUnaligned : ∀ (cards : List Nat) (state : List Nat × Nat), (∀ c ∈ cards, Readable t bitmap c) →
    cards.foldlM (fun state c => scanUnaligned t bitmap minimumAge c state) state =
      some (state.1 ++ (cards.filter fun c => minimumAge ≤ t.memory c).flatMap (cardObjects t bitmap),
        state.2 + (cards.filter fun c => minimumAge ≤ t.memory c).length)
  | [], state, _ => by simp
  | card :: cards, state, readable => by
      rw [List.foldlM_cons, scanUnaligned_eq t bitmap minimumAge covers (readable card List.mem_cons_self),
        Option.bind_eq_bind, Option.bind_some, foldlM_scanUnaligned cards _ fun c mem => readable c (List.mem_cons_of_mem _ mem),
        List.filter_cons]
      by_cases aged : minimumAge ≤ t.memory card
      · simp [aged, Nat.add_assoc, Nat.add_comm 1]
      · simp [aged]

/-- With `minimum_age` at least 1, a word of readable cards is scanned as its cards one after
another: a clean word has no card old enough. -/
theorem scanWord_eq (aging : 0 < minimumAge) {word : Nat} (readable : ∀ i < 8, Readable t bitmap (8 * word + i))
    (state : List Nat × Nat) :
    scanWord t bitmap minimumAge word state =
      (List.range' (8 * word) 8).foldlM (fun state c => scanUnaligned t bitmap minimumAge c state) state := by
  have zero := sumLittleEndian_eq_zero_iff (w := 64) (fun i => t.memory (8 * word + i)) (n := 8) (le_refl _)
  dsimp only [scanWord]
  split_ifs with clean
  · -- no card of a clean word is old enough
    have young : ∀ c ∈ List.range' (8 * word) 8, ¬minimumAge ≤ t.memory c := by
      intro c mem
      rw [List.mem_range'_1] at mem
      obtain ⟨i, rfl⟩ : ∃ i, c = 8 * word + i := ⟨c - 8 * word, by omega⟩
      rw [zero.1 clean i (by omega)]
      exact BitVec.not_le.2 aging
    rw [foldlM_scanUnaligned t bitmap minimumAge covers _ _ fun c mem => by
        rw [List.mem_range'_1] at mem
        obtain ⟨i, rfl⟩ : ∃ i, c = 8 * word + i := ⟨c - 8 * word, by omega⟩
        exact readable i (by omega),
      List.filter_eq_nil_iff.2 fun c mem => by simpa using young c mem]
    simp
  · obtain ⟨valid, -, -⟩ := readable 0 (by decide)
    have first : t.addrFromCard (8 * word) = some ((8 * word - t.biasedBegin) * kCardSize) := by
      rw [addrFromCard, if_pos (by simpa using valid), Nat.shiftLeft_eq, ← kCardSize]
    rw [first, Option.bind_some, List.range'_eq_map_range, List.foldlM_map]
    refine foldlM_congr _ (fun i mem state => ?_) state
    have small := List.mem_range.1 mem
    obtain ⟨cardValid, lower, upper⟩ := readable i small
    have above : t.biasedBegin ≤ 8 * word := by
      have := t.biasedBelow
      simp only [isValidCard, decide_eq_true_eq] at valid
      omega
    rw [scanUnaligned, scanCard, addrFromCard, if_pos cardValid, Option.bind_some, Nat.shiftLeft_eq, ← kCardSize,
      littleEndianByte_sumLittleEndian _ (le_refl _) small,
      show (8 * word + i - t.biasedBegin) * kCardSize = (8 * word - t.biasedBegin) * kCardSize + i * kCardSize by
        rw [← Nat.add_mul]
        congr 1
        omega]

/-- **`Scan`.** With `minimum_age` at least 1, over a range within the bitmap's heap whose
first and end cards are valid and whose cards that `Scan` reads are readable, `Scan` visits
the marked objects of the cards it reads (`scannedCards`) whose value is at least
`minimum_age`, card after card, and counts those cards; with `kClearCard` it then clears the
cards of the range. -/
theorem scan_eq (kClearCard : Bool) {scanBegin scanEnd : Nat} (aging : 0 < minimumAge)
    (dchecks : bitmap.heapBegin ≤ scanBegin ∧ scanEnd ≤ bitmap.heapLimit) (ordered : scanBegin ≤ scanEnd)
    (valid : t.isValidCard (t.cardFromAddr scanBegin) ∧ t.isValidCard (t.cardFromAddr (alignUp scanEnd kCardSize)))
    (readable : ∀ c ∈ scannedCards (t.cardFromAddr scanBegin) (t.cardFromAddr (alignUp scanEnd kCardSize)),
      Readable t bitmap c) :
    t.scan bitmap kClearCard scanBegin scanEnd minimumAge =
      let aged := (scannedCards (t.cardFromAddr scanBegin) (t.cardFromAddr (alignUp scanEnd kCardSize))).filter
        fun c => minimumAge ≤ t.memory c
      (if kClearCard then t.clearCardRange scanBegin scanEnd else some t).map fun cleared =>
        (aged.flatMap (cardObjects t bitmap), aged.length, cleared) := by
  have cardsOrdered := t.cardFromAddr_le_alignUp ordered
  obtain ⟨cardBegin, beginEq⟩ : ∃ c, t.cardFromAddr scanBegin = c := ⟨_, rfl⟩
  obtain ⟨cardEnd, endEq⟩ : ∃ c, t.cardFromAddr (alignUp scanEnd kCardSize) = c := ⟨_, rfl⟩
  rw [beginEq, endEq] at cardsOrdered valid readable ⊢
  have head := headEnd_bounds cardsOrdered
  have alignedEnd : cardEnd - (cardEnd &&& (8 - 1)) = cardEnd / 8 * 8 := by
    rw [show (8 - 1 : Nat) = 2 ^ 3 - 1 from rfl, Nat.and_two_pow_sub_one_eq_mod]
    omega
  -- the three loops read the three parts of `scannedCards`
  have readHead : ∀ c ∈ List.range' cardBegin (headEnd cardBegin cardEnd - cardBegin), Readable t bitmap c :=
    fun c mem => readable c (List.mem_append_left _ (List.mem_append_left _ mem))
  have readWords : ∀ c ∈ (List.range' (headEnd cardBegin cardEnd / 8) (cardEnd / 8 - headEnd cardBegin cardEnd / 8)).flatMap
      (fun word => List.range' (8 * word) 8), Readable t bitmap c :=
    fun c mem => readable c (List.mem_append_left _ (List.mem_append_right _ mem))
  have readTail : ∀ c ∈ List.range' (cardEnd / 8 * 8) (cardEnd - cardEnd / 8 * 8), Readable t bitmap c :=
    fun c mem => readable c (List.mem_append_right _ mem)
  have words : ∀ word ∈ List.range' (headEnd cardBegin cardEnd / 8) (cardEnd / 8 - headEnd cardBegin cardEnd / 8),
      ∀ state, scanWord t bitmap minimumAge word state =
        (List.range' (8 * word) 8).foldlM (fun state c => scanUnaligned t bitmap minimumAge c state) state :=
    fun word mem => scanWord_eq t bitmap minimumAge covers aging fun i small =>
      readWords _ (List.mem_flatMap.2 ⟨word, mem, List.mem_range'_1.2 ⟨by omega, by omega⟩⟩)
  dsimp only [scan]
  rw [if_neg (not_not.2 dchecks), beginEq, endEq, if_neg (not_not.2 valid), alignedEnd,
    Nat.mul_div_cancel _ (by decide : 0 < 8)]
  rw [whileUp_unaligned cardsOrdered, foldlM_scanUnaligned t bitmap minimumAge covers _ _ readHead, Option.map_some,
    Option.bind_some, whileUp_true _ (Nat.div_le_div_right head.2),
    foldlM_flatMap (fun word => List.range' (8 * word) 8) (fun state c => scanUnaligned t bitmap minimumAge c state)
      (fun state word => scanWord t bitmap minimumAge word state) _ words,
    foldlM_scanUnaligned t bitmap minimumAge covers _ _ readWords, Option.map_some, Option.bind_some,
    whileUp_true _ (Nat.div_mul_le_self cardEnd 8), foldlM_scanUnaligned t bitmap minimumAge covers _ _ readTail,
    Option.map_some, Option.bind_some]
  simp only [scannedCards, List.filter_append, List.flatMap_append, List.length_append, List.nil_append, Nat.zero_add,
    List.append_assoc, Nat.add_assoc]

/-- **`Scan` when the first loop reaches an aligned card**: it visits the marked objects of
the cards of the range whose value is at least `minimum_age`, card after card, each card
once, and counts those cards. -/
theorem scan_of_reaches_aligned (kClearCard : Bool) {scanBegin scanEnd : Nat} (aging : 0 < minimumAge)
    (dchecks : bitmap.heapBegin ≤ scanBegin ∧ scanEnd ≤ bitmap.heapLimit) (ordered : scanBegin ≤ scanEnd)
    (valid : t.isValidCard (t.cardFromAddr scanBegin) ∧ t.isValidCard (t.cardFromAddr (alignUp scanEnd kCardSize)))
    (reaches : alignUp (t.cardFromAddr scanBegin) 8 ≤ t.cardFromAddr (alignUp scanEnd kCardSize))
    (readable : ∀ c ∈ List.range' (t.cardFromAddr scanBegin)
      (t.cardFromAddr (alignUp scanEnd kCardSize) - t.cardFromAddr scanBegin), Readable t bitmap c) :
    let aged := (List.range' (t.cardFromAddr scanBegin)
      (t.cardFromAddr (alignUp scanEnd kCardSize) - t.cardFromAddr scanBegin)).filter fun c => minimumAge ≤ t.memory c
    t.scan bitmap kClearCard scanBegin scanEnd minimumAge =
      (if kClearCard then t.clearCardRange scanBegin scanEnd else some t).map fun cleared =>
        (aged.flatMap (cardObjects t bitmap), aged.length, cleared) := by
  have cards := scannedCards_of_reaches_aligned reaches
  rw [← cards] at readable ⊢
  exact scan_eq t bitmap minimumAge covers kClearCard aging dchecks ordered valid readable

/-- A range of cards that starts at an unaligned card and ends within the same word: the
first loop reaches the end of the range, and the last loop starts again from the first card
of the word, so `Scan` visits and counts the cards of the range twice, and the cards of the
word before the range once. -/
theorem scan_rescans_within_word (kClearCard : Bool) {scanBegin scanEnd : Nat} (aging : 0 < minimumAge)
    (dchecks : bitmap.heapBegin ≤ scanBegin ∧ scanEnd ≤ bitmap.heapLimit) (ordered : scanBegin ≤ scanEnd)
    (valid : t.isValidCard (t.cardFromAddr scanBegin) ∧ t.isValidCard (t.cardFromAddr (alignUp scanEnd kCardSize)))
    (unaligned : t.cardFromAddr scanBegin % 8 ≠ 0)
    (sameWord : t.cardFromAddr (alignUp scanEnd kCardSize) / 8 = t.cardFromAddr scanBegin / 8)
    (readable : ∀ c ∈ List.range' (t.cardFromAddr (alignUp scanEnd kCardSize) / 8 * 8)
      (t.cardFromAddr (alignUp scanEnd kCardSize) - t.cardFromAddr (alignUp scanEnd kCardSize) / 8 * 8),
      Readable t bitmap c) :
    let aged := (List.range' (t.cardFromAddr scanBegin)
      (t.cardFromAddr (alignUp scanEnd kCardSize) - t.cardFromAddr scanBegin)).filter fun c => minimumAge ≤ t.memory c
    let again := (List.range' (t.cardFromAddr (alignUp scanEnd kCardSize) / 8 * 8)
      (t.cardFromAddr (alignUp scanEnd kCardSize) - t.cardFromAddr (alignUp scanEnd kCardSize) / 8 * 8)).filter
        fun c => minimumAge ≤ t.memory c
    t.scan bitmap kClearCard scanBegin scanEnd minimumAge =
      (if kClearCard then t.clearCardRange scanBegin scanEnd else some t).map fun cleared =>
        (aged.flatMap (cardObjects t bitmap) ++ again.flatMap (cardObjects t bitmap), aged.length + again.length,
          cleared) := by
  have cards := scannedCards_of_within_word unaligned sameWord
  have cardsOrdered := t.cardFromAddr_le_alignUp ordered
  -- the range lies within the cards read again
  have within : ∀ c ∈ scannedCards (t.cardFromAddr scanBegin) (t.cardFromAddr (alignUp scanEnd kCardSize)),
      Readable t bitmap c := by
    intro c mem
    rw [cards, List.mem_append, List.mem_range'_1, List.mem_range'_1] at mem
    exact readable c (List.mem_range'_1.2 (by omega))
  rw [scan_eq t bitmap minimumAge covers kClearCard aging dchecks ordered valid within, cards]
  simp only [List.filter_append, List.flatMap_append, List.length_append]

end Scan

/-- A card table for a heap of 16 cards from address 0 whose third card, for `[2048, 3072)`,
is dirty. -/
def dirtyCardTable : CardTable :=
  ⟨fun c => if c = 0x72 then kCardDirty else kCardClean, 0x70, 0x70, 0x81, rfl, le_refl _⟩

/-- The live bitmap of that heap, with one object marked, at 2112. -/
def oneObjectBitmap : SpaceBitmap kObjectAlignment :=
  ⟨List.replicate 4 0 ++ [0x100] ++ List.replicate 27 0, 0, 16384⟩

/-- `Scan` of `[2048, 3072)`: the card of the range is scanned again with the two before it. -/
theorem dirtyCard_scanned_twice :
    let aged := (List.range' (dirtyCardTable.cardFromAddr 2048)
      (dirtyCardTable.cardFromAddr (alignUp 3072 kCardSize) - dirtyCardTable.cardFromAddr 2048)).filter
        fun c => kCardDirty ≤ dirtyCardTable.memory c
    let again := (List.range' (dirtyCardTable.cardFromAddr (alignUp 3072 kCardSize) / 8 * 8)
      (dirtyCardTable.cardFromAddr (alignUp 3072 kCardSize) -
        dirtyCardTable.cardFromAddr (alignUp 3072 kCardSize) / 8 * 8)).filter
          fun c => kCardDirty ≤ dirtyCardTable.memory c
    dirtyCardTable.scan oneObjectBitmap false 2048 3072 kCardDirty =
      (if false then dirtyCardTable.clearCardRange 2048 3072 else some dirtyCardTable).map fun cleared =>
        (aged.flatMap (cardObjects dirtyCardTable oneObjectBitmap) ++
          again.flatMap (cardObjects dirtyCardTable oneObjectBitmap), aged.length + again.length, cleared) :=
  scan_rescans_within_word dirtyCardTable oneObjectBitmap kCardDirty (by decide) false (by decide) (by decide)
    (by decide) (by decide) (by decide) (by decide) (by decide)

example : cardObjects dirtyCardTable oneObjectBitmap 0x72 = [2112] := by decide

example : ((List.range' 0x72 1).filter fun c => kCardDirty ≤ dirtyCardTable.memory c).length +
    ((List.range' 0x70 3).filter fun c => kCardDirty ≤ dirtyCardTable.memory c).length = 2 := by decide

end CardTable

end Art.Runtime.Gc.Accounting
