import Mathlib.Tactic

/-!
# `utils/bitmap.h`

A bitmap is its array of 64-bit words.  `bitmapGet`, `bitmapSet`, `bitmapClearBit` and
`bitmapFindFirstClear` are the operations of the header, word by word; the rest of the
development sees a bitmap through `bitmapGet` only:

* `bitmapGet_set`, `bitmapGet_clearBit`    what the two writes change;
* `bitmapFindFirstClear_lt`, `_le`, `_eq_iff`   the search returns the least clear bit;
* `setCount bm n`                          the number of set bits below `n`, and how a write
                                           moves it (`setCount_set`, `setCount_clearBit`).
-/

namespace Nomalloc

abbrev Bitmap := List (BitVec 64)

/-- `bitmap_size`: the words that hold `numBits` bits. -/
def bitmapSize (numBits : ℕ) : ℕ := (numBits + 64 - 1) >>> 6

/-- `bitmap_init`, also what `calloc` leaves for `value = false`. -/
def bitmapInit (numBits : ℕ) (value : Bool) : Bitmap :=
  List.replicate (bitmapSize numBits) (if value then BitVec.allOnes 64 else 0)

/-- `1ULL << bit_idx` -/
def bitMask (j : ℕ) : BitVec 64 := 1#64 <<< j

/-- `bitmap_get` -/
def bitmapGet (bm : Bitmap) (index : ℕ) : Bool :=
  (bm.getD (index >>> 6) 0 >>> (index &&& 63)) &&& 1 != 0

/-- `bitmap_set` -/
def bitmapSet (bm : Bitmap) (index : ℕ) : Bitmap :=
  bm.modify (index >>> 6) (· ||| bitMask (index &&& 63))

/-- `bitmap_clear_bit` -/
def bitmapClearBit (bm : Bitmap) (index : ℕ) : Bitmap :=
  bm.modify (index >>> 6) (· &&& ~~~bitMask (index &&& 63))

/-- The loop over the bits of word `i` in `bitmap_find_first_clear`. -/
def findClearInWord (w : BitVec 64) (i numBits : ℕ) : Option ℕ :=
  ((List.range 64).find? fun j => (w >>> j) &&& 1 == 0 && decide ((i <<< 6) + j < numBits)).map
    fun j => (i <<< 6) + j

/-- `bitmap_find_first_clear` -/
def bitmapFindFirstClear (bm : Bitmap) (numBits : ℕ) : ℕ :=
  ((List.range (bitmapSize numBits)).findSome? fun i =>
    if bm.getD i 0 != BitVec.allOnes 64 then findClearInWord (bm.getD i 0) i numBits else none)
  |>.getD numBits

/-! ## bits -/

theorem index_split (index : ℕ) : index >>> 6 = index / 64 ∧ index &&& 63 = index % 64 :=
  ⟨Nat.shiftRight_eq_div_pow index 6, Nat.and_two_pow_sub_one_eq_mod index 6⟩

theorem word_bit (w : BitVec 64) (j : ℕ) : ((w >>> j) &&& 1 != 0) = w.getLsbD j := by
  rw [Bool.eq_iff_iff, bne_iff_ne, ne_eq, ← BitVec.toNat_inj]
  have h1 : ((w >>> j) &&& 1).toNat = (w.toNat >>> j) % 2 := by
    rw [BitVec.toNat_and, BitVec.toNat_ushiftRight]
    exact Nat.and_one_is_mod _
  rw [h1, BitVec.getLsbD, Nat.testBit, Nat.and_comm, Nat.and_one_is_mod]
  simp

theorem bitmapGet_eq (bm : Bitmap) (i : ℕ) :
    bitmapGet bm i = (bm.getD (i / 64) 0).getLsbD (i % 64) := by
  obtain ⟨h1, h2⟩ := index_split i
  unfold bitmapGet
  rw [h1, h2, word_bit]

theorem bitmapGet_init_false (n i : ℕ) : bitmapGet (bitmapInit n false) i = false := by
  rw [bitmapGet_eq, bitmapInit]
  by_cases h : i / 64 < bitmapSize n
  · simp [List.getD_eq_getElem?_getD, h]
  · simp [List.getD_eq_getElem?_getD, h]

theorem bitMask_bit (j k : ℕ) (hk : k < 64) : (bitMask j).getLsbD k = decide (k = j) := by
  rw [bitMask, BitVec.getLsbD_shiftLeft, BitVec.getLsbD_one, Bool.eq_iff_iff]
  simp only [hk, decide_true, Bool.true_and, Bool.and_eq_true, Bool.not_eq_true',
    decide_eq_false_iff_not, decide_eq_true_eq]
  omega

/-- `bitmap_set` sets its own bit, when the array has the word, and no other. -/
theorem bitmapGet_set (bm : Bitmap) (i k : ℕ) (hi : i / 64 < bm.length) :
    bitmapGet (bitmapSet bm i) k = (decide (k = i) || bitmapGet bm k) := by
  obtain ⟨h1, h2⟩ := index_split i
  rw [bitmapGet_eq, bitmapGet_eq, bitmapSet, h1, h2, List.getD_eq_getElem?_getD,
    List.getElem?_modify, List.getD_eq_getElem?_getD]
  by_cases hw : i / 64 = k / 64
  · have hk : k / 64 < bm.length := hw ▸ hi
    simp only [hw, ↓reduceIte, List.getElem?_eq_getElem hk, Option.map_eq_map, Option.map_some,
      Option.getD_some, BitVec.getLsbD_or]
    rw [bitMask_bit _ _ (Nat.mod_lt _ (by decide)), Bool.or_comm]
    congr 1
    rw [decide_eq_decide]
    omega
  · have hne : k ≠ i := fun h => hw (by rw [h])
    simp [hw, hne]

/-- `bitmap_clear_bit` clears its own bit and no other. -/
theorem bitmapGet_clearBit (bm : Bitmap) (i k : ℕ) :
    bitmapGet (bitmapClearBit bm i) k = (!decide (k = i) && bitmapGet bm k) := by
  obtain ⟨h1, h2⟩ := index_split i
  rw [bitmapGet_eq, bitmapGet_eq, bitmapClearBit, h1, h2, List.getD_eq_getElem?_getD,
    List.getElem?_modify, List.getD_eq_getElem?_getD]
  by_cases hw : i / 64 = k / 64
  · cases hk : bm[k / 64]? with
    | none => simp
    | some w =>
      have hlt : k % 64 < 64 := Nat.mod_lt _ (by decide)
      simp only [hw, ↓reduceIte, Option.map_eq_map, Option.map_some, Option.getD_some,
        BitVec.getLsbD_and, BitVec.getLsbD_not, hlt, decide_true, Bool.true_and]
      rw [bitMask_bit _ _ hlt, Bool.and_comm]
      congr 2
      rw [decide_eq_decide]
      omega
  · have hne : k ≠ i := fun h => hw (by rw [h])
    simp [hw, hne]

@[simp] theorem length_bitmapSet (bm : Bitmap) (i : ℕ) : (bitmapSet bm i).length = bm.length :=
  List.length_modify ..

@[simp] theorem length_bitmapClearBit (bm : Bitmap) (i : ℕ) :
    (bitmapClearBit bm i).length = bm.length := List.length_modify ..

@[simp] theorem length_bitmapInit (n : ℕ) (v : Bool) :
    (bitmapInit n v).length = bitmapSize n := List.length_replicate ..

/-- The array of `bitmapSize n` words has the word of every bit below `n`. -/
theorem div_lt_bitmapSize {i n : ℕ} (h : i < n) : i / 64 < bitmapSize n := by
  unfold bitmapSize
  rw [Nat.shiftRight_eq_div_pow]
  omega

/-! ## the search for a clear bit -/

theorem findClearInWord_some {w : BitVec 64} {i n r : ℕ} (h : findClearInWord w i n = some r) :
    r < n ∧ r / 64 = i ∧ w.getLsbD (r % 64) = false ∧
      ∀ k, k / 64 = i → k < r → w.getLsbD (k % 64) = true := by
  obtain ⟨j, hj, rfl⟩ := Option.map_eq_some_iff.mp h
  have hmem := List.mem_of_find?_eq_some hj
  have hj64 : j < 64 := List.mem_range.mp hmem
  have hp := List.find?_some hj
  simp only [Bool.and_eq_true, decide_eq_true_eq] at hp
  have hsh : i <<< 6 = 64 * i := by rw [Nat.shiftLeft_eq, Nat.mul_comm]
  rw [hsh] at hp ⊢
  have hclear : w.getLsbD j = false := by
    have hw := word_bit w j
    rw [← hw]
    simpa using hp.1
  refine ⟨hp.2, by omega, by rw [show (64 * i + j) % 64 = j by omega]; exact hclear, ?_⟩
  intro k hk hlt
  -- an earlier bit of the word would have stopped the loop
  have hbefore := (List.find?_range_eq_some.mp hj).2.2 (k % 64) (by omega)
  simp only [Bool.not_eq_true', Bool.and_eq_false_iff, decide_eq_false_iff_not] at hbefore
  rcases hbefore with hb | hb
  · rw [← word_bit w (k % 64)]
    simpa using hb
  · exact absurd (by rw [hsh]; omega) hb

theorem findClearInWord_none {w : BitVec 64} {i n : ℕ} (h : findClearInWord w i n = none) :
    ∀ k, k / 64 = i → k < n → w.getLsbD (k % 64) = true := by
  intro k hk hlt
  have hsh : i <<< 6 = 64 * i := by rw [Nat.shiftLeft_eq, Nat.mul_comm]
  have hall := List.find?_eq_none.mp (Option.map_eq_none_iff.mp h) (k % 64)
    (List.mem_range.mpr (Nat.mod_lt _ (by decide)))
  simp only [Bool.and_eq_true, decide_eq_true_eq, not_and, hsh] at hall
  have hlt' : 64 * i + k % 64 < n := by omega
  rw [← word_bit w (k % 64)]
  by_contra hb
  exact hall (by simpa using hb) hlt'

/-- Skipping a word of ones changes nothing: it has no clear bit. -/
theorem skip_full_word (w : BitVec 64) (i n : ℕ) :
    (if w != BitVec.allOnes 64 then findClearInWord w i n else none) = findClearInWord w i n := by
  by_cases hw : w = BitVec.allOnes 64
  · subst hw
    cases h : findClearInWord (BitVec.allOnes 64) i n with
    | none => simp
    | some r =>
      have hbit := (findClearInWord_some h).2.2.1
      rw [BitVec.getLsbD_allOnes, decide_eq_false_iff_not] at hbit
      exact absurd (Nat.mod_lt _ (by decide)) hbit
  · exact if_pos (bne_iff_ne.mpr hw)

theorem findSome_words (bm : Bitmap) (n m : ℕ) :
    match (List.range m).findSome? fun i => findClearInWord (bm.getD i 0) i n with
    | some r => r < n ∧ bitmapGet bm r = false ∧ ∀ k < r, bitmapGet bm k = true
    | none => ∀ k < n, k / 64 < m → bitmapGet bm k = true := by
  induction m with
  | zero => simp
  | succ m ih =>
    rw [List.range_succ, List.findSome?_append]
    cases hm : (List.range m).findSome? fun i => findClearInWord (bm.getD i 0) i n with
    | some r =>
      rw [hm] at ih
      simpa using ih
    | none =>
      rw [hm] at ih
      simp only [List.findSome?_cons, List.findSome?_nil, Option.none_or]
      cases hf : findClearInWord (bm.getD m 0) m n with
      | some r =>
        obtain ⟨hr, hw, hc, hb⟩ := findClearInWord_some hf
        refine ⟨hr, by rw [bitmapGet_eq, hw]; exact hc, fun k hk => ?_⟩
        rcases Nat.lt_or_ge (k / 64) m with hlt | hge
        · exact ih k (by omega) hlt
        · have hkm : k / 64 = m := by omega
          rw [bitmapGet_eq, hkm]
          exact hb k hkm hk
      | none =>
        intro k hk hlt
        rcases Nat.lt_or_ge (k / 64) m with h | h
        · exact ih k hk h
        · have hkm : k / 64 = m := by omega
          rw [bitmapGet_eq, hkm]
          exact findClearInWord_none hf k hkm hk

/-- `bitmap_find_first_clear` returns the least clear bit below `n`, or `n` when there is none. -/
theorem bitmapFindFirstClear_spec (bm : Bitmap) (n : ℕ) :
    let r := bitmapFindFirstClear bm n
    r ≤ n ∧ (r < n → bitmapGet bm r = false) ∧ ∀ k < r, bitmapGet bm k = true := by
  have h := findSome_words bm n (bitmapSize n)
  unfold bitmapFindFirstClear
  simp only [skip_full_word]
  cases hm : (List.range (bitmapSize n)).findSome? fun i => findClearInWord (bm.getD i 0) i n with
  | some r =>
    rw [hm] at h
    exact ⟨le_of_lt h.1, fun _ => h.2.1, h.2.2⟩
  | none =>
    rw [hm] at h
    exact ⟨le_refl n, fun hlt => absurd hlt (lt_irrefl n),
      fun k hk => h k hk (div_lt_bitmapSize hk)⟩

theorem bitmapFindFirstClear_eq {bm : Bitmap} {n r : ℕ} (hr : r < n)
    (hc : bitmapGet bm r = false) (hb : ∀ k < r, bitmapGet bm k = true) :
    bitmapFindFirstClear bm n = r := by
  obtain ⟨hle, hclear, hset⟩ := bitmapFindFirstClear_spec bm n
  rcases Nat.lt_trichotomy (bitmapFindFirstClear bm n) r with h | h | h
  · have h1 := hb _ h
    rw [hclear (by omega)] at h1
    exact absurd h1 (by decide)
  · exact h
  · have h1 := hset r h
    rw [hc] at h1
    exact absurd h1 (by decide)

/-- On a bitmap with no bit set the search returns bit zero. -/
theorem bitmapFindFirstClear_init {n m : ℕ} (hn : 0 < n) :
    bitmapFindFirstClear (bitmapInit m false) n = 0 :=
  bitmapFindFirstClear_eq hn (bitmapGet_init_false m 0) (by simp)

/-! ## the number of set bits -/

/-- The set bits below `n`. -/
def setCount (bm : Bitmap) (n : ℕ) : ℕ := (List.range n).countP (bitmapGet bm)

theorem setCount_init (m n : ℕ) : setCount (bitmapInit m false) n = 0 :=
  List.countP_eq_zero.mpr fun i _ => by simp [bitmapGet_init_false]

theorem setCount_eq_zero {bm : Bitmap} {n : ℕ} (h : setCount bm n = 0) {i : ℕ} (hi : i < n) :
    bitmapGet bm i = false := by
  have := List.countP_eq_zero.mp h i (List.mem_range.mpr hi)
  simpa using this

theorem setCount_pos {bm : Bitmap} {n i : ℕ} (hi : i < n) (hb : bitmapGet bm i = true) :
    0 < setCount bm n :=
  List.countP_pos_iff.mpr ⟨i, List.mem_range.mpr hi, hb⟩

theorem exists_set_of_pos {bm : Bitmap} {n : ℕ} (h : 0 < setCount bm n) :
    ∃ i < n, bitmapGet bm i = true := by
  unfold setCount at h
  obtain ⟨i, hi, hb⟩ := List.countP_pos_iff.mp h
  exact ⟨i, List.mem_range.mp hi, hb⟩

theorem setCount_lt {bm : Bitmap} {n i : ℕ} (hi : i < n) (hb : bitmapGet bm i = false) :
    setCount bm n < n := by
  have h := List.countP_le_length (p := bitmapGet bm) (l := List.range n)
  rw [List.length_range] at h
  refine lt_of_le_of_ne h fun he => ?_
  have hall := List.countP_eq_length.mp (he.trans List.length_range.symm) i
    (List.mem_range.mpr hi)
  rw [hb] at hall
  exact absurd hall (by decide)

/-- A bitmap with fewer than `n` set bits has a clear one. -/
theorem bitmapFindFirstClear_lt {bm : Bitmap} {n : ℕ} (h : setCount bm n < n) :
    bitmapFindFirstClear bm n < n := by
  obtain ⟨hle, _, hset⟩ := bitmapFindFirstClear_spec bm n
  refine lt_of_le_of_ne hle fun he => ?_
  have hall : setCount bm n = (List.range n).length :=
    List.countP_eq_length.mpr fun i hi => hset i (by rw [he]; exact List.mem_range.mp hi)
  rw [List.length_range] at hall
  omega

/-- Turning on one bit of a predicate adds one to its count. -/
theorem countP_range_turn_on {p q : ℕ → Bool} {i n : ℕ} (hi : i < n) (hp : p i = false)
    (hq : q i = true) (heq : ∀ k, k ≠ i → q k = p k) :
    (List.range n).countP q = (List.range n).countP p + 1 := by
  induction n with
  | zero => omega
  | succ n ih =>
    rw [List.range_succ, List.countP_append, List.countP_append]
    rcases Nat.lt_or_ge i n with h | h
    · rw [ih h, List.countP_singleton, List.countP_singleton, heq n (by omega)]
      omega
    · have hin : i = n := by omega
      subst hin
      have hrest : (List.range i).countP q = (List.range i).countP p :=
        List.countP_congr fun k hk => by
          rw [heq k (Nat.ne_of_lt (List.mem_range.mp hk))]
      rw [hrest]
      simp [hp, hq]

theorem setCount_set {bm : Bitmap} {n i : ℕ} (hi : i < n) (hw : i / 64 < bm.length)
    (hb : bitmapGet bm i = false) : setCount (bitmapSet bm i) n = setCount bm n + 1 :=
  countP_range_turn_on hi hb (by rw [bitmapGet_set bm i i hw]; simp)
    fun k hk => by rw [bitmapGet_set bm i k hw]; simp [hk]

theorem setCount_clearBit {bm : Bitmap} {n i : ℕ} (hi : i < n) (hb : bitmapGet bm i = true) :
    setCount bm n = setCount (bitmapClearBit bm i) n + 1 :=
  countP_range_turn_on hi (by rw [bitmapGet_clearBit]; simp) hb
    fun k hk => by rw [bitmapGet_clearBit]; simp [hk]

end Nomalloc
