import Nomalloc.Lib.Runs
import Nomalloc.Utils.BitmapSearch

/-!
# The counts of `utils/bitmap.h`

`bitmap_count_set`, `bitmap_is_empty`, `bitmap_is_full` and `bitmap_equal` look at all bits of the
words, those of the last word behind the bitmap included.  `bitmap_fill` and `bitmap_not` set these,
and nothing but a later operation on whole words clears them.

* `BitmapStore`, `BitmapOp`   bitmaps by name, and the operations on them;
* `countsOk_iff`              the counts of a bitmap are those of its bits exactly when the bits behind
                              it are clear and, if there are such, it is not full;
* `bitmap_counts_iff`         all counts are right all along a run exactly when no operation sets the
                              bits behind a bitmap or leaves it full.
-/

namespace Nomalloc

/-- The loop of `bitmap_count_set` over the bits of a word. -/
def countWord (word : BitVec 64) (count : ℕ) : ℕ :=
  if word = 0 then count else countWord (word >>> 1) (addW count (word &&& 1).toNat)
termination_by word.toNat
decreasing_by
  have hne : word.toNat ≠ 0 := fun h => by simp_all [← BitVec.toNat_inj]
  rw [BitVec.toNat_ushiftRight, Nat.shiftRight_eq_div_pow]
  omega

/-- `bitmap_count_set` -/
def bitmapCountSet (bm : Bitmap) (numBits : ℕ) : ℕ :=
  (List.range (bitmapNumWords numBits)).foldl (fun count i => countWord (bm.getD i 0) count) 0

/-- `bitmap_count_clear` -/
def bitmapCountClear (bm : Bitmap) (numBits : ℕ) : ℕ := subW numBits (bitmapCountSet bm numBits)

/-- `bitmap_equal` -/
def bitmapEqual (bm1 bm2 : Bitmap) (numBits : ℕ) : Bool :=
  (List.range (bitmapNumWords numBits)).all fun i => bm1.getD i 0 == bm2.getD i 0

/-- `bitmap_is_empty` -/
def bitmapIsEmpty (bm : Bitmap) (numBits : ℕ) : Bool :=
  (List.range (bitmapNumWords numBits)).all fun i => bm.getD i 0 == 0

/-- `bitmap_is_full` -/
def bitmapIsFull (bm : Bitmap) (numBits : ℕ) : Bool :=
  (List.range (bitmapNumWords numBits)).all fun i => bm.getD i 0 == BitVec.allOnes 64

/-- A loop that stores to every word of `dst`. -/
def bitmapStoreWords (dst : Bitmap) (numBits : ℕ) (word : ℕ → BitVec 64) : Bitmap :=
  (List.range (bitmapNumWords numBits)).foldl (fun dst i => dst.set i (word i)) dst

/-- `bitmap_init` on an array that is there. -/
def bitmapInitAt (bm : Bitmap) (numBits : ℕ) (value : Bool) : Bitmap :=
  bitmapStoreWords bm numBits fun _ => if value then BitVec.allOnes 64 else 0

/-- `bitmap_fill` -/
def bitmapFill (bm : Bitmap) (numBits : ℕ) : Bitmap := bitmapInitAt bm numBits true

/-- `bitmap_clear` -/
def bitmapClear (bm : Bitmap) (numBits : ℕ) : Bitmap := bitmapInitAt bm numBits false

/-- `bitmap_or` -/
def bitmapOr (dst src1 src2 : Bitmap) (numBits : ℕ) : Bitmap :=
  bitmapStoreWords dst numBits fun i => src1.getD i 0 ||| src2.getD i 0

/-- `bitmap_and` -/
def bitmapAnd (dst src1 src2 : Bitmap) (numBits : ℕ) : Bitmap :=
  bitmapStoreWords dst numBits fun i => src1.getD i 0 &&& src2.getD i 0

/-- `bitmap_xor` -/
def bitmapXor (dst src1 src2 : Bitmap) (numBits : ℕ) : Bitmap :=
  bitmapStoreWords dst numBits fun i => src1.getD i 0 ^^^ src2.getD i 0

/-- `bitmap_not` -/
def bitmapNot (dst src : Bitmap) (numBits : ℕ) : Bitmap :=
  bitmapStoreWords dst numBits fun i => ~~~src.getD i 0

/-- `bitmap_set_bit` -/
def bitmapSetBit (bm : Bitmap) (index : ℕ) (value : Bool) : Bitmap :=
  if value then bitmapSet bm index else bitmapClearBit bm index

/-- `bitmap_test_and_set`, with the old bit. -/
def bitmapTestAndSet (bm : Bitmap) (index : ℕ) : Bitmap × Bool :=
  let mask := bitMask (index &&& 63)
  let old := bm.getD (index >>> 6) 0
  (bm.modify (index >>> 6) (· ||| mask), old &&& mask != 0)

/-- `bitmap_test_and_clear`, with the old bit. -/
def bitmapTestAndClear (bm : Bitmap) (index : ℕ) : Bitmap × Bool :=
  let mask := bitMask (index &&& 63)
  let old := bm.getD (index >>> 6) 0
  (bm.modify (index >>> 6) (· &&& ~~~mask), old &&& mask != 0)

/-! ## runs -/

/-- Arrays by name, and which of them an operation has written. -/
structure BitmapStore where
  map : ℕ → Bitmap
  built : ℕ → Bool

inductive BitmapOp where
  | init (x : ℕ) (value : Bool)
  | fill (x : ℕ)
  | clear (x : ℕ)
  | not (dst src : ℕ)
  | or (dst src1 src2 : ℕ)
  | and (dst src1 src2 : ℕ)
  | xor (dst src1 src2 : ℕ)
  | setBit (x index : ℕ) (value : Bool)
  | testAndSet (x index : ℕ)
  | testAndClear (x index : ℕ)

namespace BitmapOp

/-- The bitmap that is written. -/
def target : BitmapOp → ℕ
  | init x _ | fill x | clear x | not x _ | or x _ _ | and x _ _ | xor x _ _ | setBit x _ _
  | testAndSet x _ | testAndClear x _ => x

/-- What is written.  A source may be the target: word `i` is read before it is stored to. -/
def result (n : ℕ) (s : BitmapStore) : BitmapOp → Bitmap
  | init x value => bitmapInitAt (s.map x) n value
  | fill x => bitmapFill (s.map x) n
  | clear x => bitmapClear (s.map x) n
  | not dst src => bitmapNot (s.map dst) (s.map src) n
  | or dst src1 src2 => bitmapOr (s.map dst) (s.map src1) (s.map src2) n
  | and dst src1 src2 => bitmapAnd (s.map dst) (s.map src1) (s.map src2) n
  | xor dst src1 src2 => bitmapXor (s.map dst) (s.map src1) (s.map src2) n
  | setBit x index value => bitmapSetBit (s.map x) index value
  | testAndSet x index => (bitmapTestAndSet (s.map x) index).1
  | testAndClear x index => (bitmapTestAndClear (s.map x) index).1

/-- The sources were built, and the index is below the number of bits. -/
def Legal (n : ℕ) (s : BitmapStore) : BitmapOp → Prop
  | init _ _ | fill _ | clear _ => True
  | not _ src => s.built src
  | or _ src1 src2 | and _ src1 src2 | xor _ src1 src2 => s.built src1 ∧ s.built src2
  | setBit x index _ | testAndSet x index | testAndClear x index => s.built x ∧ index < n

/-- The bits behind the bitmap are not set. -/
def LeavesPadding : BitmapOp → Prop
  | init _ value => value = false
  | fill _ | not _ _ => False
  | _ => True

/-- Some bit is clear afterwards. -/
def LeavesClear (n : ℕ) (s : BitmapStore) : BitmapOp → Prop
  | or _ src1 src2 =>
    ∃ i < n, bitmapGet (s.map src1) i = false ∧ bitmapGet (s.map src2) i = false
  | and _ src1 src2 =>
    ∃ i < n, bitmapGet (s.map src1) i = false ∨ bitmapGet (s.map src2) i = false
  | xor _ src1 src2 => ∃ i < n, bitmapGet (s.map src1) i = bitmapGet (s.map src2) i
  | setBit x index true | testAndSet x index =>
    ∃ i < n, i ≠ index ∧ bitmapGet (s.map x) i = false
  | _ => True

/-- The bit at `k` of what is written: the operation on sets of indices. -/
def bitAfter (s : BitmapStore) (k : ℕ) : BitmapOp → Bool
  | init _ value => value
  | fill _ => true
  | clear _ => false
  | not _ src => !bitmapGet (s.map src) k
  | or _ src1 src2 => bitmapGet (s.map src1) k || bitmapGet (s.map src2) k
  | and _ src1 src2 => bitmapGet (s.map src1) k && bitmapGet (s.map src2) k
  | xor _ src1 src2 => bitmapGet (s.map src1) k ^^ bitmapGet (s.map src2) k
  | setBit x index value => if k = index then value else bitmapGet (s.map x) k
  | testAndSet x index => decide (k = index) || bitmapGet (s.map x) k
  | testAndClear x index => !decide (k = index) && bitmapGet (s.map x) k

/-- The number of bits does not wrap when it is rounded up to words; and it is a multiple of 64, or
the operation leaves the bits behind the bitmap clear and some bit of the bitmap, too. -/
def KeepsCounts (n : ℕ) (s : BitmapStore) (op : BitmapOp) : Prop :=
  n + 63 < wordSize ∧ (n % 64 = 0 ∨ (op.LeavesPadding ∧ op.LeavesClear n s))

end BitmapOp

namespace BitmapStore

def step (n : ℕ) (s : BitmapStore) (op : BitmapOp) : BitmapStore where
  map := Function.update s.map op.target (op.result n s)
  built := Function.update s.built op.target true

/-- No array has been written. -/
def fresh (mem : ℕ → Bitmap) : BitmapStore := ⟨mem, fun _ => false⟩

end BitmapStore

/-- The counts of a bitmap are those of its bits. -/
def CountsOk (n : ℕ) (bm : Bitmap) : Prop :=
  bitmapCountSet bm n = (List.range n).countP (fun i => bitmapGet bm i) ∧
    bitmapCountClear bm n = (List.range n).countP (fun i => !bitmapGet bm i) ∧
    (bitmapIsEmpty bm n = true ↔ ∀ i < n, bitmapGet bm i = false) ∧
    (bitmapIsFull bm n = true ↔ ∀ i < n, bitmapGet bm i = true)

/-- So are those of all bitmaps built, and two are equal when their bits are. -/
def BitmapStore.CountsAgree (n : ℕ) (s : BitmapStore) : Prop :=
  (∀ x, s.built x → CountsOk n (s.map x)) ∧
    ∀ x y, s.built x → s.built y →
      (bitmapEqual (s.map x) (s.map y) n = true ↔
        ∀ i < n, bitmapGet (s.map x) i = bitmapGet (s.map y) i)

/-! ## words and bits -/

section
variable {bm bm1 bm2 : Bitmap} {n m i k : ℕ}

theorem countP_shiftRight (w : BitVec 64) :
    (List.range 64).countP w.getLsbD =
      (w &&& 1).toNat + (List.range 64).countP (w >>> 1).getLsbD := by
  have hlow : (w &&& 1).toNat = if w.getLsbD 0 then 1 else 0 := by
    have hbit : ∀ b : Bool, (if b then 1 else 0) = b.toNat := by decide
    rw [BitVec.toNat_and, hbit, BitVec.getLsbD, Nat.testBit_zero]
    show w.toNat &&& 1 = _
    rw [Nat.and_one_is_mod]
    rcases Nat.mod_two_eq_zero_or_one w.toNat with h | h <;> simp [h]
  have hleft : (List.range 64).countP w.getLsbD =
      (if w.getLsbD 0 then 1 else 0) + (List.range 63).countP fun j => w.getLsbD (j + 1) := by
    have hrange : List.range 64 = 0 :: (List.range 63).map (· + 1) := List.range_succ_eq_map
    rw [hrange, List.countP_cons, List.countP_map, Nat.add_comm]
    rfl
  have hright : (List.range 64).countP (w >>> 1).getLsbD =
      (List.range 63).countP fun j => w.getLsbD (j + 1) := by
    have htop : (w >>> 1).getLsbD 63 = false := by
      rw [BitVec.getLsbD_ushiftRight]
      exact BitVec.getLsbD_of_ge _ _ (by decide)
    have hrange : List.range 64 = List.range 63 ++ [63] := List.range_succ
    rw [hrange, List.countP_append, List.countP_singleton, htop]
    exact List.countP_congr fun j _ => by rw [BitVec.getLsbD_ushiftRight, Nat.add_comm]
  rw [hlow, hleft, hright]

theorem countWord_eq (w : BitVec 64) {c : ℕ} (hc : c < wordSize) :
    countWord w c = (c + (List.range 64).countP w.getLsbD) % wordSize := by
  induction w, c using countWord.induct with
  | case1 c =>
    unfold countWord
    have hzero : (List.range 64).countP (0 : BitVec 64).getLsbD = 0 := by decide
    rw [if_pos rfl, hzero, Nat.add_zero, Nat.mod_eq_of_lt hc]
  | case2 w c hne ih =>
    unfold countWord
    rw [if_neg hne, ih (addW_lt _ _), countP_shiftRight w]
    unfold addW
    rw [Nat.mod_add_mod, Nat.add_assoc]

/-- Sixty-four bits are those of a word. -/
theorem setCount_word (bm : Bitmap) (m : ℕ) :
    setCount bm (64 * (m + 1)) =
      setCount bm (64 * m) + (List.range 64).countP (bm.getD m 0).getLsbD := by
  unfold setCount
  rw [Nat.mul_succ, List.range_add, List.countP_append, List.countP_map]
  congr 1
  refine List.countP_congr fun j hj => ?_
  have hj : j < 64 := List.mem_range.mp hj
  rw [Function.comp_apply, bitmapGet_eq, show (64 * m + j) / 64 = m by omega,
    show (64 * m + j) % 64 = j by omega]

theorem bitmapCountSet_eq (bm : Bitmap) (n : ℕ) :
    bitmapCountSet bm n = setCount bm (64 * bitmapNumWords n) % wordSize := by
  unfold bitmapCountSet
  induction bitmapNumWords n with
  | zero => rfl
  | succ m ih =>
    rw [List.range_succ, List.foldl_append, ih, List.foldl_cons, List.foldl_nil,
      countWord_eq _ (Nat.mod_lt _ (by decide)), Nat.mod_add_mod, ← setCount_word]

theorem all_words_iff {p : ℕ → BitVec 64 → Prop} {q : ℕ → Prop}
    (h : ∀ i, p i (bm.getD i 0) ↔ ∀ j < 64, q (64 * i + j)) :
    (∀ i < m, p i (bm.getD i 0)) ↔ ∀ k < 64 * m, q k := by
  constructor
  · intro hall k hk
    have hword := (h (k / 64)).mp (hall (k / 64) (by omega)) (k % 64) (Nat.mod_lt _ (by decide))
    rwa [Nat.div_add_mod] at hword
  · intro hall i hi
    exact (h i).mpr fun j hj => hall (64 * i + j) (by omega)

theorem bitmapGet_word (bm : Bitmap) (i : ℕ) {j : ℕ} (hj : j < 64) :
    bitmapGet bm (64 * i + j) = (bm.getD i 0).getLsbD j := by
  rw [bitmapGet_eq, show (64 * i + j) / 64 = i by omega, show (64 * i + j) % 64 = j by omega]

theorem bitmapIsEmpty_iff :
    bitmapIsEmpty bm n = true ↔ ∀ k < 64 * bitmapNumWords n, bitmapGet bm k = false := by
  unfold bitmapIsEmpty
  rw [List.all_eq_true]
  simp only [List.mem_range, beq_iff_eq]
  refine all_words_iff (p := fun _ w => w = 0) fun i => ?_
  constructor
  · intro he j hj
    rw [bitmapGet_word bm i hj, he]
    exact BitVec.getLsbD_zero
  · intro hall
    refine BitVec.eq_of_getLsbD_eq fun j hj => ?_
    rw [← bitmapGet_word bm i hj, hall j hj]
    exact BitVec.getLsbD_zero.symm

theorem bitmapIsFull_iff :
    bitmapIsFull bm n = true ↔ ∀ k < 64 * bitmapNumWords n, bitmapGet bm k = true := by
  unfold bitmapIsFull
  rw [List.all_eq_true]
  simp only [List.mem_range, beq_iff_eq]
  refine all_words_iff (p := fun _ w => w = BitVec.allOnes 64) fun i => ?_
  constructor
  · intro he j hj
    rw [bitmapGet_word bm i hj, he]
    exact BitVec.getLsbD_allOnes.trans (decide_eq_true hj)
  · intro hall
    refine BitVec.eq_of_getLsbD_eq fun j hj => ?_
    rw [← bitmapGet_word bm i hj, hall j hj]
    exact (BitVec.getLsbD_allOnes.trans (decide_eq_true hj)).symm

theorem bitmapEqual_iff :
    bitmapEqual bm1 bm2 n = true ↔
      ∀ k < 64 * bitmapNumWords n, bitmapGet bm1 k = bitmapGet bm2 k := by
  unfold bitmapEqual
  rw [List.all_eq_true]
  simp only [List.mem_range, beq_iff_eq]
  refine all_words_iff (p := fun i w => w = bm2.getD i 0) fun i => ?_
  constructor
  · intro he j hj
    rw [bitmapGet_word bm1 i hj, bitmapGet_word bm2 i hj, he]
  · intro hall
    refine BitVec.eq_of_getLsbD_eq fun j hj => ?_
    rw [← bitmapGet_word bm1 i hj, ← bitmapGet_word bm2 i hj, hall j hj]

end

/-! ## whole words -/

theorem getElem?_foldl_set {α : Type*} (dst : List α) (word : ℕ → α) (m k : ℕ) :
    ((List.range m).foldl (fun dst i => dst.set i (word i)) dst)[k]? =
      if k < m then dst[k]?.map fun _ => word k else dst[k]? := by
  induction m with
  | zero => rfl
  | succ m ih =>
    rw [List.range_succ, List.foldl_append, List.foldl_cons, List.foldl_nil, List.getElem?_set']
    rcases Nat.lt_trichotomy k m with h | h | h
    · rw [if_neg (by omega), ih, if_pos h, if_pos (by omega)]
    · subst h
      rw [if_pos rfl, ih, if_neg (lt_irrefl k), if_pos (Nat.lt_succ_self k)]
      rfl
    · rw [if_neg (by omega), ih, if_neg (by omega), if_neg (by omega)]

section
variable {dst : Bitmap} {n k : ℕ} {word : ℕ → BitVec 64}

theorem length_storeWords : (bitmapStoreWords dst n word).length = dst.length := by
  unfold bitmapStoreWords
  induction bitmapNumWords n with
  | zero => rfl
  | succ m ih =>
    rw [List.range_succ, List.foldl_append, List.foldl_cons, List.foldl_nil, List.length_set, ih]

/-- A store to every word sets all bits, those behind the bitmap included. -/
theorem bitmapGet_storeWords (hn : n + 63 < wordSize) (hdst : dst.length = bitmapSize n)
    (hk : k < 64 * bitmapSize n) :
    bitmapGet (bitmapStoreWords dst n word) k = (word (k / 64)).getLsbD (k % 64) := by
  have hword : k / 64 < bitmapSize n := by omega
  have hlt : k / 64 < dst.length := hdst.symm ▸ hword
  have hget := getElem?_foldl_set dst word (bitmapSize n) (k / 64)
  rw [if_pos hword, List.getElem?_eq_getElem hlt] at hget
  rw [bitmapGet_eq, List.getD_eq_getElem?_getD]
  unfold bitmapStoreWords
  rw [bitmapNumWords_eq hn, hget]
  rfl

end

/-! ## one operation -/

namespace BitmapOp

variable {n k : ℕ} {s : BitmapStore} {op : BitmapOp}

theorem length_result (h : ∀ x, (s.map x).length = bitmapSize n) :
    (op.result n s).length = bitmapSize n := by
  cases op with
  | setBit x index value => cases value <;> exact List.length_modify .. |>.trans (h x)
  | testAndSet x index | testAndClear x index => exact List.length_modify .. |>.trans (h x)
  | init x _ | fill x | clear x | not x _ | or x _ _ | and x _ _ | xor x _ _ =>
    exact length_storeWords.trans (h x)

/-- The words hold what the operation does to the bits, behind the bitmap too. -/
theorem get_result (hn : n + 63 < wordSize) (h : ∀ x, (s.map x).length = bitmapSize n)
    (hop : op.Legal n s) (hk : k < 64 * bitmapSize n) :
    bitmapGet (op.result n s) k = op.bitAfter s k := by
  have hmod : k % 64 < 64 := Nat.mod_lt _ (by decide)
  have hinit : ∀ x value, bitmapGet (bitmapInitAt (s.map x) n value) k = value := by
    intro x value
    refine (bitmapGet_storeWords hn (h x) hk).trans ?_
    cases value with
    | true => exact BitVec.getLsbD_allOnes.trans (decide_eq_true hmod)
    | false => exact BitVec.getLsbD_zero
  have hset : ∀ x index, index < n →
      bitmapGet (bitmapSet (s.map x) index) k = (decide (k = index) || bitmapGet (s.map x) k) :=
    fun x index hi => bitmapGet_set _ _ _ ((h x).symm ▸ div_lt_bitmapSize hi)
  cases op with
  | init x value => exact hinit x value
  | fill x => exact hinit x true
  | clear x => exact hinit x false
  | not x src =>
    refine (bitmapGet_storeWords hn (h x) hk).trans ?_
    rw [BitVec.getLsbD_not, decide_eq_true hmod, Bool.true_and, bitAfter, bitmapGet_eq]
  | or x src1 src2 =>
    refine (bitmapGet_storeWords hn (h x) hk).trans ?_
    rw [BitVec.getLsbD_or, bitAfter, bitmapGet_eq, bitmapGet_eq]
  | and x src1 src2 =>
    refine (bitmapGet_storeWords hn (h x) hk).trans ?_
    rw [BitVec.getLsbD_and, bitAfter, bitmapGet_eq, bitmapGet_eq]
  | xor x src1 src2 =>
    refine (bitmapGet_storeWords hn (h x) hk).trans ?_
    rw [BitVec.getLsbD_xor, bitAfter, bitmapGet_eq, bitmapGet_eq]
  | setBit x index value =>
    cases value with
    | true =>
      refine (hset x index hop.2).trans ?_
      by_cases he : k = index <;> simp [bitAfter, he]
    | false =>
      refine (bitmapGet_clearBit _ _ _).trans ?_
      by_cases he : k = index <;> simp [bitAfter, he]
  | testAndSet x index => exact hset x index hop.2
  | testAndClear x index => exact bitmapGet_clearBit _ _ _

/-- Bits behind the bitmap that were clear in all sources are clear exactly when the operation
leaves them so. -/
theorem bitAfter_padding (hk : n ≤ k) (hpad : ∀ x, s.built x → bitmapGet (s.map x) k = false)
    (hop : op.Legal n s) : op.bitAfter s k = false ↔ op.LeavesPadding := by
  cases op with
  | init x value => exact Iff.rfl
  | fill x => exact iff_of_false (fun he => Bool.false_ne_true he.symm) id
  | clear x => exact iff_of_true rfl trivial
  | not x src =>
    refine iff_of_false (fun he => ?_) id
    rw [bitAfter, hpad src hop] at he
    exact absurd he (by decide)
  | or x src1 src2 | and x src1 src2 | xor x src1 src2 =>
    refine iff_of_true ?_ trivial
    rw [bitAfter, hpad src1 hop.1, hpad src2 hop.2]
    rfl
  | setBit x index value =>
    refine iff_of_true ?_ trivial
    rw [bitAfter, if_neg (by have := hop.2; omega), hpad x hop.1]
  | testAndSet x index | testAndClear x index =>
    refine iff_of_true ?_ trivial
    have hne : k ≠ index := by have := hop.2; omega
    rw [bitAfter, hpad x hop.1]
    simp [hne]

/-- Some bit of the bitmap is clear exactly when the operation leaves one. -/
theorem bitAfter_clear (hn : 0 < n) (hpad : op.LeavesPadding) (hop : op.Legal n s) :
    (∃ i < n, op.bitAfter s i = false) ↔ op.LeavesClear n s := by
  cases op with
  | init x value => exact iff_of_true ⟨0, hn, hpad⟩ trivial
  | fill x => exact absurd hpad id
  | clear x => exact iff_of_true ⟨0, hn, rfl⟩ trivial
  | not x src => exact absurd hpad id
  | or x src1 src2 => simp only [bitAfter, LeavesClear, Bool.or_eq_false_iff]
  | and x src1 src2 => simp only [bitAfter, LeavesClear, Bool.and_eq_false_iff]
  | xor x src1 src2 => simp only [bitAfter, LeavesClear, bne_eq_false_iff_eq]
  | setBit x index value =>
    cases value with
    | true =>
      refine exists_congr fun i => and_congr_right fun _ => ?_
      by_cases he : i = index <;> simp [bitAfter, he]
    | false => exact iff_of_true ⟨index, hop.2, if_pos rfl⟩ trivial
  | testAndSet x index =>
    refine exists_congr fun i => and_congr_right fun _ => ?_
    simp [bitAfter]
  | testAndClear x index =>
    refine iff_of_true ⟨index, hop.2, ?_⟩ trivial
    simp [bitAfter]

end BitmapOp

/-! ## counts -/

section
variable {bm bm1 bm2 : Bitmap} {n : ℕ}

/-- The bits behind a bitmap of `n` bits are clear. -/
def PaddingClear (n : ℕ) (bm : Bitmap) : Prop :=
  ∀ k, n ≤ k → k < 64 * bitmapSize n → bitmapGet bm k = false

theorem le_bitmapSize_mul (n : ℕ) : n ≤ 64 * bitmapSize n ∧ 64 * bitmapSize n ≤ n + 63 := by
  unfold bitmapSize
  rw [Nat.shiftRight_eq_div_pow]
  omega

theorem countP_padding (bm : Bitmap) (n : ℕ) :
    setCount bm (64 * bitmapSize n) = setCount bm n +
      (List.range (64 * bitmapSize n - n)).countP fun j => bitmapGet bm (n + j) := by
  obtain ⟨hle, -⟩ := le_bitmapSize_mul n
  unfold setCount
  conv_lhs => rw [← Nat.add_sub_cancel' hle, List.range_add, List.countP_append, List.countP_map]
  rfl

theorem setCount_le (bm : Bitmap) (n : ℕ) : setCount bm n ≤ n :=
  List.countP_le_length.trans_eq List.length_range

/-- The count takes the bits behind the bitmap in. -/
theorem bitmapCountSet_iff (hn : n + 63 < wordSize) :
    bitmapCountSet bm n = setCount bm n ↔ PaddingClear n bm := by
  obtain ⟨hle, hup⟩ := le_bitmapSize_mul n
  have hlt : setCount bm (64 * bitmapSize n) < wordSize :=
    ((setCount_le bm _).trans hup).trans_lt hn
  rw [bitmapCountSet_eq, bitmapNumWords_eq hn, Nat.mod_eq_of_lt hlt, countP_padding,
    Nat.add_eq_left, List.countP_eq_zero]
  constructor
  · intro hall k hk hlt
    have hbit := hall (k - n) (List.mem_range.mpr (by omega))
    rw [Nat.add_sub_cancel' hk] at hbit
    exact eq_false_of_ne_true hbit
  · intro hclear j hj
    have hj : j < 64 * bitmapSize n - n := List.mem_range.mp hj
    rw [hclear (n + j) (Nat.le_add_right n j) (by omega)]
    exact Bool.false_ne_true

theorem countP_not_get (bm : Bitmap) (n : ℕ) :
    (List.range n).countP (fun i => !bitmapGet bm i) = n - setCount bm n := by
  have hsum := List.length_eq_countP_add_countP (bitmapGet bm) (l := List.range n)
  rw [List.length_range] at hsum
  have hcongr : (List.range n).countP (fun i => !bitmapGet bm i) =
      (List.range n).countP fun i => decide ¬bitmapGet bm i = true :=
    List.countP_congr fun i _ => by simp
  unfold setCount
  omega

theorem countsOk_iff (hn : n + 63 < wordSize) :
    CountsOk n bm ↔ PaddingClear n bm ∧ (n % 64 = 0 ∨ ∃ i < n, bitmapGet bm i = false) := by
  obtain ⟨hle, hup⟩ := le_bitmapSize_mul n
  have hnw := bitmapNumWords_eq hn
  -- without bits behind the bitmap the words are its bits
  have hexact : n % 64 = 0 → 64 * bitmapSize n = n := by
    intro hmod
    unfold bitmapSize at *
    rw [Nat.shiftRight_eq_div_pow] at *
    omega
  have hpadded : n % 64 ≠ 0 → n < 64 * bitmapSize n := fun hmod =>
    lt_of_le_of_ne hle fun he => hmod (by omega)
  constructor
  · rintro ⟨hset, -, -, hfull⟩
    have hclear := (bitmapCountSet_iff hn).mp hset
    refine ⟨hclear, ?_⟩
    by_contra hnone
    obtain ⟨hmod, hall⟩ := not_or.mp hnone
    have hbits : ∀ i < n, bitmapGet bm i = true := fun i hi =>
      eq_true_of_ne_false fun he => hall ⟨i, hi, he⟩
    have hwords := bitmapIsFull_iff.mp (hfull.mpr hbits) n (hnw.symm ▸ hpadded hmod)
    rw [hclear n le_rfl (hpadded hmod)] at hwords
    exact Bool.false_ne_true hwords
  · rintro ⟨hclear, hsome⟩
    have hset := (bitmapCountSet_iff hn).mpr hclear
    refine ⟨hset, ?_, ?_, ?_⟩
    · rw [bitmapCountClear, hset, subW_eq (setCount_le bm n) (by omega), countP_not_get]
    · rw [bitmapIsEmpty_iff, hnw]
      refine ⟨fun hall i hi => hall i (hi.trans_le hle), fun hall k hk => ?_⟩
      rcases Nat.lt_or_ge k n with h | h
      · exact hall k h
      · exact hclear k h hk
    · rw [bitmapIsFull_iff, hnw]
      refine ⟨fun hall i hi => hall i (hi.trans_le hle), fun hall k hk => ?_⟩
      rcases hsome with hmod | ⟨i, hi, he⟩
      · exact hall k (hexact hmod ▸ hk)
      · exact absurd ((hall i hi).symm.trans he) Bool.false_ne_true.symm

theorem bitmapEqual_iff_bits (hn : n + 63 < wordSize) (h1 : PaddingClear n bm1)
    (h2 : PaddingClear n bm2) :
    bitmapEqual bm1 bm2 n = true ↔ ∀ i < n, bitmapGet bm1 i = bitmapGet bm2 i := by
  obtain ⟨hle, -⟩ := le_bitmapSize_mul n
  rw [bitmapEqual_iff, bitmapNumWords_eq hn]
  refine ⟨fun hall i hi => hall i (hi.trans_le hle), fun hall k hk => ?_⟩
  rcases Nat.lt_or_ge k n with h | h
  · exact hall k h
  · rw [h1 k h hk, h2 k h hk]

/-- Where the number of words wraps to none, every bitmap is empty and full. -/
theorem not_countsOk_of_wrap (hn : n < wordSize) (hwrap : wordSize ≤ n + 63) :
    ¬ CountsOk n bm := by
  rintro ⟨-, -, hempty, hfull⟩
  have hws := wordSize_eq
  have hzero : bitmapNumWords n = 0 := by
    have he : addW n 64 = n + 64 - wordSize := addW_wrap (by omega) (by omega)
    have hpos : 1 ≤ n + 64 - wordSize := by omega
    unfold bitmapNumWords
    rw [he, subW_eq hpos (by omega), Nat.shiftRight_eq_div_pow]
    omega
  have hnone := hempty.mp (bitmapIsEmpty_iff.mpr fun k hk => by rw [hzero] at hk; omega)
  have hall := hfull.mp (bitmapIsFull_iff.mpr fun k hk => by rw [hzero] at hk; omega)
  have hpos : 0 < n := by omega
  exact Bool.false_ne_true ((hnone 0 hpos).symm.trans (hall 0 hpos))

end

/-! ## all operations -/

namespace BitmapStore

/-- What the runs that keep the counts keep. -/
structure Inv (n : ℕ) (s : BitmapStore) : Prop where
  length : ∀ x, (s.map x).length = bitmapSize n
  fits : ∀ x, s.built x → n + 63 < wordSize
  ok : ∀ x, s.built x → CountsOk n (s.map x)

section
variable {n : ℕ} {s : BitmapStore} {op : BitmapOp}

theorem Inv.fresh {mem : ℕ → Bitmap} (h : ∀ x, (mem x).length = bitmapSize n) :
    Inv n (fresh mem) :=
  ⟨h, fun _ hx => absurd hx Bool.false_ne_true, fun _ hx => absurd hx Bool.false_ne_true⟩

theorem Inv.paddingClear (hs : Inv n s) {x : ℕ} (hx : s.built x) : PaddingClear n (s.map x) :=
  ((countsOk_iff (hs.fits x hx)).mp (hs.ok x hx)).1

theorem Inv.countsAgree (hs : Inv n s) : CountsAgree n s :=
  ⟨hs.ok, fun _ _ hx hy =>
    bitmapEqual_iff_bits (hs.fits _ hx) (hs.paddingClear hx) (hs.paddingClear hy)⟩

/-- What is written has the right counts exactly when the operation keeps them. -/
theorem countsOk_result (hn : n < wordSize) (hs : Inv n s) (hop : op.Legal n s) :
    CountsOk n (op.result n s) ↔ op.KeepsCounts n s := by
  rcases Nat.lt_or_ge (n + 63) wordSize with hfits | hwrap
  swap
  · exact iff_of_false (not_countsOk_of_wrap hn hwrap) fun h => absurd h.1 (by omega)
  obtain ⟨hle, hup⟩ := le_bitmapSize_mul n
  have hget : ∀ k < 64 * bitmapSize n, bitmapGet (op.result n s) k = op.bitAfter s k :=
    fun k hk => BitmapOp.get_result hfits hs.length hop hk
  have hbits : (∃ i < n, bitmapGet (op.result n s) i = false) ↔
      ∃ i < n, op.bitAfter s i = false :=
    exists_congr fun i => and_congr_right fun hi => by rw [hget i (hi.trans_le hle)]
  rw [countsOk_iff hfits, hbits]
  rcases Nat.eq_zero_or_pos (n % 64) with hmod | hmod
  · -- no bits behind the bitmap
    refine iff_of_true ⟨fun k hk hlt => ?_, Or.inl hmod⟩ ⟨hfits, Or.inl hmod⟩
    omega
  · have hlast : n < 64 * bitmapSize n := lt_of_le_of_ne hle fun he => by omega
    have hpad : ∀ k, n ≤ k → k < 64 * bitmapSize n →
        (bitmapGet (op.result n s) k = false ↔ op.LeavesPadding) := fun k hk hlt => by
      rw [hget k hlt]
      exact BitmapOp.bitAfter_padding hk (fun x hx => hs.paddingClear hx k hk hlt) hop
    constructor
    · rintro ⟨hclear, hsome⟩
      have hleaves := (hpad n le_rfl hlast).mp (hclear n le_rfl hlast)
      exact ⟨hfits, Or.inr ⟨hleaves,
        (BitmapOp.bitAfter_clear (by omega) hleaves hop).mp (hsome.resolve_left (by omega))⟩⟩
    · rintro ⟨-, hkeeps⟩
      obtain ⟨hleaves, hsome⟩ := hkeeps.resolve_left (by omega)
      exact ⟨fun k hk hlt => (hpad k hk hlt).mpr hleaves,
        Or.inr ((BitmapOp.bitAfter_clear (by omega) hleaves hop).mpr hsome)⟩

theorem step_target (n : ℕ) (s : BitmapStore) (op : BitmapOp) :
    (step n s op).map op.target = op.result n s ∧ (step n s op).built op.target = true :=
  ⟨Function.update_self .., Function.update_self ..⟩

theorem step_of_ne {x : ℕ} (h : x ≠ op.target) :
    (step n s op).map x = s.map x ∧ (step n s op).built x = s.built x :=
  ⟨Function.update_of_ne h .., Function.update_of_ne h ..⟩

theorem Inv.next (hn : n < wordSize) (hs : Inv n s) (hop : op.Legal n s)
    (hkeeps : op.KeepsCounts n s) : Inv n (step n s op) := by
  obtain ⟨hmap, -⟩ := step_target n s op
  refine ⟨fun x => ?_, fun _ _ => hkeeps.1, fun x hx => ?_⟩
  · by_cases he : x = op.target
    · rw [he, hmap]
      exact BitmapOp.length_result hs.length
    · rw [(step_of_ne he).1]
      exact hs.length x
  · by_cases he : x = op.target
    · rw [he, hmap]
      exact (countsOk_result hn hs hop).mpr hkeeps
    · rw [(step_of_ne he).2] at hx
      rw [(step_of_ne he).1]
      exact hs.ok x hx

theorem not_countsAgree_step (hn : n < wordSize) (hs : Inv n s) (hop : op.Legal n s)
    (hkeeps : ¬ op.KeepsCounts n s) : ¬ CountsAgree n (step n s op) := by
  intro hagree
  obtain ⟨hmap, hbuilt⟩ := step_target n s op
  have hok := hagree.1 op.target hbuilt
  rw [hmap] at hok
  exact hkeeps ((countsOk_result hn hs hop).mp hok)

end

end BitmapStore

/-- **The counts.**  All along a run they are right exactly when every operation keeps them. -/
theorem bitmap_counts_iff {n : ℕ} (hn : n < wordSize) {mem : ℕ → Bitmap}
    (hmem : ∀ x, (mem x).length = bitmapSize n) {ops : List BitmapOp}
    (hops : Runs.Each (BitmapStore.step n) (fun s op => op.Legal n s) (BitmapStore.fresh mem) ops) :
    Runs.Always (BitmapStore.step n) (BitmapStore.CountsAgree n) (BitmapStore.fresh mem) ops ↔
      Runs.Each (BitmapStore.step n) (fun s op => op.KeepsCounts n s) (BitmapStore.fresh mem) ops := by
  have hnext : ∀ s op, BitmapStore.Inv n s → op.Legal n s → op.KeepsCounts n s →
      BitmapStore.Inv n (BitmapStore.step n s op) := fun _ _ hs => hs.next hn
  exact Runs.always_iff_each_of hnext (fun _ hs => hs.countsAgree)
    (fun _ _ hs => BitmapStore.not_countsAgree_step hn hs) (BitmapStore.Inv.fresh hmem) hops

/-- Three bits, of which one is set, and their difference from an empty bitmap. -/
theorem bitmap_counts_three :
    Runs.Always (BitmapStore.step 3) (BitmapStore.CountsAgree 3) (BitmapStore.fresh fun _ => [0])
        [.clear 0, .setBit 0 1 true, .clear 1, .xor 2 0 1] ↔
      Runs.Each (BitmapStore.step 3) (fun s op => op.KeepsCounts 3 s)
        (BitmapStore.fresh fun _ => [0]) [.clear 0, .setBit 0 1 true, .clear 1, .xor 2 0 1] :=
  bitmap_counts_iff (by decide) (fun _ => rfl)
    ⟨trivial, ⟨rfl, by decide⟩, trivial, ⟨rfl, rfl⟩, trivial⟩

/-- One bit that is set by `bitmap_fill` counts as sixty-four. -/
theorem bitmap_counts_fill :
    Runs.Each (BitmapStore.step 1) (fun s op => op.Legal 1 s) (BitmapStore.fresh fun _ => [0])
        [.fill 0] ∧
      ¬ Runs.Always (BitmapStore.step 1) (BitmapStore.CountsAgree 1)
        (BitmapStore.fresh fun _ => [0]) [.fill 0] := by
  refine ⟨⟨trivial, trivial⟩, fun h => ?_⟩
  have hok := (h.2 : BitmapStore.CountsAgree 1 _).1 0 rfl
  have hset : bitmapCountSet [BitVec.allOnes 64] 1 = 1 := hok.1
  rw [bitmapCountSet_eq] at hset
  exact absurd hset (by decide)

end Nomalloc
