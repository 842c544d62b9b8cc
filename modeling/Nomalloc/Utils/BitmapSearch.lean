import Nomalloc.Utils.Bitmap
import Nomalloc.Utils.Math

/-!
# The searches of `utils/bitmap.h`

`bitmap_find_first_set` and `bitmap_find_first_clear` look at whole words first, and at the number of
bits only when they have found one; what the last word holds behind the bitmap makes no difference.

* `bitmapNumWords`              `bitmap_size` in 64-bit arithmetic;
* `bitmapFindFirstSet_eq`       the search for a set bit is that for a clear one in the complement;
* `bitmap_find_first`           both find the least index of their kind.
-/

namespace Nomalloc

/-- `bitmap_size` as it is computed, with its wrapping addition. -/
def bitmapNumWords (numBits : ℕ) : ℕ := subW (addW numBits 64) 1 >>> 6

/-- The loop over the bits of word `i` in `bitmap_find_first_set`. -/
def findSetInWord (w : BitVec 64) (i numBits : ℕ) : Option ℕ :=
  ((List.range 64).find? fun j => (w >>> j) &&& 1 != 0 && decide ((i <<< 6) + j < numBits)).map
    fun j => (i <<< 6) + j

/-- `bitmap_find_first_set` -/
def bitmapFindFirstSet (bm : Bitmap) (numBits : ℕ) : ℕ :=
  ((List.range (bitmapSize numBits)).findSome? fun i =>
    if bm.getD i 0 != 0 then findSetInWord (bm.getD i 0) i numBits else none)
  |>.getD numBits

/-- `r` is the least index below `n` with `p`, or `n` when there is none. -/
def FirstIndex (n : ℕ) (p : ℕ → Prop) (r : ℕ) : Prop :=
  (r < n ∧ p r ∧ ∀ k < r, ¬ p k) ∨ (r = n ∧ ∀ k < n, ¬ p k)

theorem bitmapNumWords_eq {n : ℕ} (h : n + 63 < wordSize) : bitmapNumWords n = bitmapSize n := by
  unfold bitmapNumWords bitmapSize
  rw [subW_addW_one (by decide) (by omega)]

section
variable {bm : Bitmap} {n i : ℕ}

theorem bitmapGet_map_not (h : i / 64 < bm.length) :
    bitmapGet (bm.map (~~~ ·)) i = !bitmapGet bm i := by
  have hmod : i % 64 < 64 := Nat.mod_lt _ (by decide)
  rw [bitmapGet_eq, bitmapGet_eq, List.getD_eq_getElem?_getD, List.getD_eq_getElem?_getD,
    List.getElem?_map, List.getElem?_eq_getElem h]
  simp [hmod]

theorem findSetInWord_eq (w : BitVec 64) (i n : ℕ) :
    findSetInWord w i n = findClearInWord (~~~w) i n := by
  unfold findSetInWord findClearInWord
  congr 1
  refine List.find?_congr fun j hj => ?_
  have hj : j < 64 := List.mem_range.mp hj
  have hset := word_bit w j
  have hclear : ((~~~w >>> j) &&& 1 == 0) = !(~~~w).getLsbD j := by
    rw [← word_bit (~~~w) j, bne, Bool.not_not]
  rw [hset, hclear, BitVec.getLsbD_not]
  simp [hj]

theorem findSome_congr {α β : Type*} {l : List α} {f g : α → Option β} (h : ∀ x ∈ l, f x = g x) :
    l.findSome? f = l.findSome? g := by
  induction l with
  | nil => rfl
  | cons x l ih =>
    obtain ⟨hx, hl⟩ := List.forall_mem_cons.mp h
    rw [List.findSome?_cons, List.findSome?_cons, hx, ih hl]

theorem bitmapFindFirstSet_eq (h : bitmapSize n ≤ bm.length) :
    bitmapFindFirstSet bm n = bitmapFindFirstClear (bm.map (~~~ ·)) n := by
  unfold bitmapFindFirstSet bitmapFindFirstClear
  congr 1
  refine findSome_congr fun i hi => ?_
  have hi : i < bm.length := (List.mem_range.mp hi).trans_le h
  have hword : (bm.map (~~~ ·)).getD i 0 = ~~~bm.getD i 0 := by
    rw [List.getD_eq_getElem?_getD, List.getD_eq_getElem?_getD, List.getElem?_map,
      List.getElem?_eq_getElem hi]
    rfl
  have hzero : (~~~bm.getD i 0 != BitVec.allOnes 64) = (bm.getD i 0 != 0) := by
    rw [Bool.eq_iff_iff, bne_iff_ne, bne_iff_ne, ne_eq, ne_eq, not_iff_not]
    constructor
    · intro he
      rw [← BitVec.not_not (b := bm.getD i 0), he]
      exact BitVec.not_allOnes
    · intro he
      rw [he]
      exact BitVec.not_zero
  rw [hword, hzero, findSetInWord_eq]

theorem firstIndex_clear (bm : Bitmap) (n : ℕ) :
    FirstIndex n (fun i => bitmapGet bm i = false) (bitmapFindFirstClear bm n) := by
  obtain ⟨hle, hclear, hset⟩ := bitmapFindFirstClear_spec bm n
  have hbefore : ∀ k < bitmapFindFirstClear bm n, ¬ bitmapGet bm k = false := fun k hk he =>
    Bool.false_ne_true (he.symm.trans (hset k hk))
  rcases Nat.eq_or_lt_of_le hle with he | hlt
  · exact Or.inr ⟨he, fun k hk => hbefore k (he.symm ▸ hk)⟩
  · exact Or.inl ⟨hlt, hclear hlt, hbefore⟩

end

/-- **The searches** find the least clear and the least set index, or the number of bits. -/
theorem bitmap_find_first {bm : Bitmap} {n : ℕ} (hn : n + 63 < wordSize)
    (hlen : bm.length = bitmapNumWords n) :
    FirstIndex n (fun i => bitmapGet bm i = false) (bitmapFindFirstClear bm n) ∧
      FirstIndex n (fun i => bitmapGet bm i = true) (bitmapFindFirstSet bm n) := by
  rw [bitmapNumWords_eq hn] at hlen
  refine ⟨firstIndex_clear bm n, ?_⟩
  have hnot : ∀ i < n, (bitmapGet (bm.map (~~~ ·)) i = false ↔ bitmapGet bm i = true) := by
    intro i hi
    rw [bitmapGet_map_not (hlen.symm ▸ div_lt_bitmapSize hi), Bool.not_eq_false']
  rw [bitmapFindFirstSet_eq hlen.ge]
  rcases firstIndex_clear (bm.map (~~~ ·)) n with ⟨hlt, hclear, hbefore⟩ | ⟨he, hnone⟩
  · exact Or.inl ⟨hlt, (hnot _ hlt).mp hclear, fun k hk hset =>
      hbefore k hk ((hnot k (hk.trans hlt)).mpr hset)⟩
  · exact Or.inr ⟨he, fun k hk hset => hnone k hk ((hnot k hk).mpr hset)⟩

/-- Three bits of one word, whose other bits are set. -/
theorem bitmap_find_first_three :
    FirstIndex 3 (fun i => bitmapGet [0xfffffffffffffff9#64] i = false)
        (bitmapFindFirstClear [0xfffffffffffffff9#64] 3) ∧
      FirstIndex 3 (fun i => bitmapGet [0xfffffffffffffff9#64] i = true)
        (bitmapFindFirstSet [0xfffffffffffffff9#64] 3) :=
  bitmap_find_first (by decide) (by decide)

end Nomalloc
