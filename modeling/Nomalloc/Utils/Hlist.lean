import Nomalloc.Cache.Lirs
import Nomalloc.Debug.LeakDetector

/-!
# `utils/list.h`: the loops over the entries of a hash chain

A chain is null-terminated and links nodes that lie at `offset` in their structures.  Memory is a
function from addresses to 64-bit words; the key of a `lirs_block` and the `ptr` of an
`allocation_record` are the words at their addresses.

`hlist_for_each_entry` turns the address of each node into that of its structure and tests the
latter for NULL.  The null pointer at the end of the chain turns into `2^64 - offset`, which is not
NULL, so the loop runs off the end.

* `hlistForEachEntry_hit`    the loop finds the first entry that the body takes;
* `hlistForEachEntry_miss`   with none, it looks at the structure at `2^64 - offset`;
* `hlist_loops_iff`          so the two searches of the repository are right exactly when there is
                            something to find.
-/

namespace Nomalloc

/-- `hlist_entry` -/
def hlistEntry (ptr offset : ℕ) : ℕ := subW ptr offset

/-- `hlist_for_each_entry`, with a body that leaves the loop where `hit` says so, in a number of
rounds: where the loop was left, NULL if it ended, and the structures that it read.  `none` when it
has not ended by then. -/
def hlistForEachEntry (mem : ℕ → ℕ) (offset : ℕ) (hit : ℕ → Bool) : ℕ → ℕ → Option (ℕ × List ℕ)
  | 0, _ => none
  | n + 1, pos =>
    if pos = 0 then some (0, [])
    else if hit pos then some (pos, [pos])
    else
      (hlistForEachEntry mem offset hit n (hlistEntry (mem (addW pos offset)) offset)).map
        fun r => (r.1, pos :: r.2)

/-- The loop of `lirs_find_block`, over the bucket whose `hlist_head` is at `bucket`. -/
def lirsFindBlockLoop (mem : ℕ → ℕ) (offset bucket key rounds : ℕ) : Option (ℕ × List ℕ) :=
  hlistForEachEntry mem offset (fun block => mem block = key) rounds
    (hlistEntry (mem bucket) offset)

/-- The loop of `leak_detector_record_dealloc`. -/
def leakFindRecordLoop (mem : ℕ → ℕ) (offset bucket ptr rounds : ℕ) : Option (ℕ × List ℕ) :=
  hlistForEachEntry mem offset (fun r => mem r = ptr) rounds (hlistEntry (mem bucket) offset)

/-- The structures that the chain from `node` links. -/
def HlistChain (mem : ℕ → ℕ) (offset : ℕ) : ℕ → List ℕ → Prop
  | node, [] => node = 0
  | node, p :: ps =>
    node = p + offset ∧ p ≠ 0 ∧ p + offset < wordSize ∧ HlistChain mem offset (mem (p + offset)) ps

/-- The search ends, with the first entry that is sought or NULL, and reads entries only. -/
def FindsFirst (chain : List ℕ) (hit : ℕ → Bool) (loop : ℕ → Option (ℕ × List ℕ)) : Prop :=
  ∃ rounds seen, loop rounds = some ((chain.find? hit).getD 0, seen) ∧ ∀ p ∈ seen, p ∈ chain

section
variable {mem : ℕ → ℕ} {offset node : ℕ} {hit : ℕ → Bool} {chain : List ℕ}

theorem hlistEntry_node {p : ℕ} (h : p + offset < wordSize) : hlistEntry (p + offset) offset = p := by
  unfold hlistEntry
  rw [subW_eq (Nat.le_add_left _ _) h, Nat.add_sub_cancel]

theorem hlistEntry_null (hpos : 0 < offset) (hlt : offset < wordSize) :
    hlistEntry 0 offset = wordSize - offset := by
  unfold hlistEntry subW
  rw [Nat.zero_add]
  exact Nat.mod_eq_of_lt (by omega)

/-- **The loop finds the first entry that the body takes.** -/
theorem hlistForEachEntry_hit (hchain : HlistChain mem offset node chain)
    (hhit : ∃ p ∈ chain, hit p) :
    FindsFirst chain hit fun n => hlistForEachEntry mem offset hit n (hlistEntry node offset) := by
  induction chain generalizing node with
  | nil =>
    obtain ⟨p, hp, -⟩ := hhit
    exact absurd hp List.not_mem_nil
  | cons p ps ih =>
    obtain ⟨rfl, hp, hlt, hrest⟩ := hchain
    rw [hlistEntry_node hlt]
    by_cases hh : hit p = true
    · refine ⟨1, [p], ?_, by simp⟩
      dsimp only
      rw [hlistForEachEntry, if_neg hp, if_pos hh, List.find?_cons_of_pos hh]
      rfl
    · obtain ⟨n, seen, hloop, hseen⟩ := ih hrest (by simpa [hh] using hhit)
      refine ⟨n + 1, p :: seen, ?_, ?_⟩
      · dsimp only at hloop ⊢
        rw [hlistForEachEntry, if_neg hp, if_neg hh, addW_eq hlt, hloop,
          List.find?_cons_of_neg hh]
        rfl
      · intro q hq
        exact (List.mem_cons.mp hq).elim (fun he => he ▸ List.mem_cons_self)
          fun hq => List.mem_cons_of_mem _ (hseen q hq)

/-- **With none it runs off the end**, and reads at the address of no structure. -/
theorem hlistForEachEntry_miss (hpos : 0 < offset) (hlt : offset < wordSize)
    (hchain : HlistChain mem offset node chain) (hmiss : ∀ p ∈ chain, ¬ hit p) {n : ℕ}
    {r : ℕ × List ℕ}
    (hloop : hlistForEachEntry mem offset hit n (hlistEntry node offset) = some r) :
    wordSize - offset ∈ r.2 := by
  induction chain generalizing node n r with
  | nil =>
    rw [show node = 0 from hchain, hlistEntry_null hpos hlt] at hloop
    cases n with
    | zero => exact absurd hloop (by simp [hlistForEachEntry])
    | succ n =>
      rw [hlistForEachEntry, if_neg (by omega)] at hloop
      split_ifs at hloop
      · cases hloop
        exact List.mem_singleton_self _
      · obtain ⟨s, -, rfl⟩ := Option.map_eq_some_iff.mp hloop
        exact List.mem_cons_self
  | cons p ps ih =>
    obtain ⟨rfl, hp, hplt, hrest⟩ := hchain
    rw [hlistEntry_node hplt] at hloop
    cases n with
    | zero => exact absurd hloop (by simp [hlistForEachEntry])
    | succ n =>
      rw [hlistForEachEntry, if_neg hp, if_neg (hmiss p List.mem_cons_self), addW_eq hplt]
        at hloop
      obtain ⟨s, hs, rfl⟩ := Option.map_eq_some_iff.mp hloop
      exact List.mem_cons_of_mem _ (ih hrest (fun q hq => hmiss q (List.mem_cons_of_mem _ hq)) hs)

/-- The structures of a chain lie below its end. -/
theorem HlistChain.lt (h : HlistChain mem offset node chain) {p : ℕ} (hp : p ∈ chain) :
    p + offset < wordSize := by
  induction chain generalizing node with
  | nil => exact absurd hp List.not_mem_nil
  | cons q qs ih =>
    obtain ⟨-, -, hlt, hrest⟩ := h
    rcases List.mem_cons.mp hp with rfl | hp
    · exact hlt
    · exact ih hrest hp

theorem findsFirst_iff (hit : ℕ → Bool) (hpos : 0 < offset) (hlt : offset < wordSize)
    (hchain : HlistChain mem offset node chain) :
    FindsFirst chain hit (fun n => hlistForEachEntry mem offset hit n (hlistEntry node offset)) ↔
      ∃ p ∈ chain, hit p := by
  refine ⟨?_, hlistForEachEntry_hit hchain⟩
  rintro ⟨n, seen, hloop, hseen⟩
  by_contra hnone
  have hmiss : ∀ p ∈ chain, ¬ hit p := fun p hp hh => hnone ⟨p, hp, hh⟩
  have hend := hchain.lt (hseen _ (hlistForEachEntry_miss hpos hlt hchain hmiss hloop))
  omega

end

/-- **The two searches** end, read entries of the bucket only and return the first match or NULL,
exactly when the bucket has a match. -/
theorem hlist_loops_iff {mem : ℕ → ℕ} {offset bucket : ℕ} {chain : List ℕ} (hpos : 0 < offset)
    (hlt : offset < wordSize) (hchain : HlistChain mem offset (mem bucket) chain) (key : ℕ) :
    (FindsFirst chain (fun block => mem block = key) (lirsFindBlockLoop mem offset bucket key) ↔
        ∃ block ∈ chain, mem block = key) ∧
      (FindsFirst chain (fun r => mem r = key) (leakFindRecordLoop mem offset bucket key) ↔
        ∃ r ∈ chain, mem r = key) := by
  have hiff := findsFirst_iff (fun p => mem p = key) hpos hlt hchain
  simp only [decide_eq_true_eq] at hiff
  exact ⟨hiff, hiff⟩

/-- One block at 1000, whose `hash_node` is at 1088, in the bucket at 8. -/
theorem hlist_loops_run :
    let mem : ℕ → ℕ := fun a => if a = 8 then 1088 else if a = 1000 then 16 else 0
    (FindsFirst [1000] (fun block => mem block = 16) (lirsFindBlockLoop mem 88 8 16) ↔
        ∃ block ∈ [1000], mem block = 16) ∧
      (FindsFirst [1000] (fun r => mem r = 16) (leakFindRecordLoop mem 88 8 16) ↔
        ∃ r ∈ [1000], mem r = 16) := by
  refine hlist_loops_iff (by decide) (by decide) ?_ 16
  exact ⟨by decide, by decide, by decide, rfl⟩

/-- The empty bucket: the search reads a block at `2^64 - 88`. -/
theorem empty_bucket_overruns :
    HlistChain (fun _ => 0) 88 0 [] ∧
      ¬ FindsFirst [] (fun block => (fun _ => 0) block = 16)
        (lirsFindBlockLoop (fun _ => 0) 88 8 16) := by
  have hchain : HlistChain (fun _ => 0) 88 0 [] := rfl
  refine ⟨hchain, ?_⟩
  rintro ⟨n, seen, hloop, hseen⟩
  have hend := hlistForEachEntry_miss (by decide) (by decide) hchain
    (fun p hp => absurd hp List.not_mem_nil) hloop
  exact absurd (hseen _ hend) List.not_mem_nil

/-! ## the buckets of the models -/

section
variable {mem key : ℕ → ℕ} {offset bucket : ℕ} {chain : List ℕ}

/-- Where the bucket has a match, the loop finds the first that the list has. -/
theorem hlistForEachEntry_find {k p : ℕ} (hchain : HlistChain mem offset (mem bucket) chain)
    (hkeys : ∀ q ∈ chain, mem q = key q) (hf : (chain.find? fun q => key q = k) = some p) :
    ∃ rounds seen, hlistForEachEntry mem offset (fun q => mem q = k) rounds
      (hlistEntry (mem bucket) offset) = some (p, seen) ∧ ∀ q ∈ seen, q ∈ chain := by
  have hmem := List.mem_of_find?_eq_some hf
  have hkey : key p = k := by simpa using List.find?_some hf
  have hsame : (chain.find? fun q => mem q = k) = some p := by
    rw [← hf]
    exact List.find?_congr fun q hq => by rw [hkeys q hq]
  obtain ⟨n, seen, hloop, hseen⟩ : FindsFirst chain (fun q => mem q = k)
      fun n => hlistForEachEntry mem offset (fun q => mem q = k) n (hlistEntry (mem bucket) offset) :=
    hlistForEachEntry_hit hchain ⟨p, hmem, by rw [hkeys p hmem, hkey]; exact decide_eq_true rfl⟩
  rw [hsame] at hloop
  exact ⟨n, seen, hloop, hseen⟩

theorem lirsFindBlock_loop {c : LirsCache} {k p : ℕ}
    (hchain : HlistChain mem offset (mem bucket) (c.hashTable (c.bucket k)))
    (hkeys : ∀ q ∈ c.hashTable (c.bucket k), mem q = (c.block q).key)
    (hf : lirsFindBlock c k = some p) :
    ∃ rounds seen, lirsFindBlockLoop mem offset bucket k rounds = some (p, seen) ∧
      ∀ q ∈ seen, q ∈ c.hashTable (c.bucket k) := hlistForEachEntry_find hchain hkeys hf

theorem leakFindRecord_loop {d : LeakDetector} {ptr a : ℕ}
    (hchain : HlistChain mem offset (mem bucket) (d.hashTable (leakHashIndex ptr)))
    (hptrs : ∀ q ∈ d.hashTable (leakHashIndex ptr), mem q = (d.record q).ptr)
    (hf : leakFindRecord d ptr = some a) :
    ∃ rounds seen, leakFindRecordLoop mem offset bucket ptr rounds = some (a, seen) ∧
      ∀ q ∈ seen, q ∈ d.hashTable (leakHashIndex ptr) := hlistForEachEntry_find hchain hptrs hf

end

end Nomalloc
