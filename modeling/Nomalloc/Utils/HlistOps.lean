import Nomalloc.Cache.Lirs
import Nomalloc.Lib.HashChains
import Nomalloc.Lib.Runs

/-!
# `utils/list.h`: adding to and removing from a hash chain

* `hlistAddHead`, `hlistAddBefore`, `hlistAddBehind`, `hlistDel`   store by store;
* `hlist_ops_keep`        what each of them does to the buckets: one sequence changes, and all chains
                          stay chains;
* `hlist_run`             so they do all along a run of calls that `hlist_unhashed` allows;
* `lirsInsertHash_chains`, `lirsRemoveHash_chains`   so the buckets of the LIRS cache are lists.
-/

namespace Nomalloc

section
variable {ι ν : Type*}

/-- `hlist_unhashed` -/
def hlistUnhashed (m : ChainMem ι ν) (node : ν) : Bool := (m.pprev node).isNone

/-- `HLIST_HEAD_INIT` in every head and `INIT_HLIST_NODE` for every node. -/
def hlistInit : ChainMem ι ν := ⟨fun _ => none, fun _ => none, false⟩

variable [DecidableEq ι] [DecidableEq ν]

/-- `INIT_HLIST_NODE` -/
def initHlistNode (m : ChainMem ι ν) (node : ν) : ChainMem ι ν :=
  (m.setPtr (.next node) none).setPprev node none

/-- `hlist_add_head` -/
def hlistAddHead (m : ChainMem ι ν) (node : ν) (head : ι) : ChainMem ι ν :=
  let first := m.ptr (.first head)
  let m := m.setPtr (.next node) first
  let m := m.linkBack first (some (.next node))
  let m := m.setPtr (.first head) (some node)
  m.setPprev node (some (.first head))

/-- `hlist_add_before` -/
def hlistAddBefore (m : ChainMem ι ν) (node next : ν) : ChainMem ι ν :=
  let m := m.setPprev node (m.pprev next)
  let m := m.setPtr (.next node) (some next)
  let m := m.setPprev next (some (.next node))
  m.storeAt (m.pprev node) (some node)

/-- `hlist_add_behind` -/
def hlistAddBehind (m : ChainMem ι ν) (node prev : ν) : ChainMem ι ν :=
  let m := m.setPtr (.next node) (m.ptr (.next prev))
  let m := m.setPtr (.next prev) (some node)
  let m := m.setPprev node (some (.next prev))
  m.linkBack (m.ptr (.next node)) (some (.next node))

/-- `hlist_del` -/
def hlistDel (m : ChainMem ι ν) (node : ν) : ChainMem ι ν :=
  let next := m.ptr (.next node)
  let pprev := m.pprev node
  let m := m.storeAt pprev next
  let m := m.linkBack next pprev
  initHlistNode m node

end

/-! ## tables -/

section
variable {ι ν : Type*} {m : ChainMem ι ν} {b : ι} {x n : ν} {buckets : ι → List ν}

theorem hlistInit_chains : HashChains (hlistInit : ChainMem ι ν) fun _ => [] :=
  HashChains.of_chain (fun _ => ⟨trivial, rfl⟩) rfl

theorem unhashed_notMem (h : HashChains m buckets) (hx : hlistUnhashed m x = true) (b : ι) :
    x ∉ buckets b :=
  h.notMem_of_pprev (Option.isNone_iff_eq_none.mp hx) b

theorem hashed_of_mem (h : HashChains m buckets) (hb : x ∈ buckets b) :
    hlistUnhashed m x = false := by
  obtain ⟨as, bs, hb⟩ := List.append_of_mem hb
  unfold hlistUnhashed
  rw [h.pprev_eq hb]
  rfl

/-- Chains to which all nodes belong that point back. -/
structure HlistTable (m : ChainMem ι ν) (buckets : ι → List ν) : Prop
    extends HashChains m buckets where
  hashed : ∀ n, m.pprev n ≠ none → ∃ b, n ∈ buckets b

theorem HlistTable.mem_of_hashed (h : HlistTable m buckets) (hn : hlistUnhashed m n = false) :
    ∃ b as bs, buckets b = as ++ n :: bs := by
  obtain ⟨b, hb⟩ := h.hashed n fun he => by
    unfold hlistUnhashed at hn
    rw [he] at hn
    cases hn
  obtain ⟨as, bs, hb⟩ := List.append_of_mem hb
  exact ⟨b, as, bs, hb⟩

variable [DecidableEq ι] {m' : ChainMem ι ν} {as bs : List ν}

theorem HlistTable.put (h : HlistTable m buckets) (hb : buckets b = as ++ bs)
    (hx : hlistUnhashed m x = true) (hput : Put m m' ((Slot.first b).after as) x bs.head?) :
    HlistTable m' (Function.update buckets b (as ++ x :: bs)) := by
  refine ⟨h.toHashChains.put hb (unhashed_notMem h.toHashChains hx) hput, fun n hn => ?_⟩
  refine hput.toStoresAt.hashed h.hashed (fun k hk _ => ?_) (fun _ => ?_) (fun k hk => ?_) hn
  · rw [hb] at hk
    exact (List.mem_append.mp hk).elim (List.mem_append_left _)
      fun hk => List.mem_append_right _ (List.mem_cons_of_mem _ hk)
  · exact List.mem_append_right _ List.mem_cons_self
  · exact List.mem_append_right _ (List.mem_cons_of_mem _ (List.mem_of_head? hk))

theorem HlistTable.cut (h : HlistTable m buckets)
    (hb : buckets b = as ++ x :: bs) (hx : m'.pprev x = none)
    (hcut : Cut m m' ((Slot.first b).after as) x bs.head?) :
    HlistTable m' (Function.update buckets b (as ++ bs)) := by
  refine ⟨h.toHashChains.cut hb hcut, fun n hn => ?_⟩
  refine hcut.toStoresAt.hashed h.hashed (fun k hk hkx => ?_) (absurd hx) (fun k hk => ?_) hn
  · rw [hb] at hk
    refine (List.mem_append.mp hk).elim (List.mem_append_left _) fun hk => ?_
    exact List.mem_append_right _ ((List.mem_cons.mp hk).resolve_left hkx)
  · exact List.mem_append_right _ (List.mem_of_head? hk)

end

/-! ## what is stored -/

section
variable {ι ν : Type*} [DecidableEq ι] [DecidableEq ν]
variable {m : ChainMem ι ν} {s : Slot ι ν} {b : ι} {x n : ν} {buckets : ι → List ν} {as bs : List ν}

theorem hlistAddHead_put (h : m.ptr (.first b) ≠ some x) :
    Put m (hlistAddHead m x b) (.first b) x (m.ptr (.first b)) := by
  refine ⟨⟨fun t hs hx => ?_, fun k hk ho => ?_, ?_⟩, ?_, ?_, ?_, fun k ho => ?_⟩
  · simp [hlistAddHead, hs, hx]
  · simp [hlistAddHead, hk, ho]
  · simp [hlistAddHead]
  · simp [hlistAddHead]
  · simp [hlistAddHead]
  · simp [hlistAddHead]
  · have hkx : k ≠ x := fun he => h (he ▸ ho)
    simp [hlistAddHead, hkx, ho]

theorem hlistAddBefore_put (hback : m.pprev n = some s) (hxn : x ≠ n) (hs : s ≠ .next x) :
    Put m (hlistAddBefore m x n) s x (some n) := by
  have hread : hlistAddBefore m x n = (((m.setPprev x (some s)).setPtr (.next x) (some n)).setPprev n
      (some (.next x))).setPtr s (some x) := by
    simp [hlistAddBefore, hback, hxn, ChainMem.storeAt]
  rw [hread]
  refine ⟨⟨fun t ht hx => ?_, fun k hk ho => ?_, ?_⟩, ?_, ?_, ?_, fun k ho => ?_⟩
  · simp [ht, hx]
  · have hkn : k ≠ n := fun he => ho (he ▸ rfl)
    simp [hk, hkn]
  · simp
  · simp
  · simp [hs.symm]
  · simp [hxn]
  · simp [(Option.some.inj ho).symm]

theorem hlistAddBehind_put (hxn : x ≠ n) (h : m.ptr (.next n) ≠ some x) :
    Put m (hlistAddBehind m x n) (.next n) x (m.ptr (.next n)) := by
  refine ⟨⟨fun t ht hx => ?_, fun k hk ho => ?_, ?_⟩, ?_, ?_, ?_, fun k ho => ?_⟩
  · simp [hlistAddBehind, ht, hx]
  · simp [hlistAddBehind, hxn, hk, ho]
  · simp [hlistAddBehind]
  · simp [hlistAddBehind]
  · simp [hlistAddBehind, hxn]
  · simp [hlistAddBehind, hxn, h]
  · simp [hlistAddBehind, hxn, ho]

theorem hlistDel_cut (hback : m.pprev x = some s) (hs : s ≠ .next x) (h : m.ptr (.next x) ≠ some x) :
    Cut m (hlistDel m x) s x (m.ptr (.next x)) := by
  refine ⟨⟨fun t ht hx => ?_, fun k hk ho => ?_, ?_⟩, ?_, fun k ho => ?_⟩
  · simp [hlistDel, initHlistNode, hback, ChainMem.storeAt, ht, hx]
  · simp [hlistDel, initHlistNode, hback, ChainMem.storeAt, hk, ho]
  · simp [hlistDel, initHlistNode, hback, ChainMem.storeAt]
  · simp [hlistDel, initHlistNode, hback, ChainMem.storeAt, hs]
  · have hkx : k ≠ x := fun he => h (he ▸ ho)
    simp [hlistDel, initHlistNode, hback, ChainMem.storeAt, hkx, ho]

theorem hlistDel_unhashed (m : ChainMem ι ν) (x : ν) : hlistUnhashed (hlistDel m x) x = true := by
  simp [hlistUnhashed, hlistDel, initHlistNode]

section
variable (h : HashChains m buckets)
include h

/-- In a bucket, `hlist_add_head` puts the node before the first. -/
theorem addHead_put (b : ι) (hx : x ∉ buckets b) :
    Put m (hlistAddHead m x b) ((Slot.first b).after []) x (buckets b).head? := by
  have hread : m.ptr (.first b) = (buckets b).head? := h.ptr_after (show buckets b = [] ++ _ from rfl)
  rw [← hread]
  exact hlistAddHead_put fun he => hx (List.mem_of_head? (hread.symm.trans he))

theorem addBefore_put (hb : buckets b = as ++ n :: bs) (hx : x ∉ buckets b) :
    Put m (hlistAddBefore m x n) ((Slot.first b).after as) x (n :: bs).head? := by
  rw [hb] at hx
  have hxn : x ≠ n := fun he => hx (he ▸ List.mem_append_right _ List.mem_cons_self)
  exact hlistAddBefore_put (h.pprev_eq hb) hxn
    (HashChains.after_ne b fun hin => hx (List.mem_append_left _ hin))

theorem addBehind_put (hb : buckets b = as ++ n :: bs) (hx : x ∉ buckets b) :
    Put m (hlistAddBehind m x n) ((Slot.first b).after (as ++ [n])) x bs.head? := by
  rw [hb] at hx
  have hread := h.ptr_next hb
  have hxn : x ≠ n := fun he => hx (he ▸ List.mem_append_right _ List.mem_cons_self)
  have hxb : m.ptr (.next n) ≠ some x := fun he => hx (List.mem_append_right _
    (List.mem_cons_of_mem _ (List.mem_of_head? (hread.symm.trans he))))
  rw [Slot.after_concat, ← hread]
  exact hlistAddBehind_put hxn hxb

theorem del_cut (hb : buckets b = as ++ x :: bs) :
    Cut m (hlistDel m x) ((Slot.first b).after as) x bs.head? := by
  have hread := h.ptr_next hb
  obtain ⟨-, hndb, hdis⟩ := List.nodup_append.mp (hb ▸ h.once b : (as ++ x :: bs).Nodup)
  have hself : m.ptr (.next x) ≠ some x := fun he =>
    (List.nodup_cons.mp hndb).1 (List.mem_of_head? (hread.symm.trans he))
  rw [← hread]
  exact hlistDel_cut (h.pprev_eq hb)
    (HashChains.after_ne b fun hin => hdis x hin x List.mem_cons_self rfl) hself

end

/-- **The chain operations.**  A node that is in no bucket, as an unhashed one is, can be added at
the head of a bucket, and before and behind any node; a node of a bucket can be removed.  All chains
stay chains, and only the sequence of that bucket changes. -/
theorem hlist_ops_keep (h : HashChains m buckets) (x : ν) :
    (hlistUnhashed m x = true → ∀ b, x ∉ buckets b) ∧
    ((∀ b, x ∉ buckets b) →
      (∀ b, HashChains (hlistAddHead m x b) (Function.update buckets b (x :: buckets b))) ∧
      ∀ b as n bs, buckets b = as ++ n :: bs →
        HashChains (hlistAddBefore m x n) (Function.update buckets b (as ++ x :: n :: bs)) ∧
        HashChains (hlistAddBehind m x n) (Function.update buckets b (as ++ n :: x :: bs))) ∧
    ∀ b as bs, buckets b = as ++ x :: bs →
      hlistUnhashed m x = false ∧
        HashChains (hlistDel m x) (Function.update buckets b (as ++ bs)) ∧
        hlistUnhashed (hlistDel m x) x = true := by
  refine ⟨fun hx => unhashed_notMem h hx, fun hx => ⟨fun b => ?_, fun b as n bs hb => ⟨?_, ?_⟩⟩,
    fun b as bs hb => ⟨?_, ?_, hlistDel_unhashed m x⟩⟩
  · exact h.put (show buckets b = [] ++ _ from rfl) hx (addHead_put h b (hx b))
  · exact h.put hb hx (addBefore_put h hb (hx b))
  · have hb' : buckets b = (as ++ [n]) ++ bs := by rw [hb, List.append_assoc, List.singleton_append]
    have hput := h.put hb' hx (addBehind_put h hb (hx b))
    rwa [List.append_assoc, List.singleton_append] at hput
  · exact hashed_of_mem h (hb ▸ List.mem_append_right _ List.mem_cons_self : x ∈ buckets b)
  · exact h.cut hb (del_cut h hb)

/-- Two nodes in a bucket, and the first one removed. -/
theorem hlist_ops_keep_two :
    HashChains (hlistDel (hlistAddBehind (hlistAddHead hlistInit 1 0) 2 1) 1 : ChainMem ℕ ℕ)
      (Function.update (Function.update (Function.update (fun _ => []) 0 [1]) 0 [1, 2]) 0 [2]) := by
  have h1 := ((hlist_ops_keep hlistInit_chains 1).2.1
    fun b => (hlist_ops_keep hlistInit_chains 1).1 rfl b).1 0
  have h2 := (((hlist_ops_keep h1 2).2.1 fun b => (hlist_ops_keep h1 2).1 rfl b).2 0 [] 1 [] rfl).2
  exact ((hlist_ops_keep h2 1).2.2 0 [] [2] rfl).2.1

/-! ## runs -/

/-- A call of one of the four. -/
inductive HlistOp (ι ν : Type*) where
  | addHead (node : ν) (head : ι)
  | addBefore (node next : ν)
  | addBehind (node prev : ν)
  | del (node : ν)

def hlistStep (m : ChainMem ι ν) : HlistOp ι ν → ChainMem ι ν
  | .addHead node head => hlistAddHead m node head
  | .addBefore node next => hlistAddBefore m node next
  | .addBehind node prev => hlistAddBehind m node prev
  | .del node => hlistDel m node

/-- Unhashed nodes are added, next to hashed ones; hashed nodes are removed. -/
def HlistOp.Legal (m : ChainMem ι ν) : HlistOp ι ν → Prop
  | .addHead node _ => hlistUnhashed m node = true
  | .addBefore node other | .addBehind node other =>
    hlistUnhashed m node = true ∧ hlistUnhashed m other = false
  | .del node => hlistUnhashed m node = false

/-- One call keeps the chains, and the nodes that point back on them. -/
theorem hlistStep_table (m : ChainMem ι ν) (op : HlistOp ι ν) (h : ∃ buckets, HlistTable m buckets)
    (hop : op.Legal m) : ∃ buckets, HlistTable (hlistStep m op) buckets := by
  obtain ⟨buckets, h⟩ := h
  have hchains := h.toHashChains
  cases op with
  | addHead x b =>
    have hx := unhashed_notMem hchains hop b
    exact ⟨_, h.put (show buckets b = [] ++ _ from rfl) hop (addHead_put hchains b hx)⟩
  | addBefore x n =>
    obtain ⟨b, as, bs, hb⟩ := h.mem_of_hashed hop.2
    exact ⟨_, h.put hb hop.1 (addBefore_put hchains hb (unhashed_notMem hchains hop.1 b))⟩
  | addBehind x n =>
    obtain ⟨b, as, bs, hb⟩ := h.mem_of_hashed hop.2
    have hb' : buckets b = (as ++ [n]) ++ bs := by rw [hb, List.append_assoc, List.singleton_append]
    exact ⟨_, h.put hb' hop.1 (addBehind_put hchains hb (unhashed_notMem hchains hop.1 b))⟩
  | del x =>
    obtain ⟨b, as, bs, hb⟩ := h.mem_of_hashed hop
    have hnull := Option.isNone_iff_eq_none.mp (hlistDel_unhashed m x)
    exact ⟨_, h.cut hb hnull (del_cut hchains hb)⟩

/-- **A run of calls** on a fresh table leaves chains in every state. -/
theorem hlist_run (ops : List (HlistOp ι ν))
    (hops : Runs.Each hlistStep HlistOp.Legal hlistInit ops) :
    Runs.Always hlistStep (fun m => ∃ buckets, HlistTable m buckets) hlistInit ops :=
  Runs.inv_always hlistStep_table ⟨_, hlistInit_chains, fun _ hn => absurd rfl hn⟩ hops

end

/-! ## the hash table of the LIRS cache -/

section
variable {cache : LirsCache} {heap : ChainMem ℕ ℕ} {p i : ℕ}

/-- `lirs_insert_hash` -/
theorem lirsInsertHash_chains (h : HashChains heap cache.hashTable)
    (hp : ∀ i, p ∉ cache.hashTable i) :
    HashChains (hlistAddHead heap p (cache.bucket (cache.block p).key))
      (lirsInsertHash cache p).hashTable :=
  h.put (show cache.hashTable _ = [] ++ _ from rfl) hp (addHead_put h _ (hp _))

/-- `lirs_remove_hash` -/
theorem lirsRemoveHash_chains (h : HashChains heap cache.hashTable) (hp : p ∈ cache.hashTable i) :
    HashChains (hlistDel heap p) (lirsRemoveHash cache p).hashTable := by
  obtain ⟨as, bs, hb⟩ := List.append_of_mem hp
  have hcut := h.cut hb (del_cut h hb)
  convert hcut using 1
  funext j
  show (cache.hashTable j).erase p = _
  by_cases hj : j = i
  · subst hj
    have hpas : p ∉ as := fun hin =>
      (List.nodup_append.mp (hb ▸ h.once j : (as ++ p :: bs).Nodup)).2.2 p hin p
        List.mem_cons_self rfl
    rw [Function.update_self, hb, List.erase_append_right _ hpas, List.erase_cons_head]
  · rw [Function.update_of_ne hj, List.erase_of_not_mem (h.apart i j (Ne.symm hj) p hp)]

end

end Nomalloc
