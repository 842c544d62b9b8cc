import Nomalloc.Cache.LirsContents
import Nomalloc.Lib.Ledger

/-!
# The values that the LIRS cache takes in and gives out

A `lirs_put` that returns 0 accepts a value, as a new block or as another value for an existing one.
With a callback installed the value is handed to it when the block is overwritten or destroyed.  A
ledger follows the values: the blocks are the places, and a callback delivers what the block of its
key held before the operation.

* `LirsOp.accepts`, `LirsOp.custody`   the ledger of a run
* `LirsCache.OnePlace`                 each accepted value is held by one block of the table or was
                                       delivered once, and nothing else was delivered
* `each_value_in_one_place`            the result for whole runs
-/

namespace Nomalloc

/-- The block that an operation gives a value to, and what it holds then. -/
def LirsOp.accepts (c : LirsCache) : LirsOp → Option (ℕ × ℕ × ℕ × ℕ)
  | .put key value size mem =>
    if (lirsPut c key value size mem).2 = 0 then
      match lirsFindBlock c key with
      | some p => if (c.block p).value ≠ value then some (p, key, value, size) else none
      | none => mem.map fun p => (p, key, value, size)
    else none
  | _ => none

/-- The ledger after one more operation: the callbacks made, then the value accepted. -/
def LirsOp.custody (c : LirsCache) (u : Ledger (ℕ × ℕ × ℕ) ℕ) (op : LirsOp) :
    Ledger (ℕ × ℕ × ℕ) ℕ :=
  let calls := (c.step op).evicted.drop c.evicted.length
  let u := u.deliver (calls.filterMap fun call => lirsFindBlock c call.1)
  match op.accepts c with
  | none => u
  | some (p, entry) => u.accept p entry

/-- The ledger of a run. -/
def custody : LirsCache → Ledger (ℕ × ℕ × ℕ) ℕ → List LirsOp → Ledger (ℕ × ℕ × ℕ) ℕ
  | _, u, [] => u
  | c, u, op :: ops => custody (c.step op) (op.custody c u) ops

/-- Where the accepted values are. -/
structure LirsCache.OnePlace (c : LirsCache) (u : Ledger (ℕ × ℕ × ℕ) ℕ) : Prop where
  /-- the callbacks are the deliveries, in order, each with its key, value and size -/
  calls : c.evicted = u.calls
  /-- a block of the table holds what was accepted into it -/
  holds : ∀ i, ∀ p ∈ c.hashTable i, u.accepted[u.holder p]? = some (c.block p).entry
  place : ∀ n < u.accepted.length,
    (u.delivered.count n = 1 ∧ ∀ i, ∀ p ∈ c.hashTable i, u.holder p ≠ n) ∨
      (n ∉ u.delivered ∧ ∃! p, (∃ i, p ∈ c.hashTable i) ∧ u.holder p = n)

/-- The values are not NULL. -/
def LirsOp.NonNull : LirsOp → Prop
  | .put _ value _ _ => value ≠ 0
  | _ => True

/-- What the steps keep. -/
structure CustodyInv (c : LirsCache) (u : Ledger (ℕ × ℕ × ℕ) ℕ) : Prop where
  ready : LirsReady c
  callback : c.evictCallback = true
  nonNull : ∀ p ∈ c.heap, (c.block p).value ≠ 0
  balanced : u.Balanced (fun p => (c.block p).entry) c.heap
  calls : c.evicted = u.calls

section
variable {c c' : LirsCache} {u : Ledger (ℕ × ℕ × ℕ) ℕ} {out rest : List ℕ} {p : ℕ}

theorem CustodyInv.onePlace (h : CustodyInv c u) : c.OnePlace u := by
  have hheap : ∀ q, (∃ i, q ∈ c.hashTable i) ↔ q ∈ c.heap := fun q =>
    ⟨fun ⟨i, hi⟩ => ((h.ready.inv.shape.bucket i q).mp hi).1,
      fun hq => ⟨_, (h.ready.inv.shape.bucket _ q).mpr ⟨hq, rfl⟩⟩⟩
  refine ⟨h.calls, fun i q hq => h.balanced.holds q ((hheap q).mp ⟨i, hq⟩), fun n hn => ?_⟩
  rcases h.balanced.one_place hn with ⟨hcount, hno⟩ | ⟨hno, q, hq, huniq⟩
  · exact Or.inl ⟨hcount, fun i q hq => hno q ((hheap q).mp ⟨i, hq⟩)⟩
  · exact Or.inr ⟨hno, q, ⟨(hheap q).mpr hq.1, hq.2⟩, fun r hr => huniq r ⟨(hheap r).mp hr.1, hr.2⟩⟩

/-- Destroying a block that holds a value makes one call. -/
theorem CustodyInv.calls_of (h : CustodyInv c u) (hout : ∀ q ∈ out, q ∈ c.heap) :
    out.flatMap (fun q => lirsCalls c.evictCallback (c.block q).entry) =
      out.map fun q => (c.block q).entry := by
  rw [← List.flatMap_singleton' (out.map _), List.flatMap_map]
  refine List.flatMap_congr fun q hq => ?_
  have hv : (c.block q).entry.2.1 ≠ 0 := h.nonNull q (hout q hq)
  unfold lirsCalls
  rw [h.callback, if_pos (by simp [hv])]

theorem CustodyInv.callers (h : CustodyInv c u) (hout : ∀ q ∈ out, q ∈ c.heap) :
    (out.map fun q => (c.block q).entry).filterMap (fun call => lirsFindBlock c call.1) = out := by
  rw [List.filterMap_map]
  have hfind : ∀ q ∈ out, ((fun call : ℕ × ℕ × ℕ => lirsFindBlock c call.1) ∘
      fun q => (c.block q).entry) q = some q := fun q hq =>
    h.ready.inv.find_iff.mpr ⟨hout q hq, rfl⟩
  rw [List.filterMap_congr hfind]
  exact List.filterMap_some ..

theorem CustodyInv.custody_eq (h : CustodyInv c u) {op : LirsOp}
    (hout : ∀ q ∈ out, q ∈ c.heap)
    (hcalls : (c.step op).evicted = c.evicted ++ out.map fun q => (c.block q).entry) :
    op.custody c u =
      match op.accepts c with
      | none => u.deliver out
      | some (p, entry) => (u.deliver out).accept p entry := by
  unfold LirsOp.custody
  extract_lets calls u'
  have hfound : calls.filterMap (fun call => lirsFindBlock c call.1) = out := by
    show ((c.step op).evicted.drop c.evicted.length).filterMap _ = out
    rw [hcalls, List.drop_left, h.callers hout]
  have hu : u' = u.deliver out := by
    show u.deliver (calls.filterMap fun call => lirsFindBlock c call.1) = _
    rw [hfound]
  rw [hu]

/-- An operation that accepts nothing: the blocks `out` are destroyed. -/
theorem CustodyInv.keep (h : CustodyInv c u) {op : LirsOp} (hready : LirsReady (c.step op))
    (hnone : op.accepts c = none) (hcb : (c.step op).evictCallback = c.evictCallback)
    (hperm : (out ++ (c.step op).heap).Perm c.heap)
    (hcalls : (c.step op).evicted = c.evicted ++ out.map fun q => (c.block q).entry)
    (hentry : ∀ q ∈ (c.step op).heap, ((c.step op).block q).entry = (c.block q).entry) :
    CustodyInv (c.step op) (op.custody c u) := by
  have hout : ∀ q ∈ out, q ∈ c.heap := fun q hq => hperm.mem_iff.mp (List.mem_append_left _ hq)
  have hmem : ∀ q ∈ (c.step op).heap, q ∈ c.heap := fun q hq =>
    hperm.mem_iff.mp (List.mem_append_right _ hq)
  rw [h.custody_eq hout hcalls, hnone]
  refine ⟨hready, hcb.trans h.callback, fun q hq => ?_, (h.balanced.deliver hperm).congr hentry, ?_⟩
  · rw [(entry_eq_iff.mp (hentry q hq)).2.1]
    exact h.nonNull q (hmem q hq)
  · rw [hcalls, h.calls]
    exact (h.balanced.calls_deliver hout).symm

/-- An operation that gives a value to the block `p`, after the blocks `out` were destroyed or
overwritten. -/
theorem CustodyInv.take (h : CustodyInv c u) {op : LirsOp} {key value size : ℕ}
    (hready : LirsReady (c.step op)) (hsome : op.accepts c = some (p, key, value, size))
    (hv : value ≠ 0) (hcb : (c.step op).evictCallback = c.evictCallback)
    (hperm : (out ++ rest).Perm c.heap) (hp : p ∉ rest)
    (hheap : (p :: rest).Perm (c.step op).heap)
    (hcalls : (c.step op).evicted = c.evicted ++ out.map fun q => (c.block q).entry)
    (hself : ((c.step op).block p).entry = (key, value, size))
    (hentry : ∀ q ∈ rest, ((c.step op).block q).entry = (c.block q).entry) :
    CustodyInv (c.step op) (op.custody c u) := by
  have hout : ∀ q ∈ out, q ∈ c.heap := fun q hq => hperm.mem_iff.mp (List.mem_append_left _ hq)
  have hmem : ∀ q ∈ rest, q ∈ c.heap := fun q hq => hperm.mem_iff.mp (List.mem_append_right _ hq)
  have hdeliver := h.balanced.deliver hperm
  rw [h.custody_eq hout hcalls, hsome]
  refine ⟨hready, hcb.trans h.callback, fun q hq => ?_,
    (hdeliver.accept hp hentry hself).perm hheap, ?_⟩
  · rcases List.mem_cons.mp (hheap.mem_iff.mpr hq) with rfl | hq
    · have hvalue : ((c.step op).block q).value = value :=
        (Prod.ext_iff.mp (Prod.ext_iff.mp hself).2).1
      rw [hvalue]
      exact hv
    · rw [(entry_eq_iff.mp (hentry q hq)).2.1]
      exact h.nonNull q (hmem q hq)
  · show _ = ((u.deliver out).accept p (key, value, size)).calls
    rw [hdeliver.calls_accept, h.balanced.calls_deliver hout, hcalls, h.calls]

theorem CustodyInv.gone (h : CustodyInv c u) (hup : Upkeep c c') :
    ∃ out, (out ++ c'.heap).Perm c.heap ∧
      c'.evicted = c.evicted ++ out.map fun q => (c.block q).entry := by
  obtain ⟨out, hperm, hcalls⟩ := hup.freed
  refine ⟨out, hperm, ?_⟩
  rw [hcalls, h.calls_of fun q hq => hperm.mem_iff.mp (List.mem_append_left _ hq)]

theorem CustodyInv.upkeep (h : CustodyInv c u) {op : LirsOp} (hready : LirsReady (c.step op))
    (hnone : op.accepts c = none) (hup : Upkeep c (c.step op)) :
    CustodyInv (c.step op) (op.custody c u) := by
  obtain ⟨out, hperm, hcalls⟩ := h.gone hup
  exact h.keep hready hnone hup.callback hperm hcalls fun q _ => hup.entry q

/-- A put that enters the block `p`: the upkeep before it and the upkeep after it destroy old blocks
only. -/
theorem CustodyInv.gone_entered (h : CustodyInv c u) {c1 : LirsCache} {key value size : ℕ}
    (hup1 : Upkeep c c1) (hinv1 : LirsInv c1) (hp1 : p ∉ c1.heap)
    (hup2 : Upkeep (entered c1 p key value size) c') (hin : p ∈ c'.heap) :
    ∃ out, (out ++ c'.heap.erase p).Perm c.heap ∧
      c'.evicted = c.evicted ++ out.map (fun q => (c.block q).entry) ∧ c'.heap.Nodup := by
  obtain ⟨out1, hperm1, hcalls1⟩ := h.gone hup1
  obtain ⟨out2, hperm2, hevicted⟩ := hup2.freed
  have hheap := (entered_fields c1 p key value size).2.2.1
  obtain ⟨-, hcb2, hcalls2, -⟩ := entered_rest c1 p key value size
  -- the new block is still there after the second upkeep
  have hnd : (out2 ++ c'.heap).Nodup := by
    rw [hperm2.nodup_iff, hheap]
    exact List.nodup_cons.mpr ⟨hp1, hinv1.shape.heapNodup⟩
  have hp2 : p ∉ out2 := fun hin2 => (List.nodup_append.mp hnd).2.2 p hin2 p hin rfl
  have hold : ∀ q ∈ out2, q ∈ c1.heap := fun q hq => by
    have hq' := hperm2.mem_iff.mp (List.mem_append_left _ hq)
    rw [hheap] at hq'
    exact (List.mem_cons.mp hq').resolve_left (by rintro rfl; exact hp2 hq)
  refine ⟨out1 ++ out2, ?_, ?_, (List.nodup_append.mp hnd).2.1⟩
  · have hrest : (out2 ++ c'.heap.erase p).Perm c1.heap := by
      have h1 : (p :: (out2 ++ c'.heap.erase p)).Perm (p :: c1.heap) := by
        rw [← hheap]
        refine List.Perm.trans ?_ hperm2
        refine List.perm_middle.symm.trans ?_
        exact (List.perm_cons_erase hin).symm.append_left out2
      exact h1.cons_inv
    rw [List.append_assoc]
    exact (hrest.append_left out1).trans hperm1
  · have hsecond : (out2.flatMap fun q => lirsCalls (entered c1 p key value size).evictCallback
        ((entered c1 p key value size).block q).entry) =
          out2.map fun q => (c.block q).entry := by
      rw [hcb2, hup1.callback, ← h.calls_of fun q hq => hup1.mem_heap (hold q hq)]
      refine List.flatMap_congr fun q hq => ?_
      have hne : q ≠ p := by
        rintro rfl
        exact hp2 hq
      rw [entered_other c1 p key value size hne, hup1.entry q]
    rw [hevicted, hsecond, hcalls2, hcalls1, List.map_append, List.append_assoc]

/-! ## one step -/

theorem CustodyInv.put (h : CustodyInv c u) {key value size : ℕ} {mem : Option ℕ}
    (hmem : ∀ p, mem = some p → p ∉ c.heap) (hv : value ≠ 0) :
    CustodyInv (c.step (.put key value size mem)) ((LirsOp.put key value size mem).custody c u) := by
  have hr := h.ready
  have hready : LirsReady (c.step (.put key value size mem)) := hr.step hmem
  have heffect := hr.inv.put_effect hr.queue hr.hir key value size hmem
  have hstep : (lirsPut c key value size mem).1 = c.step (.put key value size mem) := rfl
  have haccepts : (LirsOp.put key value size mem).accepts c =
      if (lirsPut c key value size mem).2 = 0 then
        match lirsFindBlock c key with
        | some p => if (c.block p).value ≠ value then some (p, key, value, size) else none
        | none => mem.map fun p => (p, key, value, size)
      else none := rfl
  obtain ⟨c', hafter⟩ : ∃ c', c' = c.step (.put key value size mem) := ⟨_, rfl⟩
  rw [hstep, ← hafter] at heffect
  generalize (lirsPut c key value size mem).2 = code at heffect haccepts
  cases heffect with
  | refused hcode hup _ =>
    rw [if_neg hcode] at haccepts
    subst hafter
    exact h.upkeep hready haccepts hup
  | @same p _ hf hsame =>
    rw [if_pos rfl, hf] at haccepts
    dsimp only at haccepts
    rw [if_neg (not_not.mpr hsame)] at haccepts
    refine h.upkeep hready haccepts ?_
    rw [← hafter]
    exact Upkeep.refl c
  | @replaced p _ hf hne =>
    rw [if_pos rfl, hf] at haccepts
    dsimp only at haccepts
    rw [if_pos hne] at haccepts
    obtain ⟨hp, hkey⟩ := hr.inv.find_some hf
    obtain ⟨hheap, -, hcb, hblock, -, hcalls⟩ := putExisting_fields c p value size hne
    have hone : ∀ q ∈ [p], q ∈ c.heap := fun q hq => by rwa [List.mem_singleton.mp hq]
    have hcall := h.calls_of hone
    rw [List.flatMap_singleton] at hcall
    rw [hcall, hafter] at hcalls
    rw [hafter] at hheap hcb hblock
    refine h.take hready haccepts hv hcb (List.perm_cons_erase hp).symm
      (hr.inv.shape.heapNodup.not_mem_erase) ?_ hcalls ?_ fun q hq => ?_
    · rw [hheap]
      exact (List.perm_cons_erase hp).symm
    · rw [hblock, Function.update_self]
      show ((c.block p).key, value, size) = _
      rw [hkey]
    · rw [hblock, Function.update_of_ne (hr.inv.shape.heapNodup.mem_erase_iff.mp hq).1]
  | @entered p c1 _ _ hf hm hup1 _ _ _ hinv1 hup2 _ hin _ =>
    subst hm
    rw [if_pos rfl, hf] at haccepts
    have hp1 : p ∉ c1.heap := fun hin => hmem p rfl (hup1.mem_heap hin)
    obtain ⟨-, hcb2, -, -⟩ := entered_rest c1 p key value size
    obtain ⟨out, hperm, hcalls, hnd⟩ := h.gone_entered hup1 hinv1 hp1 hup2 hin
    have hrest : ∀ q ∈ c'.heap.erase p, (c'.block q).entry = (c.block q).entry := fun q hq => by
      obtain ⟨hne, hq⟩ := hnd.mem_erase_iff.mp hq
      rw [hup2.entry q, entered_other c1 p key value size hne, hup1.entry q]
    have hnew : (c'.block p).entry = (key, value, size) := by
      rw [hup2.entry p, entered_self c1 p key value size]
      rfl
    have hcb : c'.evictCallback = c.evictCallback := by
      rw [hup2.callback, hcb2, hup1.callback]
    subst hafter
    exact h.take hready haccepts hv hcb hperm hnd.not_mem_erase (List.perm_cons_erase hin).symm
      hcalls hnew hrest

theorem CustodyInv.remove (h : CustodyInv c u) (key : ℕ) :
    CustodyInv (c.step (.remove key)) ((LirsOp.remove key).custody c u) := by
  have hr := h.ready
  have hready : LirsReady (c.step (.remove key)) := hr.step trivial
  have heffect := hr.inv.remove_effect key
  have hstep : (lirsRemove c key).1 = c.step (.remove key) := rfl
  obtain ⟨c', hafter⟩ : ∃ c', c' = c.step (.remove key) := ⟨_, rfl⟩
  rw [hstep, ← hafter] at heffect
  generalize (lirsRemove c key).2 = code at heffect
  cases heffect with
  | refused =>
    refine h.upkeep hready rfl ?_
    rw [← hafter]
    exact Upkeep.refl c
  | @removed p _ _ hf hinv hup =>
    obtain ⟨hp, -⟩ := hr.inv.find_some hf
    obtain ⟨-, hcb, hheap, hother, -, hcalls⟩ := removed_fields c p
    obtain ⟨out, hperm, hevicted⟩ := hup.freed
    have hold : ∀ q ∈ c.heap.erase p, q ∈ c.heap ∧ (removed c p).block q = c.block q := fun q hq =>
      have hq' := hr.inv.shape.heapNodup.mem_erase_iff.mp hq
      ⟨hq'.2, hother q hq'.1⟩
    have hout : ∀ q ∈ out, q ∈ c.heap.erase p := fun q hq => by
      have hq' := hperm.mem_iff.mp (List.mem_append_left _ hq)
      rwa [hheap] at hq'
    have hperm' : ((p :: out) ++ c'.heap).Perm c.heap := by
      rw [hheap] at hperm
      exact (hperm.cons p).trans (List.perm_cons_erase hp).symm
    have hcalls' : c'.evicted = c.evicted ++ (p :: out).map fun q => (c.block q).entry := by
      have hall : ∀ q ∈ p :: out, q ∈ c.heap := fun q hq => by
        rcases List.mem_cons.mp hq with rfl | hq
        · exact hp
        · exact (hold q (hout q hq)).1
      have hmap := h.calls_of hall
      rw [List.flatMap_cons] at hmap
      have hsecond : (out.flatMap fun q => lirsCalls (removed c p).evictCallback
          ((removed c p).block q).entry) =
            out.flatMap fun q => lirsCalls c.evictCallback (c.block q).entry :=
        List.flatMap_congr fun q hq => by rw [hcb, (hold q (hout q hq)).2]
      rw [hevicted, hsecond, hcalls, List.append_assoc, hmap]
    have hentry : ∀ q ∈ c'.heap, (c'.block q).entry = (c.block q).entry := fun q hq => by
      have hq' := hup.mem_heap hq
      rw [hheap] at hq'
      rw [hup.entry q, (hold q hq').2]
    have hcb' : c'.evictCallback = c.evictCallback := hup.callback.trans hcb
    subst hafter
    exact h.keep hready rfl hcb' hperm' hcalls' hentry

theorem CustodyInv.step (h : CustodyInv c u) {op : LirsOp} (hfresh : op.FreshMemory c)
    (hv : op.NonNull) : CustodyInv (c.step op) (op.custody c u) := by
  cases op with
  | get key =>
    exact h.upkeep (h.ready.step trivial) rfl (h.ready.inv.get_spec h.ready.queue key).1
  | put key value size mem => exact h.put hfresh hv
  | remove key => exact h.remove key

theorem CustodyInv.run (h : CustodyInv c u) {ops : List LirsOp}
    (hfresh : Runs.Each LirsCache.step LirsOp.FreshMemory c ops) (hv : ∀ op ∈ ops, op.NonNull) :
    CustodyInv (Runs.after LirsCache.step c ops) (custody c u ops) := by
  induction ops generalizing c u with
  | nil => exact h
  | cons op ops ih =>
    exact ih (h.step hfresh.1 (hv op List.mem_cons_self)) hfresh.2
      fun o ho => hv o (List.mem_cons_of_mem _ ho)

end

/-- **Every accepted value is in one place**, at every moment of a run with a callback installed and
no NULL values. -/
theorem each_value_in_one_place {capacity maxSize : ℕ} {cacheOk tableOk : Bool} {c : LirsCache}
    (hc : lirsCreate capacity maxSize cacheOk tableOk = some c) (ops : List LirsOp)
    (hfresh : Runs.Each LirsCache.step LirsOp.FreshMemory (lirsSetEvictCallback c true) ops)
    (hv : ∀ op ∈ ops, op.NonNull) :
    (Runs.after LirsCache.step (lirsSetEvictCallback c true) ops).OnePlace
      (custody (lirsSetEvictCallback c true) ⟨[], fun _ => 0, []⟩ ops) := by
  obtain ⟨hheap, hcalls, -⟩ := lirsCreate_heap hc
  have hempty : (lirsSetEvictCallback c true).heap = [] := hheap
  have hinit : CustodyInv (lirsSetEvictCallback c true) ⟨[], fun _ => 0, []⟩ := by
    refine ⟨lirsCreate_ready hc true, rfl, fun p hp => ?_, ⟨?_, fun p hp => ?_⟩, hcalls⟩
    · rw [hempty] at hp
      exact absurd hp (by simp)
    · rw [hempty]
      exact List.Perm.refl _
    · rw [hempty] at hp
      exact absurd hp (by simp)
  exact (hinit.run hfresh hv).onePlace

/-- Two values for one key and its removal. -/
theorem each_value_in_one_place_run :
    (Runs.after LirsCache.step (lirsSetEvictCallback ((lirsCreate 3 1000 true true).get rfl) true)
        [.put 16 1 1 (some 100), .put 16 2 1 none, .remove 16]).OnePlace
      (custody (lirsSetEvictCallback ((lirsCreate 3 1000 true true).get rfl) true)
        ⟨[], fun _ => 0, []⟩ [.put 16 1 1 (some 100), .put 16 2 1 none, .remove 16]) := by
  refine each_value_in_one_place (Option.some_get _).symm _ ?_ ?_
  · refine ⟨fun p hp => ?_, fun p hp => ?_, trivial, trivial⟩
    · cases hp
      decide
    · cases hp
  · intro op hop
    rcases List.mem_cons.mp hop with rfl | hop
    · exact one_ne_zero
    rcases List.mem_cons.mp hop with rfl | hop
    · exact two_ne_zero
    rw [List.mem_singleton.mp hop]
    trivial

end Nomalloc
