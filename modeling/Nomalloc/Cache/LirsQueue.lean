import Nomalloc.Cache.LirsBottom

/-!
# The queue Q at a `lirs_get`

A HIR block that is hit is the one to evict last, so it belongs to the end of Q.  `lirs_get` puts it
there only where it had left Q in the same call: a block that is off S keeps its place.

* `LirsInv.getStacked_tail`   on S: the block is promoted, and where it is demoted at once as the
                             bottom of S it enters Q again at the end;
* `LirsInv.getUnstacked_eq`   off S: Q does not change;
* `hir_hit_moves_iff`         so a hit moves the block to the end of Q exactly when it is on S, or
                             last on Q already.
-/

namespace Nomalloc

/-- `p` is last on Q, and the other blocks of Q are in the order they were in. -/
def MovedToTail (c c' : LirsCache) (p : ℕ) : Prop :=
  c'.qQueue.getLast? = some p ∧ c'.qQueue.erase p = c.qQueue.erase p

section
variable {c : LirsCache} {p q : ℕ}

theorem LirsInv.demoteBottom_queue (h : LirsInv c) (hl : c.sStack.getLast? = some q)
    (ht : (c.block q).type = .lir) : (lirsDemoteBottom c).qQueue = c.qQueue ++ [q] := by
  obtain ⟨-, -, hq, -⟩ := h.demoteLir (List.mem_of_getLast? hl) ht
  unfold lirsDemoteBottom
  rw [hl]
  dsimp only
  rw [if_pos ht]
  exact hq

/-- A block of S that is HIR resident after the hit was demoted again. -/
theorem LirsInv.getStacked_tail (h : LirsInv c) (hle : c.qQueue.length ≤ c.hirCapacity)
    (hs : p ∈ c.sStack) (ht : (c.block p).type = .hirResident)
    (ht' : ((lirsGetHirResident c p).block p).type = .hirResident) :
    MovedToTail c (lirsGetHirResident c p) p := by
  have h1 : LirsInv { c with stats := { c.stats with hits := c.stats.hits + 1 } } :=
    h.withStats rfl rfl
  obtain ⟨hA, -, hAq, -, -, -, hAtypes⟩ := h1.promoteBlock hs ht
  obtain ⟨-, htypes, hqueue⟩ := h.getStacked hle hs ht rfl
  generalize lirsPromoteBlock { c with stats := { c.stats with hits := c.stats.hits + 1 } } p = a
    at hA hAq hAtypes htypes hqueue
  have hAq' : a.qQueue = c.qQueue.erase p := hAq
  have hlir : a.types p = .lir := by rw [hAtypes, Function.update_self]
  have hend : (lirsDemoteBottom a).types p = .hirResident := (congrFun htypes p).symm.trans ht'
  have hpq : p ∉ c.qQueue.erase p := h.shape.qNodup.not_mem_erase
  cases hl : a.sStack.getLast? with
  | none =>
    have hsame : lirsDemoteBottom a = a := by
      unfold lirsDemoteBottom
      rw [hl]
    rw [hsame, hlir] at hend
    exact absurd hend (by decide)
  | some q =>
    by_cases hq : (a.block q).type = .lir
    · -- the demoted block is the one that is HIR resident now
      have hqp : q = p := by
        by_contra hne
        rw [(hA.demoteBottom_lir hl hq).2, Function.update_of_ne (Ne.symm hne), hlir] at hend
        exact absurd hend (by decide)
      subst hqp
      rw [hA.demoteBottom_queue hl hq, hAq'] at hqueue
      refine ⟨by rw [hqueue, List.getLast?_concat], ?_⟩
      rw [hqueue, List.erase_append_right _ hpq, List.erase_cons_head, List.append_nil]
    · rw [demoteBottom_other hl hq, hlir] at hend
      exact absurd hend (by decide)

theorem LirsReady.movedToTail_iff (h : LirsReady c) {key : ℕ} (hk : key ≠ 0)
    (hf : lirsFindBlock c key = some p) (ht : (c.block p).type = .hirResident) :
    (((lirsGet c key).1.block p).type = .hirResident → MovedToTail c (lirsGet c key).1 p) ↔
      (c.block p).inSStack = true ∨ c.qQueue.getLast? = some p := by
  obtain ⟨hp, -⟩ := h.inv.find_some hf
  have h1 := h.inv.touch hp
  have hle1 : (touched c p).qQueue.length ≤ (touched c p).hirCapacity := h.queue
  have ht1 : ((touched c p).block p).type = .hirResident :=
    (congrFun (types_touched c p) p).trans ht
  have hget : (lirsGet c key).1 = lirsGetHirResident (touched c p) p := by
    rw [lirsGet_found hk hf, ht]
  rw [hget]
  by_cases hs : p ∈ c.sStack
  · have hflag := ((h.inv.shape.sFlag p).mp hs).2
    exact iff_of_true (fun ht' => h1.getStacked_tail hle1 hs ht1 ht') (Or.inl hflag)
  · have hflag : ¬ (c.block p).inSStack = true := fun hf =>
      hs ((h.inv.shape.sFlag p).mpr ⟨hp, hf⟩)
    have heq := h1.getUnstacked_eq hle1 hp hs
    have hqueue : (lirsGetHirResident (touched c p) p).qQueue = c.qQueue := by
      rw [heq]
      rfl
    have htype : ((lirsGetHirResident (touched c p) p).block p).type = .hirResident := by
      rw [heq]
      exact (congrFun (types_addS _ p) p).trans ht1
    rw [imp_iff_right htype, or_iff_right hflag]
    unfold MovedToTail
    rw [hqueue]
    exact and_iff_left rfl

end

/-- **A hit of a HIR resident block that leaves it HIR resident moves it to the end of Q** exactly
when the block was on S, or at the end. -/
theorem hir_hit_moves_iff {capacity maxSize : ℕ} {cacheOk tableOk : Bool} {c s : LirsCache}
    (hc : lirsCreate capacity maxSize cacheOk tableOk = some c) (callback : Bool)
    (ops : List LirsOp)
    (hfresh : Runs.Each LirsCache.step LirsOp.FreshMemory (lirsSetEvictCallback c callback) ops)
    (hs : s = Runs.after LirsCache.step (lirsSetEvictCallback c callback) ops)
    {key p : ℕ} (hk : key ≠ 0) (hf : lirsFindBlock s key = some p)
    (ht : (s.block p).type = .hirResident) :
    (((lirsGet s key).1.block p).type = .hirResident → MovedToTail s (lirsGet s key).1 p) ↔
      (s.block p).inSStack = true ∨ s.qQueue.getLast? = some p := by
  have hready : LirsReady s := by
    rw [hs]
    exact (lirsCreate_ready hc callback).after hfresh
  exact hready.movedToTail_iff hk hf ht

/-- Two blocks in the cache, the second of them HIR resident and on S. -/
theorem hir_hit_moves_run :
    let s := Runs.after LirsCache.step
      (lirsSetEvictCallback ((lirsCreate 3 1000 true true).get rfl) false)
      [.put 16 1 1 (some 100), .put 32 2 1 (some 200)]
    (((lirsGet s 32).1.block 200).type = .hirResident → MovedToTail s (lirsGet s 32).1 200) ↔
      (s.block 200).inSStack = true ∨ s.qQueue.getLast? = some 200 := by
  refine hir_hit_moves_iff (Option.some_get _).symm false _ ?_ rfl (by decide) ?_ ?_
  · refine ⟨fun p hp => ?_, fun p hp => ?_, trivial⟩
    · cases hp
      decide
    · cases hp
      decide +kernel
  · decide +kernel
  · decide +kernel

/-- Q is `[100, 400]`, and the block at 100 is off S.  It is hit, and stays the next to evict. -/
theorem hir_hit_stays_first :
    ∃ c, lirsCreate 3 1000 true true = some c ∧ ∃ ops : List LirsOp,
      Runs.Each LirsCache.step LirsOp.FreshMemory c ops ∧
      lirsFindBlock (Runs.after LirsCache.step c ops) 16 = some 100 ∧
      ((Runs.after LirsCache.step c ops).block 100).type = .hirResident ∧
      ((lirsGet (Runs.after LirsCache.step c ops) 16).1.block 100).type = .hirResident ∧
      ¬ MovedToTail (Runs.after LirsCache.step c ops)
        (lirsGet (Runs.after LirsCache.step c ops) 16).1 100 := by
  refine ⟨(lirsCreate 3 1000 true true).get rfl, (Option.some_get _).symm,
    [.put 16 1 1 (some 100), .put 32 2 1 (some 200), .put 48 3 1 (some 300), .get 32,
      .put 64 4 1 (some 400)], ⟨?_, ?_, ?_, trivial, ?_, trivial⟩, by decide +kernel,
    by decide +kernel, by decide +kernel, fun h => ?_⟩
  · intro p hp
    cases hp
    decide +kernel
  · intro p hp
    cases hp
    decide +kernel
  · intro p hp
    cases hp
    decide +kernel
  · intro p hp
    cases hp
    decide +kernel
  · exact absurd h.1 (by decide +kernel)

end Nomalloc
