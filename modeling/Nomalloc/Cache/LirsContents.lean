import Nomalloc.Cache.LirsUpkeep

/-!
# What a reader of the LIRS cache sees

* `get_null_or_latest`       a `lirs_get` returns NULL or the value put last under its key;
* `put_readable_iff_absent_ghost`   a value that was put can be read, unless its key has a ghost,
                             a block that was evicted and is still on S: it takes the value and
                             stays non-resident;
* `failed_put_changes_nothing`   a `lirs_put` that returns an error leaves the resident keys, their
                             values and sizes and the totals as they were;
* `scan_keeps_lir`           puts and gets of absent keys leave the LIR blocks as they are.
-/

namespace Nomalloc

/-- A cache between two operations. -/
structure LirsReady (c : LirsCache) : Prop where
  inv : LirsInv c
  queue : c.qQueue.length ≤ c.hirCapacity
  hir : 0 < c.hirCapacity

theorem LirsReady.of_keeps {c c' : LirsCache} (h : LirsReady c) (hk : LirsKeeps c c') :
    LirsReady c' := by
  refine ⟨hk.inv, ?_, ?_⟩
  · rw [hk.config.hirCapacity]
    exact hk.queue
  · rw [hk.config.hirCapacity]
    exact h.hir

theorem LirsReady.step {c : LirsCache} {op : LirsOp} (h : LirsReady c)
    (hfresh : op.FreshMemory c) : LirsReady (c.step op) := by
  cases op with
  | get key => exact h.of_keeps (h.inv.get h.queue key)
  | put key value size mem => exact h.of_keeps (h.inv.put h.queue key value size hfresh).1
  | remove key => exact h.of_keeps (h.inv.remove h.queue key).1

theorem LirsReady.after {c : LirsCache} (h : LirsReady c) {ops : List LirsOp}
    (hfresh : Runs.Each LirsCache.step LirsOp.FreshMemory c ops) :
    LirsReady (Runs.after LirsCache.step c ops) :=
  Runs.inv_after (fun _ _ h hf => h.step hf) h hfresh

theorem lirsCreate_ready {capacity maxSize : ℕ} {cacheOk tableOk : Bool} {c : LirsCache}
    (hc : lirsCreate capacity maxSize cacheOk tableOk = some c) (callback : Bool) :
    LirsReady (lirsSetEvictCallback c callback) := by
  obtain ⟨hinv, hqueue, -, hhir, -⟩ := lirsCreate_inv hc
  refine ⟨⟨hinv.shape.congr rfl rfl rfl rfl rfl rfl rfl rfl, hinv.blocks, hinv.lir, hinv.hir⟩,
    hqueue, ?_⟩
  show 0 < c.hirCapacity
  rw [hhir]
  exact lt_of_lt_of_le (by decide) (le_max_right _ _)

theorem lirsCreate_heap {capacity maxSize : ℕ} {cacheOk tableOk : Bool} {c : LirsCache}
    (hc : lirsCreate capacity maxSize cacheOk tableOk = some c) :
    c.heap = [] ∧ c.evicted = [] ∧ c.stats.totalSize = 0 ∧ c.maxSize = maxSize := by
  unfold lirsCreate at hc
  rcases cacheOk with _ | _
  · exact absurd hc (by simp)
  cases hsize : hashSizeLoop 65 1 (capacity * 2 % wordSize) with
  | none =>
    rw [hsize] at hc
    exact absurd hc (by simp)
  | some hashSize =>
    rw [hsize] at hc
    rcases tableOk with _ | _
    · exact absurd hc (by simp)
    cases hc
    exact ⟨rfl, rfl, rfl, rfl⟩

/-! ## the value put last -/

/-- The values put last, after one more operation: a put that returns 0 sets one, a remove that
returns 0 takes one away. -/
def LirsOp.latest (c : LirsCache) (last : ℕ → Option ℕ) : LirsOp → ℕ → Option ℕ
  | .get _ => last
  | .put key value size mem =>
    if (lirsPut c key value size mem).2 = 0 then Function.update last key (some value) else last
  | .remove key => if (lirsRemove c key).2 = 0 then Function.update last key none else last

/-- For each key, the value of its most recent successful put since its last successful remove. -/
def latestPut : LirsCache → (ℕ → Option ℕ) → List LirsOp → ℕ → Option ℕ
  | _, last, [] => last
  | c, last, op :: ops => latestPut (c.step op) (op.latest c last) ops

/-- The blocks hold the values put last. -/
def HoldsLatest (c : LirsCache) (last : ℕ → Option ℕ) : Prop :=
  ∀ p ∈ c.heap, last (c.block p).key = some (c.block p).value

section
variable {c c' : LirsCache} {last : ℕ → Option ℕ} {p key : ℕ}

theorem HoldsLatest.upkeep (h : HoldsLatest c last) (hup : Upkeep c c') : HoldsLatest c' last := by
  intro q hq
  rw [hup.key q, hup.value q]
  exact h q (hup.mem_heap hq)

/-- One block takes a value for its key, and the others have other keys. -/
theorem HoldsLatest.set (h : HoldsLatest c last) {value : ℕ}
    (hheap : ∀ q ∈ c'.heap, q = p ∨ q ∈ c.heap ∧ c'.block q = c.block q ∧ (c.block q).key ≠ key)
    (hkey : (c'.block p).key = key) (hvalue : (c'.block p).value = value) :
    HoldsLatest c' (Function.update last key (some value)) := by
  intro q hq
  rcases hheap q hq with he | ⟨hmem, hblock, hne⟩
  · rw [he, hkey, hvalue, Function.update_self]
  · rw [hblock, Function.update_of_ne hne]
    exact h q hmem

theorem HoldsLatest.put (h : HoldsLatest c last) (hr : LirsReady c) {value size : ℕ}
    {mem : Option ℕ} (hmem : ∀ p, mem = some p → p ∉ c.heap) :
    HoldsLatest (c.step (.put key value size mem))
      (LirsOp.latest c last (.put key value size mem)) := by
  have heffect := hr.inv.put_effect hr.queue hr.hir key value size hmem
  show HoldsLatest (lirsPut c key value size mem).1
    (if (lirsPut c key value size mem).2 = 0 then Function.update last key (some value) else last)
  generalize (lirsPut c key value size mem).1 = c' at heffect
  generalize (lirsPut c key value size mem).2 = code at heffect
  cases heffect with
  | refused hcode hup _ =>
    rw [if_neg hcode]
    exact h.upkeep hup
  | @same p hk hf hv =>
    obtain ⟨hp, hkey⟩ := hr.inv.find_some hf
    rw [if_pos rfl]
    refine h.set (p := p) (fun q hq => ?_) hkey hv
    by_cases he : q = p
    · exact Or.inl he
    · exact Or.inr ⟨hq, rfl, fun hkq => he (hr.inv.shape.keyInj q hq p hp (hkq.trans hkey.symm))⟩
  | @replaced p hk hf hv =>
    obtain ⟨hp, hkey⟩ := hr.inv.find_some hf
    obtain ⟨hheap, -, -, hblock, -, -⟩ := putExisting_fields c p value size hv
    rw [if_pos rfl]
    refine h.set (p := p) (fun q hq => ?_) ?_ ?_
    · rw [hheap] at hq
      by_cases he : q = p
      · exact Or.inl he
      · refine Or.inr ⟨hq, ?_, fun hkq => ?_⟩
        · rw [hblock, Function.update_of_ne he]
        · exact he (hr.inv.shape.keyInj q hq p hp (hkq.trans hkey.symm))
    · rw [hblock, Function.update_self]
      exact hkey
    · rw [hblock, Function.update_self]
  | @entered p c1 _ hk hf hm hup1 _ _ _ _ hup2 _ _ _ =>
    have h1 := h.upkeep hup1
    have hself := entered_self c1 p key value size
    have hheap := (entered_fields c1 p key value size).2.2.1
    have hp1 : p ∉ c1.heap := fun hin => hmem p hm (hup1.mem_heap hin)
    rw [if_pos rfl]
    refine HoldsLatest.upkeep (h1.set (p := p) (fun q hq => ?_) ?_ ?_) hup2
    · rw [hheap] at hq
      rcases List.mem_cons.mp hq with he | hq
      · exact Or.inl he
      · have hne : q ≠ p := fun he => hp1 (he ▸ hq)
        refine Or.inr ⟨hq, entered_other c1 p key value size hne, ?_⟩
        rw [hup1.key q]
        exact hr.inv.find_none hf q (hup1.mem_heap hq)
    · rw [hself]
    · rw [hself]

theorem HoldsLatest.remove (h : HoldsLatest c last) (hr : LirsReady c) :
    HoldsLatest (c.step (.remove key)) (LirsOp.latest c last (.remove key)) := by
  have heffect := hr.inv.remove_effect key
  show HoldsLatest (lirsRemove c key).1
    (if (lirsRemove c key).2 = 0 then Function.update last key none else last)
  generalize (lirsRemove c key).1 = c' at heffect
  generalize (lirsRemove c key).2 = code at heffect
  cases heffect with
  | refused hcode =>
    rw [if_neg hcode]
    exact h
  | @removed p _ hk hf _ hup =>
    obtain ⟨hp, hkey⟩ := hr.inv.find_some hf
    obtain ⟨-, -, hheap, hother, -, -⟩ := removed_fields c p
    rw [if_pos rfl]
    refine HoldsLatest.upkeep (fun q hq => ?_) hup
    rw [hheap] at hq
    obtain ⟨hne, hq⟩ := hr.inv.shape.heapNodup.mem_erase_iff.mp hq
    have hkq : (c.block q).key ≠ key := fun hkq =>
      hne (hr.inv.shape.keyInj q hq p hp (hkq.trans hkey.symm))
    rw [hother q hne, Function.update_of_ne hkq]
    exact h q hq

theorem HoldsLatest.step (h : HoldsLatest c last) (hr : LirsReady c) {op : LirsOp}
    (hfresh : op.FreshMemory c) : HoldsLatest (c.step op) (op.latest c last) := by
  cases op with
  | get key => exact h.upkeep (hr.inv.get_spec hr.queue key).1
  | put key value size mem => exact h.put hr hfresh
  | remove key => exact h.remove hr

theorem HoldsLatest.run (h : HoldsLatest c last) (hr : LirsReady c) {ops : List LirsOp}
    (hfresh : Runs.Each LirsCache.step LirsOp.FreshMemory c ops) :
    HoldsLatest (Runs.after LirsCache.step c ops) (latestPut c last ops) := by
  induction ops generalizing c last with
  | nil => exact h
  | cons op ops ih => exact ih (h.step hr hfresh.1) (hr.step hfresh.1) hfresh.2

end

/-- **A `lirs_get` returns NULL or the value put last under its key.** -/
theorem get_null_or_latest {capacity maxSize : ℕ} {cacheOk tableOk : Bool} {c : LirsCache}
    (hc : lirsCreate capacity maxSize cacheOk tableOk = some c) (callback : Bool)
    (ops : List LirsOp)
    (hfresh : Runs.Each LirsCache.step LirsOp.FreshMemory (lirsSetEvictCallback c callback) ops)
    (key : ℕ) :
    (lirsGet (Runs.after LirsCache.step (lirsSetEvictCallback c callback) ops) key).2 = 0 ∨
      latestPut (lirsSetEvictCallback c callback) (fun _ => none) ops key =
        some (lirsGet (Runs.after LirsCache.step (lirsSetEvictCallback c callback) ops) key).2 := by
  have hready := lirsCreate_ready hc callback
  have hempty : HoldsLatest (lirsSetEvictCallback c callback) fun _ => none := by
    intro p hp
    have hheap : (lirsSetEvictCallback c callback).heap = [] := (lirsCreate_heap hc).1
    rw [hheap] at hp
    exact absurd hp (by simp)
  have hlatest := hempty.run hready hfresh
  have hafter := hready.after hfresh
  generalize Runs.after LirsCache.step (lirsSetEvictCallback c callback) ops = s at hlatest hafter ⊢
  have hget := (hafter.inv.get_spec hafter.queue key).2
  rw [hget]
  by_cases hk : key = 0
  · exact Or.inl (if_pos hk)
  rw [if_neg hk]
  cases hf : lirsFindBlock s key with
  | none => exact Or.inl rfl
  | some p =>
    obtain ⟨hp, hkey⟩ := hafter.inv.find_some hf
    dsimp only
    by_cases ht : (s.block p).type = .hirNonResident
    · exact Or.inl (if_pos ht)
    · rw [if_neg ht]
      have h := hlatest p hp
      rw [hkey] at h
      exact Or.inr h

/-- A key that is put twice and read. -/
theorem get_null_or_latest_run :
    (lirsGet (Runs.after LirsCache.step
        (lirsSetEvictCallback ((lirsCreate 3 1000 true true).get rfl) true)
        [.put 16 1 1 (some 100), .put 16 2 1 none]) 16).2 = 0 ∨
      latestPut (lirsSetEvictCallback ((lirsCreate 3 1000 true true).get rfl) true) (fun _ => none)
          [.put 16 1 1 (some 100), .put 16 2 1 none] 16 =
        some (lirsGet (Runs.after LirsCache.step
          (lirsSetEvictCallback ((lirsCreate 3 1000 true true).get rfl) true)
          [.put 16 1 1 (some 100), .put 16 2 1 none]) 16).2 := by
  refine get_null_or_latest (Option.some_get _).symm true _ ?_ 16
  refine ⟨fun p hp => ?_, fun p hp => ?_, trivial⟩
  · cases hp
    decide
  · cases hp

/-! ## reading a value right after it was put -/

/-- The key has a block that was evicted and is still on S. -/
def HasGhost (c : LirsCache) (key : ℕ) : Prop :=
  ∃ p, lirsFindBlock c key = some p ∧ (c.block p).type = .hirNonResident

/-- The key is there, and a `lirs_get` returns the value. -/
def Readable (c : LirsCache) (key value : ℕ) : Prop :=
  lirsContains c key = true ∧ (lirsGet c key).2 = value

section
variable {c : LirsCache} {p key value : ℕ}

theorem LirsReady.readable (h : LirsReady c) (hk : key ≠ 0) (hp : p ∈ c.heap)
    (hkey : (c.block p).key = key) (ht : (c.block p).type ≠ .hirNonResident)
    (hv : (c.block p).value = value) : Readable c key value := by
  have hf := h.inv.find_iff.mpr ⟨hp, hkey⟩
  have hget := (h.inv.get_spec h.queue key).2
  rw [if_neg hk, hf] at hget
  dsimp only at hget
  rw [if_neg ht] at hget
  refine ⟨?_, hget.trans hv⟩
  unfold lirsContains
  rw [if_neg hk, hf]
  exact decide_eq_true ht

theorem not_readable_of_ghost (h : HasGhost c key) : ¬ Readable c key value := by
  obtain ⟨p, hf, ht⟩ := h
  rintro ⟨hcontains, -⟩
  unfold lirsContains at hcontains
  by_cases hk : key = 0
  · rw [if_pos hk] at hcontains
    exact absurd hcontains (by decide)
  · rw [if_neg hk, hf] at hcontains
    exact of_decide_eq_true hcontains ht

theorem LirsReady.put_readable_iff (h : LirsReady c) {size : ℕ} {mem : Option ℕ}
    (hmem : ∀ p, mem = some p → p ∉ c.heap) (hcode : (lirsPut c key value size mem).2 = 0) :
    Readable (lirsPut c key value size mem).1 key value ↔ ¬ HasGhost c key := by
  have hready : LirsReady (lirsPut c key value size mem).1 :=
    h.of_keeps (h.inv.put h.queue key value size hmem).1
  have heffect := h.inv.put_effect h.queue h.hir key value size hmem
  generalize (lirsPut c key value size mem).1 = c' at heffect hready ⊢
  rw [hcode] at heffect
  -- where the key was found, its block keeps its type
  have hfound : ∀ p, lirsFindBlock c key = some p → key ≠ 0 → p ∈ c'.heap →
      (c'.block p).key = (c.block p).key → (c'.block p).type = (c.block p).type →
      (c'.block p).value = value → (Readable c' key value ↔ ¬ HasGhost c key) := by
    intro p hf hk hp hkey htype hvalue
    have hkeyp : (c'.block p).key = key := hkey.trans (h.inv.find_some hf).2
    constructor
    · rintro hread ⟨q, hq, hghost⟩
      rw [hf, Option.some_inj] at hq
      subst hq
      refine not_readable_of_ghost ⟨p, hready.inv.find_iff.mpr ⟨hp, hkeyp⟩, ?_⟩ hread
      rw [htype, hghost]
    · intro hno
      exact hready.readable hk hp hkeyp (fun hg => hno ⟨p, hf, htype.symm.trans hg⟩) hvalue
  cases heffect with
  | refused hne => exact absurd rfl hne
  | @same p hk hf hv => exact hfound p hf hk (h.inv.find_some hf).1 rfl rfl hv
  | @replaced p hk hf hv =>
    obtain ⟨hheap, -, -, hblock, -, -⟩ := putExisting_fields c p value size hv
    refine hfound p hf hk ?_ ?_ ?_ ?_
    · rw [hheap]
      exact (h.inv.find_some hf).1
    all_goals rw [hblock, Function.update_self]
  | @entered p c1 _ hk hf _ _ _ _ _ _ hup2 _ hin hres =>
    have hself := entered_self c1 p key value size
    refine ⟨fun _ ⟨q, hq, _⟩ => ?_, fun _ => hready.readable hk hin ?_ hres ?_⟩
    · rw [hf] at hq
      exact absurd hq (by simp)
    · rw [hup2.key p, hself]
    · rw [hup2.value p, hself]

end

/-- **A value that was put can be read at once, exactly when its key had no ghost.** -/
theorem put_readable_iff_absent_ghost {capacity maxSize : ℕ} {cacheOk tableOk : Bool}
    {c s : LirsCache} (hc : lirsCreate capacity maxSize cacheOk tableOk = some c) (callback : Bool)
    (ops : List LirsOp)
    (hfresh : Runs.Each LirsCache.step LirsOp.FreshMemory (lirsSetEvictCallback c callback) ops)
    (hs : s = Runs.after LirsCache.step (lirsSetEvictCallback c callback) ops)
    {key value size : ℕ} {mem : Option ℕ} (hmem : ∀ p, mem = some p → p ∉ s.heap)
    (hcode : (lirsPut s key value size mem).2 = 0) :
    Readable (lirsPut s key value size mem).1 key value ↔ ¬ HasGhost s key := by
  have hready : LirsReady s := by
    rw [hs]
    exact (lirsCreate_ready hc callback).after hfresh
  exact hready.put_readable_iff hmem hcode

/-- A put into an empty cache. -/
theorem put_readable_first :
    Readable (lirsPut (lirsSetEvictCallback ((lirsCreate 3 1000 true true).get rfl) false) 16 1 1
        (some 100)).1 16 1 ↔
      ¬ HasGhost (lirsSetEvictCallback ((lirsCreate 3 1000 true true).get rfl) false) 16 := by
  refine put_readable_iff_absent_ghost (Option.some_get _).symm false [] trivial rfl ?_ ?_
  · intro p hp
    cases hp
    decide
  · decide

/-- The third key evicts the first of the two HIR blocks, which stays on S.  Putting that key again
returns 0, and the key is not there. -/
theorem put_into_ghost_unreadable :
    ∃ c, lirsCreate 3 1000 true true = some c ∧ ∃ ops : List LirsOp,
      Runs.Each LirsCache.step LirsOp.FreshMemory c ops ∧
      (lirsPut (Runs.after LirsCache.step c ops) 32 9 1 (some 500)).2 = 0 ∧
      ¬ Readable (lirsPut (Runs.after LirsCache.step c ops) 32 9 1 (some 500)).1 32 9 := by
  refine ⟨(lirsCreate 3 1000 true true).get rfl, (Option.some_get _).symm,
    [.put 16 1 1 (some 100), .put 32 2 1 (some 200), .put 48 3 1 (some 300),
      .put 64 4 1 (some 400)], ⟨?_, ?_, ?_, ?_, trivial⟩, by decide +kernel, ?_⟩
  · intro p hp
    cases hp
    decide +kernel
  · intro p hp
    cases hp
    decide +kernel
  · intro p hp
    cases hp
    decide +kernel
  · intro p hp
    cases hp
    decide +kernel
  · rintro ⟨hcontains, -⟩
    revert hcontains
    decide +kernel

/-! ## a put that fails -/

/-- What a key holds: the value and the size of its block, if it has one and that is resident. -/
def residentAt (c : LirsCache) (key : ℕ) : Option (ℕ × ℕ) :=
  match lirsFindBlock c key with
  | none => none
  | some p =>
    if (c.block p).type = .hirNonResident then none
    else some ((c.block p).value, (c.block p).size)

section
variable {c c' : LirsCache} {key : ℕ}

theorem LirsInv.residentAt_iff (h : LirsInv c) (value size : ℕ) :
    residentAt c key = some (value, size) ↔
      ∃ p ∈ c.heap, (c.block p).entry = (key, value, size) ∧
        (c.block p).type ≠ .hirNonResident := by
  unfold residentAt
  constructor
  · intro hr
    cases hf : lirsFindBlock c key with
    | none =>
      rw [hf] at hr
      exact absurd hr (by simp)
    | some p =>
      rw [hf] at hr
      obtain ⟨hp, hkey⟩ := h.find_some hf
      by_cases ht : (c.block p).type = .hirNonResident
      · exact absurd hr (by simp [ht])
      · simp only [ht, if_false, Option.some_inj, Prod.mk.injEq] at hr
        exact ⟨p, hp, by simp [LirsBlock.entry, hkey, hr], ht⟩
  · rintro ⟨p, hp, hentry, ht⟩
    simp only [LirsBlock.entry, Prod.mk.injEq] at hentry
    rw [h.find_iff.mpr ⟨hp, hentry.1⟩]
    dsimp only
    rw [if_neg ht, hentry.2.1, hentry.2.2]

/-- Pruning frees ghosts only. -/
theorem LirsInv.residentAt_prune (h : LirsInv c) (h' : LirsInv c') (hup : Upkeep c c')
    (hframe : PruneFrame c c') (key : ℕ) : residentAt c' key = residentAt c key := by
  refine Option.ext fun r => ?_
  rw [h'.residentAt_iff r.1 r.2, h.residentAt_iff r.1 r.2]
  constructor
  · rintro ⟨p, hp, hentry, ht⟩
    rw [hup.entry p] at hentry
    exact ⟨p, hup.mem_heap hp, hentry, fun hghost => ht (hup.ghost p hghost)⟩
  · rintro ⟨p, hp, hentry, ht⟩
    obtain ⟨hp', ht'⟩ := hframe.keeps p hp ht
    exact ⟨p, hp', (hup.entry p).trans hentry, by rw [ht']; exact ht⟩

theorem lirsPut_failed {value size : ℕ} {mem : Option ℕ}
    (hcode : (lirsPut c key value size mem).2 ≠ 0) :
    (lirsPut c key value size mem).1 = c ∨
      (lirsPut c key value size mem).1 = lirsMakeRoom c size := by
  unfold lirsPut at hcode ⊢
  by_cases hk : key = 0
  · rw [if_pos hk]
    exact Or.inl rfl
  rw [if_neg hk] at hcode ⊢
  cases hf : lirsFindBlock c key with
  | some p =>
    rw [hf] at hcode
    exact absurd rfl hcode
  | none =>
    rw [hf] at hcode
    dsimp only at hcode ⊢
    by_cases hfull : (lirsMakeRoom c size).full size = true
    · rw [if_pos hfull]
      exact Or.inr rfl
    · rw [if_neg hfull] at hcode ⊢
      cases mem with
      | none => exact Or.inr rfl
      | some p => exact absurd rfl hcode

end

/-- **A `lirs_put` that fails changes nothing a reader sees**: it may free ghosts at the bottom of
S, no resident block. -/
theorem failed_put_changes_nothing {capacity maxSize : ℕ} {cacheOk tableOk : Bool}
    {c s : LirsCache} (hc : lirsCreate capacity maxSize cacheOk tableOk = some c) (callback : Bool)
    (ops : List LirsOp)
    (hfresh : Runs.Each LirsCache.step LirsOp.FreshMemory (lirsSetEvictCallback c callback) ops)
    (hs : s = Runs.after LirsCache.step (lirsSetEvictCallback c callback) ops)
    {key value size : ℕ} {mem : Option ℕ} (hcode : (lirsPut s key value size mem).2 ≠ 0) :
    (∀ k, residentAt (lirsPut s key value size mem).1 k = residentAt s k) ∧
      lirsSize (lirsPut s key value size mem).1 = lirsSize s ∧
      (lirsPut s key value size mem).1.stats.totalSize = s.stats.totalSize := by
  have hready : LirsReady s := by
    rw [hs]
    exact (lirsCreate_ready hc callback).after hfresh
  rcases lirsPut_failed hcode with he | he
  · rw [he]
    exact ⟨fun _ => rfl, rfl, rfl⟩
  · obtain ⟨hroom, hframe⟩ := hready.inv.makeRoom hready.queue size
    have hup := hready.inv.upkeep_makeRoom hready.queue size
    have hstats := hframe.stats
    rw [he]
    refine ⟨hready.inv.residentAt_prune hroom hup hframe, ?_, by rw [hstats]⟩
    unfold lirsSize
    rw [hstats]

/-- The second value is larger than the cache. -/
theorem failed_put_changes_nothing_run :
    let s := Runs.after LirsCache.step
      (lirsSetEvictCallback ((lirsCreate 3 1000 true true).get rfl) true)
      [.put 16 1 10 (some 100)]
    (∀ k, residentAt (lirsPut s 32 2 2000 (some 200)).1 k = residentAt s k) ∧
      lirsSize (lirsPut s 32 2 2000 (some 200)).1 = lirsSize s ∧
      (lirsPut s 32 2 2000 (some 200)).1.stats.totalSize = s.stats.totalSize := by
  refine failed_put_changes_nothing (Option.some_get _).symm true _ ?_ rfl ?_
  · refine ⟨fun p hp => ?_, trivial⟩
    cases hp
    decide
  · decide +kernel

/-! ## scans -/

/-- One step of a scan: a put or a get of a key that has no block. -/
def LirsOp.Scans (c : LirsCache) : LirsOp → Prop
  | .get key => lirsFindBlock c key = none
  | .put key _ _ _ => lirsFindBlock c key = none
  | .remove _ => False

/-- A block is in the table and LIR, with this key and value. -/
structure LirAt (c : LirsCache) (p key value : ℕ) : Prop where
  live : p ∈ c.heap
  lir : (c.block p).type = .lir
  key : (c.block p).key = key
  value : (c.block p).value = value

section
variable {c c' : LirsCache} {p key value : ℕ}

theorem LirAt.keep (h : LirAt c p key value) (hup : Upkeep c c') (hlir : KeepsLir c c') :
    LirAt c' p key value :=
  ⟨(hlir p h.live h.lir).1, (hlir p h.live h.lir).2, (hup.key p).trans h.key,
    (hup.value p).trans h.value⟩

/-- A scan touches no LIR block: it prunes S down to one and evicts from Q, where none is. -/
theorem LirAt.scan (h : LirAt c p key value) (hr : LirsReady c) {op : LirsOp}
    (hfresh : op.FreshMemory c) (hscan : op.Scans c) : LirAt (c.step op) p key value := by
  cases op with
  | remove => exact absurd hscan id
  | get k =>
    have hnone : lirsFindBlock c k = none := hscan
    show LirAt (lirsGet c k).1 p key value
    unfold lirsGet
    split_ifs
    · exact h
    · rw [hnone]
      exact ⟨h.live, h.lir, h.key, h.value⟩
  | put k v size mem =>
    have hnone : lirsFindBlock c k = none := hscan
    have heffect := hr.inv.put_effect hr.queue hr.hir k v size hfresh
    show LirAt (lirsPut c k v size mem).1 p key value
    generalize (lirsPut c k v size mem).1 = c' at heffect
    generalize (lirsPut c k v size mem).2 = code at heffect
    cases heffect with
    | refused _ hup hlir => exact h.keep hup hlir
    | same _ hf _ => exact absurd (hnone.symm.trans hf) (by simp)
    | replaced _ hf _ => exact absurd (hnone.symm.trans hf) (by simp)
    | @entered r c1 _ _ _ hm hup1 hlir1 _ _ _ hup2 hlir2 _ _ =>
      have h1 := h.keep hup1 hlir1
      have hheap := (entered_fields c1 r k v size).2.2.1
      have hne : p ≠ r := by
        rintro rfl
        exact hfresh p hm h.live
      have hother := entered_other c1 r k v size hne
      refine LirAt.keep ⟨?_, ?_, ?_, ?_⟩ hup2 hlir2
      · rw [hheap]
        exact List.mem_cons_of_mem _ h1.live
      all_goals rw [hother]
      · exact h1.lir
      · exact h1.key
      · exact h1.value

theorem LirAt.scans (h : LirAt c p key value) (hr : LirsReady c) {scan : List LirsOp}
    (hfresh : Runs.Each LirsCache.step LirsOp.FreshMemory c scan)
    (hscan : Runs.Each LirsCache.step LirsOp.Scans c scan) :
    LirsReady (Runs.after LirsCache.step c scan) ∧
      LirAt (Runs.after LirsCache.step c scan) p key value := by
  induction scan generalizing c with
  | nil => exact ⟨hr, h⟩
  | cons op scan ih => exact ih (h.scan hr hfresh.1 hscan.1) (hr.step hfresh.1) hfresh.2 hscan.2

theorem LirAt.get (h : LirAt c p key value) (hr : LirsReady c) :
    (lirsGet c key).2 = if key = 0 then 0 else value := by
  have ht : (c.block p).type ≠ .hirNonResident := by
    rw [h.lir]
    decide
  rw [(hr.inv.get_spec hr.queue key).2, hr.inv.find_iff.mpr ⟨h.live, h.key⟩]
  dsimp only
  rw [if_neg ht, h.value]

end

/-- **Scan resistance.**  After a scan a block that was LIR is in its bucket and LIR, and a
`lirs_get` of its key returns what it would have returned before. -/
theorem scan_keeps_lir {capacity maxSize : ℕ} {cacheOk tableOk : Bool} {c s s' : LirsCache}
    (hc : lirsCreate capacity maxSize cacheOk tableOk = some c) (callback : Bool)
    {ops scan : List LirsOp}
    (hfresh : Runs.Each LirsCache.step LirsOp.FreshMemory (lirsSetEvictCallback c callback) ops)
    (hs : s = Runs.after LirsCache.step (lirsSetEvictCallback c callback) ops)
    (hfresh' : Runs.Each LirsCache.step LirsOp.FreshMemory s scan)
    (hscan : Runs.Each LirsCache.step LirsOp.Scans s scan)
    (hs' : s' = Runs.after LirsCache.step s scan) {i p : ℕ} (hp : p ∈ s.hashTable i)
    (ht : (s.block p).type = .lir) :
    (s'.block p).key = (s.block p).key ∧ p ∈ s'.hashTable (s'.bucket (s.block p).key) ∧
      (s'.block p).type = .lir ∧
      (lirsGet s' (s.block p).key).2 = (lirsGet s (s.block p).key).2 := by
  have hready : LirsReady s := by
    rw [hs]
    exact (lirsCreate_ready hc callback).after hfresh
  have hlir : LirAt s p (s.block p).key (s.block p).value :=
    ⟨((hready.inv.shape.bucket i p).mp hp).1, ht, rfl, rfl⟩
  obtain ⟨hready', hlir'⟩ : LirsReady s' ∧ LirAt s' p (s.block p).key (s.block p).value := by
    rw [hs']
    exact hlir.scans hready hfresh' hscan
  refine ⟨hlir'.key, (hready'.inv.shape.bucket _ p).mpr ⟨hlir'.live, ?_⟩, hlir'.lir, ?_⟩
  · rw [hlir'.key]
  · rw [hlir'.get hready', hlir.get hready]

/-- A LIR block outlasts the keys of a scan. -/
theorem scan_keeps_lir_run :
    let s := Runs.after LirsCache.step
      (lirsSetEvictCallback ((lirsCreate 3 1000 true true).get rfl) false)
      [.put 16 1 1 (some 100)]
    let s' := Runs.after LirsCache.step s [.put 32 2 1 (some 200), .get 48]
    (s'.block 100).key = (s.block 100).key ∧ 100 ∈ s'.hashTable (s'.bucket (s.block 100).key) ∧
      (s'.block 100).type = .lir ∧
      (lirsGet s' (s.block 100).key).2 = (lirsGet s (s.block 100).key).2 := by
  refine scan_keeps_lir (i := lirsHashIndex 16 7) (Option.some_get _).symm false ?_ rfl ?_ ?_ rfl
    ?_ ?_
  · refine ⟨fun p hp => ?_, trivial⟩
    cases hp
    decide
  · refine ⟨fun p hp => ?_, trivial, trivial⟩
    cases hp
    decide +kernel
  · refine ⟨?_, ?_, trivial⟩
    · show lirsFindBlock _ _ = none
      decide +kernel
    · show lirsFindBlock _ _ = none
      decide +kernel
  · decide +kernel
  · decide +kernel

end Nomalloc
