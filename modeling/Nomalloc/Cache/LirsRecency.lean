import Nomalloc.Cache.LirsMachine
import Nomalloc.Lib.Recency

/-!
# The stack S is in the order of the last access

An access is a `lirs_get` of a resident key or a `lirs_put` that takes a new key in.

* `LirsCache.accesses`      the keys accessed in a run, the last one first;
* `LirsMachine.stacked_step`   what one operation of the machine keeps of S;
* `lirs_stack_recency`      S holds, in the order of their last access, the keys of the table accessed
                            since its bottom was: none of them is missing;
* `lirs_get_promotes`       a hit makes a resident HIR key LIR exactly when it has been accessed after
                            the bottom of S.
-/

namespace Nomalloc

namespace LirsMachine
variable {a : LirsMachine} {k : ℕ} {hist : List ℕ} {op : LirsOp}

/-- The keys in the table. -/
def known (a : LirsMachine) (k : ℕ) : Bool := (a.entry k).isSome

/-- The key that an operation accesses. -/
def accessed (a : LirsMachine) : LirsOp → Option ℕ
  | .get k => if k ≠ 0 ∧ (a.has k .lir ∨ a.has k .hirResident) then some k else none
  | .put k value size mem =>
    if a.entry k = none ∧ (a.put k value size mem.isSome).2 = 0 then some k else none
  | .remove _ => none

theorem known_of_has {t : LirsBlockType} (h : a.has k t = true) : a.known k = true := by
  unfold has at h
  unfold known
  cases he : a.entry k with
  | none =>
    rw [he] at h
    cases h
  | some e => rfl

theorem known_setType (j : ℕ) (t : LirsBlockType) : (a.setType j t).known k = a.known k := by
  unfold known setType
  dsimp only
  by_cases hk : k = j
  · rw [hk, Function.update_self, Option.isSome_map]
  · rw [Function.update_of_ne hk]

theorem known_forget (j : ℕ) : (a.forget k).known j = (a.known j && j != k) := by
  unfold known forget
  dsimp only
  by_cases hj : j = k
  · simp [hj]
  · rw [Function.update_of_ne hj]
    simp [hj]

/-! ## What the parts of an operation keep -/

theorem stacked_prune (h : Stacked a.known hist a.s) : Stacked a.prune.known hist a.prune.s := by
  have hsplit : (a.s.rdropWhile fun k => !a.has k .lir) ++ (a.s.rtakeWhile fun k => !a.has k .lir) =
      a.s := List.rdropWhile_append_rtakeWhile
  refine h.shrink (List.rdropWhile_prefix _ _) (fun k hk => ?_) fun k hk => ?_
  · unfold known prune at hk
    dsimp only at hk
    split at hk
    · cases hk
    · exact hk
  · have hnodup := h.nodup
    rw [← hsplit] at hnodup
    have hkept : k ∉ a.s.rtakeWhile fun k => !a.has k .lir := fun hin =>
      (List.nodup_append.mp hnodup).2.2 k hk k hin rfl
    have hmem : k ∈ a.s := (List.rdropWhile_prefix _ _).subset hk
    unfold known prune
    dsimp only
    rw [if_neg fun hc => hkept hc.1]
    exact h.known_of_mem hmem

theorem stacked_evict (h : Stacked a.known hist a.s) : Stacked a.evict.known hist a.evict.s := by
  refine h.shrink (List.prefix_refl _) (fun k hk => ?_) fun k hk => ?_
  · unfold known evict at hk
    dsimp only at hk
    split at hk
    · split at hk
      · rwa [Option.isSome_map] at hk
      · cases hk
    · exact hk
  · have hs : k ∈ a.s := hk
    have hknown := h.known_of_mem hs
    unfold known evict
    dsimp only
    rw [if_pos hs]
    split
    · rwa [Option.isSome_map]
    · exact hknown

theorem stacked_setType (h : Stacked a.known hist a.s) (j : ℕ) (t : LirsBlockType) :
    Stacked (a.setType j t).known hist a.s := h.congr fun _ => known_setType j t

/-- Only the bottom of S is ever demoted. -/
theorem stacked_demoteBottom (h : Stacked a.known hist a.s) :
    Stacked a.demoteBottom.known hist a.demoteBottom.s := by
  unfold demoteBottom
  rcases List.eq_nil_or_concat' a.s with hs | ⟨as, b, hs⟩
  · rw [hs, List.getLast?_nil]
    exact h
  · rw [hs, List.getLast?_concat]
    dsimp only
    split
    · have hb : b ∉ as := fun hin =>
        (List.nodup_append.mp (hs ▸ h.nodup)).2.2 b hin b (List.mem_singleton_self b) rfl
      have herase : a.s.erase b = as := by
        rw [hs, List.erase_append_right _ hb, List.erase_cons_head, List.append_nil]
      refine h.shrink ?_ (fun k hk => ?_) fun k hk => ?_
      · show a.s.erase b <+: a.s
        rw [herase, hs]
        exact List.prefix_append ..
      · rwa [← known_setType b .hirResident]
      · have hk' : k ∈ a.s := List.mem_of_mem_erase hk
        show (a.setType b .hirResident).known k = true
        rw [known_setType]
        exact h.known_of_mem hk'
    · exact h

theorem stacked_promote (h : Stacked a.known hist a.s) (k : ℕ) :
    Stacked (a.promote k).known hist (a.promote k).s := by
  have hset : Stacked { a.setType k .lir with q := a.q.erase k }.known hist a.s :=
    stacked_setType h k .lir
  exact stacked_prune (stacked_demoteBottom (a := { a.setType k .lir with q := a.q.erase k }) hset)

theorem has_setType (j : ℕ) (t t' : LirsBlockType) :
    (a.setType j t).has k t' = if k = j then a.known j && decide (t = t') else a.has k t' := by
  unfold has setType known
  dsimp only
  split
  · next hk =>
    subst hk
    rw [Function.update_self]
    cases a.entry k with
    | none => rfl
    | some e => rfl
  · next hk => rw [Function.update_of_ne hk]

/-- A key stays known when the end of S is cut, unless it is a ghost. -/
theorem has_prune {t : LirsBlockType} (hghost : a.has k .hirNonResident = false) :
    a.prune.has k t = a.has k t := by
  unfold has prune
  dsimp only
  rw [if_neg fun hc => by
    rw [show a.has k .hirNonResident = false from hghost] at hc
    cases hc.2]

theorem has_demoteBottom (k : ℕ) (t : LirsBlockType) :
    a.demoteBottom.has k t =
      if a.s.getLast? = some k ∧ a.has k .lir = true then decide (LirsBlockType.hirResident = t)
      else a.has k t := by
  unfold demoteBottom
  cases a.s.getLast? with
  | none => exact (if_neg fun hc => by cases hc.1).symm
  | some b =>
    dsimp only
    by_cases hlir : a.has b .lir = true
    · rw [if_pos hlir]
      show (a.setType b .hirResident).has k t = _
      rw [has_setType]
      by_cases hk : k = b
      · subst hk
        rw [if_pos rfl, if_pos ⟨rfl, hlir⟩, known_of_has hlir, Bool.true_and]
      · rw [if_neg hk, if_neg fun hc => hk (Option.some.inj hc.1).symm]
    · rw [if_neg hlir, if_neg fun hc => hlir (by rw [Option.some.inj hc.1]; exact hc.2)]

/-- What a key is that is being promoted: LIR, but at the bottom of S resident HIR. -/
theorem has_promote (hk : a.known k = true) (t : LirsBlockType) :
    (a.promote k).has k t =
      decide ((if a.s.getLast? = some k then LirsBlockType.hirResident else .lir) = t) := by
  have hset : ∀ t, (a.setType k .lir).has k t = decide (LirsBlockType.lir = t) := fun t => by
    rw [has_setType, if_pos rfl, hk, Bool.true_and]
  have hbottom : ∀ t, { a.setType k .lir with q := a.q.erase k }.demoteBottom.has k t =
      decide ((if a.s.getLast? = some k then LirsBlockType.hirResident else .lir) = t) := by
    intro t
    have hlir : { a.setType k .lir with q := a.q.erase k }.has k .lir = true := hset .lir
    rw [has_demoteBottom, hlir]
    show (if a.s.getLast? = some k ∧ true = true then _ else (a.setType k .lir).has k t) = _
    by_cases hl : a.s.getLast? = some k
    · rw [if_pos ⟨hl, rfl⟩, if_pos hl]
    · rw [if_neg fun hc => hl hc.1, if_neg hl, hset]
  have hghost : { a.setType k .lir with q := a.q.erase k }.demoteBottom.has k .hirNonResident =
      false := by
    rw [hbottom, decide_eq_false_iff_not]
    split <;> exact fun he => by cases he
  unfold promote
  rw [has_prune hghost, hbottom]

theorem known_promote (hk : a.known k = true) : (a.promote k).known k = true := by
  have hhas := has_promote hk (if a.s.getLast? = some k then LirsBlockType.hirResident else .lir)
  rw [decide_eq_true rfl] at hhas
  exact known_of_has hhas

/-! ## One operation -/

theorem stacked_erase (h : Stacked a.known hist a.s) (k : ℕ) :
    Stacked (a.forget k).known hist (a.s.erase k) := h.erase fun j => known_forget j

theorem stacked_get (h : Stacked a.known hist a.s) (k : ℕ) :
    Stacked (a.get k).1.known ((a.accessed (.get k)).toList ++ hist) (a.get k).1.s := by
  by_cases hk : k = 0
  · have haccess : a.accessed (.get k) = none := if_neg fun hc => hc.1 hk
    have hget : a.get k = (a, 0) := if_pos hk
    rw [haccess, hget]
    exact h
  cases he : a.entry k with
  | none =>
    have hhas : ∀ t, a.has k t ≠ true := fun t hc => by
      unfold has at hc
      rw [he] at hc
      cases hc
    have haccess : a.accessed (.get k) = none := if_neg fun hc => hc.2.elim (hhas _) (hhas _)
    have hget : a.get k = (a, 0) := by
      unfold get
      rw [if_neg hk, he]
    rw [haccess, hget]
    exact h
  | some e =>
    have hknown : a.known k = true := by
      unfold known
      rw [he]
      rfl
    have hhas : ∀ t, a.has k t = decide (e.type = t) := fun t => by
      unfold has
      rw [he]
      rfl
    unfold get
    rw [if_neg hk, he]
    dsimp only
    cases ht : e.type with
    | lir =>
      have haccess : a.accessed (.get k) = some k := if_pos ⟨hk, .inl (by rw [hhas, ht]; rfl)⟩
      rw [haccess]
      exact stacked_prune (a := a.toTop k) (h.touch hknown)
    | hirResident =>
      have haccess : a.accessed (.get k) = some k := if_pos ⟨hk, .inr (by rw [hhas, ht]; rfl)⟩
      rw [haccess]
      have hmiddle : Stacked (if k ∈ a.s then a.promote k else a).known hist
          (if k ∈ a.s then a.promote k else a).s ∧
          (if k ∈ a.s then a.promote k else a).known k = true := by
        split
        · exact ⟨stacked_promote h k, known_promote hknown⟩
        · exact ⟨h, hknown⟩
      exact hmiddle.1.touch hmiddle.2
    | hirNonResident =>
      have haccess : a.accessed (.get k) = none := if_neg fun hc => by
        rw [hhas, hhas, ht] at hc
        rcases hc.2 with hc | hc <;> cases hc
      rw [haccess]
      exact stacked_prune (a := { a with s := a.s.erase k }.forget k) (stacked_erase h k)

theorem stacked_insert (h : Stacked a.known hist a.s) {k : ℕ} (hk : a.entry k = none)
    (value size : ℕ) :
    Stacked (a.insert k value size).known (k :: hist) (a.insert k value size).s := by
  refine h.add ?_ fun j => ?_
  · unfold known
    rw [hk]
    rfl
  · unfold known insert
    dsimp only
    by_cases hj : j = k
    · rw [hj, Function.update_self]
      simp
    · rw [Function.update_of_ne hj]
      simp [hj]

theorem stacked_put (h : Stacked a.known hist a.s) (k value size : ℕ) (mem : Option ℕ) :
    Stacked (a.put k value size mem.isSome).1.known
      ((a.accessed (.put k value size mem)).toList ++ hist) (a.put k value size mem.isSome).1.s := by
  have haccess : a.accessed (.put k value size mem) =
      if a.entry k = none ∧ (a.put k value size mem.isSome).2 = 0 then some k else none := rfl
  rw [haccess]
  unfold put
  by_cases hk : k = 0
  · rw [if_pos hk, if_neg fun hc => by cases hc.2]
    exact h
  rw [if_neg hk]
  cases he : a.entry k with
  | some e =>
    simp only [reduceCtorEq, false_and, if_false]
    split
    · refine h.congr fun j => ?_
      unfold known
      dsimp only
      by_cases hj : j = k
      · rw [hj, Function.update_self, he]
        rfl
      · rw [Function.update_of_ne hj]
    · exact h
  | none =>
    dsimp only
    by_cases hfull : a.full size = true
    · rw [if_pos hfull, if_neg fun hc => by cases hc.2]
      exact stacked_prune h
    rw [if_neg hfull]
    by_cases hmem : (!mem.isSome) = true
    · rw [if_pos hmem, if_neg fun hc => by cases hc.2]
      exact h
    · rw [if_neg hmem, if_pos ⟨rfl, rfl⟩]
      exact stacked_evict (stacked_prune (stacked_insert h he value size))

theorem stacked_remove (h : Stacked a.known hist a.s) (k : ℕ) :
    Stacked (a.remove k).1.known hist (a.remove k).1.s := by
  unfold remove
  split
  · exact h
  · cases he : a.entry k with
    | none => exact h
    | some e =>
      dsimp only
      exact stacked_prune (a := { a with
        s := a.s.erase k, q := a.q.erase k, total := subW a.total e.size }.forget k) (stacked_erase h k)

theorem stacked_step (h : Stacked a.known hist a.s) (op : LirsOp) :
    Stacked (a.step op).known ((a.accessed op).toList ++ hist) (a.step op).s := by
  cases op with
  | get k => exact stacked_get h k
  | put k value size mem => exact stacked_put h k value size mem
  | remove k => exact stacked_remove h k

/-- A hit of a resident HIR key: on S it is promoted, elsewhere it is not. -/
theorem has_lir_get (hk : k ≠ 0) (hhir : a.has k .hirResident = true) :
    (a.get k).1.has k .lir = true ↔ k ∈ a.s ∧ a.s.getLast? ≠ some k := by
  obtain ⟨e, he, ht⟩ : ∃ e, a.entry k = some e ∧ e.type = .hirResident := by
    unfold has at hhir
    cases he : a.entry k with
    | none =>
      rw [he] at hhir
      cases hhir
    | some e =>
      rw [he] at hhir
      exact ⟨e, rfl, of_decide_eq_true hhir⟩
  unfold get
  rw [if_neg hk, he]
  dsimp only
  rw [ht]
  show (if k ∈ a.s then a.promote k else a).has k .lir = true ↔ _
  split
  · next hs =>
    rw [has_promote (known_of_has hhir), decide_eq_true_eq]
    by_cases hl : a.s.getLast? = some k
    · rw [if_pos hl]
      exact iff_of_false (fun hc => by cases hc) fun hc => hc.2 hl
    · rw [if_neg hl]
      exact iff_of_true rfl ⟨hs, hl⟩
  · next hs =>
    refine iff_of_false (fun hc => ?_) fun hc => hs hc.1
    unfold has at hc
    rw [he] at hc
    have hlir : e.type = .lir := of_decide_eq_true hc
    rw [ht] at hlir
    cases hlir

end LirsMachine

/-! ## Runs of the cache -/

namespace LirsCache

/-- The key that an operation accesses. -/
def accessed (c : LirsCache) : LirsOp → Option ℕ
  | .get key =>
    if key = 0 then none
    else (lirsFindBlock c key).bind fun p =>
      if (c.block p).type = .hirNonResident then none else some key
  | .put key value size mem =>
    if lirsFindBlock c key = none ∧ (lirsPut c key value size mem).2 = 0 then some key else none
  | .remove _ => none

/-- The keys that a run accesses, the last one first. -/
def accesses : LirsCache → List LirsOp → List ℕ
  | _, [] => []
  | c, op :: ops => (c.step op).accesses ops ++ (c.accessed op).toList

end LirsCache

section
variable {c : LirsCache}

theorem machine_known (c : LirsCache) (k : ℕ) :
    c.machine.known k = (lirsFindBlock c k).isSome := Option.isSome_map

theorem machine_has (c : LirsCache) (k : ℕ) (t : LirsBlockType) :
    c.machine.has k t = true ↔ (lirsFindBlock c k).map (fun p => (c.block p).type) = some t := by
  show ((lirsFindBlock c k).map fun p => (c.block p).known).any _ = true ↔ _
  cases lirsFindBlock c k with
  | none => simp
  | some p =>
    rw [Option.map_some, Option.any_some, decide_eq_true_eq, Option.map_some, Option.some.injEq]
    rfl

theorem LirsInv.accessed_machine (h : LirsInv c) (hle : c.qQueue.length ≤ c.hirCapacity) (op : LirsOp)
    (hfresh : op.FreshMemory c) : c.accessed op = c.machine.accessed op := by
  cases op with
  | get key =>
    show (if key = 0 then none else _) = if _ then _ else _
    simp only [machine_has]
    by_cases hkey : key = 0
    · rw [if_pos hkey, if_neg fun hc => hc.1 hkey]
    · rw [if_neg hkey]
      cases lirsFindBlock c key with
      | none => exact (if_neg (by simp)).symm
      | some p =>
        rw [Option.bind_some, Option.map_some]
        cases ht : (c.block p).type <;> simp [hkey]
  | put key value size mem =>
    have hreply := (h.machine_put hle key value size hfresh).2
    have hentry : c.machine.entry key = none ↔ lirsFindBlock c key = none := Option.map_eq_none_iff
    show (if _ then _ else _) = if _ then _ else _
    rw [hreply]
    exact if_congr (and_congr_left' hentry.symm) rfl rfl
  | remove key => rfl

theorem LirsInv.stacked_run (h : LirsInv c) (hle : c.qQueue.length ≤ c.hirCapacity) (ops : List LirsOp)
    (hfresh : Runs.Each LirsCache.step LirsOp.FreshMemory c ops) {hist : List ℕ}
    (hs : Stacked c.machine.known hist c.machine.s) :
    Stacked (Runs.after LirsCache.step c ops).machine.known (c.accesses ops ++ hist)
      (Runs.after LirsCache.step c ops).machine.s := by
  induction ops generalizing c hist with
  | nil => exact hs
  | cons op ops ih =>
    obtain ⟨hop, hops⟩ := hfresh
    obtain ⟨hinv, hle'⟩ := lirs_inv_step c op ⟨h, hle⟩ hop
    have hstep := LirsMachine.stacked_step hs op
    rw [← (h.machine_step hle op hop).1, ← h.accessed_machine hle op hop] at hstep
    have hrun := ih hinv hle' hops hstep
    rw [← List.append_assoc] at hrun
    exact hrun

/-- In every state that a run reaches S is stacked over the accesses of the run. -/
theorem stacked_reachable {capacity maxSize : ℕ} {cacheOk tableOk : Bool}
    (hc : lirsCreate capacity maxSize cacheOk tableOk = some c) {ops : List LirsOp}
    (hfresh : Runs.Each LirsCache.step LirsOp.FreshMemory c ops) :
    Stacked (Runs.after LirsCache.step c ops).machine.known (c.accesses ops)
      (Runs.after LirsCache.step c ops).machine.s := by
  obtain ⟨hinv, hle, -⟩ := lirsCreate_inv hc
  have hstart : Stacked c.machine.known [] c.machine.s := by
    rw [machine_create hc]
    exact ⟨List.nil_prefix, fun k hk => by cases hk⟩
  have hrun := hinv.stacked_run hle ops hfresh hstart
  rwa [List.append_nil] at hrun

/-- **The stack S**: from its top it lists the keys of the table in the order of their last access, and
no key of the table off S was accessed after one on S. -/
theorem lirs_stack_recency {capacity maxSize : ℕ} {cacheOk tableOk : Bool}
    (hc : lirsCreate capacity maxSize cacheOk tableOk = some c) (ops : List LirsOp)
    (hfresh : Runs.Each LirsCache.step LirsOp.FreshMemory c ops) :
    (Runs.after LirsCache.step c ops).keys (Runs.after LirsCache.step c ops).sStack <+:
      (recent (c.accesses ops)).filter fun k =>
        (lirsFindBlock (Runs.after LirsCache.step c ops) k).isSome := by
  have hstacked := (stacked_reachable hc hfresh).isPrefix
  rwa [show (Runs.after LirsCache.step c ops).machine.known = _ from
    funext (machine_known _)] at hstacked

/-- A LIR key, a key that is hit while it is off S, and a ghost that is missed. -/
theorem lirs_stack_recency_small :
    (Runs.after LirsCache.step ((lirsCreate 3 1000 true true).get rfl)
        [.put 16 1 10 (some 100), .put 32 2 10 (some 200), .get 16, .remove 32]).keys
        (Runs.after LirsCache.step ((lirsCreate 3 1000 true true).get rfl)
          [.put 16 1 10 (some 100), .put 32 2 10 (some 200), .get 16, .remove 32]).sStack <+:
      (recent (((lirsCreate 3 1000 true true).get rfl).accesses
        [.put 16 1 10 (some 100), .put 32 2 10 (some 200), .get 16, .remove 32])).filter fun k =>
        (lirsFindBlock (Runs.after LirsCache.step ((lirsCreate 3 1000 true true).get rfl)
          [.put 16 1 10 (some 100), .put 32 2 10 (some 200), .get 16, .remove 32]) k).isSome := by
  refine lirs_stack_recency (Option.some_get _).symm _ ⟨?_, ?_, trivial, trivial, trivial⟩
  · intro p hp
    cases hp
    decide
  · intro p hp
    cases hp
    decide

/-- **Promotion**: a hit makes a resident HIR key LIR exactly when the key has been accessed after the
key at the bottom of S. -/
theorem lirs_get_promotes {capacity maxSize : ℕ} {cacheOk tableOk : Bool}
    (hc : lirsCreate capacity maxSize cacheOk tableOk = some c) (ops : List LirsOp)
    (hfresh : Runs.Each LirsCache.step LirsOp.FreshMemory c ops) {key : ℕ} (hkey : key ≠ 0)
    (hhir : (lirsFindBlock (Runs.after LirsCache.step c ops) key).map
      (fun p => ((Runs.after LirsCache.step c ops).block p).type) = some .hirResident) :
    (lirsFindBlock (lirsGet (Runs.after LirsCache.step c ops) key).1 key).map
        (fun p => ((lirsGet (Runs.after LirsCache.step c ops) key).1.block p).type) = some .lir ↔
      ∃ b, (Runs.after LirsCache.step c ops).sStack.getLast? = some b ∧
        [key, ((Runs.after LirsCache.step c ops).block b).key].Sublist (recent (c.accesses ops)) := by
  obtain ⟨hinv, hle, -⟩ := lirsCreate_inv hc
  have hready := Runs.inv_after lirs_inv_step ⟨hinv, hle⟩ hfresh
  have hstacked := stacked_reachable hc hfresh
  generalize Runs.after LirsCache.step c ops = c' at hhir hready hstacked ⊢
  have hhas := (machine_has c' key .hirResident).mpr hhir
  rw [← machine_has, (hready.1.machine_get hready.2 key).1, LirsMachine.has_lir_get hkey hhas,
    hstacked.over_last_iff (LirsMachine.known_of_has hhas)]
  show (∃ b, (c'.keys c'.sStack).getLast? = some b ∧ _) ↔ _
  rw [keys_getLast?]
  constructor
  · rintro ⟨k, hk, hsub⟩
    obtain ⟨b, hb, rfl⟩ := Option.map_eq_some_iff.mp hk
    exact ⟨b, hb, hsub⟩
  · rintro ⟨b, hb, hsub⟩
    exact ⟨_, by rw [hb]; rfl, hsub⟩

/-- A key that came in after the LIR key at the bottom. -/
theorem lirs_get_promotes_newer :
    (lirsFindBlock (lirsGet (Runs.after LirsCache.step ((lirsCreate 3 1000 true true).get rfl)
          [.put 16 1 10 (some 100), .put 32 2 10 (some 200)]) 32).1 32).map
        (fun p => ((lirsGet (Runs.after LirsCache.step ((lirsCreate 3 1000 true true).get rfl)
          [.put 16 1 10 (some 100), .put 32 2 10 (some 200)]) 32).1.block p).type) = some .lir ↔
      ∃ b, (Runs.after LirsCache.step ((lirsCreate 3 1000 true true).get rfl)
          [.put 16 1 10 (some 100), .put 32 2 10 (some 200)]).sStack.getLast? = some b ∧
        [32, ((Runs.after LirsCache.step ((lirsCreate 3 1000 true true).get rfl)
          [.put 16 1 10 (some 100), .put 32 2 10 (some 200)]).block b).key].Sublist
          (recent (((lirsCreate 3 1000 true true).get rfl).accesses
            [.put 16 1 10 (some 100), .put 32 2 10 (some 200)])) := by
  have hc : lirsCreate 3 1000 true true = some ((lirsCreate 3 1000 true true).get rfl) :=
    (Option.some_get _).symm
  refine lirs_get_promotes hc _ ?_ (by decide) (by decide)
  refine ⟨?_, ?_, trivial⟩
  · intro p hp
    cases hp
    decide
  · intro p hp
    cases hp
    decide

end

end Nomalloc
