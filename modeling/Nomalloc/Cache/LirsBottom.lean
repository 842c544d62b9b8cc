import Nomalloc.Cache.LirsContents
import Mathlib.Data.List.DropRight

/-!
# The bottom of the stack S

LIRS keeps a LIR block at the bottom of S, to have one to demote.  `lirs_prune_s_stack` leaves S so,
and `lirs_get` of a HIR resident block takes that block from the pruned stack to the top: where it
was the last one left, what was above it comes to lie at the bottom.

* `LirsInv.prune_sStack`   pruning drops the blocks below the lowest LIR block of S;
* `LirsInv.getInner`       S after a `lirs_get` of a HIR resident block with others below it;
* `lir_at_bottom_iff`      the runs in which the bottom of S is LIR while there are LIR blocks.
-/

namespace Nomalloc

/-! ## the end of a list -/

section
variable {P : ℕ → Bool} {p q : ℕ} {l as bs : List ℕ}

theorem rdropWhile_append_cons (hp : ¬ P p) :
    (as ++ p :: bs).rdropWhile P = as ++ p :: bs.rdropWhile P := by
  induction bs using List.reverseRecOn with
  | nil =>
    rw [List.rdropWhile_nil]
    exact List.rdropWhile_concat_neg _ _ _ hp
  | append_singleton bs q ih =>
    rw [← List.cons_append, ← List.append_assoc, List.rdropWhile_concat, List.rdropWhile_concat]
    split_ifs
    · exact ih
    · rw [List.append_assoc, List.cons_append]

theorem rdropWhile_congr {Q : ℕ → Bool} (h : ∀ x ∈ l, P x = Q x) :
    l.rdropWhile P = l.rdropWhile Q := by
  induction l using List.reverseRecOn with
  | nil => rw [List.rdropWhile_nil, List.rdropWhile_nil]
  | append_singleton l x ih =>
    have hx := h x (List.mem_append_right _ (List.mem_singleton_self x))
    rw [List.rdropWhile_concat, List.rdropWhile_concat, hx,
      ih fun y hy => h y (List.mem_append_left _ hy)]

/-- A list that has no element twice, without its last. -/
theorem erase_getLast (hnd : l.Nodup) (hq : l.getLast? = some q) : l.erase q = l.dropLast := by
  obtain ⟨init, rfl⟩ := List.getLast?_eq_some_iff.mp hq
  have hnot : q ∉ init := fun hin =>
    (List.nodup_append.mp hnd).2.2 q hin q (List.mem_singleton_self q) rfl
  rw [List.erase_append_right _ hnot, List.erase_cons_head, List.append_nil,
    List.dropLast_concat]

end

/-! ## what the loops do to S -/

section
variable {c : LirsCache} {p q : ℕ}

theorem types_pruneBottom (c : LirsCache) (p : ℕ) : (lirsPruneBottom c p).types = c.types := by
  unfold lirsPruneBottom
  extract_lets c1
  split_ifs
  · exact types_delS c p
  · exact types_delS c p

theorem types_prune (c : LirsCache) : (lirsPruneSStack c).types = c.types := by
  unfold lirsPruneSStack
  generalize c.sStack.length = n
  induction n generalizing c with
  | zero => rfl
  | succ n ih =>
    unfold lirsPruneLoop
    cases c.sStack.getLast? with
    | none => rfl
    | some p =>
      dsimp only
      split_ifs
      · rfl
      · rw [ih, types_pruneBottom]

theorem LirsInv.prune_sStack (h : LirsInv c) :
    (lirsPruneSStack c).sStack = c.sStack.rdropWhile fun q => c.types q ≠ .lir := by
  unfold lirsPruneSStack
  generalize hn : c.sStack.length = n
  induction n generalizing c with
  | zero =>
    rw [List.length_eq_zero_iff.mp hn, List.rdropWhile_nil]
    exact List.length_eq_zero_iff.mp hn
  | succ n ih =>
    unfold lirsPruneLoop
    cases hl : c.sStack.getLast? with
    | none =>
      rw [List.getLast?_eq_none_iff.mp hl] at hn
      exact absurd hn (by simp)
    | some p =>
      have hp := List.mem_of_getLast? hl
      have hflag := ((h.shape.sFlag p).mp hp).2
      have herase := erase_getLast h.shape.sNodup hl
      obtain ⟨init, hinit⟩ := List.getLast?_eq_some_iff.mp hl
      rw [hinit, List.dropLast_concat] at herase
      by_cases ht : (c.block p).type = .lir
      · simp only [ht, hflag, and_self, if_true]
        rw [hinit, List.rdropWhile_concat_neg]
        rw [decide_eq_true_iff]
        exact not_not.mpr ht
      · simp only [ht, false_and, if_false]
        obtain ⟨hinv, -, hs⟩ := h.pruneBottom hl ht
        rw [hinit, herase] at hs
        have hlen : (lirsPruneBottom c p).sStack.length = n := by
          rw [hs]
          rw [hinit, List.length_append, List.length_singleton] at hn
          omega
        rw [ih hinv hlen, hs, types_pruneBottom, hinit, List.rdropWhile_concat_pos]
        exact decide_eq_true ht

theorem sStack_evict (c : LirsCache) : (lirsEvictHir c).sStack = c.sStack := by
  unfold lirsEvictHir
  generalize c.qQueue.length = n
  induction n generalizing c with
  | zero => rfl
  | succ n ih =>
    unfold lirsEvictLoop
    cases c.qQueue.head? with
    | none => rfl
    | some p =>
      dsimp only
      split_ifs
      · rw [ih]
        unfold lirsEvictHead
        extract_lets c1 stats c2
        split_ifs <;> rfl
      · rfl

/-- A LIR block at the bottom of S becomes HIR resident and leaves S. -/
theorem LirsInv.demoteBottom_lir (h : LirsInv c) (hl : c.sStack.getLast? = some q)
    (ht : (c.block q).type = .lir) :
    (lirsDemoteBottom c).sStack = c.sStack.dropLast ∧
      (lirsDemoteBottom c).types = Function.update c.types q .hirResident := by
  obtain ⟨-, -, -, hs, -, -, htypes⟩ := h.demoteLir (List.mem_of_getLast? hl) ht
  unfold lirsDemoteBottom
  rw [hl]
  dsimp only
  rw [if_pos ht]
  refine ⟨?_, ?_⟩
  · show (lirsDemoteLir c q).sStack.erase q = _
    rw [hs, erase_getLast h.shape.sNodup hl]
  · rw [types_delS, htypes]

theorem demoteBottom_other (hl : c.sStack.getLast? = some q) (ht : (c.block q).type ≠ .lir) :
    lirsDemoteBottom c = c := by
  unfold lirsDemoteBottom
  rw [hl]
  exact if_neg ht

/-! ## `lirs_get` of a HIR resident block on S -/

/-- Promotion prunes what the demotion leaves, and has nothing to evict. -/
theorem LirsInv.promote_eq (h : LirsInv c) (hle : c.qQueue.length ≤ c.hirCapacity)
    (hs : p ∈ c.sStack) (ht : (c.block p).type = .hirResident) :
    lirsPromoteHir c p = lirsPruneSStack (lirsDemoteBottom (lirsPromoteBlock c p)) := by
  have hq := (h.inQ_iff (h.shape.mem_heap_of_s hs)).mp ht
  obtain ⟨hA, hAcfg, hAq, -⟩ := h.promoteBlock hs ht
  obtain ⟨hB, hBcfg, -, hBq, -⟩ := hA.demoteBottom
  obtain ⟨hC, hCf⟩ := hB.prune
  have hpos := List.length_pos_of_mem hq
  have hcfg := (hAcfg.trans hBcfg).trans hCf.config
  have hlen : (lirsPruneSStack (lirsDemoteBottom (lirsPromoteBlock c p))).qQueue.length ≤
      (lirsPruneSStack (lirsDemoteBottom (lirsPromoteBlock c p))).hirCapacity := by
    rw [hCf.qQueue, hcfg.hirCapacity]
    rw [hAq, List.length_erase_of_mem hq] at hBq
    omega
  exact hC.evict_self hlen

/-- `p` on the top of S. -/
def topped (c : LirsCache) (p : ℕ) : LirsCache :=
  if (c.block p).inSStack then c.moveS p else c.addS p

theorem LirsInv.topped_fields (h : LirsInv c) (p : ℕ) :
    (topped c p).sStack = p :: c.sStack.erase p ∧ (topped c p).types = c.types ∧
      (topped c p).qQueue = c.qQueue ∧ (topped c p).hirCapacity = c.hirCapacity ∧
      (topped c p).heap = c.heap ∧ (topped c p).stats = c.stats := by
  unfold topped
  by_cases hf : (c.block p).inSStack = true
  · rw [if_pos hf]
    exact ⟨rfl, rfl, rfl, rfl, rfl, rfl⟩
  · have hnot : p ∉ c.sStack := fun hin => hf ((h.shape.sFlag p).mp hin).2
    rw [if_neg hf, List.erase_of_not_mem hnot]
    exact ⟨rfl, types_addS c p, rfl, rfl, rfl, rfl⟩

/-- `lirs_get` of a HIR resident block on S puts it on the top of what its promotion leaves. -/
theorem LirsInv.getStacked_eq (h : LirsInv c) (hle : c.qQueue.length ≤ c.hirCapacity)
    (hs : p ∈ c.sStack) (ht : (c.block p).type = .hirResident) {d : LirsCache}
    (hd : d = lirsPruneSStack (lirsDemoteBottom (lirsPromoteBlock
      { c with stats := { c.stats with hits := c.stats.hits + 1 } } p))) :
    LirsInv d ∧ p ∈ d.heap ∧ lirsGetHirResident c p = topped d p := by
  unfold lirsGetHirResident
  extract_lets stats c1 c2 c3
  have h1 : LirsInv c1 := h.withStats rfl rfl
  have hs1 : p ∈ c1.sStack := hs
  have hc2 : c2 = lirsPromoteHir c1 p := if_pos ((h1.shape.sFlag p).mp hs1).2
  obtain ⟨hk, hmem, -⟩ := h1.promote hle hs1 ht
  have heq := h1.promote_eq hle hs1 ht
  rw [show lirsPruneSStack (lirsDemoteBottom (lirsPromoteBlock c1 p)) = d from hd.symm] at heq
  rw [← hc2] at hk hmem heq
  obtain ⟨-, -, hq3, hcap3, hheap3, -⟩ := hk.inv.topped_fields p
  have h3 : LirsInv c3 := hk.inv.toTop hmem
  have hle3 : c3.qQueue.length ≤ c3.hirCapacity := by
    rw [show c3.qQueue = c2.qQueue from hq3, show c3.hirCapacity = c2.hirCapacity from hcap3,
      hk.config.hirCapacity]
    exact hk.queue
  have hp3 : p ∈ c3.heap := by
    rw [show c3.heap = c2.heap from hheap3]
    exact hmem
  rw [if_neg (h3.not_unqueued hp3), h3.evict_self hle3, ← heq]
  exact ⟨hk.inv, hmem, rfl⟩

theorem LirsInv.getStacked (h : LirsInv c) (hle : c.qQueue.length ≤ c.hirCapacity)
    (hs : p ∈ c.sStack) (ht : (c.block p).type = .hirResident) {d : LirsCache}
    (hd : d = lirsDemoteBottom (lirsPromoteBlock
      { c with stats := { c.stats with hits := c.stats.hits + 1 } } p)) :
    (lirsGetHirResident c p).sStack =
        p :: (d.sStack.rdropWhile fun q => d.types q ≠ .lir).erase p ∧
      (lirsGetHirResident c p).types = d.types ∧
      (lirsGetHirResident c p).qQueue = d.qQueue := by
  have h1 : LirsInv { c with stats := { c.stats with hits := c.stats.hits + 1 } } :=
    h.withStats rfl rfl
  obtain ⟨hinv, hp, heq⟩ := h.getStacked_eq hle hs ht rfl
  obtain ⟨hstack, htypes, hqueue, -⟩ := hinv.topped_fields p
  have hB : LirsInv d := by
    rw [hd]
    exact (h1.promoteBlock hs ht).1.demoteBottom.1
  rw [← hd] at hstack htypes hqueue heq
  rw [heq, hstack, htypes, hqueue, hB.prune_sStack, types_prune, hB.prune.2.qQueue]
  exact ⟨rfl, rfl, rfl⟩

/-- At the bottom already, the block is promoted and demoted at once. -/
theorem LirsInv.getBottom (h : LirsInv c) (hle : c.qQueue.length ≤ c.hirCapacity) {above : List ℕ}
    (hs : c.sStack = above ++ [p]) (ht : (c.block p).type = .hirResident) :
    (lirsGetHirResident c p).types = c.types := by
  have hp : p ∈ c.sStack := by
    rw [hs]
    exact List.mem_append_right _ (List.mem_singleton_self p)
  have h1 : LirsInv { c with stats := { c.stats with hits := c.stats.hits + 1 } } :=
    h.withStats rfl rfl
  obtain ⟨hA, -, -, hAs, -, -, hAtypes⟩ := h1.promoteBlock hp ht
  have hlast : (lirsPromoteBlock { c with stats := { c.stats with
      hits := c.stats.hits + 1 } } p).sStack.getLast? = some p := by
    rw [hAs]
    show c.sStack.getLast? = some p
    rw [hs, List.getLast?_concat]
  have htype : ((lirsPromoteBlock { c with stats := { c.stats with
      hits := c.stats.hits + 1 } } p).block p).type = .lir :=
    (congrFun hAtypes p).trans (Function.update_self ..)
  obtain ⟨-, htypes, -⟩ := h.getStacked hle hp ht rfl
  rw [htypes, (hA.demoteBottom_lir hlast htype).2, hAtypes, Function.update_idem]
  exact Function.update_eq_self_iff.mpr ht.symm

/-- The demotion of the bottom takes a LIR block away and leaves another; what is left of S keeps its
types. -/
theorem LirsInv.demoteBottom_rest (h : LirsInv c) {front init : List ℕ}
    (hs : c.sStack = front ++ (init ++ [q])) :
    ∃ rest : List ℕ, (lirsDemoteBottom c).sStack = front ++ rest ∧
      (∀ r ∈ front ++ rest, (lirsDemoteBottom c).types r = c.types r) ∧
      (∀ r ∈ rest, r ∈ init ++ [q]) ∧ ∀ r, c.types r = .lir → (r ∈ rest ↔ r ∈ init) := by
  rw [← List.append_assoc] at hs
  have hlast : c.sStack.getLast? = some q := by rw [hs, List.getLast?_concat]
  by_cases hlir : c.types q = .lir
  · obtain ⟨hds, hdtypes⟩ := h.demoteBottom_lir hlast hlir
    have hnd := h.shape.sNodup
    rw [hs] at hnd
    have hnot : q ∉ front ++ init := fun hin =>
      (List.nodup_append.mp hnd).2.2 q hin q (List.mem_singleton_self q) rfl
    refine ⟨init, ?_, ?_, fun r hr => List.mem_append_left _ hr, fun r _ => Iff.rfl⟩
    · rw [hds, hs, List.dropLast_concat]
    · intro r hr
      have hne : r ≠ q := fun he => hnot (he ▸ hr)
      rw [hdtypes, Function.update_of_ne hne]
  · rw [demoteBottom_other hlast hlir]
    refine ⟨init ++ [q], ?_, fun r _ => rfl, fun r hr => hr, fun r hr => ?_⟩
    · rw [hs, List.append_assoc]
    · rw [List.mem_append, List.mem_singleton, or_iff_left_iff_imp]
      rintro rfl
      exact absurd hr hlir

theorem prune_above_lir {d : LirsCache} {above rest : List ℕ} (hd : d.sStack = above ++ p :: rest)
    (hpa : p ∉ above) (hp : d.types p = .lir) (hrest : ∀ r ∈ rest, d.types r = c.types r) :
    p :: (d.sStack.rdropWhile fun r => d.types r ≠ .lir).erase p =
      p :: (above ++ rest.rdropWhile fun r => c.types r ≠ .lir) := by
  have hdrop : (rest.rdropWhile fun r => d.types r ≠ .lir) =
      rest.rdropWhile fun r => c.types r ≠ .lir :=
    rdropWhile_congr fun r hr => by rw [hrest r hr]
  rw [hd, rdropWhile_append_cons (by simp [hp]), List.erase_append_right _ hpa,
    List.erase_cons_head, hdrop]

/-- Above others, it is promoted, the bottom demoted if that is LIR, and what then lies below the
lowest LIR block pruned. -/
theorem LirsInv.getInner (h : LirsInv c) (hle : c.qQueue.length ≤ c.hirCapacity)
    {above below : List ℕ} (hs : c.sStack = above ++ p :: below)
    (ht : (c.block p).type = .hirResident) (hq : below.getLast? = some q) :
    ∃ rest : List ℕ,
      (lirsGetHirResident c p).sStack =
        p :: (above ++ rest.rdropWhile fun r => c.types r ≠ .lir) ∧
      (lirsGetHirResident c p).types p = .lir ∧
      (∀ r ∈ above ++ rest, (lirsGetHirResident c p).types r = c.types r) ∧
      ∀ r, c.types r = .lir → (r ∈ rest ↔ r ∈ below.dropLast) := by
  have hp : p ∈ c.sStack := by
    rw [hs]
    exact List.mem_append_right _ List.mem_cons_self
  obtain ⟨init, rfl⟩ := List.getLast?_eq_some_iff.mp hq
  have hnd := h.shape.sNodup
  rw [hs] at hnd
  obtain ⟨-, hndp, hdis⟩ := List.nodup_append.mp hnd
  have hpb := (List.nodup_cons.mp hndp).1
  have hpa : p ∉ above := fun hin => hdis p hin p List.mem_cons_self rfl
  have h1 : LirsInv { c with stats := { c.stats with hits := c.stats.hits + 1 } } :=
    h.withStats rfl rfl
  obtain ⟨hA, -, -, hAs, -, -, hAtypes⟩ := h1.promoteBlock hp ht
  obtain ⟨hstack, htypes, -⟩ := h.getStacked hle hp ht rfl
  generalize lirsPromoteBlock { c with stats := { c.stats with hits := c.stats.hits + 1 } } p = a
    at hA hAs hAtypes hstack htypes
  have hAs' : a.sStack = above ++ [p] ++ (init ++ [q]) := by
    rw [hAs]
    show c.sStack = _
    rw [hs, List.append_assoc, List.singleton_append]
  have hap : a.types p = .lir := by rw [hAtypes, Function.update_self]
  have hkeep : ∀ r, r ≠ p → a.types r = c.types r := by
    intro r hrp
    rw [hAtypes, Function.update_of_ne hrp]
    rfl
  -- `p` is LIR now and stays in front of what the demotion leaves
  obtain ⟨rest, hds, hdtypes, hsub, hlir⟩ := hA.demoteBottom_rest hAs'
  have hp_ne : ∀ r ∈ rest, r ≠ p := fun r hr he => hpb (he ▸ hsub r hr)
  have hdp : (lirsDemoteBottom a).types p = .lir := by
    rw [hdtypes p (List.mem_append_left _ (List.mem_append_right _ (List.mem_singleton_self p))), hap]
  have hrest : ∀ r ∈ rest, (lirsDemoteBottom a).types r = c.types r := fun r hr =>
    (hdtypes r (List.mem_append_right _ hr)).trans (hkeep r (hp_ne r hr))
  refine ⟨rest, ?_, ?_, ?_, ?_⟩
  · rw [hstack]
    refine prune_above_lir ?_ hpa hdp hrest
    rw [hds, List.append_assoc, List.singleton_append]
  · rw [htypes, hdp]
  · intro r hr
    rw [htypes]
    rcases List.mem_append.mp hr with hr | hr
    · rw [hdtypes r (List.mem_append_left _ (List.mem_append_left _ hr))]
      exact hkeep r fun he => hpa (he ▸ hr)
    · exact hrest r hr
  · intro r hr
    have hrp : r ≠ p := by
      rintro rfl
      exact absurd (hr.symm.trans ht) (by decide)
    rw [List.dropLast_concat]
    exact hlir r ((hkeep r hrp).trans hr)

/-! ## the bottom after each operation -/

/-- While there are LIR blocks, the bottom of S is one. -/
def LirAtBottom (c : LirsCache) : Prop :=
  (∃ p ∈ c.heap, (c.block p).type = .lir) →
    ∃ q, c.sStack.getLast? = some q ∧ (c.block q).type = .lir

/-- A `lirs_get` that leaves the bottom LIR.  Where it promotes a block of S with others below it,
one of these, the last apart, is LIR, or nothing but LIR comes to lie at the bottom. -/
def LirsOp.BottomKept (c : LirsCache) : LirsOp → Prop
  | .get key => key ≠ 0 → ∀ p above below, lirsFindBlock c key = some p →
      (c.block p).type = .hirResident → c.sStack = above ++ p :: below → below ≠ [] →
        (∃ q ∈ below.dropLast, (c.block q).type = .lir) ∨
          ∀ q, above.getLast? = some q → (c.block q).type = .lir
  | _ => True

theorem LirsInv.lirAtBottom (h : LirsInv c)
    (hlast : ∀ q, c.sStack.getLast? = some q → (c.block q).type = .lir) : LirAtBottom c := by
  rintro ⟨p, hp, ht⟩
  have hs : p ∈ c.sStack :=
    (h.shape.sFlag p).mpr ⟨hp, (h.blocks p hp).stacked (by rw [ht]; decide)⟩
  cases hl : c.sStack.getLast? with
  | none =>
    rw [List.getLast?_eq_none_iff.mp hl] at hs
    exact absurd hs (by simp)
  | some q => exact ⟨q, rfl, hlast q hl⟩

theorem LirsInv.lirAtBottom_prune (h : LirsInv c) : LirAtBottom (lirsPruneSStack c) :=
  h.prune.1.lirAtBottom fun _ hq => h.prune_bottom hq

theorem LirsInv.lirAtBottom_evict (h : LirsInv c) :
    LirAtBottom (lirsEvictHir (lirsPruneSStack c)) := by
  have hinv := h.prune.1
  refine hinv.evict.1.lirAtBottom fun q hq => ?_
  rw [sStack_evict] at hq
  exact (hinv.evictFrame.lir q (hinv.shape.mem_heap_of_s (List.mem_of_getLast? hq))
    (h.prune_bottom hq)).2

theorem LirAtBottom.congr {c' : LirsCache} (h : LirAtBottom c) (hs : c'.sStack = c.sStack)
    (hheap : ∀ q ∈ c'.heap, q ∈ c.heap) (htypes : c'.types = c.types) : LirAtBottom c' := by
  rintro ⟨p, hp, ht⟩
  obtain ⟨q, hq, hqt⟩ := h ⟨p, hheap p hp, (congrFun htypes p).symm.trans ht⟩
  exact ⟨q, by rw [hs, hq], (congrFun htypes q).trans hqt⟩

theorem LirsInv.lirAtBottom_put (h : LirsInv c) (hb : LirAtBottom c)
    (hle : c.qQueue.length ≤ c.hirCapacity) (key value size : ℕ) {mem : Option ℕ}
    (hmem : ∀ p, mem = some p → p ∉ c.heap) :
    LirAtBottom (lirsPut c key value size mem).1 := by
  have hroom : LirAtBottom (lirsMakeRoom c size) := by
    unfold lirsMakeRoom
    rw [h.evict_self hle]
    dsimp only
    split_ifs
    · exact h.lirAtBottom_prune
    · exact hb
    · exact hb
  unfold lirsPut
  by_cases hk : key = 0
  · rw [if_pos hk]
    exact hb
  rw [if_neg hk]
  rcases hf : lirsFindBlock c key with _ | p
  · dsimp only
    obtain ⟨hinv, hframe⟩ := h.makeRoom hle size
    by_cases hfull : (lirsMakeRoom c size).full size = true
    · rw [if_pos hfull]
      exact hroom
    rw [if_neg hfull]
    rcases mem with _ | p
    · exact hroom
    · have hp : p ∉ (lirsMakeRoom c size).heap := fun hin => hmem p rfl (hframe.old p hin).1
      have hkeys : ∀ q ∈ (lirsMakeRoom c size).heap,
          ((lirsMakeRoom c size).block q).key ≠ key := by
        intro q hq
        obtain ⟨hq', he⟩ := hframe.old q hq
        rw [he]
        exact h.find_none hf q hq'
      exact (hinv.newBlock hp value size hkeys).lirAtBottom_evict
  · dsimp only
    unfold lirsPutExisting
    extract_lets b stats c1
    split_ifs with hv
    · refine hb.congr rfl (fun q hq => hq) ?_
      funext q
      by_cases he : q = p
      · simp [LirsCache.types, LirsCache.setBlock, he, b]
      · simp [LirsCache.types, LirsCache.setBlock, he, c1]
    · exact hb

theorem LirsInv.lirAtBottom_remove (h : LirsInv c) (hb : LirAtBottom c) (key : ℕ) :
    LirAtBottom (lirsRemove c key).1 := by
  unfold lirsRemove
  by_cases hk : key = 0
  · rw [if_pos hk]
    exact hb
  rw [if_neg hk]
  rcases hf : lirsFindBlock c key with _ | p
  · exact hb
  · show LirAtBottom (lirsPruneSStack (removed c p))
    exact (h.takeOut (h.find_some hf).1).1.lirAtBottom_prune

/-- A HIR resident block off S is put on it, and nothing else changes. -/
theorem LirsInv.getUnstacked_eq (h : LirsInv c) (hle : c.qQueue.length ≤ c.hirCapacity)
    (hp : p ∈ c.heap) (hs : p ∉ c.sStack) :
    lirsGetHirResident c p =
      { c with stats := { c.stats with hits := c.stats.hits + 1 } }.addS p := by
  unfold lirsGetHirResident
  extract_lets stats c1 c2 c3
  have h1 : LirsInv c1 := h.withStats rfl rfl
  have hflag : ¬ (c1.block p).inSStack = true := fun hf => hs ((h.shape.sFlag p).mpr ⟨hp, hf⟩)
  have hc2 : c2 = c1 := if_neg hflag
  have hc3 : c3 = c1.addS p := by
    show (if (c2.block p).inSStack then c2.moveS p else c2.addS p) = c1.addS p
    rw [hc2]
    exact if_neg hflag
  have h3 : LirsInv c3 ∧ p ∈ c3.heap ∧ c3.qQueue.length ≤ c3.hirCapacity := by
    rw [hc3]
    exact ⟨h1.addS hp hs, hp, hle⟩
  rw [if_neg (h3.1.not_unqueued h3.2.1), h3.1.evict_self h3.2.2, hc3]

theorem LirsInv.lirAtBottom_getUnstacked (h : LirsInv c) (hb : LirAtBottom c)
    (hle : c.qQueue.length ≤ c.hirCapacity) (hp : p ∈ c.heap) (hs : p ∉ c.sStack) :
    LirAtBottom (lirsGetHirResident c p) := by
  rw [h.getUnstacked_eq hle hp hs]
  generalize hstats : { c.stats with hits := c.stats.hits + 1 } = stats
  rintro ⟨r, hr, hrt⟩
  have htypes : ({ c with stats := stats }.addS p).types = c.types := types_addS _ p
  obtain ⟨q, hq, hqt⟩ := hb ⟨r, hr, (congrFun htypes r).symm.trans hrt⟩
  refine ⟨q, ?_, (congrFun htypes q).trans hqt⟩
  show (p :: c.sStack).getLast? = some q
  rw [List.getLast?_cons, hq]
  rfl

/-- The block at the bottom was HIR resident, so there is no LIR block. -/
theorem LirsInv.lirAtBottom_getBottom (h : LirsInv c) (hb : LirAtBottom c)
    (hle : c.qQueue.length ≤ c.hirCapacity) {above : List ℕ} (hs : c.sStack = above ++ [p])
    (ht : (c.block p).type = .hirResident) : LirAtBottom (lirsGetHirResident c p) := by
  have htypes := h.getBottom hle hs ht
  have hp : p ∈ c.heap := h.shape.mem_heap_of_s (by simp [hs])
  have hup := h.upkeep_getHirResident hle hp ht
  rintro ⟨r, hr, hrt⟩
  obtain ⟨q, hq, hqt⟩ := hb ⟨r, hup.mem_heap hr, (congrFun htypes r).symm.trans hrt⟩
  rw [hs, List.getLast?_concat, Option.some_inj] at hq
  rw [← hq, ht] at hqt
  exact absurd hqt (by decide)

theorem LirsInv.lirAtBottom_getInner (h : LirsInv c) (hle : c.qQueue.length ≤ c.hirCapacity)
    {above below : List ℕ} (hs : c.sStack = above ++ p :: below)
    (ht : (c.block p).type = .hirResident) (hne : below ≠ []) :
    LirAtBottom (lirsGetHirResident c p) ↔
      (∃ q ∈ below.dropLast, (c.block q).type = .lir) ∨
        ∀ q, above.getLast? = some q → (c.block q).type = .lir := by
  have hp : p ∈ c.heap := h.shape.mem_heap_of_s (by simp [hs])
  have hinv := (h.getHirResident hle hp ht).1.inv
  obtain ⟨rest, hstack, hpt, hkeep, hrest⟩ :=
    h.getInner hle hs ht (List.getLast?_eq_getLast_of_ne_nil hne)
  have hin : p ∈ (lirsGetHirResident c p).heap :=
    hinv.shape.mem_heap_of_s (by rw [hstack]; exact List.mem_cons_self)
  have htype : ∀ q, ((lirsGetHirResident c p).block q).type =
    (lirsGetHirResident c p).types q := fun _ => rfl
  -- there is a LIR block now, `p`, so the bottom has to be one
  have hbottom : LirAtBottom (lirsGetHirResident c p) ↔
      ∃ q, (lirsGetHirResident c p).sStack.getLast? = some q ∧
        (lirsGetHirResident c p).types q = .lir := ⟨fun hb => hb ⟨p, hin, hpt⟩, fun hb _ => hb⟩
  rw [hbottom, hstack]
  rcases hdrop : (rest.rdropWhile fun r => c.types r ≠ .lir) with _ | ⟨x, xs⟩
  · have hnone : ¬ ∃ q ∈ below.dropLast, (c.block q).type = .lir := by
      rintro ⟨q, hq, hqt⟩
      have hall := List.rdropWhile_eq_nil_iff.mp hdrop q ((hrest q hqt).mpr hq)
      exact of_decide_eq_true hall hqt
    rw [or_iff_right hnone, List.append_nil, List.getLast?_cons]
    cases hl : above.getLast? with
    | none => simp [hpt]
    | some q =>
      have hq := hkeep q (List.mem_append_left _ (List.mem_of_getLast? hl))
      simp only [Option.getD_some, Option.some_inj, exists_eq_left', forall_eq', hq]
      exact Iff.rfl
  · -- what is left of `rest` ends in a LIR block
    have hlast : ∃ q, (rest.rdropWhile fun r => c.types r ≠ .lir).getLast? = some q ∧
        c.types q = .lir := by
      have hnot := List.rdropWhile_last_not (fun r => decide (c.types r ≠ .lir)) rest
        (by rw [hdrop]; simp)
      refine ⟨_, List.getLast?_eq_getLast_of_ne_nil (by rw [hdrop]; simp), ?_⟩
      exact not_not.mp fun hq => hnot (decide_eq_true hq)
    obtain ⟨q, hq, hqt⟩ := hlast
    have hmem : q ∈ rest := (List.rdropWhile_prefix _ _).mem (List.mem_of_getLast? hq)
    rw [hdrop] at hq
    refine ⟨fun _ => Or.inl ⟨q, (hrest q hqt).mp hmem, hqt⟩, fun _ => ⟨q, ?_, ?_⟩⟩
    · rw [List.getLast?_cons, List.getLast?_append, hq]
      rfl
    · rw [hkeep q (List.mem_append_right _ hmem), hqt]

/-- The condition at the place of the block on S. -/
theorem bottomKept_get {key : ℕ} (hk : key ≠ 0) (hf : lirsFindBlock c key = some p)
    (ht : (c.block p).type = .hirResident) {above below : List ℕ}
    (hs : c.sStack = above ++ p :: below) (hnd : c.sStack.Nodup) :
    LirsOp.BottomKept c (.get key) ↔ (below ≠ [] →
      (∃ q ∈ below.dropLast, (c.block q).type = .lir) ∨
        ∀ q, above.getLast? = some q → (c.block q).type = .lir) := by
  refine ⟨fun hkept hne => hkept hk p above below hf ht hs hne, ?_⟩
  rintro hcond - r above' below' hr - hs' hne
  rw [hf, Option.some_inj] at hr
  subst hr
  have hnot : ∀ {as bs : List ℕ}, c.sStack = as ++ p :: bs → p ∉ as := by
    intro as bs has hin
    rw [has] at hnd
    exact (List.nodup_append.mp hnd).2.2 p hin p List.mem_cons_self rfl
  have hnot' : p ∉ below := by
    rw [hs] at hnd
    exact (List.nodup_cons.mp (List.nodup_append.mp hnd).2.1).1
  obtain ⟨rfl, -, rfl⟩ := (List.append_cons_inj_of_notMem (hnot hs) hnot').mp (hs.symm.trans hs')
  exact hcond hne

theorem LirsInv.lirAtBottom_getLir (h : LirsInv c) (hp : p ∈ c.heap) :
    LirAtBottom (lirsGetLir c p) := by
  unfold lirsGetLir
  extract_lets stats c1
  have h1 : LirsInv c1 := h.withStats rfl rfl
  exact (h1.toTop hp).lirAtBottom_prune

theorem LirsInv.lirAtBottom_getGhost (h : LirsInv c) (hp : p ∈ c.heap)
    (ht : (c.block p).type = .hirNonResident) : LirAtBottom (lirsGetHirNonResident c p) := by
  have hflag : (c.block p).inSStack = true := (h.blocks p hp).stacked (by rw [ht]; decide)
  unfold lirsGetHirNonResident
  extract_lets stats c1
  have h1 : LirsInv c1 := h.withStats rfl rfl
  have hs1 : p ∈ c1.sStack := (h.shape.sFlag p).mpr ⟨hp, hflag⟩
  have hflag1 : (c1.block p).inSStack = true := hflag
  rw [if_pos hflag1]
  exact (h1.destroy hs1 ht).lirAtBottom_prune

/-- **One operation**, in a state whose bottom is LIR if there are LIR blocks: it stays so exactly
when the operation meets the condition. -/
theorem LirsReady.lirAtBottom_step (h : LirsReady c) (hb : LirAtBottom c) {op : LirsOp}
    (hfresh : op.FreshMemory c) : LirAtBottom (c.step op) ↔ op.BottomKept c := by
  cases op with
  | put key value size mem =>
    exact iff_of_true (h.inv.lirAtBottom_put hb h.queue key value size hfresh) trivial
  | remove key => exact iff_of_true (h.inv.lirAtBottom_remove hb key) trivial
  | get key =>
    show LirAtBottom (lirsGet c key).1 ↔ LirsOp.BottomKept c (.get key)
    by_cases hk : key = 0
    · unfold lirsGet
      rw [if_pos hk]
      exact iff_of_true hb fun hne => absurd hk hne
    rcases hf : lirsFindBlock c key with _ | p
    · unfold lirsGet
      rw [if_neg hk, hf]
      refine iff_of_true (hb.congr rfl (fun q hq => hq) rfl) fun _ p _ _ hfp => ?_
      rw [hf] at hfp
      exact absurd hfp (by simp)
    obtain ⟨hp, -⟩ := h.inv.find_some hf
    have h1 := h.inv.touch hp
    have hle1 : (touched c p).qQueue.length ≤ (touched c p).hirCapacity := h.queue
    have hp1 : p ∈ (touched c p).heap := hp
    have htypes := types_touched c p
    have hb1 : LirAtBottom (touched c p) := hb.congr rfl (fun q hq => hq) htypes
    have htype : ∀ q, ((touched c p).block q).type = (c.block q).type := congrFun htypes
    have hs1 : (touched c p).sStack = c.sStack := rfl
    -- the condition is about a HIR resident block
    have hother : (c.block p).type ≠ .hirResident → LirsOp.BottomKept c (.get key) := by
      intro hne _ r above below hfr hrt
      rw [hf, Option.some_inj] at hfr
      exact absurd (hfr ▸ hrt) hne
    rw [lirsGet_found hk hf]
    rcases ht : (c.block p).type with _ | _ | _
    · exact iff_of_true (h1.lirAtBottom_getLir hp1) (hother (by rw [ht]; decide))
    · have ht1 := (htype p).trans ht
      dsimp only
      by_cases hs : p ∈ c.sStack
      · obtain ⟨above, below, hsplit⟩ := List.append_of_mem hs
        rw [bottomKept_get hk hf ht hsplit h.inv.shape.sNodup]
        by_cases hne : below = []
        · rw [hne] at hsplit
          exact iff_of_true (h1.lirAtBottom_getBottom hb1 hle1 (hs1.trans hsplit) ht1)
            fun h => absurd hne h
        · rw [h1.lirAtBottom_getInner hle1 (hs1.trans hsplit) ht1 hne, imp_iff_right hne]
          simp only [htype]
      · refine iff_of_true (h1.lirAtBottom_getUnstacked hb1 hle1 hp1 hs) ?_
        rintro - r above below hfr - hsplit -
        rw [hf, Option.some_inj] at hfr
        subst hfr
        exact absurd (by simp [hsplit]) hs
    · exact iff_of_true (h1.lirAtBottom_getGhost hp1 ((htype p).trans ht))
        (hother (by rw [ht]; decide))

end

/-! ## whole runs -/

/-- **The bottom of S is LIR while there are LIR blocks, exactly in the runs** where no `lirs_get`
takes the lowest block of a pruned stack from under one that is not LIR. -/
theorem lir_at_bottom_iff {capacity maxSize : ℕ} {cacheOk tableOk : Bool} {c : LirsCache}
    (hc : lirsCreate capacity maxSize cacheOk tableOk = some c) (callback : Bool)
    (ops : List LirsOp)
    (hfresh : Runs.Each LirsCache.step LirsOp.FreshMemory (lirsSetEvictCallback c callback) ops) :
    Runs.Always LirsCache.step LirAtBottom (lirsSetEvictCallback c callback) ops ↔
      Runs.Each LirsCache.step LirsOp.BottomKept (lirsSetEvictCallback c callback) ops := by
  have hempty : LirAtBottom (lirsSetEvictCallback c callback) := by
    rintro ⟨p, hp, -⟩
    rw [show (lirsSetEvictCallback c callback).heap = [] from (lirsCreate_heap hc).1] at hp
    exact absurd hp (by simp)
  have hstep : ∀ (s : LirsCache) (op : LirsOp), LirsReady s ∧ LirAtBottom s → op.FreshMemory s →
      op.BottomKept s → LirsReady (s.step op) ∧ LirAtBottom (s.step op) :=
    fun s op hs hf hkept => ⟨hs.1.step hf, (hs.1.lirAtBottom_step hs.2 hf).mpr hkept⟩
  refine Runs.always_iff_each_of hstep (fun s hs => hs.2) (fun s op hs hf hbad hnext => ?_)
    ⟨lirsCreate_ready hc callback, hempty⟩ hfresh
  exact hbad ((hs.1.lirAtBottom_step hs.2 hf).mp hnext)

/-- Two puts and a `lirs_get` of the first. -/
theorem lir_at_bottom_iff_run :
    Runs.Always LirsCache.step LirAtBottom
        (lirsSetEvictCallback ((lirsCreate 3 1000 true true).get rfl) false)
        [.put 16 1 1 (some 100), .put 32 2 1 (some 200), .get 16] ↔
      Runs.Each LirsCache.step LirsOp.BottomKept
        (lirsSetEvictCallback ((lirsCreate 3 1000 true true).get rfl) false)
        [.put 16 1 1 (some 100), .put 32 2 1 (some 200), .get 16] := by
  refine lir_at_bottom_iff (Option.some_get _).symm false _ ⟨?_, ?_, trivial, trivial⟩
  · intro p hp
    cases hp
    decide
  · intro p hp
    cases hp
    decide +kernel

/-- S is `[300, 200, 100]`, and only the block at its bottom is LIR.  The block above it is read: it
takes the place of the bottom, and goes to the top from there. -/
theorem hir_block_at_bottom :
    ∃ c, lirsCreate 3 1000 true true = some c ∧ c.hirCapacity < c.capacity ∧ 2 ≤ c.hirCapacity ∧
      ∃ ops : List LirsOp, Runs.Each LirsCache.step LirsOp.FreshMemory c ops ∧
        ¬ Runs.Always LirsCache.step LirAtBottom c ops := by
  refine ⟨(lirsCreate 3 1000 true true).get rfl, (Option.some_get _).symm, by decide +kernel,
    by decide +kernel, [.put 16 1 1 (some 100), .put 32 2 1 (some 200), .put 48 3 1 (some 300),
      .get 32], ⟨?_, ?_, ?_, trivial, trivial⟩, fun h => ?_⟩
  · intro p hp
    cases hp
    decide +kernel
  · intro p hp
    cases hp
    decide +kernel
  · intro p hp
    cases hp
    decide +kernel
  · obtain ⟨q, hq, ht⟩ := h.last ⟨200, by decide +kernel, by decide +kernel⟩
    have hlast : q = 300 := Option.some.inj (hq.symm.trans (by decide +kernel))
    subst hlast
    revert ht
    decide +kernel

end Nomalloc
