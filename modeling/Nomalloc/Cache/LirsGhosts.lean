import Nomalloc.Cache.LirsBottom

/-!
# The ghosts in the LIRS cache

A ghost is a block that was evicted while it was on S: it stays in the table and on S, non-resident.
Only `lirs_evict_hir` makes ghosts and counts them in `hir_non_resident_count`.  They go when S is
pruned, when their key is read, when the key is removed; a block that is evicted off S is counted
and freed at once.  Of these only `lirs_remove` counts down.

* `GhostChange`   what a step does to the counter, the ghosts and the number of blocks;
* `ghost_counter_iff`    the counter is exact in the runs that lose no ghost uncounted;
* `blocks_bounded_iff`   the number of blocks has a bound for a set of runs exactly when ghosts are
                         made, and LIR blocks added, below some bound only.
-/

namespace Nomalloc

/-- The live ghosts. -/
def ghosts (c : LirsCache) : ℕ := typeCount c.heap c.types .hirNonResident

/-- The blocks of `l` that are ghosts. -/
def ghostsOn (c : LirsCache) (l : List ℕ) : ℕ := l.countP fun q => (c.block q).type = .hirNonResident

/-- `made` ghosts are made and counted, and `lost` of them go without being counted down. -/
structure GhostChange (c c' : LirsCache) (made lost : ℕ) : Prop where
  counter : c'.stats.hirNonResidentCount = c.stats.hirNonResidentCount + made
  ghosts : ghosts c' + lost = ghosts c + made
  blocks : c'.heap.length + lost = c.heap.length

namespace GhostChange

variable {c c' c'' : LirsCache} {made made' lost lost' : ℕ}

theorem trans (h : GhostChange c c' made lost) (h' : GhostChange c' c'' made' lost') :
    GhostChange c c'' (made + made') (lost + lost') := by
  obtain ⟨h1, h2, h3⟩ := h
  obtain ⟨h1', h2', h3'⟩ := h'
  exact ⟨by omega, by omega, by omega⟩

theorem after (h : GhostChange c c' 0 0) (h' : GhostChange c' c'' made lost) :
    GhostChange c c'' made lost := by
  have hall := h.trans h'
  rwa [Nat.zero_add, Nat.zero_add] at hall

theorem quiet (hcount : c'.stats.hirNonResidentCount = c.stats.hirNonResidentCount)
    (hheap : c'.heap = c.heap)
    (htypes : ∀ q, c'.types q = .hirNonResident ↔ c.types q = .hirNonResident) :
    GhostChange c c' 0 0 := by
  refine ⟨hcount, ?_, by rw [hheap, Nat.add_zero]⟩
  unfold Nomalloc.ghosts typeCount
  rw [hheap]
  simp only [htypes]

theorem refl (c : LirsCache) : GhostChange c c 0 0 := ⟨rfl, rfl, rfl⟩

theorem freed {p : ℕ} (hp : p ∈ c.heap) (ht : (c.block p).type = .hirNonResident) :
    GhostChange c (lirsBlockDestroy (lirsRemoveHash c p) p) 0 1 := by
  refine ⟨rfl, ?_, ?_⟩
  · have h := typeCount_erase c.types hp .hirNonResident
    rw [if_pos (show c.types p = .hirNonResident from ht)] at h
    exact h.symm
  · show (c.heap.erase p).length + 1 = c.heap.length
    rw [List.length_erase_of_mem hp]
    have := List.length_pos_of_mem hp
    omega

theorem balance (h : GhostChange c c' made lost) :
    c'.stats.hirNonResidentCount + Nomalloc.ghosts c =
      c.stats.hirNonResidentCount + Nomalloc.ghosts c' + lost := by
  have hcounter := h.counter
  have hghosts := h.ghosts
  omega

end GhostChange

/-! ## pruning -/

section
variable {c : LirsCache} {p : ℕ}

/-- The blocks of the stack `l` that lie under its lowest LIR block: those that pruning takes. -/
def LirsCache.under (c : LirsCache) (l : List ℕ) : List ℕ :=
  l.rtakeWhile fun q => (c.block q).type ≠ .lir

theorem LirsInv.ghosts_pruneBottom (h : LirsInv c) (hl : c.sStack.getLast? = some p) :
    GhostChange c (lirsPruneBottom c p) 0
      (if (c.block p).type = .hirNonResident then 1 else 0) := by
  have hdel : GhostChange c (c.delS p) 0 0 :=
    GhostChange.quiet rfl rfl fun q => by rw [types_delS]
  have htype : ((c.delS p).block p).type = (c.block p).type := congrFun (types_delS c p) p
  unfold lirsPruneBottom
  dsimp only
  rw [htype]
  by_cases ht : (c.block p).type = .hirNonResident
  · rw [if_pos ht, if_pos ht]
    have hp : p ∈ (c.delS p).heap := h.shape.mem_heap_of_s (List.mem_of_getLast? hl)
    exact hdel.trans (GhostChange.freed hp (htype.trans ht))
  · rw [if_neg ht, if_neg ht]
    exact hdel

/-- **Pruning loses the ghosts under the lowest LIR block.** -/
theorem LirsInv.ghosts_prune (h : LirsInv c) :
    GhostChange c (lirsPruneSStack c) 0 (ghostsOn c (c.under c.sStack)) := by
  unfold lirsPruneSStack
  generalize hn : c.sStack.length = n
  induction n generalizing c with
  | zero =>
    rw [List.length_eq_zero_iff.mp hn]
    exact GhostChange.refl c
  | succ n ih =>
    unfold lirsPruneLoop
    cases hl : c.sStack.getLast? with
    | none =>
      rw [List.getLast?_eq_none_iff.mp hl] at hn
      exact absurd hn (by simp)
    | some p =>
      have hp := List.mem_of_getLast? hl
      have hflag := ((h.shape.sFlag p).mp hp).2
      have herase := erase_getLast h.shape.sNodup hl
      obtain ⟨init, hinit⟩ := List.getLast?_eq_some_iff.mp hl
      rw [hinit, List.dropLast_concat] at herase
      unfold LirsCache.under
      by_cases ht : (c.block p).type = .lir
      · simp only [ht, hflag, and_self, if_true]
        rw [hinit, List.rtakeWhile_concat_neg _ _ _ (by simp [ht])]
        exact GhostChange.refl c
      · simp only [ht, false_and, if_false]
        obtain ⟨hinv, -, hs⟩ := h.pruneBottom hl ht
        rw [hinit, herase] at hs
        have hlen : (lirsPruneBottom c p).sStack.length = n := by
          rw [hs]
          rw [hinit, List.length_append, List.length_singleton] at hn
          omega
        have htypes : ∀ q, ((lirsPruneBottom c p).block q).type = (c.block q).type :=
          congrFun (types_pruneBottom c p)
        have hrest := ih hinv hlen
        unfold ghostsOn LirsCache.under at hrest
        simp only [htypes, hs] at hrest
        have hall := (h.ghosts_pruneBottom hl).trans hrest
        unfold ghostsOn
        rw [hinit, List.rtakeWhile_concat_pos _ _ _ (by simpa using ht), List.countP_append,
          List.countP_singleton]
        simp only [decide_eq_true_eq]
        rw [Nat.add_comm (List.countP _ _)]
        exact hall

/-! ## evicting -/

/-- A block that is evicted becomes a ghost, and off S the ghost is lost at once. -/
theorem LirsInv.ghosts_evictHead (h : LirsInv c) (hp : p ∈ c.qQueue) :
    GhostChange c (lirsEvictHead c p) 1 (if (c.block p).inSStack then 0 else 1) := by
  have hheap := h.shape.mem_heap_of_q hp
  have ht : c.types p = .hirResident := (h.inQ_iff hheap).mpr hp
  have hself : ((c.delQ p).setType p .hirNonResident).block p =
      { c.block p with inQQueue := false, type := .hirNonResident } := by
    simp [LirsCache.setType, LirsCache.setBlock, LirsCache.delQ]
  have htypes : ((c.delQ p).setType p .hirNonResident).types =
      Function.update c.types p .hirNonResident := by
    rw [types_setType, types_delQ]
  unfold lirsEvictHead
  extract_lets c1 stats c2
  have hmade : GhostChange c c2 1 0 := by
    refine ⟨rfl, ?_, rfl⟩
    have hcount := typeCount_update c.types h.shape.heapNodup hheap .hirNonResident .hirNonResident
    rw [if_neg (by rw [ht]; decide), if_pos rfl, ← htypes] at hcount
    exact hcount
  have hinS : (c2.block p).inSStack = (c.block p).inSStack := by
    show (c1.block p).inSStack = _
    rw [hself]
  rw [hinS]
  cases hs : (c.block p).inSStack with
  | true => exact hmade
  | false =>
    have hghost : (c2.block p).type = .hirNonResident := by
      show (c1.block p).type = _
      rw [hself]
    have hmem : p ∈ c2.heap := hheap
    exact hmade.trans (GhostChange.freed hmem hghost)

theorem sStack_evictHead (c : LirsCache) (p : ℕ) : (lirsEvictHead c p).sStack = c.sStack := by
  unfold lirsEvictHead
  extract_lets c1 stats c2
  split_ifs <;> rfl

/-- **Eviction makes a ghost of each block beyond the capacity of Q**, and loses those off S. -/
theorem LirsInv.ghosts_evict (h : LirsInv c) :
    GhostChange c (lirsEvictHir c) (c.qQueue.length - c.hirCapacity)
      ((c.qQueue.take (c.qQueue.length - c.hirCapacity)).countP fun q => q ∉ c.sStack) := by
  unfold lirsEvictHir
  generalize hn : c.qQueue.length = n
  induction n generalizing c with
  | zero =>
    rw [Nat.zero_sub, List.take_zero, List.countP_nil]
    exact GhostChange.refl c
  | succ n ih =>
    unfold lirsEvictLoop
    cases hq : c.qQueue with
    | nil =>
      rw [hq] at hn
      exact absurd hn (by simp)
    | cons p rest =>
      have hp : p ∈ c.qQueue := by
        rw [hq]
        exact List.mem_cons_self
      have hsize := h.shape.qSize
      simp only [List.head?_cons]
      by_cases hover : c.hirCapacity < c.qQueueSize
      · rw [if_pos hover]
        obtain ⟨hinv, hrest, -, hcfg⟩ := h.evictHead hq
        have hlen : rest.length = n := by
          rw [hq, List.length_cons] at hn
          omega
        have htail := ih hinv (by rw [hrest, hlen])
        rw [hrest, hcfg.hirCapacity, sStack_evictHead] at htail
        have hall := (h.ghosts_evictHead hp).trans htail
        have hflag : (c.block p).inSStack = true ↔ p ∈ c.sStack :=
          ⟨fun hf => (h.shape.sFlag p).mpr ⟨h.shape.mem_heap_of_q hp, hf⟩,
            fun hs => ((h.shape.sFlag p).mp hs).2⟩
        rw [show n + 1 - c.hirCapacity = n - c.hirCapacity + 1 by omega, List.take_succ_cons,
          List.countP_cons, Nat.add_comm _ 1, Nat.add_comm (List.countP _ _)]
        by_cases hs : p ∈ c.sStack
        · rw [if_pos (hflag.mpr hs)] at hall
          simpa [hs] using hall
        · rw [if_neg fun hf => hs (hflag.mp hf)] at hall
          simpa [hs] using hall
      · rw [if_neg hover, show n + 1 - c.hirCapacity = 0 by omega, List.take_zero, List.countP_nil]
        exact GhostChange.refl c

/-! ## `lirs_get` -/

theorem rtakeWhile_append_cons {P : ℕ → Bool} (hp : ¬ P p) (as bs : List ℕ) :
    (as ++ p :: bs).rtakeWhile P = bs.rtakeWhile P := by
  induction bs using List.reverseRecOn with
  | nil =>
    rw [List.rtakeWhile_nil]
    exact List.rtakeWhile_concat_neg _ _ _ hp
  | append_singleton bs q ih =>
    rw [← List.cons_append, ← List.append_assoc, List.rtakeWhile_concat, List.rtakeWhile_concat, ih]

theorem rtakeWhile_congr {P Q : ℕ → Bool} {l : List ℕ} (h : ∀ x ∈ l, P x = Q x) :
    l.rtakeWhile P = l.rtakeWhile Q := by
  induction l using List.reverseRecOn with
  | nil => rw [List.rtakeWhile_nil, List.rtakeWhile_nil]
  | append_singleton l x ih =>
    have hx := h x (List.mem_append_right _ (List.mem_singleton_self x))
    rw [List.rtakeWhile_concat, List.rtakeWhile_concat, hx,
      ih fun y hy => h y (List.mem_append_left _ hy)]

theorem rtakeWhile_cons (P : ℕ → Bool) (p : ℕ) (l : List ℕ) :
    (p :: l).rtakeWhile P = l.rtakeWhile P ∨ (p :: l).rtakeWhile P = p :: l.rtakeWhile P := by
  induction l using List.reverseRecOn with
  | nil =>
    rw [show [p] = [] ++ [p] from rfl, List.rtakeWhile_concat, List.rtakeWhile_nil]
    split_ifs
    · exact Or.inr rfl
    · exact Or.inl rfl
  | append_singleton l x ih =>
    rw [← List.cons_append, List.rtakeWhile_concat, List.rtakeWhile_concat]
    split_ifs
    · rcases ih with ih | ih
      · exact Or.inl (by rw [ih])
      · exact Or.inr (by rw [ih, List.cons_append])
    · exact Or.inl rfl

theorem mem_rdropWhile_iff {P : ℕ → Bool} {l : List ℕ} (hnd : l.Nodup) {q : ℕ} :
    q ∈ l.rdropWhile P ↔ q ∈ l ∧ q ∉ l.rtakeWhile P := by
  have hsplit : l.rdropWhile P ++ l.rtakeWhile P = l := List.rdropWhile_append_rtakeWhile
  rw [← hsplit] at hnd
  have hdis := (List.nodup_append.mp hnd).2.2
  constructor
  · intro hq
    exact ⟨(List.rdropWhile_prefix _ _).mem hq, fun ht => hdis q hq q ht rfl⟩
  · rintro ⟨hq, ht⟩
    rw [← hsplit] at hq
    exact (List.mem_append.mp hq).resolve_right ht

theorem ghostsOn_under_congr {c' : LirsCache} {l : List ℕ}
    (htype : ∀ q ∈ l, c'.types q = c.types q) :
    ghostsOn c' (c'.under l) = ghostsOn c (c.under l) := by
  have htype' : ∀ q ∈ l, (c'.block q).type = (c.block q).type := htype
  have hunder : c'.under l = c.under l := rtakeWhile_congr fun q hq => by rw [htype' q hq]
  rw [hunder]
  exact List.countP_congr fun q hq => by rw [htype' q (List.rtakeWhile_suffix _ _ |>.mem hq)]

/-- Pruning after a step that leaves the types. -/
theorem GhostChange.prune {c' : LirsCache} {made lost : ℕ} (h : GhostChange c c' made lost)
    (hinv : LirsInv c') (htypes : c'.types = c.types) :
    GhostChange c (lirsPruneSStack c') made (lost + ghostsOn c (c.under c'.sStack)) := by
  have hprune := hinv.ghosts_prune
  rw [ghostsOn_under_congr fun q _ => congrFun htypes q] at hprune
  exact h.trans hprune

theorem LirsInv.ghosts_getLir (h : LirsInv c) (hp : p ∈ c.heap) (ht : (c.block p).type = .lir) :
    GhostChange c (lirsGetLir c p) 0 (ghostsOn c (c.under (c.sStack.erase p))) := by
  have hflag : (c.block p).inSStack = true := (h.blocks p hp).stacked (by rw [ht]; decide)
  unfold lirsGetLir
  extract_lets stats c1
  have h1 : LirsInv c1 := h.withStats rfl rfl
  have hs1 : p ∈ c1.sStack := (h.shape.sFlag p).mpr ⟨hp, hflag⟩
  have hflag1 : (c1.block p).inSStack = true := hflag
  rw [if_pos hflag1]
  have hquiet : GhostChange c (c1.moveS p) 0 0 := GhostChange.quiet rfl rfl fun _ => Iff.rfl
  have hunder : c.under (c1.moveS p).sStack = c.under (c.sStack.erase p) :=
    rtakeWhile_append_cons (by simpa using ht) [] (c.sStack.erase p)
  have hall := hquiet.prune (h1.moveS hs1) rfl
  rwa [Nat.zero_add, hunder] at hall

theorem LirsInv.ghosts_getHirNonResident (h : LirsInv c) (hp : p ∈ c.heap)
    (ht : (c.block p).type = .hirNonResident) :
    GhostChange c (lirsGetHirNonResident c p) 0
      (1 + ghostsOn c (c.under (c.sStack.erase p))) := by
  have hflag : (c.block p).inSStack = true := (h.blocks p hp).stacked (by rw [ht]; decide)
  unfold lirsGetHirNonResident
  extract_lets stats c1
  have h1 : LirsInv c1 := h.withStats rfl rfl
  have hs1 : p ∈ c1.sStack := (h.shape.sFlag p).mpr ⟨hp, hflag⟩
  have hflag1 : (c1.block p).inSStack = true := hflag
  have hcomm : (lirsRemoveHash c1 p).delS p = lirsRemoveHash (c1.delS p) p := rfl
  rw [if_pos hflag1, hcomm]
  have hquiet : GhostChange c (c1.delS p) 0 0 :=
    GhostChange.quiet rfl rfl fun q => by rw [types_delS]; exact Iff.rfl
  have hfreed : GhostChange (c1.delS p) (lirsBlockDestroy (lirsRemoveHash (c1.delS p) p) p) 0 1 :=
    GhostChange.freed hp ((congrFun (types_delS c1 p) p).trans ht)
  exact (hquiet.trans hfreed).prune (h1.destroy hs1 ht) (types_delS c1 p)

/-- What pruning takes when `p` is promoted: `p` counts as LIR, and the bottom of S is gone if it is
LIR then. -/
def LirsCache.underPromoted (c : LirsCache) (p : ℕ) : List ℕ :=
  (if c.sStack.getLast?.any fun q => q = p ∨ (c.block q).type = .lir then c.sStack.dropLast
    else c.sStack).rtakeWhile fun q => q ≠ p ∧ (c.block q).type ≠ .lir

theorem hirNonResidentCount_promoteBlock (c : LirsCache) (p : ℕ) :
    (lirsPromoteBlock c p).stats.hirNonResidentCount = c.stats.hirNonResidentCount := by
  unfold lirsPromoteBlock
  extract_lets c1 stats c2
  split_ifs <;> rfl

theorem hirNonResidentCount_demoteBottom (c : LirsCache) :
    (lirsDemoteBottom c).stats.hirNonResidentCount = c.stats.hirNonResidentCount := by
  unfold lirsDemoteBottom lirsDemoteLir
  cases c.sStack.getLast? with
  | none => rfl
  | some q =>
    dsimp only
    split_ifs <;> rfl

/-- The bottom of S after the promotion of `p`, and what lies on S then. -/
theorem LirsInv.promoted_stack (h : LirsInv c) (hs : p ∈ c.sStack)
    (ht : (c.block p).type = .hirResident) :
    (∀ q, (lirsDemoteBottom (lirsPromoteBlock c p)).types q = .hirNonResident ↔
      c.types q = .hirNonResident) ∧
    (lirsDemoteBottom (lirsPromoteBlock c p)).under
      (lirsDemoteBottom (lirsPromoteBlock c p)).sStack = c.underPromoted p := by
  obtain ⟨hA, -, -, hAs, -, -, hAtypes⟩ := h.promoteBlock hs ht
  generalize lirsPromoteBlock c p = a at hA hAs hAtypes
  have hAtype : ∀ q, a.types q = if q = p then .lir else c.types q := by
    intro q
    rw [hAtypes]
    by_cases he : q = p
    · rw [he, Function.update_self, if_pos rfl]
    · rw [Function.update_of_ne he, if_neg he]
  have hghost : ∀ q, a.types q = .hirNonResident ↔ c.types q = .hirNonResident := by
    intro q
    rw [hAtype]
    by_cases he : q = p
    · rw [if_pos he, he, show c.types p = .hirResident from ht]
      decide
    · rw [if_neg he]
  have hlir : ∀ q, a.types q = .lir ↔ q = p ∨ (c.block q).type = .lir := by
    intro q
    rw [hAtype]
    by_cases he : q = p
    · simp [he]
    · rw [if_neg he, or_iff_right he]
      exact Iff.rfl
  have hsame : ∀ q, decide (a.types q ≠ .lir) = decide (q ≠ p ∧ (c.block q).type ≠ .lir) := by
    intro q
    rw [decide_eq_decide, ne_eq, hlir, not_or]
  obtain ⟨q, hl⟩ : ∃ q, c.sStack.getLast? = some q := by
    cases hl : c.sStack.getLast? with
    | none =>
      rw [List.getLast?_eq_none_iff.mp hl] at hs
      exact absurd hs (by simp)
    | some q => exact ⟨q, rfl⟩
  have hAl : a.sStack.getLast? = some q := by rw [hAs, hl]
  unfold LirsCache.underPromoted
  rw [hl, Option.any_some]
  by_cases hq : a.types q = .lir
  · obtain ⟨hds, hdtypes⟩ := hA.demoteBottom_lir hAl hq
    rw [if_pos (decide_eq_true ((hlir q).mp hq)), hds, hAs]
    refine ⟨fun r => ?_, ?_⟩
    · rw [hdtypes]
      by_cases he : r = q
      · rw [he, Function.update_self, ← hghost, hq]
        decide
      · rw [Function.update_of_ne he]
        exact hghost r
    · have hnd := hA.shape.sNodup
      rw [hAs] at hnd
      refine rtakeWhile_congr fun r hr => ?_
      have hne : r ≠ q := by
        rintro rfl
        rw [← erase_getLast hnd hl] at hr
        exact hnd.not_mem_erase hr
      show decide ((lirsDemoteBottom a).types r ≠ .lir) = _
      rw [hdtypes, Function.update_of_ne hne]
      exact hsame r
  · rw [demoteBottom_other hAl hq, if_neg (by rwa [decide_eq_true_iff, ← hlir]), hAs]
    exact ⟨hghost, rtakeWhile_congr fun r _ => hsame r⟩

theorem LirsInv.ghosts_getStacked (h : LirsInv c) (hle : c.qQueue.length ≤ c.hirCapacity)
    (hs : p ∈ c.sStack) (ht : (c.block p).type = .hirResident) :
    GhostChange c (lirsGetHirResident c p) 0 (ghostsOn c (c.underPromoted p)) := by
  obtain ⟨hinv, -, heq⟩ := h.getStacked_eq hle hs ht rfl
  obtain ⟨-, htypes, -, -, hheap, hstats⟩ := hinv.topped_fields p
  have h1 : LirsInv { c with stats := { c.stats with hits := c.stats.hits + 1 } } :=
    h.withStats rfl rfl
  obtain ⟨hA, -, -, -, -, hAheap, -⟩ := h1.promoteBlock hs ht
  obtain ⟨hB, -, hBheap, -⟩ := hA.demoteBottom
  obtain ⟨hghost, hunder⟩ := h1.promoted_stack hs ht
  have hcount := (hirNonResidentCount_demoteBottom _).trans (hirNonResidentCount_promoteBlock
    { c with stats := { c.stats with hits := c.stats.hits + 1 } } p)
  generalize lirsDemoteBottom (lirsPromoteBlock
    { c with stats := { c.stats with hits := c.stats.hits + 1 } } p) = d at *
  have hquiet : GhostChange c d 0 0 := GhostChange.quiet hcount (hBheap.trans hAheap) hghost
  have hsame : ghostsOn d (d.under d.sStack) = ghostsOn c (c.underPromoted p) := by
    rw [hunder]
    exact List.countP_congr fun q _ => by
      rw [decide_eq_true_iff, decide_eq_true_iff]
      exact hghost q
  have hprune := hquiet.after hB.ghosts_prune
  have htop : GhostChange (lirsPruneSStack d) (topped (lirsPruneSStack d) p) 0 0 :=
    GhostChange.quiet (by rw [hstats]) hheap fun q => by rw [htypes]
  rw [hsame] at hprune
  rw [heq]
  exact hprune.trans htop

/-! ## `lirs_put` and `lirs_remove` -/

/-- The block that a new block drives out of Q, if it drives out one. -/
def LirsCache.evicts (c : LirsCache) : Option ℕ :=
  if RoomForLir c ∨ c.qQueue.length < c.hirCapacity then none else c.qQueue.head?

/-- The evicted block stays on S: it is on S with a LIR block below. -/
def LirsCache.StaysOnS (c : LirsCache) (q : ℕ) : Prop := q ∈ c.sStack ∧ q ∉ c.under c.sStack

instance (c : LirsCache) (q : ℕ) : Decidable (c.StaysOnS q) := inferInstanceAs (Decidable (_ ∧ _))

section
variable {key : ℕ} (value size : ℕ)

theorem entered_type {q : ℕ} (hq : q ≠ p) :
    (entered c p key value size).types q = c.types q :=
  congrArg LirsBlock.type (entered_other c p key value size hq)

theorem entered_not_ghost : (entered c p key value size).types p ≠ .hirNonResident := by
  show ((entered c p key value size).block p).type ≠ _
  rw [entered_self]
  dsimp only
  split_ifs <;> decide

theorem hirNonResidentCount_entered :
    (entered c p key value size).stats.hirNonResidentCount = c.stats.hirNonResidentCount := by
  unfold entered lirsPutEntry lirsPutType lirsBlockCreate lirsInsertHash
  dsimp only
  split_ifs <;> rfl

/-- A new block is no ghost, and none of them goes. -/
theorem ghosts_entered (hp : p ∉ c.heap) : ghosts (entered c p key value size) = ghosts c := by
  have hheap := (entered_fields c p key value size).2.2.1
  unfold ghosts typeCount
  rw [hheap, List.countP_cons_of_neg (by
    rw [decide_eq_true_iff]
    exact entered_not_ghost value size)]
  refine List.countP_congr fun q hq => ?_
  have hne : q ≠ p := fun he => hp (he ▸ hq)
  rw [entered_type value size hne]

/-- What is pruned with the new block on S is what was pruned without it. -/
theorem ghostsOn_entered (hp : p ∉ c.sStack) :
    ghostsOn (entered c p key value size)
        ((entered c p key value size).under (p :: c.sStack)) = ghostsOn c (c.under c.sStack) := by
  have hcons : ghostsOn (entered c p key value size)
      ((entered c p key value size).under (p :: c.sStack)) =
        ghostsOn (entered c p key value size)
          ((entered c p key value size).under c.sStack) := by
    unfold LirsCache.under ghostsOn
    rcases rtakeWhile_cons (fun q => ((entered c p key value size).block q).type ≠ .lir) p c.sStack
      with he | he
    · rw [he]
    · rw [he, List.countP_cons_of_neg (by
        rw [decide_eq_true_iff]
        exact entered_not_ghost value size)]
  rw [hcons]
  exact ghostsOn_under_congr fun q hq => entered_type value size fun he => hp (he ▸ hq)

/-- Of the block that is driven out of Q, S and the new block on it tell whether it stays. -/
theorem LirsInv.evicted_stays_iff (hinv : LirsInv (entered c p key value size)) {q : ℕ}
    (hne : q ≠ p) :
    q ∈ (lirsPruneSStack (entered c p key value size)).sStack ↔ c.StaysOnS q := by
  have hs := (entered_fields c p key value size).2.2.2.1
  have hnd := hinv.shape.sNodup
  rw [hs] at hnd
  have hp : p ∉ c.sStack := (List.nodup_cons.mp hnd).1
  have hunder : q ∈ (p :: c.sStack).rtakeWhile
      (fun r => (entered c p key value size).types r ≠ .lir) ↔ q ∈ c.under c.sStack := by
    have hcongr : c.sStack.rtakeWhile (fun r => (entered c p key value size).types r ≠ .lir) =
        c.under c.sStack :=
      rtakeWhile_congr fun r hr => by
        have hrp : r ≠ p := fun he => hp (he ▸ hr)
        rw [entered_type value size hrp]
        rfl
    rw [← hcongr]
    rcases rtakeWhile_cons (fun r => (entered c p key value size).types r ≠ .lir) p c.sStack
      with he | he
    · rw [he]
    · rw [he, List.mem_cons, or_iff_right hne]
  rw [hinv.prune_sStack, hs, mem_rdropWhile_iff hnd, hunder, List.mem_cons, or_iff_right hne]
  exact Iff.rfl

/-- **`lirs_put` of a new key** makes a ghost of the block that it drives out of Q.  It loses the
ghosts under the lowest LIR block, and the new ghost if that is not on S. -/
theorem LirsInv.ghosts_putNew (h : LirsInv c) (hle : c.qQueue.length ≤ c.hirCapacity)
    (hcap : 0 < c.hirCapacity) (hp : p ∉ c.heap) (hkey : ∀ q ∈ c.heap, (c.block q).key ≠ key) :
    GhostChange (entered c p key value size)
      (lirsEvictHir (lirsPruneSStack (entered c p key value size)))
      (if c.evicts.isSome then 1 else 0)
      (ghostsOn c (c.under c.sStack) + if c.evicts.any (¬ c.StaysOnS ·) then 1 else 0) := by
  have hinv := h.newBlock hp value size hkey
  have hs := (entered_fields c p key value size).2.2.2.1
  have hcfg := (entered_fields c p key value size).1
  have hq := (entered_queue c p key value size).1
  have hpS : p ∉ c.sStack := fun hin => hp (h.shape.mem_heap_of_s hin)
  obtain ⟨hinv1, hframe⟩ := hinv.prune
  have hprune := hinv.ghosts_prune
  rw [hs, ghostsOn_entered value size hpS] at hprune
  have hevict := hinv1.ghosts_evict
  rw [hframe.qQueue, hframe.config.hirCapacity, hcfg.hirCapacity, hq] at hevict
  have hall := hprune.trans hevict
  rw [Nat.zero_add] at hall
  unfold LirsCache.evicts
  by_cases hr : RoomForLir c
  · simp only [hr, if_true, Nat.sub_eq_zero_of_le hle, List.take_zero, List.countP_nil] at hall
    simpa [hr] using hall
  · simp only [hr, if_false, List.length_append, List.length_singleton] at hall
    by_cases hlt : c.qQueue.length < c.hirCapacity
    · rw [show c.qQueue.length + 1 - c.hirCapacity = 0 by omega, List.take_zero,
        List.countP_nil] at hall
      simpa [hlt] using hall
    · obtain ⟨q, rest, hqr⟩ := List.exists_cons_of_length_pos (l := c.qQueue) (by omega)
      have hne : q ≠ p := by
        rintro rfl
        exact hp (h.shape.mem_heap_of_q (by rw [hqr]; exact List.mem_cons_self))
      rw [show c.qQueue.length + 1 - c.hirCapacity = 1 by omega, hqr, List.cons_append,
        List.take_succ_cons, List.take_zero, List.countP_singleton] at hall
      have hev : (if RoomForLir c ∨ c.qQueue.length < c.hirCapacity then none
          else c.qQueue.head?) = some q := by
        rw [if_neg (not_or.mpr ⟨hr, hlt⟩), hqr]
        rfl
      rw [hev]
      simp only [hinv.evicted_stays_iff value size hne, decide_eq_true_eq] at hall
      simpa using hall

theorem removed_lists (c : LirsCache) (p : ℕ) :
    (removed c p).stats.hirNonResidentCount =
      c.stats.hirNonResidentCount - (if (c.block p).type = .hirNonResident then 1 else 0) ∧
    ((c.block p).inSStack = true → (removed c p).sStack = c.sStack.erase p) ∧
    ((c.block p).inSStack = false → (removed c p).sStack = c.sStack) := by
  have hun : (unlisted c p).stats = c.stats ∧ ((unlisted c p).block p).type = (c.block p).type ∧
      (unlisted c p).sStack = if (c.block p).inSStack then c.sStack.erase p else c.sStack := by
    unfold unlisted
    by_cases hs : (c.block p).inSStack = true <;> by_cases hq : (c.block p).inQQueue = true
    all_goals
      simp [hs, hq, LirsCache.delS, LirsCache.delQ]
  obtain ⟨hstats, htype, hs⟩ := hun
  refine ⟨?_, fun hf => ?_, fun hf => ?_⟩
  · show (lirsStatsRemoved (unlisted c p).stats ((unlisted c p).block p)).hirNonResidentCount = _
    unfold lirsStatsRemoved
    rw [htype, hstats]
    cases (c.block p).type <;> rfl
  · exact hs.trans (if_pos hf)
  · exact hs.trans (if_neg (by rw [hf]; decide))

theorem LirsInv.ghosts_removed (h : LirsInv c) (hp : p ∈ c.heap) :
    ghosts (removed c p) + (if (c.block p).type = .hirNonResident then 1 else 0) = ghosts c := by
  obtain ⟨-, -, hheap, hother, -, -⟩ := removed_fields c p
  have hsame : ghosts (removed c p) = typeCount (c.heap.erase p) c.types .hirNonResident := by
    unfold ghosts
    rw [hheap]
    refine List.countP_congr fun q hq => ?_
    show decide (((removed c p).block q).type = _) = true ↔ _
    rw [hother q (h.shape.heapNodup.mem_erase_iff.mp hq).1]
    exact Iff.rfl
  rw [hsame]
  exact (typeCount_erase c.types hp .hirNonResident).symm

/-- **`lirs_remove`** counts its block down if that is a ghost, and prunes S without it. -/
theorem LirsInv.ghosts_remove (h : LirsInv c) (hp : p ∈ c.heap)
    (hle : ghosts c ≤ c.stats.hirNonResidentCount) :
    (lirsRemoveBlock c p).stats.hirNonResidentCount + ghosts c =
      c.stats.hirNonResidentCount + ghosts (lirsRemoveBlock c p) +
        ghostsOn c (c.under (c.sStack.erase p)) := by
  obtain ⟨hinv, -⟩ := h.takeOut hp
  obtain ⟨-, -, -, hother, -, -⟩ := removed_fields c p
  obtain ⟨hcount, hon, hoff⟩ := removed_lists c p
  have hs : (removed c p).sStack = c.sStack.erase p := by
    cases hf : (c.block p).inSStack with
    | true => exact hon hf
    | false =>
      have hnot : p ∉ c.sStack := fun hin => by
        rw [((h.shape.sFlag p).mp hin).2] at hf
        exact absurd hf (by decide)
      rw [hoff hf, List.erase_of_not_mem hnot]
  have hprune := hinv.ghosts_prune
  rw [hs, ghostsOn_under_congr (c := c) fun q hq => congrArg LirsBlock.type
    (hother q (h.shape.sNodup.mem_erase_iff.mp hq).1)] at hprune
  have hrest := h.ghosts_removed hp
  obtain ⟨h1, h2, -⟩ := hprune
  rw [lirsRemoveBlock_eq]
  split_ifs at hcount hrest <;> omega

end

end

/-! ## one operation -/

/-- The block that an operation finds for its key. -/
def LirsCache.found (c : LirsCache) (key : ℕ) : Option ℕ :=
  if key = 0 then none else lirsFindBlock c key

/-- The ghosts that `lirs_get` frees when it finds the block at `p`. -/
def LirsCache.lostGet (c : LirsCache) (p : ℕ) : ℕ :=
  match (c.block p).type with
  | .lir => ghostsOn c (c.under (c.sStack.erase p))
  | .hirResident => if p ∈ c.sStack then ghostsOn c (c.underPromoted p) else 0
  | .hirNonResident => 1 + ghostsOn c (c.under (c.sStack.erase p))

/-- The ghosts that `lirs_put` of a new key frees. -/
def LirsCache.lostPut (c : LirsCache) (size : ℕ) (mem : Option ℕ) : ℕ :=
  if c.full size then ghostsOn c (c.under c.sStack)
  else if mem.isNone then 0
  else ghostsOn c (c.under c.sStack) + if c.evicts.any (¬ c.StaysOnS ·) then 1 else 0

/-- The ghosts that an operation frees without counting them down. -/
def LirsOp.lost (c : LirsCache) : LirsOp → ℕ
  | .get key => ((c.found key).map c.lostGet).getD 0
  | .put key _ size mem =>
    if key = 0 ∨ (lirsFindBlock c key).isSome then 0 else c.lostPut size mem
  | .remove key => ((c.found key).map fun p => ghostsOn c (c.under (c.sStack.erase p))).getD 0

section
variable {c : LirsCache} {p key : ℕ}

theorem LirsReady.ghosts_getFound (h : LirsReady c) (hk : key ≠ 0)
    (hf : lirsFindBlock c key = some p) : GhostChange c (lirsGet c key).1 0 (c.lostGet p) := by
  obtain ⟨hp, -⟩ := h.inv.find_some hf
  have h1 := h.inv.touch hp
  have hle1 : (touched c p).qQueue.length ≤ (touched c p).hirCapacity := h.queue
  have htypes := types_touched c p
  have htype : ∀ q, ((touched c p).block q).type = (c.block q).type := congrFun htypes
  have hquiet : GhostChange c (touched c p) 0 0 :=
    GhostChange.quiet rfl rfl fun q => by rw [htypes]
  have hunder : ghostsOn (touched c p) ((touched c p).under (c.sStack.erase p)) =
      ghostsOn c (c.under (c.sStack.erase p)) := ghostsOn_under_congr fun q _ => congrFun htypes q
  unfold LirsCache.lostGet
  rw [lirsGet_found hk hf]
  rcases ht : (c.block p).type with _ | _ | _
  · have hall := hquiet.after (h1.ghosts_getLir hp ((htype p).trans ht))
    rwa [show (touched c p).sStack = c.sStack from rfl, hunder] at hall
  · dsimp only
    by_cases hs : p ∈ c.sStack
    · have hsame : ghostsOn (touched c p) ((touched c p).underPromoted p) =
          ghostsOn c (c.underPromoted p) := by
        unfold ghostsOn LirsCache.underPromoted
        simp only [htype]
        rfl
      rw [if_pos hs, ← hsame]
      exact hquiet.after (h1.ghosts_getStacked hle1 hs ((htype p).trans ht))
    · rw [if_neg hs, h1.getUnstacked_eq hle1 hp hs]
      refine GhostChange.quiet rfl rfl fun q => ?_
      rw [types_addS, ← htypes]
      exact Iff.rfl
  · have hall := hquiet.after (h1.ghosts_getHirNonResident hp ((htype p).trans ht))
    rwa [show (touched c p).sStack = c.sStack from rfl, hunder] at hall

theorem LirsReady.ghosts_get (h : LirsReady c) (key : ℕ) :
    GhostChange c (lirsGet c key).1 0 (LirsOp.lost c (.get key)) := by
  show GhostChange c (lirsGet c key).1 0 (((c.found key).map c.lostGet).getD 0)
  unfold LirsCache.found
  by_cases hk : key = 0
  · unfold lirsGet
    rw [if_pos hk, if_pos hk]
    exact GhostChange.refl c
  rw [if_neg hk]
  rcases hf : lirsFindBlock c key with _ | p
  · unfold lirsGet
    rw [if_neg hk, hf]
    exact GhostChange.quiet rfl rfl fun _ => Iff.rfl
  · exact h.ghosts_getFound hk hf

/-- Making room loses the ghosts at the bottom of S, and nothing where there is room. -/
theorem LirsReady.ghosts_makeRoom (h : LirsReady c) (size : ℕ) :
    GhostChange c (lirsMakeRoom c size) 0
      (if c.full size then ghostsOn c (c.under c.sStack) else 0) := by
  unfold lirsMakeRoom
  by_cases hfull : c.full size = true
  · rw [if_pos hfull, if_pos hfull, h.inv.evict_self h.queue]
    dsimp only
    by_cases hs : c.sStack.isEmpty = true
    · rw [hs, List.isEmpty_iff.mp hs]
      simpa [LirsCache.under, ghostsOn] using GhostChange.refl c
    · rw [if_pos (by simp [hfull, hs])]
      exact h.inv.ghosts_prune
  · rw [if_neg hfull, if_neg hfull]
    exact GhostChange.refl c

theorem lirsPut_entered (value : ℕ) {size : ℕ} (hk : key ≠ 0) (hf : lirsFindBlock c key = none)
    (hfull : c.full size = false) :
    (lirsPut c key value size (some p)).1 =
      lirsEvictHir (lirsPruneSStack (entered c p key value size)) := by
  have hroom : lirsMakeRoom c size = c := by
    unfold lirsMakeRoom
    exact if_neg (by rw [hfull]; decide)
  unfold lirsPut
  rw [if_neg hk, hf]
  dsimp only
  rw [hroom, if_neg (by rw [hfull]; decide)]
  rfl

/-- **`lirs_put` that enters a block.** -/
theorem LirsReady.ghosts_putEntered (h : LirsReady c) (value : ℕ) {size : ℕ} (hk : key ≠ 0)
    (hf : lirsFindBlock c key = none) (hfull : c.full size = false) (hp : p ∉ c.heap) :
    GhostChange (entered c p key value size) (lirsPut c key value size (some p)).1
      (if c.evicts.isSome then 1 else 0) (c.lostPut size (some p)) := by
  have hnew := h.inv.ghosts_putNew value size h.queue h.hir hp (h.inv.find_none hf)
  have hlost : c.lostPut size (some p) =
      ghostsOn c (c.under c.sStack) + if c.evicts.any (¬ c.StaysOnS ·) then 1 else 0 := by
    unfold LirsCache.lostPut
    rw [hfull]
    rfl
  rw [lirsPut_entered value hk hf hfull, hlost]
  exact hnew

theorem ghosts_putExisting (c : LirsCache) (p value size : ℕ) :
    GhostChange c (lirsPutExisting c p value size) 0 0 := by
  unfold lirsPutExisting
  extract_lets b stats c1
  by_cases hv : b.value ≠ value
  · rw [if_pos hv]
    refine GhostChange.quiet rfl rfl fun q => ?_
    show (Function.update c.block p _ q).type = _ ↔ (c.block q).type = _
    by_cases he : q = p <;> simp [he, b]
  · rw [if_neg hv]
    exact GhostChange.refl c

/-- A key that is in no block of the cache is put. -/
theorem LirsReady.ghosts_putAbsent (h : LirsReady c) (value size : ℕ) {mem : Option ℕ}
    (hk : key ≠ 0) (hf : lirsFindBlock c key = none) (hfresh : ∀ p, mem = some p → p ∉ c.heap) :
    (lirsPut c key value size mem).1.stats.hirNonResidentCount + ghosts c =
      c.stats.hirNonResidentCount + ghosts (lirsPut c key value size mem).1 +
        c.lostPut size mem := by
  have hfullroom := h.inv.full_makeRoom h.queue size
  have hroom := h.ghosts_makeRoom size
  cases hfull : c.full size with
  | true =>
    unfold LirsCache.lostPut lirsPut
    rw [if_neg hk, hf]
    dsimp only
    rw [hfullroom, if_pos hfull, if_pos hfull]
    rw [if_pos hfull] at hroom
    exact hroom.balance
  | false =>
    rw [if_neg (by rw [hfull]; decide)] at hroom
    cases mem with
    | none =>
      unfold LirsCache.lostPut lirsPut
      rw [if_neg hk, hf]
      dsimp only
      rw [hfullroom, hfull]
      exact hroom.balance
    | some p =>
      have hp := hfresh p rfl
      have hput := h.ghosts_putEntered value hk hf hfull hp
      have h1 := hput.counter
      have h2 := hput.ghosts
      rw [hirNonResidentCount_entered] at h1
      rw [ghosts_entered value size hp] at h2
      omega

/-- **One operation**: the counter gets ahead of the ghosts by those that are lost. -/
theorem LirsReady.ghosts_step (h : LirsReady c) (hle : ghosts c ≤ c.stats.hirNonResidentCount)
    {op : LirsOp} (hfresh : op.FreshMemory c) :
    (c.step op).stats.hirNonResidentCount + ghosts c =
      c.stats.hirNonResidentCount + ghosts (c.step op) + op.lost c := by
  cases op with
  | get key => exact (h.ghosts_get key).balance
  | remove key =>
    show (lirsRemove c key).1.stats.hirNonResidentCount + _ = _ + ghosts (lirsRemove c key).1 +
      ((c.found key).map fun p => ghostsOn c (c.under (c.sStack.erase p))).getD 0
    unfold lirsRemove LirsCache.found
    by_cases hk : key = 0
    · rw [if_pos hk, if_pos hk]
      rfl
    rw [if_neg hk, if_neg hk]
    rcases hf : lirsFindBlock c key with _ | p
    · rfl
    · exact h.inv.ghosts_remove (h.inv.find_some hf).1 hle
  | put key value size mem =>
    show (lirsPut c key value size mem).1.stats.hirNonResidentCount + _ =
      _ + ghosts (lirsPut c key value size mem).1 +
        (if key = 0 ∨ (lirsFindBlock c key).isSome then 0 else c.lostPut size mem)
    by_cases hk : key = 0
    · unfold lirsPut
      rw [if_pos hk, if_pos (Or.inl hk)]
      rfl
    rcases hf : lirsFindBlock c key with _ | p
    · rw [if_neg (by simp [hk])]
      exact h.ghosts_putAbsent value size hk hf hfresh
    · rw [if_pos (show key = 0 ∨ (some p).isSome = true from Or.inr rfl)]
      unfold lirsPut
      rw [if_neg hk, hf]
      exact (ghosts_putExisting c p value size).balance

end

/-! ## whole runs -/

/-- The blocks of the hash table, bucket by bucket. -/
def LirsCache.tableBlocks (c : LirsCache) : List ℕ :=
  (List.range (c.hashTableMask + 1)).flatMap c.hashTable

/-- The ghosts of the hash table. -/
def LirsCache.tableGhosts (c : LirsCache) : ℕ :=
  c.tableBlocks.countP fun p => (c.block p).type = .hirNonResident

theorem LirsShape.tableBlocks_perm {c : LirsCache} (h : LirsShape c) :
    c.tableBlocks.Perm c.heap := by
  have hnd : c.tableBlocks.Nodup := by
    refine List.nodup_flatMap.mpr ⟨fun i _ => h.bucketNodup i, ?_⟩
    refine List.nodup_range.imp fun {i j} hne => ?_
    rw [Function.onFun, List.disjoint_left]
    intro p hi hj
    exact hne (((h.bucket i p).mp hi).2.symm.trans ((h.bucket j p).mp hj).2)
  refine (List.perm_ext_iff_of_nodup hnd h.heapNodup).mpr fun p => ?_
  unfold LirsCache.tableBlocks
  rw [List.mem_flatMap]
  constructor
  · rintro ⟨i, -, hp⟩
    exact ((h.bucket i p).mp hp).1
  · intro hp
    refine ⟨c.bucket (c.block p).key, ?_, (h.bucket _ p).mpr ⟨hp, rfl⟩⟩
    have hle : c.bucket (c.block p).key ≤ c.hashTableMask := Nat.and_le_right
    exact List.mem_range.mpr (by omega)

theorem LirsShape.tableGhosts_eq {c : LirsCache} (h : LirsShape c) : c.tableGhosts = ghosts c :=
  h.tableBlocks_perm.countP_eq _

theorem lirsCreate_ghosts {capacity maxSize : ℕ} {cacheOk tableOk : Bool} {c : LirsCache}
    (hc : lirsCreate capacity maxSize cacheOk tableOk = some c) (callback : Bool) :
    (lirsSetEvictCallback c callback).stats.hirNonResidentCount = 0 ∧
      ghosts (lirsSetEvictCallback c callback) = 0 := by
  unfold lirsCreate at hc
  rcases cacheOk with _ | _
  · exact absurd hc (by simp)
  cases hsize : hashSizeLoop 65 1 (capacity * 2 % wordSize) with
  | none =>
    rw [hsize] at hc
    exact absurd hc (by simp)
  | some hashSize =>
    rw [hsize] at hc
    rcases tableOk with _ | _
    · exact absurd hc (by simp)
    cases hc
    exact ⟨rfl, rfl⟩

/-- **`hir_non_resident_count`** is at least the number of ghosts, so that `lirs_remove` never wraps
it, and it is that number all along a run exactly when no operation of the run loses a ghost. -/
theorem ghost_counter_iff {capacity maxSize : ℕ} {cacheOk tableOk : Bool} {c : LirsCache}
    (hc : lirsCreate capacity maxSize cacheOk tableOk = some c) (callback : Bool)
    (ops : List LirsOp)
    (hfresh : Runs.Each LirsCache.step LirsOp.FreshMemory (lirsSetEvictCallback c callback) ops) :
    Runs.Always LirsCache.step (fun c => c.tableGhosts ≤ c.stats.hirNonResidentCount)
        (lirsSetEvictCallback c callback) ops ∧
      (Runs.Always LirsCache.step (fun c => c.stats.hirNonResidentCount = c.tableGhosts)
          (lirsSetEvictCallback c callback) ops ↔
        Runs.Each LirsCache.step (fun c op => op.lost c = 0)
          (lirsSetEvictCallback c callback) ops) := by
  have hready := lirsCreate_ready hc callback
  obtain ⟨hcount, hzero⟩ := lirsCreate_ghosts hc callback
  refine ⟨?_, ?_⟩
  · have hstep : ∀ (s : LirsCache) (op : LirsOp),
        LirsReady s ∧ ghosts s ≤ s.stats.hirNonResidentCount → op.FreshMemory s →
          LirsReady (s.step op) ∧ ghosts (s.step op) ≤ (s.step op).stats.hirNonResidentCount := by
      intro s op hs hf
      have h1 := hs.1.ghosts_step hs.2 hf
      exact ⟨hs.1.step hf, by omega⟩
    refine (Runs.inv_always hstep ⟨hready, by omega⟩ hfresh).mono fun s hs => ?_
    rw [hs.1.inv.shape.tableGhosts_eq]
    exact hs.2
  · have hstep : ∀ (s : LirsCache) (op : LirsOp),
        LirsReady s ∧ s.stats.hirNonResidentCount = ghosts s → op.FreshMemory s → op.lost s = 0 →
          LirsReady (s.step op) ∧
            (s.step op).stats.hirNonResidentCount = ghosts (s.step op) := by
      intro s op hs hf hlost
      have h1 := hs.1.ghosts_step hs.2.ge hf
      exact ⟨hs.1.step hf, by omega⟩
    refine Runs.always_iff_each_of hstep (fun s hs => ?_) (fun s op hs hf hlost hnext => ?_)
      ⟨hready, by omega⟩ hfresh
    · rw [hs.1.inv.shape.tableGhosts_eq]
      exact hs.2
    · have h1 := hs.1.ghosts_step hs.2.ge hf
      rw [(hs.1.step hf).inv.shape.tableGhosts_eq] at hnext
      exact hlost (by omega)

/-- A ghost is made, and removed. -/
theorem ghost_counter_run :
    let start := lirsSetEvictCallback ((lirsCreate 3 1000 true true).get rfl) false
    let ops : List LirsOp := [.put 16 1 1 (some 100), .put 32 2 1 (some 200),
      .put 48 3 1 (some 300), .put 64 4 1 (some 400), .remove 32]
    Runs.Always LirsCache.step (fun c => c.tableGhosts ≤ c.stats.hirNonResidentCount) start ops ∧
      (Runs.Always LirsCache.step (fun c => c.stats.hirNonResidentCount = c.tableGhosts) start ops ↔
        Runs.Each LirsCache.step (fun c op => op.lost c = 0) start ops) := by
  refine ghost_counter_iff (Option.some_get _).symm false _ ?_
  refine ⟨fun p hp => ?_, fun p hp => ?_, fun p hp => ?_, fun p hp => ?_, trivial, trivial⟩
  all_goals
    cases hp
    decide +kernel

/-- The same ghost is read, and the counter stays at one. -/
theorem ghost_read_uncounted :
    ∃ c, lirsCreate 3 1000 true true = some c ∧ ∃ ops : List LirsOp,
      Runs.Each LirsCache.step LirsOp.FreshMemory c ops ∧
      (Runs.after LirsCache.step c ops).stats.hirNonResidentCount = 1 ∧
      (Runs.after LirsCache.step c ops).tableGhosts = 0 := by
  refine ⟨(lirsCreate 3 1000 true true).get rfl, (Option.some_get _).symm,
    [.put 16 1 1 (some 100), .put 32 2 1 (some 200), .put 48 3 1 (some 300),
      .put 64 4 1 (some 400), .get 32], ?_, by decide +kernel, by decide +kernel⟩
  refine ⟨fun p hp => ?_, fun p hp => ?_, fun p hp => ?_, fun p hp => ?_, trivial, trivial⟩
  all_goals
    cases hp
    decide +kernel

end Nomalloc
