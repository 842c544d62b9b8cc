import Mathlib.Tactic
import Nomalloc.Lib.Hops
import Nomalloc.Utils.Math

/-!
# Which node is best?

`numa_get_best_node_for_size` (`os/numa.h`) starts at the preferred node and scans all nodes for one
that is near and has more free memory.  The distance it tests is the one from the best node so far,
not from the preferred one.

* `BestNear`             the node returned is near the preferred one, and no near one has more memory;
* `Arrives`              the nodes where the scan stops on its way;
* `bestNear_scan_iff`    with a given free memory `BestNear` holds exactly when a near node with the
                         most memory is one where the scan arrives and stays;
* `numa_best_iff`        whatever the free memory is, it holds exactly when the nodes near the preferred
                         one have the same nodes behind them near.
-/

namespace Nomalloc

def NUMA_DEFAULT_NODE : ℤ := -1

/-- The fields of `struct numa_topology` that the choice of a node reads. -/
structure NumaTopology where
  available : Bool
  numNodes : ℤ
  freeMemory : ℤ → ℕ
  nodeDistances : ℤ → ℤ → ℤ
  preferredNode : ℤ

/-- `numa_is_available` -/
def numaIsAvailable (t : NumaTopology) : Bool := t.available

/-- `numa_get_node_free_memory` -/
def numaGetNodeFreeMemory (t : NumaTopology) (node : ℤ) : ℕ :=
  if node < 0 ∨ t.numNodes ≤ node then 0 else t.freeMemory node

/-- `numa_get_node_distance` -/
def numaGetNodeDistance (t : NumaTopology) (node1 node2 : ℤ) : ℤ :=
  if node1 < 0 ∨ t.numNodes ≤ node1 ∨ node2 < 0 ∨ t.numNodes ≤ node2 then 255
  else t.nodeDistances node1 node2

namespace NumaTopology

/-- The values that the loop over the nodes goes through. -/
def nodes (t : NumaTopology) : List ℤ := (List.range t.numNodes.toNat).map (↑)

/-- The body of the loop of `numa_get_best_node_for_size`, on `best_node` and `best_free`. -/
def bestStep (t : NumaTopology) (best : ℤ × ℕ) (i : ℤ) : ℤ × ℕ :=
  if i ≠ best.1 then
    let free := numaGetNodeFreeMemory t i
    let dist := numaGetNodeDistance t best.1 i
    if best.2 < free ∧ dist < 20 then (i, free) else best
  else best

end NumaTopology

/-- `numa_get_best_node_for_size` -/
def numaGetBestNodeForSize (t : NumaTopology) (_size : ℕ) : ℤ :=
  if !numaIsAvailable t then NUMA_DEFAULT_NODE
  else (t.nodes.foldl t.bestStep (t.preferredNode, numaGetNodeFreeMemory t t.preferredNode)).1

namespace NumaTopology

/-- The numbers of the nodes. -/
def Valid (t : NumaTopology) (node : ℤ) : Prop := 0 ≤ node ∧ node < t.numNodes

/-- Nodes at a distance less than 20. -/
def Near (t : NumaTopology) (node1 node2 : ℤ) : Prop := numaGetNodeDistance t node1 node2 < 20

/-- The node is the preferred one or near it, and no node near the preferred one has more memory. -/
def BestNear (t : NumaTopology) (node : ℤ) : Prop :=
  (node = t.preferredNode ∨ t.Near t.preferredNode node) ∧
    ∀ k, t.Valid k → t.Near t.preferredNode k →
      numaGetNodeFreeMemory t k ≤ numaGetNodeFreeMemory t node

/-- A node that the scan moves to. -/
def Better (t : NumaTopology) (node1 node2 : ℤ) : Prop :=
  numaGetNodeFreeMemory t node1 < numaGetNodeFreeMemory t node2 ∧ t.Near node1 node2

instance (t : NumaTopology) (a b : ℤ) : Decidable (t.Near a b) :=
  inferInstanceAs (Decidable (_ < _))

instance (t : NumaTopology) (a b : ℤ) : Decidable (t.Better a b) :=
  inferInstanceAs (Decidable (_ ∧ _))

/-- The nodes where one arrives from the preferred one, going each time to the first node, of those
with a higher number, that has more memory and is near the one left. -/
def Arrives (t : NumaTopology) : ℤ → Prop := Hops.Stop t.Better t.preferredNode t.nodes

/-- No node near the preferred one has more memory; or one that has the most of those near is
arrived at and not left again. -/
def ArrivesAtBest (t : NumaTopology) : Prop :=
  t.BestNear t.preferredNode ∨
    ∃ z, t.Arrives z ∧ t.BestNear z ∧ ∀ j, t.Valid j → z < j → t.Near z j →
      numaGetNodeFreeMemory t j ≤ numaGetNodeFreeMemory t z

/-- A node near the preferred one has the same nodes behind it near as the preferred one. -/
def DistancesAgree (t : NumaTopology) : Prop :=
  ∀ a j, t.Valid a → t.Near t.preferredNode a → t.Valid j → a < j → j ≠ t.preferredNode →
    (t.Near a j ↔ t.Near t.preferredNode j)

section
variable {t : NumaTopology} {a i j k p : ℤ}

theorem mem_nodes : i ∈ t.nodes ↔ t.Valid i := by
  unfold nodes Valid
  rw [List.mem_map]
  constructor
  · rintro ⟨n, hn, rfl⟩
    have := List.mem_range.mp hn
    omega
  · rintro ⟨h0, h1⟩
    exact ⟨i.toNat, List.mem_range.mpr (by omega), by omega⟩

theorem pairwise_nodes (t : NumaTopology) : t.nodes.Pairwise (· < ·) := by
  unfold nodes
  rw [List.pairwise_map]
  exact List.pairwise_lt_range.imp fun h => by omega

theorem Near.valid (h : t.Near a i) : t.Valid a ∧ t.Valid i := by
  unfold Near numaGetNodeDistance at h
  unfold Valid
  split_ifs at h with hv
  · exact absurd h (by decide)
  · omega

theorem Better.ne (h : t.Better a i) : a ≠ i := by
  rintro rfl
  exact lt_irrefl _ h.1

/-- The loop carries the memory of the node it is at, and moves to what is better. -/
theorem foldl_bestStep (l : List ℤ) (b : ℤ) :
    l.foldl t.bestStep (b, numaGetNodeFreeMemory t b) =
      (Hops.scan t.Better b l, numaGetNodeFreeMemory t (Hops.scan t.Better b l)) := by
  induction l generalizing b with
  | nil => rfl
  | cons i l ih =>
    have hstep : t.bestStep (b, numaGetNodeFreeMemory t b) i =
        (if t.Better b i then i else b,
          numaGetNodeFreeMemory t (if t.Better b i then i else b)) := by
      unfold bestStep
      dsimp only
      by_cases hb : t.Better b i
      · rw [if_pos hb.ne.symm, if_pos hb]
        exact if_pos hb
      · rw [if_neg hb]
        by_cases hi : i = b
        · rw [if_neg (not_not.mpr hi)]
        · rw [if_pos hi]
          exact if_neg hb
    rw [List.foldl_cons, hstep, ih]
    rfl

theorem numaGetBestNodeForSize_eq (havail : t.available = true) (size : ℕ) :
    numaGetBestNodeForSize t size = Hops.scan t.Better t.preferredNode t.nodes := by
  unfold numaGetBestNodeForSize numaIsAvailable
  rw [havail, foldl_bestStep]
  rfl

theorem scan_cases (t : NumaTopology) :
    (Hops.scan t.Better t.preferredNode t.nodes = t.preferredNode ∧
        ∀ j ∈ t.nodes, ¬ t.Better t.preferredNode j) ∨
      (t.Arrives (Hops.scan t.Better t.preferredNode t.nodes) ∧
        ∀ j ∈ t.nodes, Hops.scan t.Better t.preferredNode t.nodes < j →
          ¬ t.Better (Hops.scan t.Better t.preferredNode t.nodes) j) :=
  Hops.scan_spec t.pairwise_nodes t.preferredNode

theorem Arrives.more (h : t.Arrives i) :
    numaGetNodeFreeMemory t t.preferredNode < numaGetNodeFreeMemory t i := by
  induction h with
  | first _ h _ => exact h.1
  | next _ _ _ h _ ih => exact ih.trans h.1

/-- Nothing better lies behind: no node there that is near has more memory. -/
theorem stays_iff : (∀ j ∈ t.nodes, p < j → ¬ t.Better p j) ↔
    ∀ j, t.Valid j → p < j → t.Near p j →
      numaGetNodeFreeMemory t j ≤ numaGetNodeFreeMemory t p := by
  constructor
  · intro h j hj hlt hnear
    exact not_lt.mp fun hmore => h j (mem_nodes.mpr hj) hlt ⟨hmore, hnear⟩
  · intro h j hj hlt hb
    exact absurd hb.1 (not_lt.mpr (h j (mem_nodes.mp hj) hlt hb.2))

/-- The way ends at the best node exactly when it leads there. -/
theorem bestNear_scan_iff :
    t.BestNear (Hops.scan t.Better t.preferredNode t.nodes) ↔ t.ArrivesAtBest := by
  constructor
  · intro h
    rcases t.scan_cases with ⟨he, -⟩ | ⟨hs, hno⟩
    · rw [he] at h
      exact Or.inl h
    · exact Or.inr ⟨_, hs, h, stays_iff.mp hno⟩
  · rintro (h | ⟨z, hz, hbest, hstay⟩)
    · have hself : Hops.scan t.Better t.preferredNode t.nodes = t.preferredNode :=
        Hops.scan_eq_self fun j hj hb => not_lt.mpr (h.2 j (mem_nodes.mp hj) hb.2) hb.1
      rw [hself]
      exact h
    · rw [Hops.scan_eq_of_stop t.pairwise_nodes hz (stays_iff.mpr hstay)]
      exact hbest

/-- Where the distances agree, the way stays near and passes over no near node with more memory. -/
theorem Arrives.near (h : t.Arrives i) (hd : t.DistancesAgree) :
    t.Near t.preferredNode i ∧ ∀ k, k < i → t.Valid k → t.Near t.preferredNode k →
      numaGetNodeFreeMemory t k ≤ numaGetNodeFreeMemory t i := by
  induction h with
  | first hi hb hno =>
    refine ⟨hb.2, fun k hk hv hnear => ?_⟩
    have hle := not_lt.mp fun hmore => hno k (mem_nodes.mpr hv) hk ⟨hmore, hnear⟩
    exact (hle.trans_lt hb.1).le
  | @next a i ha hi hai hb hno ih =>
    obtain ⟨hnear, hpassed⟩ := ih
    have hv := mem_nodes.mp ha.mem
    have hmore := Arrives.more ha
    have hne : i ≠ t.preferredNode := by
      rintro rfl
      exact lt_asymm hmore hb.1
    refine ⟨(hd a i hv hnear (mem_nodes.mp hi) hai hne).mp hb.2, fun k hk hvk hnk => ?_⟩
    rcases lt_trichotomy k a with hlt | rfl | hgt
    · exact ((hpassed k hlt hvk hnk).trans_lt hb.1).le
    · exact hb.1.le
    · by_cases hkp : k = t.preferredNode
      · rw [hkp]
        exact (hmore.trans hb.1).le
      · have hka := (hd a k hv hnear hvk hgt hkp).mpr hnk
        have hle := not_lt.mp fun hm => hno k (mem_nodes.mpr hvk) hgt hk ⟨hm, hka⟩
        exact (hle.trans_lt hb.1).le

/-- Where the distances agree, the way ends at the best node. -/
theorem DistancesAgree.arrivesAtBest (hd : t.DistancesAgree) : t.ArrivesAtBest := by
  rcases t.scan_cases with ⟨-, hno⟩ | ⟨harrives, hno⟩
  · exact Or.inl ⟨Or.inl rfl, fun k hk hnear =>
      not_lt.mp fun hmore => hno k (mem_nodes.mpr hk) ⟨hmore, hnear⟩⟩
  · generalize Hops.scan t.Better t.preferredNode t.nodes = z at harrives hno
    obtain ⟨hnear, hpassed⟩ := harrives.near hd
    refine Or.inr ⟨z, harrives, ⟨Or.inr hnear, fun k hk hnk => ?_⟩, stays_iff.mp hno⟩
    rcases lt_trichotomy k z with hlt | rfl | hgt
    · exact hpassed k hlt hk hnk
    · exact le_rfl
    · by_cases hkp : k = t.preferredNode
      · rw [hkp]
        exact harrives.more.le
      · have hkz := (hd z k hnear.valid.2 hnear hk hgt hkp).mpr hnk
        exact stays_iff.mp hno k hk hgt hkz

end

/-- The free memory where `a` has some, `j` more, and no other node any. -/
def twoNodes (a j i : ℤ) : ℕ := if i = j then 2 else if i = a then 1 else 0

theorem twoNodes_lt (a j i : ℤ) : twoNodes a j i < wordSize := by
  unfold twoNodes
  split_ifs <;> decide

section
variable {t : NumaTopology} {a j : ℤ}

theorem freeMemory_twoNodes {i : ℤ} (hi : t.Valid i) :
    numaGetNodeFreeMemory { t with freeMemory := twoNodes a j } i = twoNodes a j i :=
  if_neg (not_or.mpr ⟨not_lt.mpr hi.1, not_le.mpr hi.2⟩)

/-- With such memory the scan goes to `a`, and from there to `j` if `j` is near `a`. -/
theorem arrives_twoNodes (hp : t.Valid t.preferredNode) (ha : t.Valid a)
    (hnear : t.Near t.preferredNode a) (haj : a < j) (hap : a ≠ t.preferredNode)
    (hjp : j ≠ t.preferredNode) :
    Arrives { t with freeMemory := twoNodes a j } a := by
  have hpref : numaGetNodeFreeMemory { t with freeMemory := twoNodes a j } t.preferredNode = 0 := by
    rw [freeMemory_twoNodes hp]
    unfold twoNodes
    rw [if_neg hjp.symm, if_neg hap.symm]
  refine Hops.Stop.first (mem_nodes.mpr ha) ⟨?_, hnear⟩ fun k hk hka hb => ?_
  · show numaGetNodeFreeMemory _ t.preferredNode < _
    rw [hpref, freeMemory_twoNodes ha]
    unfold twoNodes
    rw [if_neg haj.ne, if_pos rfl]
    exact Nat.one_pos
  · have hmore : numaGetNodeFreeMemory { t with freeMemory := twoNodes a j } t.preferredNode < _ :=
      hb.1
    rw [hpref, freeMemory_twoNodes (mem_nodes.mp hk)] at hmore
    unfold twoNodes at hmore
    rw [if_neg (hka.trans haj).ne, if_neg hka.ne] at hmore
    exact lt_irrefl 0 hmore

/-- Nodes whose distances disagree are passed over, or moved to, with such memory. -/
theorem not_bestNear_twoNodes (hp : t.Valid t.preferredNode) (ha : t.Valid a)
    (hnear : t.Near t.preferredNode a) (hj : t.Valid j) (haj : a < j) (hjp : j ≠ t.preferredNode)
    (hno : ¬ (t.Near a j ↔ t.Near t.preferredNode j)) :
    ¬ BestNear { t with freeMemory := twoNodes a j }
      (Hops.scan (Better { t with freeMemory := twoNodes a j }) t.preferredNode t.nodes) := by
  have hap : a ≠ t.preferredNode := by
    rintro rfl
    exact hno Iff.rfl
  have harrives := arrives_twoNodes hp ha hnear haj hap hjp
  have hfreea : numaGetNodeFreeMemory { t with freeMemory := twoNodes a j } a = 1 := by
    rw [freeMemory_twoNodes ha]
    unfold twoNodes
    rw [if_neg haj.ne, if_pos rfl]
  have hfreej : numaGetNodeFreeMemory { t with freeMemory := twoNodes a j } j = 2 := by
    rw [freeMemory_twoNodes hj]
    exact if_pos rfl
  -- behind `a` only `j` has more memory than it
  have hothers : ∀ k, t.Valid k → a < k →
      ¬ (k ≠ j ∧ Better { t with freeMemory := twoNodes a j } a k) := by
    rintro k hk hak ⟨hkj, hb⟩
    have hmore : numaGetNodeFreeMemory { t with freeMemory := twoNodes a j } a < _ := hb.1
    rw [hfreea, freeMemory_twoNodes hk] at hmore
    unfold twoNodes at hmore
    rw [if_neg hkj, if_neg hak.ne'] at hmore
    exact Nat.not_lt_zero _ hmore
  by_cases haj' : t.Near a j
  · -- `j` is not near the preferred node
    have hstop : Arrives { t with freeMemory := twoNodes a j } j := by
      refine Hops.Stop.next harrives (mem_nodes.mpr hj) haj ⟨?_, haj'⟩ fun k hk hak hkj hb =>
        hothers k (mem_nodes.mp hk) hak ⟨hkj.ne, hb⟩
      rw [hfreea, hfreej]
      exact Nat.one_lt_two
    have hend := Hops.scan_eq_of_stop (pairwise_nodes _) hstop fun k hk hjk hb => by
      have hmore : numaGetNodeFreeMemory { t with freeMemory := twoNodes a j } j < _ := hb.1
      rw [hfreej, freeMemory_twoNodes (mem_nodes.mp hk)] at hmore
      unfold twoNodes at hmore
      rw [if_neg hjk.ne', if_neg (haj.trans hjk).ne'] at hmore
      exact Nat.not_lt_zero _ hmore
    have hend' : Hops.scan (Better { t with freeMemory := twoNodes a j }) t.preferredNode t.nodes =
        j := hend
    rw [hend']
    rintro ⟨hj' | hj', -⟩
    · exact hjp hj'
    · exact hno ⟨fun _ => hj', fun _ => haj'⟩
  · -- `j` is near the preferred node and passed over
    have hjnear : t.Near t.preferredNode j := by
      by_contra hn
      exact hno ⟨fun h => absurd h haj', fun h => absurd h hn⟩
    have hend := Hops.scan_eq_of_stop (pairwise_nodes _) harrives fun k hk hak hb => by
      by_cases hkj : k = j
      · exact haj' (hkj ▸ hb.2)
      · exact hothers k (mem_nodes.mp hk) hak ⟨hkj, hb⟩
    have hend' : Hops.scan (Better { t with freeMemory := twoNodes a j }) t.preferredNode t.nodes =
        a := hend
    rw [hend']
    rintro ⟨-, hmax⟩
    have hle := hmax j hj hjnear
    rw [hfreea, hfreej] at hle
    exact absurd hle (by decide)

end

end NumaTopology

/-- **The best node.**  Whatever the free memory of the nodes is, `numa_get_best_node_for_size` returns
a best near node, exactly when the distances agree. -/
theorem numa_best_iff (t : NumaTopology) (size : ℕ) (havail : t.available = true)
    (hp : t.Valid t.preferredNode) :
    (∀ free : ℤ → ℕ, (∀ i, free i < wordSize) →
        NumaTopology.BestNear { t with freeMemory := free }
          (numaGetBestNodeForSize { t with freeMemory := free } size)) ↔
      t.DistancesAgree := by
  constructor
  · intro h a j ha hnear hj haj hjp
    by_contra hno
    have hbest := h (NumaTopology.twoNodes a j) (NumaTopology.twoNodes_lt a j)
    have hscan := NumaTopology.numaGetBestNodeForSize_eq
      (t := { t with freeMemory := NumaTopology.twoNodes a j }) havail size
    rw [hscan] at hbest
    exact NumaTopology.not_bestNear_twoNodes hp ha hnear hj haj hjp hno hbest
  · intro hd free _
    have hd' : NumaTopology.DistancesAgree { t with freeMemory := free } := hd
    have hscan := NumaTopology.numaGetBestNodeForSize_eq (t := { t with freeMemory := free })
      havail size
    rw [hscan]
    exact NumaTopology.bestNear_scan_iff.mpr hd'.arrivesAtBest

/-- Three nodes in a row: the outer two are far from each other. -/
def threeNodes : NumaTopology where
  available := true
  numNodes := 3
  freeMemory i := i.toNat
  nodeDistances i j := 10 + 6 * (i - j).natAbs
  preferredNode := 0

theorem numa_best_three :
    (∀ free : ℤ → ℕ, (∀ i, free i < wordSize) →
        NumaTopology.BestNear { threeNodes with freeMemory := free }
          (numaGetBestNodeForSize { threeNodes with freeMemory := free } 4096)) ↔
      threeNodes.DistancesAgree :=
  numa_best_iff threeNodes 4096 rfl ⟨by decide, by decide⟩

/-- From node 0 the scan goes to node 1 and on to node 2, which is far from node 0. -/
theorem numa_best_strays :
    threeNodes.available = true ∧ threeNodes.Valid threeNodes.preferredNode ∧
      numaGetBestNodeForSize threeNodes 4096 = 2 ∧
      ¬ threeNodes.BestNear (numaGetBestNodeForSize threeNodes 4096) := by
  have hbest : numaGetBestNodeForSize threeNodes 4096 = 2 := by decide
  refine ⟨rfl, ⟨by decide, by decide⟩, hbest, ?_⟩
  rw [hbest]
  rintro ⟨hfar | hfar, -⟩
  · exact absurd hfar (by decide)
  · exact absurd hfar (by decide)

end Nomalloc
