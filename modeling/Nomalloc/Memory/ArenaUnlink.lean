import Nomalloc.Memory.ArenaLinks

/-!
# Unlinking a chunk from an arena

`arena_free` unmaps a chunk of a large request of which almost nothing was charged, so chunks go as
well as come.  Such a chunk is on `arena->list` only, and its node knows its neighbours there
(`LargeLinked`); the node of a chunk that serves a class leads astray (`ArenaInv`), and is never
unlinked.

`LargeLinked.link`, `LargeLinked.del` and `ArenaHeads.del` say what linking a chunk and unlinking
one of a large request leave of this.
-/

namespace Nomalloc

/-- The neighbours of the chunk of a large request are known: it is on `arena->list` only. -/
def LargeLinked (l : Links ArenaNode) (xs : List (ℕ × Option ℕ)) : Prop :=
  ∀ as p bs, xs = as ++ (p, none) :: bs →
    l.prev (.chunk p) = (ArenaNode.list :: nodes as).getLast? ∧
      l.next (.chunk p) = some ((nodes bs).head?.getD .list)

section
variable {a a' : Arena} {xs : List (ℕ × Option ℕ)} {p : ℕ}

theorem LargeLinked.link {l l' : Links ArenaNode} (h : LargeLinked l xs)
    (hnd : (ArenaNode.list :: nodes xs).Nodup)
    (hp : ∀ n ∈ ArenaNode.list :: nodes xs, n ≠ .chunk p ∧ ∀ c, n ≠ .chunksFree c)
    {z : ArenaNode} (hlast : (ArenaNode.list :: nodes xs).getLast? = some z) {o : Option ℕ}
    (hl : LinkedChunk l l' z p o) : LargeLinked l' (xs ++ [(p, o)]) := by
  intro as q bs he
  rcases List.eq_nil_or_concat' bs with rfl | ⟨bs', y, rfl⟩
  · -- the new chunk
    obtain ⟨rfl, hx⟩ := List.append_inj' he rfl
    obtain ⟨rfl, rfl⟩ := Prod.mk.inj (List.cons.inj hx).1
    rw [hlast, hl.prevSelf, hl.self]
    exact ⟨rfl, rfl⟩
  · rw [← List.cons_append, ← List.append_assoc] at he
    obtain ⟨rfl, hx⟩ := List.append_inj' he rfl
    have hy := (List.cons.inj hx).1
    subst hy
    obtain ⟨h1, h2⟩ := h as q bs' rfl
    have hmem : ArenaNode.chunk q ∈ ArenaNode.list :: nodes (as ++ (q, none) :: bs') :=
      List.mem_cons_of_mem _ (mem_nodes.mpr ⟨q, by simp, rfl⟩)
    obtain ⟨hqp, hqc⟩ := hp _ hmem
    refine ⟨(hl.prev _ hqp (by simp) fun c _ => hqc c).trans h1, ?_⟩
    cases bs' with
    | nil =>
      -- it was the last one
      have hz : z = .chunk q := by
        rw [nodes_append, ← List.cons_append] at hlast
        exact (Option.some.inj (List.getLast?_concat.symm.trans hlast)).symm
      rw [← hz, hl.behind]
      rfl
    | cons y bs' =>
      have hz : ArenaNode.chunk q ≠ z := by
        rintro rfl
        rw [nodes_append, ← List.cons_append] at hnd hlast
        have hin : ArenaNode.chunk q ∈ nodes (y :: bs') := by
          rw [List.getLast?_append] at hlast
          exact List.mem_of_getLast? hlast
        have hout := (List.nodup_append.mp hnd).2.1
        exact (List.nodup_cons.mp hout).1 hin
      rw [hl.next _ hqp hz fun c _ => hqc c, h2]
      rfl

theorem last_nodes_append {as bs : List (ℕ × Option ℕ)} (hbs : bs ≠ []) :
    (ArenaNode.list :: nodes (as ++ bs)).getLast? = (nodes bs).getLast? := by
  obtain ⟨bs', y, rfl⟩ := (List.eq_nil_or_concat' bs).resolve_left hbs
  rw [← List.append_assoc, nodes_append, nodes_append, ← List.cons_append]
  have hlast : nodes [y] = [.chunk y.1] := rfl
  rw [hlast, List.getLast?_concat, nodes_append, hlast, List.getLast?_concat]

/-- What `list_del` of the chunk of a large request writes. -/
structure UnlinkedChunk (l l' : Links ArenaNode) (p : ℕ) (as bs : List (ℕ × Option ℕ)) : Prop where
  next : ∀ n z, (ArenaNode.list :: nodes as).getLast? = some z → n ≠ .chunk p →
    l'.next n = if n = z then some ((nodes bs).head?.getD .list) else l.next n
  prev : ∀ n, n ≠ .chunk p →
    l'.prev n = if n = (nodes bs).head?.getD .list then (ArenaNode.list :: nodes as).getLast?
      else l.prev n
  fault : l'.fault = l.fault

theorem LargeLinked.unlinked {l : Links ArenaNode} {as bs : List (ℕ × Option ℕ)}
    (h : LargeLinked l (as ++ (p, none) :: bs)) :
    UnlinkedChunk l (listDel l (.chunk p)) p as bs := by
  obtain ⟨hprev, hnext⟩ := h as p bs rfl
  obtain ⟨z, hz⟩ : ∃ z, (ArenaNode.list :: nodes as).getLast? = some z :=
    ⟨_, List.getLast?_eq_some_getLast (List.cons_ne_nil _ _)⟩
  rw [CircList.listDel_eq (hprev.trans hz) hnext]
  refine ⟨fun n z' hz' hn => ?_, fun n hn => ?_, rfl⟩
  · have he : z = z' := Option.some.inj (hz.symm.trans hz')
    subst he
    dsimp only
    rw [Function.update_of_ne hn, Function.update_apply]
  · dsimp only
    rw [Function.update_of_ne hn, Function.update_apply, hz]

theorem nodes_ne {as bs : List (ℕ × Option ℕ)}
    (hnd : (ArenaNode.list :: nodes (as ++ (p, none) :: bs)).Nodup) {n m : ArenaNode}
    (hn : n ∈ ArenaNode.list :: nodes as) (hm : m ∈ nodes bs) : n ≠ m := by
  rw [nodes_append, ← List.cons_append] at hnd
  exact (List.nodup_append.mp hnd).2.2 n hn m (List.mem_cons_of_mem _ hm)

section
variable {l l' : Links ArenaNode} {as bs : List (ℕ × Option ℕ)} {q : ℕ}

theorem chunk_notMem (hnd : (ArenaNode.list :: nodes (as ++ (p, none) :: bs)).Nodup) :
    ArenaNode.chunk p ∉ ArenaNode.list :: nodes as ∧ ArenaNode.chunk p ∉ nodes bs := by
  rw [nodes_append, ← List.cons_append] at hnd
  obtain ⟨-, hbs, hdis⟩ := List.nodup_append.mp hnd
  exact ⟨fun hin => hdis _ hin _ List.mem_cons_self rfl, (List.nodup_cons.mp hbs).1⟩

/-- A chunk for a large request behind the one that goes keeps its neighbours, or gets new ones. -/
theorem LargeLinked.del_behind {bs0 bs1 : List (ℕ × Option ℕ)}
    (h : LargeLinked l (as ++ (p, none) :: (bs0 ++ (q, none) :: bs1)))
    (hnd : (ArenaNode.list :: nodes (as ++ (p, none) :: (bs0 ++ (q, none) :: bs1))).Nodup)
    (hu : UnlinkedChunk l l' p as (bs0 ++ (q, none) :: bs1)) :
    l'.prev (.chunk q) = (ArenaNode.list :: nodes (as ++ bs0)).getLast? ∧
      l'.next (.chunk q) = some ((nodes bs1).head?.getD .list) := by
  obtain ⟨z, hz⟩ : ∃ z, (ArenaNode.list :: nodes as).getLast? = some z :=
    ⟨_, List.getLast?_eq_some_getLast (List.cons_ne_nil _ _)⟩
  obtain ⟨h1, h2⟩ := h (as ++ (p, none) :: bs0) q bs1 (by simp)
  have hq : ArenaNode.chunk q ∈ nodes (bs0 ++ (q, none) :: bs1) :=
    mem_nodes.mpr ⟨q, by simp, rfl⟩
  have hqp : ArenaNode.chunk q ≠ .chunk p := fun hqp => (chunk_notMem hnd).2 (hqp ▸ hq)
  rw [hu.next _ z hz hqp, if_neg (nodes_ne hnd (List.mem_of_getLast? hz) hq).symm, hu.prev _ hqp]
  refine ⟨?_, h2⟩
  cases bs0 with
  | nil =>
    rw [List.append_nil]
    exact if_pos rfl
  | cons y bs0 =>
    have hqy : ¬ ArenaNode.chunk q = (nodes (y :: bs0 ++ (q, none) :: bs1)).head?.getD .list := by
      rw [nodes_append, ← List.cons_append] at hnd
      have hout := (List.nodup_cons.mp (List.nodup_append.mp hnd).2.1).2
      have hnot : ArenaNode.chunk y.1 ∉ nodes (bs0 ++ (q, none) :: bs1) :=
        (List.nodup_cons.mp hout).1
      intro heq
      have hy : ArenaNode.chunk q = .chunk y.1 := heq
      exact hnot (hy ▸ mem_nodes.mpr ⟨q, by simp, rfl⟩)
    rw [if_neg hqy, h1, last_nodes_append (List.cons_ne_nil _ _),
      last_nodes_append (List.cons_ne_nil _ _)]
    exact List.getLast?_cons_cons

/-- So does one before it. -/
theorem LargeLinked.del_before {as1 as2 : List (ℕ × Option ℕ)}
    (h : LargeLinked l (as1 ++ (q, none) :: as2 ++ (p, none) :: bs))
    (hnd : (ArenaNode.list :: nodes (as1 ++ (q, none) :: as2 ++ (p, none) :: bs)).Nodup)
    (hu : UnlinkedChunk l l' p (as1 ++ (q, none) :: as2) bs) :
    l'.prev (.chunk q) = (ArenaNode.list :: nodes as1).getLast? ∧
      l'.next (.chunk q) = some ((nodes (as2 ++ bs)).head?.getD .list) := by
  obtain ⟨h1, h2⟩ := h as1 q (as2 ++ (p, none) :: bs) (by simp)
  have hq : ArenaNode.chunk q ∈ ArenaNode.list :: nodes (as1 ++ (q, none) :: as2) :=
    List.mem_cons_of_mem _ (mem_nodes.mpr ⟨q, by simp, rfl⟩)
  have hqp : ArenaNode.chunk q ≠ .chunk p := fun hqp => (chunk_notMem hnd).1 (hqp ▸ hq)
  have hqn : ¬ ArenaNode.chunk q = (nodes bs).head?.getD .list := by
    cases bs with
    | nil => exact fun heq => absurd heq (by simp [nodes])
    | cons y bs => exact nodes_ne hnd hq List.mem_cons_self
  rw [hu.prev _ hqp, if_neg hqn]
  refine ⟨h1, ?_⟩
  cases as2 with
  | nil =>
    have hz : (ArenaNode.list :: nodes (as1 ++ [(q, none)])).getLast? = some (.chunk q) := by
      rw [nodes_append, ← List.cons_append]
      exact List.getLast?_concat
    rw [hu.next _ _ hz hqp, if_pos rfl]
    rfl
  | cons y as2 =>
    obtain ⟨z, hz⟩ : ∃ z, (ArenaNode.list :: nodes (as1 ++ (q, none) :: y :: as2)).getLast? = some z :=
      ⟨_, List.getLast?_eq_some_getLast (List.cons_ne_nil _ _)⟩
    have hqz : ArenaNode.chunk q ≠ z := by
      rintro rfl
      rw [last_nodes_append (List.cons_ne_nil _ _)] at hz
      have hin : ArenaNode.chunk q ∈ nodes (y :: as2) :=
        List.mem_of_getLast? (List.getLast?_cons_cons.symm.trans hz)
      rw [List.append_assoc, nodes_append, ← List.cons_append] at hnd
      have hout : ArenaNode.chunk q ∉ nodes (y :: as2 ++ (p, none) :: bs) :=
        (List.nodup_cons.mp (List.nodup_append.mp hnd).2.1).1
      rw [nodes_append] at hout
      exact hout (List.mem_append_left _ hin)
    rw [hu.next _ _ hz hqp, if_neg hqz, h2]
    rfl

theorem LargeLinked.del (h : LargeLinked l (as ++ (p, none) :: bs))
    (hnd : (ArenaNode.list :: nodes (as ++ (p, none) :: bs)).Nodup)
    (hu : UnlinkedChunk l l' p as bs) : LargeLinked l' (as ++ bs) := by
  intro as1 q bs1 he
  rcases List.append_eq_append_iff.mp he with ⟨bs0, rfl, rfl⟩ | ⟨as2, rfl, hr⟩
  · exact h.del_behind hnd hu
  · cases as2 with
    | nil =>
      have hbs : bs = [] ++ (q, none) :: bs1 := hr.symm
      subst hbs
      rw [List.append_nil] at h hnd hu
      have hdel := h.del_behind hnd hu
      rwa [List.append_nil] at hdel
    | cons y as2 =>
      obtain ⟨rfl, rfl⟩ := List.cons.inj hr
      exact h.del_before hnd hu

end

section
variable {l l' : Links ArenaNode} {as bs : List (ℕ × Option ℕ)} {p c : ℕ}

/-- The heads of the classes are not among the chunks of large requests. -/
theorem classHead_ne_list {n m : ArenaNode} (hn : n ∈ ArenaNode.list :: nodes as)
    (hm : m ∈ [ArenaNode.chunksFree c, .chunksFull c, .chunksPartial c]) : m ≠ n := by
  rintro rfl
  rcases List.mem_cons.mp hn with rfl | hn
  · simp at hm
  · obtain ⟨q, -, rfl⟩ := mem_nodes.mp hn
    simp at hm

theorem UnlinkedChunk.classHeads (hu : UnlinkedChunk l l' p as bs) (c : ℕ) {m : ArenaNode}
    (hm : m ∈ [ArenaNode.chunksFree c, .chunksFull c, .chunksPartial c]) :
    l'.next m = l.next m ∧ l'.prev m = l.prev m := by
  obtain ⟨z, hz⟩ : ∃ z, (ArenaNode.list :: nodes as).getLast? = some z :=
    ⟨_, List.getLast?_eq_some_getLast (List.cons_ne_nil _ _)⟩
  have hmp : m ≠ .chunk p := by
    rintro rfl
    simp at hm
  have hfirst : m ≠ (nodes bs).head?.getD .list := by
    cases bs with
    | nil => exact @classHead_ne_list [] c _ _ List.mem_cons_self hm
    | cons y bs =>
      have hy : ArenaNode.chunk y.1 ∈ ArenaNode.list :: nodes [y] :=
        List.mem_cons_of_mem _ List.mem_cons_self
      exact classHead_ne_list hy hm
  rw [hu.next _ z hz hmp, if_neg (classHead_ne_list (List.mem_of_getLast? hz) hm), hu.prev _ hmp,
    if_neg hfirst]
  exact ⟨rfl, rfl⟩

/-- The chunks of the classes stay when one of a large request goes. -/
theorem mem_without_large {q : ℕ} :
    (q, some c) ∈ as ++ bs ↔ (q, some c) ∈ as ++ (p, none) :: bs := by
  simp

end

/-- The heads once the chunk of a large request is unlinked and unmapped. -/
theorem ArenaHeads.del {as bs : List (ℕ × Option ℕ)} (h : ArenaHeads a (as ++ (p, none) :: bs))
    (hu : UnlinkedChunk a.links a'.links p as bs) (hlive : a'.live = a.live.erase p)
    (hcount : a'.numChunks = subW a.numChunks 1) (hmax : a'.maxChunks = a.maxChunks) :
    ArenaHeads a' (as ++ bs) := by
  have hfree : ∀ c, a'.links.next (.chunksFree c) = a.links.next (.chunksFree c) ∧
      a'.links.prev (.chunksFree c) = a.links.prev (.chunksFree c) :=
    fun c => hu.classHeads c (by simp)
  have hfull : ∀ c, a'.links.next (.chunksFull c) = a.links.next (.chunksFull c) :=
    fun c => (hu.classHeads c (by simp)).1
  have hpartial : ∀ c, a'.links.next (.chunksPartial c) = a.links.next (.chunksPartial c) :=
    fun c => (hu.classHeads c (by simp)).1
  have hnd := h.nodup
  rw [h.live, List.map_append, List.map_cons] at hnd
  have hpas : p ∉ as.map Prod.fst := fun hin =>
    (List.nodup_append.mp hnd).2.2 p hin p List.mem_cons_self rfl
  have herase : a'.live = (as ++ bs).map Prod.fst := by
    rw [hlive, h.live, List.map_append, List.map_cons, List.erase_append_right _ hpas,
      List.erase_cons_head, List.map_append]
  have hle := h.le
  have hlen := h.count
  rw [List.length_append, List.length_cons] at hlen
  have hnum : a'.numChunks = (as ++ bs).length := by
    have h1024 : MAX_ARENA_CHUNKS = 1024 := rfl
    rw [hcount, subW_eq (by omega) (by rw [wordSize_eq]; omega), hlen, List.length_append]
    omega
  refine ⟨?_, fun q c hq => ?_, fun c hc hno => ?_, fun c hc => ?_, herase, ?_, hnum, ?_,
    hmax.trans h.max, hu.fault.trans h.noFault⟩
  · rw [hu.prev _ (by simp)]
    cases bs with
    | nil =>
      rw [List.append_nil]
      exact if_pos rfl
    | cons y bs =>
      have hif : ¬ ArenaNode.list = (nodes (y :: bs)).head?.getD .list := by simp [nodes]
      rw [if_neg hif, h.last, last_nodes_append (List.cons_ne_nil _ _),
        last_nodes_append (List.cons_ne_nil _ _)]
      exact List.getLast?_cons_cons
  · rw [(hfree c).1]
    exact h.cls q c (mem_without_large.mp hq)
  · rw [(hfree c).1, (hfree c).2]
    exact h.unused c hc fun q hq => hno q (mem_without_large.mpr hq)
  · rw [hfull, hpartial]
    exact h.spare c hc
  · rw [hlive]
    exact h.nodup.erase p
  · rw [hnum, List.length_append]
    omega

end

end Nomalloc
