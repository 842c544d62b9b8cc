import Nomalloc.Memory.Arena
import Nomalloc.Memory.ChunkLarge

/-!
# Linking chunks into an arena

A chunk for a large request is put at the end of `arena->list`.  A chunk for a small request is put
there too, and then its only node is put on `chunks_free` of the class as well: the node leads to
that head now, and no longer to the head of `arena->list`.  The next chunk, whatever it is for, is
linked behind it and the way on is there again, up to the new chunk.  So the pointers always lead
from `arena->list` through all the chunks in the order of their creation (`ArenaInv.path`), and
where they lead from the last one depends on what that one was created for (`tailOf`).

`ArenaInv.link` is the step, for both kinds of chunk; `arenaMalloc_effect` says which calls link one.
-/

namespace Nomalloc

structure ArenaCall where
  size : ℕ
  env : ArenaEnv

/-! ## when a call links a chunk -/

/-- What a new chunk has left for blocks. -/
def CHUNK_ROOM : ℕ := CHUNK_DEFAULT_SIZE - alignUp SIZEOF_CHUNK 16

/-- A call gets as far as to choose a chunk. -/
def ArenaCall.Served (a : Arena) (call : ArenaCall) : Prop := call.size ≠ 0 ∧ a.active = true

/-- A call links a new chunk for a large request. -/
def ArenaCall.LinksLarge (a : Arena) (call : ArenaCall) : Prop :=
  call.Served a ∧ isLargeClassIdx (sizeToClass call.size) = true ∧ a.numChunks < a.maxChunks ∧
    call.env.base.isSome ∧ alignUp call.size CHUNK_RUN_SIZE ≤ CHUNK_ROOM

/-- A call links a new chunk for a small or medium request: the class has no chunk yet. -/
def ArenaCall.LinksSmall (a : Arena) (call : ArenaCall) : Prop :=
  call.Served a ∧ isLargeClassIdx (sizeToClass call.size) = false ∧
    arenaFindAvailableChunk a (sizeToClass call.size) = none ∧ a.numChunks < a.maxChunks ∧
    call.env.base.isSome

/-! ## the shape of the pointers -/

/-- The nodes of some chunks, each with the class it was created for, if any. -/
def nodes (xs : List (ℕ × Option ℕ)) : List ArenaNode := xs.map fun x => .chunk x.1

/-- Where the last chunk leads. -/
def tailOf (xs : List (ℕ × Option ℕ)) : ArenaNode :=
  match xs.getLast? with
  | some (_, some c) => .chunksFree c
  | _ => .list

/-- The pointers of an arena with the chunks `xs`, in the order of their creation. -/
structure ArenaInv (a : Arena) (xs : List (ℕ × Option ℕ)) : Prop where
  path : LinkPath a.links.next (a.links.next .list) (nodes xs) (tailOf xs)
  last : a.links.prev .list = (ArenaNode.list :: nodes xs).getLast?
  /-- nothing leads back from the first chunk to another chunk -/
  first : ∀ x rest, xs = x :: rest → ∃ y, a.links.prev (.chunk x.1) = some y ∧ ∀ p, y ≠ .chunk p
  cls : ∀ p c, (p, some c) ∈ xs → c < NUM_SIZE_CLASSES ∧
    a.links.next (.chunksFree c) = some (.chunk p)
  unused : ∀ c < NUM_SIZE_CLASSES, (∀ p, (p, some c) ∉ xs) →
    a.links.next (.chunksFree c) = some (.chunksFree c) ∧
      a.links.prev (.chunksFree c) = some (.chunksFree c)
  spare : ∀ c < NUM_SIZE_CLASSES, a.links.next (.chunksFull c) = some (.chunksFull c) ∧
    a.links.next (.chunksPartial c) = some (.chunksPartial c)
  live : a.live = xs.map Prod.fst
  nodup : a.live.Nodup
  count : a.numChunks = xs.length
  le : a.numChunks ≤ MAX_ARENA_CHUNKS
  max : a.maxChunks = MAX_ARENA_CHUNKS
  noFault : a.links.fault = false

/-- What is left of this shape when chunks are unmapped: the heads know the last chunk and the chunk
of each class. -/
structure ArenaHeads (a : Arena) (xs : List (ℕ × Option ℕ)) : Prop where
  last : a.links.prev .list = (ArenaNode.list :: nodes xs).getLast?
  cls : ∀ p c, (p, some c) ∈ xs → c < NUM_SIZE_CLASSES ∧
    a.links.next (.chunksFree c) = some (.chunk p)
  unused : ∀ c < NUM_SIZE_CLASSES, (∀ p, (p, some c) ∉ xs) →
    a.links.next (.chunksFree c) = some (.chunksFree c) ∧
      a.links.prev (.chunksFree c) = some (.chunksFree c)
  spare : ∀ c < NUM_SIZE_CLASSES, a.links.next (.chunksFull c) = some (.chunksFull c) ∧
    a.links.next (.chunksPartial c) = some (.chunksPartial c)
  live : a.live = xs.map Prod.fst
  nodup : a.live.Nodup
  count : a.numChunks = xs.length
  le : a.numChunks ≤ MAX_ARENA_CHUNKS
  max : a.maxChunks = MAX_ARENA_CHUNKS
  noFault : a.links.fault = false

section
variable {a a' : Arena} {xs : List (ℕ × Option ℕ)} {p c : ℕ}

theorem ArenaInv.heads (h : ArenaInv a xs) : ArenaHeads a xs :=
  ⟨h.last, h.cls, h.unused, h.spare, h.live, h.nodup, h.count, h.le, h.max, h.noFault⟩

theorem mem_nodes {n : ArenaNode} : n ∈ nodes xs ↔ ∃ p, p ∈ xs.map Prod.fst ∧ n = .chunk p := by
  unfold nodes
  rw [List.mem_map]
  constructor
  · rintro ⟨x, hx, rfl⟩
    exact ⟨x.1, List.mem_map_of_mem hx, rfl⟩
  · rintro ⟨p, hp, rfl⟩
    obtain ⟨x, hx, rfl⟩ := List.mem_map.mp hp
    exact ⟨x, hx, rfl⟩

theorem nodes_append (ys : List (ℕ × Option ℕ)) : nodes (xs ++ ys) = nodes xs ++ nodes ys :=
  List.map_append

theorem tailOf_concat (p : ℕ) (o : Option ℕ) :
    tailOf (xs ++ [(p, o)]) = (o.map ArenaNode.chunksFree).getD .list := by
  unfold tailOf
  rw [List.getLast?_concat]
  cases o <;> rfl

namespace ArenaHeads

theorem nodup_nodes (h : ArenaHeads a xs) : (ArenaNode.list :: nodes xs).Nodup := by
  refine List.nodup_cons.mpr ⟨fun hin => ?_, ?_⟩
  · obtain ⟨p, -, hp⟩ := mem_nodes.mp hin
    exact absurd hp (by simp)
  · have hnd := h.nodup
    rw [h.live] at hnd
    have he : nodes xs = (xs.map Prod.fst).map ArenaNode.chunk := by
      unfold nodes
      rw [List.map_map]
      rfl
    rw [he]
    exact hnd.map fun _ _ he => ArenaNode.chunk.inj he

/-- **`arena_find_available_chunk`** is the chunk that was created for the class. -/
theorem find (h : ArenaHeads a xs) (hc : c < NUM_SIZE_CLASSES) :
    (∃ p, (p, some c) ∈ xs ∧ arenaFindAvailableChunk a c = some (.chunk p)) ∨
      ((∀ p, (p, some c) ∉ xs) ∧ arenaFindAvailableChunk a c = none) := by
  have hpart : listEmpty a.links (.chunksPartial c) = true := decide_eq_true (h.spare c hc).2
  unfold arenaFindAvailableChunk
  rw [hpart, Bool.not_true, if_neg Bool.false_ne_true]
  by_cases hex : ∃ p, (p, some c) ∈ xs
  · obtain ⟨p, hp⟩ := hex
    obtain ⟨-, hnext⟩ := h.cls p c hp
    refine Or.inl ⟨p, hp, ?_⟩
    unfold listEmpty
    rw [hnext]
    rfl
  · have hnot : ∀ p, (p, some c) ∉ xs := fun p hp => hex ⟨p, hp⟩
    refine Or.inr ⟨hnot, ?_⟩
    unfold listEmpty
    rw [(h.unused c hc hnot).1]
    simp

end ArenaHeads

/-! ## linking a chunk -/

/-- The pointers after `INIT_LIST_HEAD` and `list_add_tail` of a new chunk. -/
theorem linked_eq {l : Links ArenaNode} {z : ArenaNode} (hz : l.prev .list = some z) (p : ℕ) :
    listAddTail (listInit l (.chunk p)) (.chunk p) .list =
      { next := Function.update (Function.update l.next z (some (.chunk p))) (.chunk p) (some .list)
        prev := Function.update (Function.update l.prev (.chunk p) (some z)) .list (some (.chunk p))
        fault := l.fault } := by
  have hz' : (listInit l (.chunk p)).prev .list = some z := by
    show Function.update l.prev (.chunk p) (some (.chunk p)) .list = some z
    rw [Function.update_of_ne (by simp), hz]
  rw [CircList.listAddTail_eq hz']
  have hprev : Function.update (listInit l (.chunk p)).prev (.chunk p) (some z) =
      Function.update l.prev (.chunk p) (some z) := Function.update_idem ..
  rw [hprev]
  congr 1
  funext n
  show Function.update (Function.update (Function.update l.next (.chunk p) (some (.chunk p))) z
    (some (.chunk p))) (.chunk p) (some .list) n = _
  by_cases hn : n = .chunk p
  · rw [hn, Function.update_self, Function.update_self]
  · rw [Function.update_of_ne hn, Function.update_of_ne hn]
    by_cases hnz : n = z
    · rw [hnz, Function.update_self, Function.update_self]
    · rw [Function.update_of_ne hnz, Function.update_of_ne hnz, Function.update_of_ne hn]

/-- `next` and `prev` after a chunk is linked, for the class `o` or for a large request. -/
structure LinkedChunk (l l' : Links ArenaNode) (z : ArenaNode) (p : ℕ) (o : Option ℕ) : Prop where
  self : l'.next (.chunk p) = some ((o.map ArenaNode.chunksFree).getD .list)
  behind : l'.next z = some (.chunk p)
  head : ∀ c, o = some c → l'.next (.chunksFree c) = some (.chunk p)
  next : ∀ n, n ≠ .chunk p → n ≠ z → (∀ c, o = some c → n ≠ .chunksFree c) → l'.next n = l.next n
  prevList : l'.prev .list = some (.chunk p)
  prevSelf : l'.prev (.chunk p) = some ((o.map ArenaNode.chunksFree).getD z)
  prev : ∀ n, n ≠ .chunk p → n ≠ .list → (∀ c, o = some c → n ≠ .chunksFree c) →
    l'.prev n = l.prev n
  fault : l'.fault = l.fault

theorem linkedChunk_large {l : Links ArenaNode} {z : ArenaNode} (hz : l.prev .list = some z)
    (hzp : z ≠ .chunk p) :
    LinkedChunk l (listAddTail (listInit l (.chunk p)) (.chunk p) .list) z p none := by
  rw [linked_eq hz]
  refine ⟨?_, ?_, fun c hc => absurd hc (by simp), fun n hn hnz _ => ?_, ?_, ?_,
    fun n hn hnl _ => ?_, rfl⟩
  · dsimp only
    rw [Function.update_self]
    rfl
  · dsimp only
    rw [Function.update_of_ne hzp, Function.update_self]
  · dsimp only
    rw [Function.update_of_ne hn, Function.update_of_ne hnz]
  · dsimp only
    rw [Function.update_self]
  · dsimp only
    rw [Function.update_of_ne (by simp), Function.update_self]
    rfl
  · dsimp only
    rw [Function.update_of_ne hnl, Function.update_of_ne hn]

/-- The chunk is linked once more, to the empty list of a class. -/
theorem linkedChunk_small {l l' : Links ArenaNode} {z : ArenaNode} (hl : LinkedChunk l l' z p none)
    (hzp : z ≠ .chunk p) (hzc : z ≠ .chunksFree c)
    (hc : l.prev (.chunksFree c) = some (.chunksFree c)) :
    LinkedChunk l (listAddTail l' (.chunk p) (.chunksFree c)) z p (some c) := by
  have hprev : l'.prev (.chunksFree c) = some (.chunksFree c) :=
    (hl.prev _ (by simp) (by simp) (by simp)).trans hc
  rw [CircList.listAddTail_eq hprev]
  refine ⟨?_, ?_, fun c' hc' => ?_, fun n hn hnz hnc => ?_, ?_, ?_, fun n hn hnl hnc => ?_, hl.fault⟩
  · dsimp only
    rw [Function.update_self]
    rfl
  · dsimp only
    rw [Function.update_of_ne hzp, Function.update_of_ne hzc, hl.behind]
  · cases hc'
    dsimp only
    rw [Function.update_of_ne (by simp), Function.update_self]
  · dsimp only
    rw [Function.update_of_ne hn, Function.update_of_ne (hnc c rfl)]
    exact hl.next n hn hnz (by simp)
  · dsimp only
    rw [Function.update_of_ne (by simp), Function.update_of_ne (by simp), hl.prevList]
  · dsimp only
    rw [Function.update_of_ne (by simp), Function.update_self]
    rfl
  · dsimp only
    rw [Function.update_of_ne (hnc c rfl), Function.update_of_ne hn]
    exact hl.prev n hn hnl (by simp)

namespace ArenaHeads

theorem congr (h : ArenaHeads a xs) (hlinks : a'.links = a.links) (hlive : a'.live = a.live)
    (hcount : a'.numChunks = a.numChunks) (hmax : a'.maxChunks = a.maxChunks) :
    ArenaHeads a' xs := by
  refine ⟨?_, ?_, ?_, ?_, ?_, ?_, ?_, ?_, ?_, ?_⟩
  · rw [hlinks]; exact h.last
  · rw [hlinks]; exact h.cls
  · rw [hlinks]; exact h.unused
  · rw [hlinks]; exact h.spare
  · rw [hlive]; exact h.live
  · rw [hlive]; exact h.nodup
  · rw [hcount]; exact h.count
  · rw [hcount]; exact h.le
  · rw [hmax]; exact h.max
  · rw [hlinks]; exact h.noFault

theorem last_node (h : ArenaHeads a xs) : ∃ z, (ArenaNode.list :: nodes xs).getLast? = some z ∧
    a.links.prev .list = some z ∧ z ∈ ArenaNode.list :: nodes xs := by
  obtain ⟨z, hz⟩ : ∃ z, (ArenaNode.list :: nodes xs).getLast? = some z :=
    ⟨_, List.getLast?_eq_some_getLast (List.cons_ne_nil _ _)⟩
  exact ⟨z, hz, h.last.trans hz, List.mem_of_getLast? hz⟩

/-- The nodes of the list are neither that of a chunk that is not mapped nor heads of a class. -/
theorem node_ne (h : ArenaHeads a xs) (hp : p ∉ a.live) {n : ArenaNode}
    (hn : n ∈ ArenaNode.list :: nodes xs) : n ≠ .chunk p ∧ ∀ c, n ≠ .chunksFree c := by
  rcases List.mem_cons.mp hn with rfl | hn
  · exact ⟨by simp, by simp⟩
  · obtain ⟨q, hq, rfl⟩ := mem_nodes.mp hn
    refine ⟨fun he => hp ?_, by simp⟩
    rw [h.live, ← ArenaNode.chunk.inj he]
    exact hq

/-- **A chunk is linked.** -/
theorem link (h : ArenaHeads a xs) (hp : p ∉ a.live) (hnum : a.numChunks < a.maxChunks)
    {o : Option ℕ} (ho : ∀ c, o = some c → c < NUM_SIZE_CLASSES ∧ ∀ q, (q, some c) ∉ xs)
    {z : ArenaNode} (hlast : (ArenaNode.list :: nodes xs).getLast? = some z)
    (hl : LinkedChunk a.links a'.links z p o) (hlive : a'.live = a.live ++ [p])
    (hcount : a'.numChunks = addW a.numChunks 1) (hmax : a'.maxChunks = a.maxChunks) :
    ArenaHeads a' (xs ++ [(p, o)]) := by
  have hzmem : z ∈ ArenaNode.list :: nodes xs := List.mem_of_getLast? hlast
  have hlt : a.numChunks + 1 < wordSize := by
    have := h.le
    have h1024 : MAX_ARENA_CHUNKS = 1024 := rfl
    rw [wordSize_eq]
    omega
  -- the nodes of the other classes, and of the other lists, are not stored to
  have hkeep : ∀ n, (∀ q, n ≠ .chunk q) → n ≠ .list → (∀ c, o = some c → n ≠ .chunksFree c) →
      a'.links.next n = a.links.next n ∧ a'.links.prev n = a.links.prev n := by
    intro n hn hnl hnc
    refine ⟨hl.next n (hn p) ?_ hnc, hl.prev n (hn p) hnl hnc⟩
    rintro rfl
    rcases List.mem_cons.mp hzmem with he | hin
    · exact hnl he
    · obtain ⟨q, -, he⟩ := mem_nodes.mp hin
      exact hn q he
  refine ⟨?_, ?_, ?_, ?_, ?_, ?_, ?_, ?_, hmax.trans h.max, hl.fault.trans h.noFault⟩
  · rw [hl.prevList, nodes_append, ← List.cons_append]
    exact List.getLast?_concat.symm
  · intro q c hq
    rcases List.mem_append.mp hq with hq | hq
    · obtain ⟨h1, h2⟩ := h.cls q c hq
      refine ⟨h1, ?_⟩
      rw [(hkeep (.chunksFree c) (by simp) (by simp) fun c' hc' he => ?_).1, h2]
      exact (ho c' hc').2 q (ArenaNode.chunksFree.inj he ▸ hq)
    · have he := List.mem_singleton.mp hq
      have hqp : q = p := congrArg Prod.fst he
      have hco : some c = o := congrArg Prod.snd he
      rw [hqp]
      exact ⟨(ho c hco.symm).1, hl.head c hco.symm⟩
  · intro c hc hno
    have hne : ∀ c', o = some c' → ArenaNode.chunksFree c ≠ .chunksFree c' := by
      intro c' hc' he
      refine hno p (List.mem_append_right _ ?_)
      rw [ArenaNode.chunksFree.inj he, ← hc']
      exact List.mem_singleton_self _
    obtain ⟨h1, h2⟩ := hkeep (.chunksFree c) (by simp) (by simp) hne
    rw [h1, h2]
    exact h.unused c hc fun q hq => hno q (List.mem_append_left _ hq)
  · intro c hc
    rw [(hkeep (.chunksFull c) (by simp) (by simp) (by simp)).1,
      (hkeep (.chunksPartial c) (by simp) (by simp) (by simp)).1]
    exact h.spare c hc
  · rw [hlive, h.live, List.map_append]
    rfl
  · rw [hlive]
    refine List.nodup_append.mpr ⟨h.nodup, List.nodup_singleton p, fun q hq n hn => ?_⟩
    rw [List.mem_singleton.mp hn]
    rintro rfl
    exact hp hq
  · rw [hcount, addW_eq hlt, h.count, List.length_append, List.length_singleton]
  · rw [hcount, addW_eq hlt]
    rw [h.max] at hnum
    exact hnum

end ArenaHeads

namespace ArenaInv

theorem nodup_nodes (h : ArenaInv a xs) : (ArenaNode.list :: nodes xs).Nodup := h.heads.nodup_nodes

theorem congr (h : ArenaInv a xs) (hlinks : a'.links = a.links) (hlive : a'.live = a.live)
    (hcount : a'.numChunks = a.numChunks) (hmax : a'.maxChunks = a.maxChunks) :
    ArenaInv a' xs := by
  refine ⟨?_, ?_, ?_, ?_, ?_, ?_, ?_, ?_, ?_, ?_, ?_, ?_⟩
  · rw [hlinks]; exact h.path
  · rw [hlinks]; exact h.last
  · rw [hlinks]; exact h.first
  · rw [hlinks]; exact h.cls
  · rw [hlinks]; exact h.unused
  · rw [hlinks]; exact h.spare
  · rw [hlive]; exact h.live
  · rw [hlive]; exact h.nodup
  · rw [hcount]; exact h.count
  · rw [hcount]; exact h.le
  · rw [hmax]; exact h.max
  · rw [hlinks]; exact h.noFault

theorem last_node (h : ArenaInv a xs) : ∃ z, (ArenaNode.list :: nodes xs).getLast? = some z ∧
    a.links.prev .list = some z ∧ z ∈ ArenaNode.list :: nodes xs := h.heads.last_node

/-- **A chunk is linked.** -/
theorem link (h : ArenaInv a xs) (hp : p ∉ a.live) (hnum : a.numChunks < a.maxChunks)
    {o : Option ℕ} (ho : ∀ c, o = some c → c < NUM_SIZE_CLASSES ∧ ∀ q, (q, some c) ∉ xs)
    {z : ArenaNode} (hlast : (ArenaNode.list :: nodes xs).getLast? = some z)
    (hl : LinkedChunk a.links a'.links z p o) (hlive : a'.live = a.live ++ [p])
    (hcount : a'.numChunks = addW a.numChunks 1) (hmax : a'.maxChunks = a.maxChunks) :
    ArenaInv a' (xs ++ [(p, o)]) := by
  have hheads := h.heads.link hp hnum ho hlast hl hlive hcount hmax
  have hnew : ∀ n ∈ ArenaNode.list :: nodes xs, n ≠ .chunk p ∧ ∀ c, n ≠ .chunksFree c :=
    fun n hn => h.heads.node_ne hp hn
  refine ⟨?_, hheads.last, ?_, hheads.cls, hheads.unused, hheads.spare, hheads.live, hheads.nodup,
    hheads.count, hheads.le, hheads.max, hheads.noFault⟩
  · rw [nodes_append, tailOf_concat]
    refine h.path.concat h.nodup_nodes hlast hl.behind hl.self fun n hn hnz => ?_
    exact hl.next n (hnew n hn).1 hnz fun c _ => (hnew n hn).2 c
  · rintro x rest hxs
    cases xs with
    | nil =>
      have hx : (p, o) = x := (List.cons.inj hxs).1
      subst hx
      have hz : z = .list := (Option.some.inj hlast).symm
      refine ⟨_, hl.prevSelf, fun q => ?_⟩
      cases o with
      | none => simp [hz]
      | some c => simp
    | cons y ys =>
      have hx : y = x := (List.cons.inj hxs).1
      subst hx
      obtain ⟨w, hw, hwq⟩ := h.first y ys rfl
      have hy : ArenaNode.chunk y.1 ∈ ArenaNode.list :: nodes (y :: ys) :=
        List.mem_cons_of_mem _ List.mem_cons_self
      refine ⟨w, ?_, hwq⟩
      rw [hl.prev _ (hnew _ hy).1 (by simp) (by simp)]
      exact hw

end ArenaInv

/-! ## `arena_malloc` -/

/-- What the lists of an arena are made of is as it was. -/
structure SameLists (a a' : Arena) : Prop where
  links : a'.links = a.links
  live : a'.live = a.live
  count : a'.numChunks = a.numChunks
  max : a'.maxChunks = a.maxChunks

theorem SameLists.refl (a : Arena) : SameLists a a := ⟨rfl, rfl, rfl, rfl⟩

theorem SameLists.trans {a'' : Arena} (h : SameLists a a') (h' : SameLists a' a'') :
    SameLists a a'' :=
  ⟨h'.links.trans h.links, h'.live.trans h.live, h'.count.trans h.count, h'.max.trans h.max⟩

theorem arenaTakeSmall_lists (a : Arena) (p c : ℕ) (env : MetaEnv) :
    SameLists a (arenaTakeSmall a p c env).1 := by
  unfold arenaTakeSmall
  dsimp only
  cases (chunkAllocSmall (a.chunk p) c env).ptr with
  | none => exact ⟨rfl, rfl, rfl, rfl⟩
  | some ptr => exact ⟨rfl, rfl, rfl, rfl⟩

/-- What a call of `arena_malloc` does to the lists. -/
inductive MallocEffect (a : Arena) (xs : List (ℕ × Option ℕ)) (call : ArenaCall) (a' : Arena) : Prop
  | kept (hlists : SameLists a a') (hlarge : ¬ call.LinksLarge a) (hsmall : ¬ call.LinksSmall a)
  | large (p : ℕ) (hlive : a'.live = a.live ++ [p]) (hinv : ArenaInv a' (xs ++ [(p, none)]))
      (hlarge : call.LinksLarge a)
  | small (p : ℕ) (hlive : a'.live = a.live ++ [p])
      (hinv : ArenaInv a' (xs ++ [(p, some (sizeToClass call.size))])) (hsmall : call.LinksSmall a)

theorem chunkCreate_none (size : ℕ) : chunkCreate size none = none := rfl

theorem chunkCreate_some (p : ℕ) : ∃ chunk, chunkCreate CHUNK_DEFAULT_SIZE (some p) = some chunk ∧
    chunk.baseAddr = p ∧ chunk.size = alignUp CHUNK_DEFAULT_SIZE CHUNK_ALIGN ∧
    chunk.allocatedBytes = alignUp SIZEOF_CHUNK 16 := ⟨_, rfl, rfl, rfl, rfl⟩

theorem chunkGetAvailable_new {chunk : Chunk} (hsize : chunk.size = alignUp CHUNK_DEFAULT_SIZE CHUNK_ALIGN)
    (halloc : chunk.allocatedBytes = alignUp SIZEOF_CHUNK 16) :
    chunkGetAvailable chunk = CHUNK_ROOM := by
  have hroom : subW (alignUp CHUNK_DEFAULT_SIZE CHUNK_ALIGN) (alignUp SIZEOF_CHUNK 16) = CHUNK_ROOM := by
    decide
  unfold chunkGetAvailable
  rw [hsize, halloc, hroom]

theorem arenaKeepLarge_lists (h : ArenaInv a xs) (hnum : a.numChunks < a.maxChunks)
    (hfresh : p ∉ a.live) (size : ℕ) (chunk : Chunk) (ptr : ℕ) :
    (arenaKeepLarge a p size (chunk, some ptr)).1.live = a.live ++ [p] ∧
      ArenaInv (arenaKeepLarge a p size (chunk, some ptr)).1 (xs ++ [(p, none)]) := by
  obtain ⟨z, hlast, hz, hzmem⟩ := h.last_node
  have hzp := (h.heads.node_ne hfresh hzmem).1
  exact ⟨rfl, h.link hfresh hnum (fun c hc => absurd hc (by simp)) hlast
    (linkedChunk_large hz hzp) rfl rfl rfl⟩

theorem arenaMallocLarge_mapped {size : ℕ} {env : ArenaEnv} {chunk : Chunk}
    (hnum : a.numChunks < a.maxChunks)
    (hchunk : chunkCreate CHUNK_DEFAULT_SIZE env.base = some chunk) :
    arenaMallocLarge a size env =
      arenaKeepLarge a chunk.baseAddr size (chunkAllocLarge chunk size) := by
  unfold arenaMallocLarge
  rw [if_neg (Nat.not_le.mpr hnum), hchunk]

theorem arenaMallocLarge_none {size : ℕ} {env : ArenaEnv}
    (h : a.maxChunks ≤ a.numChunks ∨ env.base = none) :
    arenaMallocLarge a size env = (a, none) := by
  unfold arenaMallocLarge
  by_cases hnum : a.maxChunks ≤ a.numChunks
  · rw [if_pos hnum]
  · rw [if_neg hnum, h.resolve_left hnum, chunkCreate_none]

theorem arenaMallocLarge_lists (h : ArenaInv a xs) (size : ℕ) (env : ArenaEnv)
    (hfresh : ∀ p, env.base = some p → p ∉ a.live) :
    (SameLists a (arenaMallocLarge a size env).1 ∧
      ¬ (a.numChunks < a.maxChunks ∧ env.base.isSome ∧
        alignUp size CHUNK_RUN_SIZE ≤ CHUNK_ROOM)) ∨
    ∃ p, (arenaMallocLarge a size env).1.live = a.live ++ [p] ∧
      ArenaInv (arenaMallocLarge a size env).1 (xs ++ [(p, none)]) ∧
      a.numChunks < a.maxChunks ∧ env.base.isSome ∧ alignUp size CHUNK_RUN_SIZE ≤ CHUNK_ROOM := by
  by_cases hnum : a.maxChunks ≤ a.numChunks
  · rw [arenaMallocLarge_none (Or.inl hnum)]
    exact Or.inl ⟨SameLists.refl a, fun hl => Nat.not_lt.mpr hnum hl.1⟩
  have hnum' := Nat.not_le.mp hnum
  cases hb : env.base with
  | none =>
    rw [arenaMallocLarge_none (Or.inr hb)]
    exact Or.inl ⟨SameLists.refl a, fun hl => Bool.false_ne_true hl.2.1⟩
  | some p =>
    obtain ⟨chunk, hchunk, hbase, hsize, halloc⟩ := chunkCreate_some p
    have hroom := chunkGetAvailable_new hsize halloc
    rw [arenaMallocLarge_mapped hnum' (hb.symm ▸ hchunk)]
    by_cases hfits : chunkGetAvailable chunk < alignUp size CHUNK_RUN_SIZE
    · rw [chunkAllocLarge_none hfits]
      rw [hroom] at hfits
      exact Or.inl ⟨SameLists.refl a, fun hl => Nat.not_le.mpr hfits hl.2.2⟩
    · rw [chunkAllocLarge_some hfits]
      obtain ⟨hlive, hinv⟩ := arenaKeepLarge_lists h hnum' (hbase.symm ▸ hfresh p hb) size _ _
      rw [hroom] at hfits
      exact Or.inr ⟨chunk.baseAddr, hlive, hinv, hnum', rfl, Nat.not_lt.mp hfits⟩

theorem arenaAddSmall_lists (h : ArenaInv a xs) (hnum : a.numChunks < a.maxChunks)
    (hc : c < NUM_SIZE_CLASSES) (hno : ∀ q, (q, some c) ∉ xs) (chunk : Chunk)
    (hfresh : chunk.baseAddr ∉ a.live) :
    (arenaAddSmall a chunk c).live = a.live ++ [chunk.baseAddr] ∧
      ArenaInv (arenaAddSmall a chunk c) (xs ++ [(chunk.baseAddr, some c)]) := by
  obtain ⟨z, hlast, hz, hzmem⟩ := h.last_node
  have hzp := (h.heads.node_ne hfresh hzmem).1
  have hzc := (h.heads.node_ne hfresh hzmem).2 c
  refine ⟨rfl, h.link hfresh hnum (fun c' hc' => ?_) hlast
    (linkedChunk_small (linkedChunk_large hz hzp) hzp hzc (h.unused _ hc hno).2) rfl rfl rfl⟩
  cases hc'
  exact ⟨hc, hno⟩

theorem arenaMallocSmall_lists (h : ArenaInv a xs) (hc : c < NUM_SIZE_CLASSES) (env : ArenaEnv)
    (hfresh : ∀ p, env.base = some p → p ∉ a.live) :
    (SameLists a (arenaMallocSmall a c env).1 ∧
      ¬ (arenaFindAvailableChunk a c = none ∧ a.numChunks < a.maxChunks ∧ env.base.isSome)) ∨
    ∃ p, (arenaMallocSmall a c env).1.live = a.live ++ [p] ∧
      ArenaInv (arenaMallocSmall a c env).1 (xs ++ [(p, some c)]) ∧
      arenaFindAvailableChunk a c = none ∧ a.numChunks < a.maxChunks ∧ env.base.isSome := by
  unfold arenaMallocSmall
  rcases h.heads.find hc with ⟨p, -, hf⟩ | ⟨hno, hf⟩
  · rw [hf]
    exact Or.inl ⟨arenaTakeSmall_lists a p c env.run, fun hl => absurd hl.1 (by simp)⟩
  rw [hf]
  by_cases hnum : a.maxChunks ≤ a.numChunks
  · rw [if_pos hnum]
    exact Or.inl ⟨SameLists.refl a, fun hl => Nat.not_lt.mpr hnum hl.2.1⟩
  rw [if_neg hnum]
  cases hb : env.base with
  | none =>
    rw [chunkCreate_none]
    exact Or.inl ⟨SameLists.refl a, fun hl => Bool.false_ne_true hl.2.2⟩
  | some p =>
    obtain ⟨chunk, hchunk, hbase, -, -⟩ := chunkCreate_some p
    rw [hchunk]
    obtain ⟨hlive, hinv⟩ := arenaAddSmall_lists h (Nat.not_le.mp hnum) hc hno chunk
      (hbase.symm ▸ hfresh p hb)
    have hlists := arenaTakeSmall_lists (arenaAddSmall a chunk c) chunk.baseAddr c env.run
    exact Or.inr ⟨chunk.baseAddr, hlists.live.trans hlive,
      hinv.congr hlists.links hlists.live hlists.count hlists.max, rfl, Nat.not_le.mp hnum, rfl⟩

/-- **`arena_malloc`** links a chunk for a large request, or for a small one, or none. -/
theorem arenaMalloc_effect (h : ArenaInv a xs) (call : ArenaCall)
    (hfresh : ∀ p, call.env.base = some p → p ∉ a.live) :
    MallocEffect a xs call (arenaMalloc a call.size call.env).1 := by
  have hop : SameLists a a.countOp := ⟨rfl, rfl, rfl, rfl⟩
  have hinv : ArenaInv a.countOp xs := h.congr rfl rfl rfl rfl
  unfold arenaMalloc
  by_cases h1 : call.size = 0
  · rw [if_pos h1]
    exact .kept (SameLists.refl a) (fun hl => hl.1.1 h1) fun hl => hl.1.1 h1
  by_cases hon : a.active = true
  swap
  · rw [if_neg h1, if_pos (by simpa using hon)]
    exact .kept (SameLists.refl a) (fun hl => hon hl.1.2) fun hl => hon hl.1.2
  rw [if_neg h1, if_neg (by simpa using hon)]
  cases hc : isLargeClassIdx (sizeToClass call.size) with
  | true =>
    rw [if_pos rfl]
    have hnot : ¬ call.LinksSmall a := fun hl => by
      have hcls := hl.2.1
      rw [hc] at hcls
      exact absurd hcls (by decide)
    rcases arenaMallocLarge_lists hinv call.size call.env hfresh with
      ⟨hl, hno⟩ | ⟨p, hlive, hinv', hnum, hok⟩
    · exact .kept (hop.trans hl) (fun hlarge => hno hlarge.2.2) hnot
    · exact .large p hlive hinv' ⟨⟨h1, hon⟩, hc, hnum, hok⟩
  | false =>
    rw [if_neg Bool.false_ne_true]
    have hlt : sizeToClass call.size < NUM_SIZE_CLASSES := Nat.not_le.mp (of_decide_eq_false hc)
    have hnot : ¬ call.LinksLarge a := fun hl => by
      have hcls := hl.2.1
      rw [hc] at hcls
      exact absurd hcls (by decide)
    rcases arenaMallocSmall_lists hinv hlt call.env hfresh with
      ⟨hl, hno⟩ | ⟨p, hlive, hinv', hfind, hnum, hok⟩
    · exact .kept (hop.trans hl) hnot fun hsmall => hno hsmall.2.2
    · exact .small p hlive hinv' ⟨⟨h1, hon⟩, hc, hfind, hnum, hok⟩

end

end Nomalloc
