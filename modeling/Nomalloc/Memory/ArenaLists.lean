import Nomalloc.Lib.Runs
import Nomalloc.Memory.ArenaLinks
import Mathlib.Logic.Relation

/-!
# The lists of an arena

A history of `arena_malloc` calls on a fresh arena (`ArenaSys`).

* `ArenaSys.ListsOk`     the walks over the lists and `arena_destroy` do what they are for;
* `arena_lists_iff`      they do exactly when every call that links a chunk for a small request is
                         followed by one that links a chunk for a large request.
-/

namespace Nomalloc

/-- `m` is reached from `n` along `next`, in one step or more. -/
def Reaches (l : Links ArenaNode) : ArenaNode → ArenaNode → Prop :=
  Relation.TransGen fun n m => l.next n = some m

/-- The three list heads of a class. -/
def classHeads (c : ℕ) : List ArenaNode := [.chunksPartial c, .chunksFree c, .chunksFull c]

/-- An arena and the chunks that were created to serve a size class. -/
structure ArenaSys where
  arena : Arena
  served : List (ℕ × ℕ)

/-- `arena_malloc`; a chunk that is mapped for a small request serves its class from then on. -/
def ArenaSys.step (s : ArenaSys) (call : ArenaCall) : ArenaSys :=
  let a := (arenaMalloc s.arena call.size call.env).1
  let c := sizeToClass call.size
  ⟨a, s.served ++ if isLargeClassIdx c then []
    else (a.live.drop s.arena.live.length).map fun p => (p, c)⟩

/-- A fresh arena. -/
def ArenaSys.init : ArenaSys := ⟨arenaCreate, []⟩

/-- The kernel answers with a mapping that is not in use. -/
def ArenaCall.Legal (s : ArenaSys) (call : ArenaCall) : Prop :=
  ∀ p, call.env.base = some p → p ∉ s.arena.live

/-- The lists of the arena do what they are for. -/
structure ArenaSys.ListsOk (s : ArenaSys) : Prop where
  /-- the walk over `arena->list` is back at the head after `num_chunks` chunks, and has met every
  chunk once -/
  walk : ∃ ps : List ℕ, LinkPath s.arena.links.next (s.arena.links.next .list)
      (ps.map .chunk) .list ∧ ps.length = s.arena.numChunks ∧ ps.Nodup ∧
    ∀ p, p ∈ ps ↔ p ∈ s.arena.live
  /-- a chunk that serves a class is reached from exactly one of the lists of the class -/
  classes : ∀ p c, (p, c) ∈ s.served → ∃ h ∈ classHeads c, Reaches s.arena.links h (.chunk p) ∧
    ∀ h' ∈ classHeads c, Reaches s.arena.links h' (.chunk p) → h' = h
  /-- `arena_destroy` comes to its end, and every chunk has been unlinked and unmapped once -/
  destroy : ∃ rounds a, arenaDestroy rounds s.arena = some a ∧ a.live = []

/-! ## a fresh arena -/

theorem listInit_next {l : Links ArenaNode} {x n : ArenaNode} :
    (listInit l x).next n = if n = x then some x else l.next n := by
  show Function.update l.next x (some x) n = _
  rw [Function.update_apply]

theorem listInit_prev {l : Links ArenaNode} {x n : ArenaNode} :
    (listInit l x).prev n = if n = x then some x else l.prev n := by
  show Function.update l.prev x (some x) n = _
  rw [Function.update_apply]

theorem listInit_fault (l : Links ArenaNode) (x : ArenaNode) : (listInit l x).fault = l.fault := rfl

/-- The loop of `arena_create` makes the three heads of every class point to themselves. -/
theorem initClassLists_spec (l : Links ArenaNode) :
    (initClassLists l).fault = l.fault ∧ ∀ c < NUM_SIZE_CLASSES, ∀ h ∈ classHeads c,
      (initClassLists l).next h = some h ∧ (initClassLists l).prev h = some h := by
  unfold initClassLists
  induction NUM_SIZE_CLASSES with
  | zero => exact ⟨rfl, fun c hc => absurd hc (Nat.not_lt_zero c)⟩
  | succ k ih =>
    obtain ⟨hfault, hheads⟩ := ih
    rw [List.range_succ, List.foldl_append]
    refine ⟨hfault, fun c hc h hh => ?_⟩
    simp only [List.foldl_cons, List.foldl_nil, listInit_next, listInit_prev]
    by_cases hck : c = k
    · subst hck
      simp only [classHeads, List.mem_cons, List.not_mem_nil, or_false] at hh
      rcases hh with rfl | rfl | rfl <;> simp
    · obtain ⟨h1, h2⟩ := hheads c (by omega) h hh
      simp only [classHeads, List.mem_cons, List.not_mem_nil, or_false] at hh
      rcases hh with rfl | rfl | rfl <;> simp [hck, h1, h2]

theorem arenaCreate_inv : ArenaInv arenaCreate [] := by
  obtain ⟨hfault, hheads⟩ := initClassLists_spec ⟨fun _ => none, fun _ => none, false⟩
  have hnext : ∀ c < NUM_SIZE_CLASSES, ∀ h ∈ classHeads c,
      arenaCreate.links.next h = some h ∧ arenaCreate.links.prev h = some h := by
    intro c hc h hh
    have hne : h ≠ .list := by
      rintro rfl
      simp [classHeads] at hh
    show (listInit _ _).next h = some h ∧ (listInit _ _).prev h = some h
    rw [listInit_next, listInit_prev, if_neg hne, if_neg hne]
    exact hheads c hc h hh
  refine ⟨?_, ?_, fun x rest he => absurd he (by simp), fun p c hp => absurd hp (by simp),
    fun c hc _ => ?_, fun c hc => ?_, rfl, List.nodup_nil, rfl, Nat.zero_le _, rfl, ?_⟩
  · show (listInit _ _).next ArenaNode.list = some .list
    rw [listInit_next, if_pos rfl]
  · show (listInit _ _).prev ArenaNode.list = some .list
    rw [listInit_prev, if_pos rfl]
  · exact hnext c hc (.chunksFree c) (by simp [classHeads])
  · exact ⟨(hnext c hc (.chunksFull c) (by simp [classHeads])).1,
      (hnext c hc (.chunksPartial c) (by simp [classHeads])).1⟩
  · show (listInit _ _).fault = false
    rw [listInit_fault, hfault]

/-! ## the lists, given the shape of the pointers -/

section
variable {a : Arena} {xs : List (ℕ × Option ℕ)}

theorem tailOf_cases (xs : List (ℕ × Option ℕ)) :
    tailOf xs = .list ∨ ∃ c, tailOf xs = .chunksFree c := by
  unfold tailOf
  split
  · exact Or.inr ⟨_, rfl⟩
  · exact Or.inl rfl

theorem nodes_eq (xs : List (ℕ × Option ℕ)) :
    nodes xs = (xs.map Prod.fst).map ArenaNode.chunk := by
  unfold nodes
  rw [List.map_map]
  rfl

namespace ArenaInv

/-- The walk over `arena->list` comes back to the head exactly when the last chunk leads there. -/
theorem walk_iff (h : ArenaInv a xs) :
    (∃ ps : List ℕ, LinkPath a.links.next (a.links.next .list) (ps.map .chunk) .list ∧
      ps.length = a.numChunks ∧ ps.Nodup ∧ ∀ p, p ∈ ps ↔ p ∈ a.live) ↔ tailOf xs = .list := by
  constructor
  · rintro ⟨ps, hwalk, -⟩
    rcases tailOf_cases xs with ht | ⟨c, ht⟩
    · exact ht
    have hpath := h.path
    rw [ht] at hpath
    -- the walk runs through the chunks and is at the head of the class then
    obtain ⟨rest, hps, hrest⟩ := hpath.follow hwalk (List.nodup_cons.mp h.nodup_nodes).1
    cases rest with
    | nil => exact absurd hrest (by simp [LinkPath])
    | cons n rest =>
      have hn : ArenaNode.chunksFree c = n := Option.some.inj hrest.1
      have hin : n ∈ ps.map ArenaNode.chunk := by
        rw [hps]
        exact List.mem_append_right _ List.mem_cons_self
      obtain ⟨p, -, hp⟩ := List.mem_map.mp hin
      rw [← hn] at hp
      exact absurd hp (by simp)
  · intro ht
    have hpath := h.path
    rw [ht, nodes_eq] at hpath
    refine ⟨xs.map Prod.fst, hpath, ?_, h.live ▸ h.nodup, fun p => by rw [h.live]⟩
    rw [List.length_map, h.count]

/-- A list head that points to itself reaches nothing else. -/
theorem not_reaches {l : Links ArenaNode} {h : ArenaNode} (hself : l.next h = some h) {n : ArenaNode}
    (hr : Reaches l h n) : n = h := by
  induction hr with
  | single hstep => exact Option.some.inj (hstep.symm.trans hself)
  | tail _ hstep ih =>
    rw [ih, hself] at hstep
    exact (Option.some.inj hstep).symm

/-- A chunk of a class is reached from `chunks_free` of the class, and from no other list of it. -/
theorem classes_ok (h : ArenaInv a xs) {p c : ℕ} (hp : (p, some c) ∈ xs) :
    ∃ hd ∈ classHeads c, Reaches a.links hd (.chunk p) ∧
      ∀ hd' ∈ classHeads c, Reaches a.links hd' (.chunk p) → hd' = hd := by
  obtain ⟨hc, hnext⟩ := h.cls p c hp
  obtain ⟨hfull, hpart⟩ := h.spare c hc
  refine ⟨.chunksFree c, by simp [classHeads], Relation.TransGen.single hnext, ?_⟩
  intro hd hhd hr
  simp only [classHeads, List.mem_cons, List.not_mem_nil, or_false] at hhd
  rcases hhd with rfl | rfl | rfl
  · exact absurd (not_reaches hpart hr) (by simp)
  · rfl
  · exact absurd (not_reaches hfull hr) (by simp)

end ArenaInv

/-! ## `arena_destroy` -/

/-- One round of `arena_destroy`. -/
def destroyChunk (a : Arena) : ArenaNode → Arena
  | .chunk p => { a with links := listDel a.links (.chunk p), live := a.live.erase p }
  | _ => a

/-- The chunks that are left lie ahead, and nothing leads back from the first of them. -/
def DestroyInv (ns : List ArenaNode) (a : Arena) : Prop :=
  ns = a.live.map .chunk ∧ a.live.Nodup ∧ (∃ o, LinkPath a.links.next o ns .list) ∧
    ∀ p ps, a.live = p :: ps → ∃ y, a.links.prev (.chunk p) = some y ∧ ∀ q, y ≠ .chunk q

/-- The round at a chunk unlinks and unmaps it, and leaves the way to the others as it is. -/
theorem destroyChunk_step {n : ArenaNode} {ns : List ArenaNode} (h : DestroyInv (n :: ns) a) :
    arenaDestroyBody a n = some (destroyChunk a n) ∧ DestroyInv ns (destroyChunk a n) ∧
      ∀ m ∈ ns, (destroyChunk a n).links.next m = a.links.next m := by
  obtain ⟨hns, hnd, ⟨o, -, hpath⟩, hback⟩ := h
  cases hlive : a.live with
  | nil =>
    rw [hlive] at hns
    exact absurd hns (by simp)
  | cons p ps =>
    rw [hlive, List.map_cons] at hns
    obtain ⟨rfl, rfl⟩ := List.cons.inj hns
    rw [hlive] at hnd
    obtain ⟨hpps, hnd'⟩ := List.nodup_cons.mp hnd
    obtain ⟨y, hy, hyne⟩ := hback p ps hlive
    obtain ⟨w, hw⟩ : ∃ w, a.links.next (.chunk p) = some w := by
      rw [hpath.head]
      exact ⟨_, List.head?_eq_some_head (List.append_ne_nil_of_right_ne_nil _ (by simp))⟩
    have hdel := CircList.listDel_eq hy hw
    have herase : (destroyChunk a (.chunk p)).live = ps := by
      show a.live.erase p = ps
      rw [hlive, List.erase_cons_head]
    have hnext : ∀ m ∈ ps.map ArenaNode.chunk,
        (destroyChunk a (.chunk p)).links.next m = a.links.next m := by
      intro m hm
      obtain ⟨q, hq, rfl⟩ := List.mem_map.mp hm
      have hqp : ArenaNode.chunk q ≠ .chunk p := fun he => hpps (ArenaNode.chunk.inj he ▸ hq)
      show (listDel a.links (.chunk p)).next (.chunk q) = _
      rw [hdel]
      dsimp only
      rw [Function.update_of_ne hqp, Function.update_of_ne (hyne q).symm]
    refine ⟨?_, ⟨by rw [herase], by rw [herase]; exact hnd', ⟨_, hpath.congr hnext⟩, ?_⟩, hnext⟩
    · show (if p ∈ a.live then some _ else none) = _
      rw [if_pos (hlive ▸ List.mem_cons_self)]
      rfl
    · intro q qs hq
      rw [herase] at hq
      -- `list_del` hands the way back on to the next chunk
      have hwq : w = .chunk q := by
        rw [hq] at hpath
        exact Option.some.inj (hw.symm.trans hpath.1)
      have hqp : ArenaNode.chunk q ≠ .chunk p := by
        intro he
        refine hpps ?_
        rw [hq, ← ArenaNode.chunk.inj he]
        exact List.mem_cons_self
      refine ⟨y, ?_, hyne⟩
      show (listDel a.links (.chunk p)).prev (.chunk q) = _
      rw [hdel, hwq]
      dsimp only
      rw [Function.update_of_ne hqp, Function.update_self]

/-- **`arena_destroy`** unmaps every chunk, when the last one leads back to the head. -/
theorem arenaDestroy_all (h : ArenaInv a xs) (ht : tailOf xs = .list) :
    ∃ rounds a', arenaDestroy rounds a = some a' ∧ a'.live = [] := by
  have hpath := h.path
  rw [ht] at hpath
  have hinv : DestroyInv (nodes xs) { a with active := false } := by
    refine ⟨?_, h.nodup, ⟨_, hpath⟩, ?_⟩
    · rw [nodes_eq]
      exact congrArg _ h.live.symm
    · intro p ps hp
      have hxs : xs.map Prod.fst = p :: ps := h.live.symm.trans hp
      cases xs with
      | nil => exact absurd hxs (by simp)
      | cons x rest =>
        rw [← (List.cons.inj hxs).1]
        exact h.first x rest rfl
  have hloop := forEachSafe_path Arena.links (fun _ => false) arenaDestroyBody destroyChunk DestroyInv
    (s := { a with active := false }) (fun n ns s hs _ => destroyChunk_step hs) hpath
    (n := (a.links.next .list).bind a.links.next)
    (fun m ms hm => by
      rw [hm] at hpath
      rw [hpath.1]
      rfl)
    (List.nodup_cons.mp h.nodup_nodes).1 hinv 0
  have hend := foldUntil_inv destroyChunk DestroyInv (fun n ns s hs => (destroyChunk_step hs).2.1)
    hinv
  refine ⟨(nodes xs).length + 1 + 0, { foldUntil (fun _ => false) destroyChunk
    { a with active := false } (nodes xs) with numChunks := 0 }, ?_, ?_⟩
  · unfold arenaDestroy
    dsimp only
    rw [hloop, Option.map_some]
  · exact List.map_eq_nil_iff.mp hend.1.symm

end

/-! ## histories -/

section
variable {s : ArenaSys} {xs : List (ℕ × Option ℕ)} {call : ArenaCall} {ops : List ArenaCall}

/-- The chunks of the arena, and those among them that serve a class. -/
def ArenaSys.Holds (s : ArenaSys) (xs : List (ℕ × Option ℕ)) : Prop :=
  ArenaInv s.arena xs ∧ ∀ p c, (p, c) ∈ s.served → (p, some c) ∈ xs

/-- The lists do what they are for exactly when the last chunk leads back to `arena->list`. -/
theorem listsOk_iff (h : s.Holds xs) : s.ListsOk ↔ tailOf xs = .list := by
  constructor
  · intro hok
    exact h.1.walk_iff.mp hok.walk
  · intro ht
    exact ⟨h.1.walk_iff.mpr ht, fun p c hp => h.1.classes_ok (h.2 p c hp), arenaDestroy_all h.1 ht⟩

/-- **What a call does.** -/
theorem holds_step (h : s.Holds xs) (hlegal : call.Legal s) :
    ((s.step call).Holds xs ∧ ¬ call.LinksLarge s.arena ∧ ¬ call.LinksSmall s.arena) ∨
    (∃ p, (s.step call).Holds (xs ++ [(p, none)]) ∧ call.LinksLarge s.arena) ∨
    ∃ p c, (s.step call).Holds (xs ++ [(p, some c)]) ∧ call.LinksSmall s.arena := by
  have hserved : ∀ p c, (p, c) ∈ (s.step call).served → (p, some c) ∈ xs ∨
      c = sizeToClass call.size ∧ isLargeClassIdx c = false ∧
        p ∈ (s.step call).arena.live.drop s.arena.live.length := by
    intro p c hpc
    rcases List.mem_append.mp hpc with hpc | hpc
    · exact Or.inl (h.2 p c hpc)
    split_ifs at hpc with hc
    · exact absurd hpc (by simp)
    · obtain ⟨q, hq, he⟩ := List.mem_map.mp hpc
      cases he
      exact Or.inr ⟨rfl, by simpa using hc, hq⟩
  cases arenaMalloc_effect h.1 call hlegal with
  | kept hlists hlarge hsmall =>
    refine Or.inl ⟨⟨h.1.congr hlists.links hlists.live hlists.count hlists.max, ?_⟩, hlarge, hsmall⟩
    intro p c hpc
    refine (hserved p c hpc).resolve_right fun hnew => ?_
    have hdrop := hnew.2.2
    rw [show (s.step call).arena.live = s.arena.live from hlists.live, List.drop_length] at hdrop
    exact absurd hdrop (by simp)
  | large p hlive hinv hlarge =>
    refine Or.inr (Or.inl ⟨p, ⟨hinv, fun q c hq => ?_⟩, hlarge⟩)
    rcases hserved q c hq with hold | ⟨rfl, hc, -⟩
    · exact List.mem_append_left _ hold
    · rw [hlarge.2.1] at hc
      exact absurd hc (by decide)
  | small p hlive hinv hsmall =>
    refine Or.inr (Or.inr ⟨p, sizeToClass call.size, ⟨hinv, fun q c hq => ?_⟩, hsmall⟩)
    rcases hserved q c hq with hold | ⟨rfl, -, hdrop⟩
    · exact List.mem_append_left _ hold
    · rw [show (s.step call).arena.live = s.arena.live ++ [p] from hlive, List.drop_left] at hdrop
      rw [List.mem_singleton.mp hdrop]
      exact List.mem_append_right _ (List.mem_singleton_self _)

/-- Every call that links a chunk for a small or medium request is followed by one that links a
chunk for a large request. -/
def LargeFollows (ops : List ArenaCall) : Prop :=
  ∀ as call bs, ops = as ++ call :: bs →
    call.LinksSmall (Runs.after ArenaSys.step ArenaSys.init as).arena →
    ∃ cs call' ds, bs = cs ++ call' :: ds ∧
      call'.LinksLarge (Runs.after ArenaSys.step ArenaSys.init (as ++ call :: cs)).arena

theorem largeFollows_large
    (hlarge : call.LinksLarge (Runs.after ArenaSys.step ArenaSys.init ops).arena) :
    LargeFollows (ops ++ [call]) := by
  intro as call' bs he hsmall
  rcases List.eq_nil_or_concat' bs with rfl | ⟨bs', b, rfl⟩
  · obtain ⟨rfl, he'⟩ := List.append_inj' he rfl
    cases he'
    have hcls := hsmall.2.1
    rw [hlarge.2.1] at hcls
    exact absurd hcls (by decide)
  · rw [← List.cons_append, ← List.append_assoc] at he
    obtain ⟨rfl, he'⟩ := List.append_inj' he rfl
    cases he'
    exact ⟨bs', call, [], rfl, hlarge⟩

theorem largeFollows_small
    (hsmall : call.LinksSmall (Runs.after ArenaSys.step ArenaSys.init ops).arena) :
    ¬ LargeFollows (ops ++ [call]) := by
  intro h
  obtain ⟨cs, call', ds, he, -⟩ := h ops call [] rfl hsmall
  exact absurd he (by simp)

theorem largeFollows_kept
    (hlarge : ¬ call.LinksLarge (Runs.after ArenaSys.step ArenaSys.init ops).arena)
    (hsmall : ¬ call.LinksSmall (Runs.after ArenaSys.step ArenaSys.init ops).arena) :
    LargeFollows (ops ++ [call]) ↔ LargeFollows ops := by
  constructor
  · rintro h as call₁ bs rfl h₁
    obtain ⟨cs, call₂, ds, he, h₂⟩ := h as call₁ (bs ++ [call]) (by simp) h₁
    rcases List.eq_nil_or_concat' ds with rfl | ⟨ds', d, rfl⟩
    · obtain ⟨rfl, he'⟩ := List.append_inj' he rfl
      cases he'
      exact absurd h₂ hlarge
    · rw [← List.cons_append, ← List.append_assoc] at he
      obtain ⟨rfl, -⟩ := List.append_inj' he rfl
      exact ⟨cs, call₂, ds', rfl, h₂⟩
  · intro h as call₁ bs he h₁
    rcases List.eq_nil_or_concat' bs with rfl | ⟨bs', b, rfl⟩
    · obtain ⟨rfl, he'⟩ := List.append_inj' he rfl
      cases he'
      exact absurd h₁ hsmall
    · rw [← List.cons_append, ← List.append_assoc] at he
      obtain ⟨rfl, -⟩ := List.append_inj' he rfl
      obtain ⟨cs, call₂, ds, rfl, h₂⟩ := h as call₁ bs' rfl h₁
      exact ⟨cs, call₂, ds ++ [b], by simp, h₂⟩

/-- **Run lemma**, by induction on the last call. -/
theorem holds_after (hlegal : Runs.Each ArenaSys.step ArenaCall.Legal ArenaSys.init ops) :
    ∃ xs, (Runs.after ArenaSys.step ArenaSys.init ops).Holds xs ∧
      (tailOf xs = .list ↔ LargeFollows ops) := by
  induction ops using List.reverseRecOn with
  | nil =>
    refine ⟨[], ⟨arenaCreate_inv, fun p c hp => absurd hp (by simp [ArenaSys.init])⟩, ?_⟩
    exact iff_of_true rfl fun as call bs he => absurd he (by simp)
  | append_singleton ops call ih =>
    obtain ⟨hlegal, hcall⟩ := Runs.each_concat.mp hlegal
    obtain ⟨xs, hxs, htail⟩ := ih hlegal
    rw [Runs.after_append]
    rcases holds_step hxs hcall with ⟨h, hlarge, hsmall⟩ | ⟨p, h, hlarge⟩ | ⟨p, c, h, hsmall⟩
    · exact ⟨xs, h, htail.trans (largeFollows_kept hlarge hsmall).symm⟩
    · refine ⟨xs ++ [(p, none)], h, iff_of_true ?_ (largeFollows_large hlarge)⟩
      exact tailOf_concat p none
    · refine ⟨xs ++ [(p, some c)], h, iff_of_false ?_ (largeFollows_small hsmall)⟩
      rw [tailOf_concat]
      simp

/-- **The lists of an arena.**  After a history of `arena_malloc` calls the walks and `arena_destroy`
do what they are for exactly when every call that linked a chunk for a small or medium request was
followed by one that linked a chunk for a large request. -/
theorem arena_lists_iff (ops : List ArenaCall)
    (hlegal : Runs.Each ArenaSys.step ArenaCall.Legal ArenaSys.init ops) :
    (Runs.after ArenaSys.step ArenaSys.init ops).ListsOk ↔ LargeFollows ops := by
  obtain ⟨xs, h, htail⟩ := holds_after hlegal
  exact (listsOk_iff h).trans htail

/-- A request of eight bytes. -/
def mallocEight : ArenaCall := ⟨8, ⟨some 0x200000, ⟨some 0x500000, some 0x500100⟩⟩⟩

theorem mallocEight_linksSmall : mallocEight.LinksSmall ArenaSys.init.arena := by
  refine ⟨⟨by decide, rfl⟩, by decide, ?_, by decide, rfl⟩
  rcases arenaCreate_inv.heads.find (c := sizeToClass 8) (by decide) with ⟨p, hp, -⟩ | ⟨-, hf⟩
  · exact absurd hp (by simp)
  · exact hf

theorem mallocEight_legal :
    Runs.Each ArenaSys.step ArenaCall.Legal ArenaSys.init [mallocEight] :=
  ⟨fun _ _ => by simp [ArenaSys.init, arenaCreate], trivial⟩

theorem arena_lists_one :
    (Runs.after ArenaSys.step ArenaSys.init [mallocEight]).ListsOk ↔ LargeFollows [mallocEight] :=
  arena_lists_iff [mallocEight] mallocEight_legal

/-- After one small request the walk over `arena->list` does not come back to its head. -/
theorem one_small_chunk_loses_list :
    ¬ ∀ ops, Runs.Each ArenaSys.step ArenaCall.Legal ArenaSys.init ops →
      (Runs.after ArenaSys.step ArenaSys.init ops).ListsOk := by
  intro hall
  obtain ⟨xs, h, htail⟩ := holds_after mallocEight_legal
  have hok := (listsOk_iff h).mp (hall _ mallocEight_legal)
  have hnot : ¬ LargeFollows ([] ++ [mallocEight]) := largeFollows_small mallocEight_linksSmall
  exact hnot (htail.mp hok)

end

end Nomalloc
