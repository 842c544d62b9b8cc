import Nomalloc.Lib.CircInsert
import Nomalloc.Lib.ForEach
import Nomalloc.Lib.Runs
import Mathlib.Tactic

/-!
# `utils/list.h`: the circular lists over a run of calls

`listInit`, `listAddTail`, `listDel` and `listEmpty` are in the library; here are the other functions,
store by store.  The abstract state is the nodes of every list.  The second argument of `list_add`
and `list_add_tail` may be any node of a circle, its head or not.

* `listStep`, `listsStep`      a call on the pointers, and on the lists that they stand for;
* `ListOp.Legal`               what is linked in is on no list, what is taken out is on one;
* `listStep_keeps`             one legal call on one of the lists;
* `list_run`                   over a run of legal calls the pointers stand for the lists, no store
                               goes through NULL, and every question is answered as by the lists.
-/

namespace Nomalloc

section
variable {ν : Type*} [DecidableEq ν]

/-- `list_add` -/
def listAdd (l : Links ν) (new head : ν) : Links ν :=
  let l := l.storePrev (l.next head) (some new)
  let l := l.storeNext (some new) (l.next head)
  let l := l.storePrev (some new) (some head)
  l.storeNext (some head) (some new)

/-- `list_del_init` -/
def listDelInit (l : Links ν) (entry : ν) : Links ν := listInit (listDel l entry) entry

/-- `list_move` -/
def listMove (l : Links ν) (entry head : ν) : Links ν := listAdd (listDel l entry) entry head

/-- `list_move_tail` -/
def listMoveTail (l : Links ν) (entry head : ν) : Links ν :=
  listAddTail (listDel l entry) entry head

/-- `list_is_first` -/
def listIsFirst (l : Links ν) (entry head : ν) : Bool := l.prev entry = some head

/-- `list_is_last` -/
def listIsLast (l : Links ν) (entry head : ν) : Bool := l.next entry = some head

/-- `list_length`, `none` when `rounds` rounds do not end the loop. -/
def listLength (rounds : ℕ) (l : Links ν) (head : ν) : Option ℕ :=
  (forEach (fun s : Links ν × ℕ => s.1) head (fun s _ => some (s.1, (s.2 + 1) % 2 ^ 64)) rounds
    (l.next head) (l, 0)).map fun r => r.2.2

/-- `INIT_LIST_HEAD` of several heads, one after the other. -/
def initListHeads {κ : Type*} (l : Links ν) (head : κ → ν) (ks : List κ) : Links ν :=
  ks.foldl (fun l k => listInit l (head k)) l

/-- A call of one of the six functions that change lists. -/
inductive ListOp (ν : Type*) where
  | add (node pos : ν)
  | addTail (node pos : ν)
  | del (entry : ν)
  | delInit (entry : ν)
  | move (entry pos : ν)
  | moveTail (entry pos : ν)
deriving DecidableEq, Repr

def listStep (l : Links ν) : ListOp ν → Links ν
  | .add node pos => listAdd l node pos
  | .addTail node pos => listAddTail l node pos
  | .del entry => listDel l entry
  | .delInit entry => listDelInit l entry
  | .move entry pos => listMove l entry pos
  | .moveTail entry pos => listMoveTail l entry pos

/-- The same call on the lists with the heads `head`. -/
def listsStep {κ : Type*} (head : κ → ν) (lists : κ → List ν) : ListOp ν → κ → List ν
  | .add node pos => fun k => putBehind (head k) pos node (lists k)
  | .addTail node pos => fun k => putBefore (head k) pos node (lists k)
  | .del entry | .delInit entry => fun k => (lists k).erase entry
  | .move entry pos => fun k => putBehind (head k) pos entry ((lists k).erase entry)
  | .moveTail entry pos => fun k => putBefore (head k) pos entry ((lists k).erase entry)

/-- A node is linked in next to another one once it is on no list; only nodes are taken out, no
head, and none is moved next to itself. -/
def ListOp.Legal {κ : Type*} (head : κ → ν) (lists : κ → List ν) : ListOp ν → Prop
  | .add node pos | .addTail node pos =>
    (∀ k, node ∉ head k :: lists k) ∧ ∃ k, pos ∈ head k :: lists k
  | .del entry | .delInit entry => ∃ k, entry ∈ lists k
  | .move entry pos | .moveTail entry pos =>
    (∃ k, entry ∈ lists k) ∧ pos ≠ entry ∧ ∃ k, pos ∈ head k :: lists k

/-- What the functions of `list.h` that only look answer about the list with this head. -/
structure ListAnswers (l : Links ν) (head : ν) (ns : List ν) : Prop where
  forward : LinkPath l.next (l.next head) ns head
  backward : LinkPath l.prev (l.prev head) ns.reverse head
  empty : listEmpty l head = ns.isEmpty
  first : ∀ e ∈ ns, listIsFirst l e head = decide (ns.head? = some e)
  last : ∀ e ∈ ns, listIsLast l e head = decide (ns.getLast? = some e)
  length : ∀ j, listLength (ns.length + 1 + j) l head = some (ns.length % 2 ^ 64)

/-! ## linking in -/

section
variable {l : Links ν} {x p q : ν}

theorem listAdd_between (hq : l.next p = some q) (hpx : p ≠ x) (hqx : q ≠ x) :
    Between l (listAdd l x p) p x q := by
  have heq : listAdd l x p =
      { next := Function.update (Function.update l.next x (some q)) p (some x)
        prev := Function.update (Function.update l.prev q (some x)) x (some p)
        fault := l.fault } := by
    unfold listAdd Links.storeNext Links.storePrev
    simp only [hq]
  rw [heq]
  refine ⟨?_, ?_, ?_, ?_, fun n hnp hnx => ?_, fun n hnq hnx => ?_, rfl⟩ <;> dsimp only
  · rw [Function.update_self]
  · rw [Function.update_of_ne hpx.symm, Function.update_self]
  · rw [Function.update_self]
  · rw [Function.update_of_ne hqx, Function.update_self]
  · rw [Function.update_of_ne hnp, Function.update_of_ne hnx]
  · rw [Function.update_of_ne hnx, Function.update_of_ne hnq]

theorem listAddTail_between (hp : l.prev q = some p) (hpx : p ≠ x) (hqx : q ≠ x) :
    Between l (listAddTail l x q) p x q := by
  rw [CircList.listAddTail_eq hp]
  refine ⟨?_, ?_, ?_, ?_, fun n hnp hnx => ?_, fun n hnq hnx => ?_, rfl⟩ <;> dsimp only
  · rw [Function.update_of_ne hpx, Function.update_self]
  · rw [Function.update_self]
  · rw [Function.update_of_ne hqx.symm, Function.update_self]
  · rw [Function.update_self]
  · rw [Function.update_of_ne hnx, Function.update_of_ne hnp]
  · rw [Function.update_of_ne hnq, Function.update_of_ne hnx]

end

/-! ## one call -/

section
variable {κ : Type*} {l : Links ν} {head : κ → ν} {lists : κ → List ν} {k : κ} {e pos : ν}

theorem listAdd_keeps (h : CircLists l head lists) (hx : ∀ k, e ∉ head k :: lists k)
    (hpos : ∃ k, pos ∈ head k :: lists k) :
    CircLists (listAdd l e pos) head fun k => putBehind (head k) pos e (lists k) := by
  obtain ⟨k, hpos⟩ := hpos
  obtain ⟨q, hq, hqx, hput⟩ := h.behind hpos hx
  exact hput _ (listAdd_between hq (fun he => hx k (he ▸ hpos)) hqx)

theorem listAddTail_keeps (h : CircLists l head lists) (hx : ∀ k, e ∉ head k :: lists k)
    (hpos : ∃ k, pos ∈ head k :: lists k) :
    CircLists (listAddTail l e pos) head fun k => putBefore (head k) pos e (lists k) := by
  obtain ⟨k, hpos⟩ := hpos
  obtain ⟨p, hp, hpx, hput⟩ := h.before hpos hx
  exact hput _ (listAddTail_between hp hpx fun he => hx k (he ▸ hpos))

/-- A node that was on a list is on none behind `list_del`, and nothing else is missing. -/
theorem listDel_keeps (h : CircLists l head lists) (he : e ∈ lists k) :
    CircLists (listDel l e) head (fun k => (lists k).erase e) ∧
      (∀ j, e ∉ head j :: (lists j).erase e) ∧
      ∀ pos, pos ≠ e → (∃ j, pos ∈ head j :: lists j) → ∃ j, pos ∈ head j :: (lists j).erase e := by
  classical
  have hmem : ∀ j, e ∉ head j :: (lists j).erase e := by
    intro j hin
    by_cases hj : j = k
    · subst hj
      obtain ⟨hh, hnd⟩ := List.nodup_cons.mp (h.circ j).nodup
      rcases List.mem_cons.mp hin with hin | hin
      · exact hh (hin ▸ he)
      · exact (hnd.mem_erase_iff.mp hin).1 rfl
    · refine h.apart k j (Ne.symm hj) e (List.mem_cons_of_mem _ he) ?_
      exact List.cons_subset_cons _ List.erase_subset hin
  have hfun : (fun j => (lists j).erase e) = Function.update lists k ((lists k).erase e) := by
    funext j
    by_cases hj : j = k
    · subst hj
      rw [Function.update_self]
    · rw [Function.update_of_ne hj]
      refine List.erase_of_not_mem fun hin => ?_
      exact h.apart k j (Ne.symm hj) e (List.mem_cons_of_mem _ he) (List.mem_cons_of_mem _ hin)
  refine ⟨hfun ▸ h.del he, hmem, fun pos hne hpos => ?_⟩
  obtain ⟨j, hpos⟩ := hpos
  refine ⟨j, List.mem_cons.mpr ((List.mem_cons.mp hpos).imp_right fun hin => ?_)⟩
  exact (List.mem_erase_of_ne hne).mpr hin

/-- **Step lemma.** -/
theorem listStep_keeps (h : CircLists l head lists) (op : ListOp ν) (hop : op.Legal head lists) :
    CircLists (listStep l op) head (listsStep head lists op) := by
  cases op with
  | add node pos => exact listAdd_keeps h hop.1 hop.2
  | addTail node pos => exact listAddTail_keeps h hop.1 hop.2
  | del entry =>
    obtain ⟨k, he⟩ := hop
    exact (listDel_keeps h he).1
  | delInit entry =>
    obtain ⟨k, he⟩ := hop
    obtain ⟨hdel, hoff, -⟩ := listDel_keeps h he
    exact hdel.init_other hoff
  | move entry pos =>
    obtain ⟨⟨k, he⟩, hne, hpos⟩ := hop
    obtain ⟨hdel, hoff, hpos'⟩ := listDel_keeps h he
    exact listAdd_keeps hdel hoff (hpos' pos hne hpos)
  | moveTail entry pos =>
    obtain ⟨⟨k, he⟩, hne, hpos⟩ := hop
    obtain ⟨hdel, hoff, hpos'⟩ := listDel_keeps h he
    exact listAddTail_keeps hdel hoff (hpos' pos hne hpos)

/-! ## looking -/

omit [DecidableEq ν] in
theorem foldl_count (ns : List ν) (l : Links ν) (c : ℕ) :
    ns.foldl (fun s _ => (s.1, (s.2 + 1) % 2 ^ 64)) (l, c % 2 ^ 64) =
      (l, (c + ns.length) % 2 ^ 64) := by
  induction ns generalizing c with
  | nil => rfl
  | cons n ns ih =>
    rw [List.foldl_cons, Nat.mod_add_mod, ih, List.length_cons, Nat.add_right_comm, Nat.add_assoc]

theorem listLength_eq {head : ν} {ns : List ν} (h : CircList l head ns) (j : ℕ) :
    listLength (ns.length + 1 + j) l head = some (ns.length % 2 ^ 64) := by
  have hloop := (forEach_path (fun s : Links ν × ℕ => s.1)
    (fun s _ => some (s.1, (s.2 + 1) % 2 ^ 64)) (fun s _ => (s.1, (s.2 + 1) % 2 ^ 64))
    (fun _ _ => True) (fun _ _ _ _ => ⟨rfl, rfl, trivial⟩) (s := (l, 0 % 2 ^ 64)) h.next
    (List.nodup_cons.mp h.nodup).1 trivial j).1
  rw [foldl_count, Nat.zero_add, Nat.zero_mod] at hloop
  unfold listLength
  rw [hloop]
  rfl

omit [DecidableEq ν] in
/-- Only the first node has the head before it. -/
theorem getLast?_head_iff {head : ν} {as bs : List ν} (hnd : (head :: (as ++ e :: bs)).Nodup) :
    (head :: as).getLast? = some head ↔ (as ++ e :: bs).head? = some e := by
  obtain ⟨hh, hnd⟩ := List.nodup_cons.mp hnd
  cases as with
  | nil => exact iff_of_true rfl rfl
  | cons a as =>
    refine iff_of_false (fun hlast => hh ?_) fun hfirst => ?_
    · rw [List.getLast?_cons_cons] at hlast
      exact List.mem_append_left _ (List.mem_of_getLast? hlast)
    · have he : a = e := Option.some.inj hfirst
      rw [List.cons_append, he] at hnd
      exact (List.nodup_cons.mp hnd).1 (List.mem_append_right _ List.mem_cons_self)

omit [DecidableEq ν] in
/-- Only the last node has the head behind it. -/
theorem head?_head_iff {head : ν} {as bs : List ν} (hnd : (head :: (as ++ e :: bs)).Nodup) :
    (bs ++ [head]).head? = some head ↔ (as ++ e :: bs).getLast? = some e := by
  have hrev : bs.reverse ++ e :: as.reverse = (as ++ e :: bs).reverse := by
    rw [List.reverse_append, List.reverse_cons, List.append_assoc, List.singleton_append]
  have hnd' : (head :: (bs.reverse ++ e :: as.reverse)).Nodup := by
    rw [hrev, List.nodup_cons, List.mem_reverse, List.nodup_reverse]
    exact List.nodup_cons.mp hnd
  have hlast : (head :: bs.reverse).getLast? = (bs ++ [head]).head? := by
    rw [← List.getLast?_reverse, List.reverse_append]
    rfl
  have hiff := getLast?_head_iff hnd'
  rwa [hlast, hrev, List.head?_reverse] at hiff

theorem listAnswers {head : ν} {ns : List ν} (h : CircList l head ns) : ListAnswers l head ns := by
  refine ⟨h.next, h.prev, ?_, fun e he => ?_, fun e he => ?_, listLength_eq h⟩
  · rw [Bool.eq_iff_iff, h.listEmpty_iff, List.isEmpty_iff]
  · obtain ⟨as, bs, rfl⟩ := List.append_of_mem he
    unfold listIsFirst
    rw [h.split.2]
    exact decide_eq_decide.mpr (getLast?_head_iff h.nodup)
  · obtain ⟨as, bs, rfl⟩ := List.append_of_mem he
    unfold listIsLast
    rw [h.split.1]
    exact decide_eq_decide.mpr (head?_head_iff h.nodup)

end

/-! ## runs -/

section
variable {κ : Type*}

/-- Heads that have been initialised are empty lists. -/
theorem initListHeads_circLists {head : κ → ν} (hhead : Function.Injective head) {l : Links ν}
    (hl : l.fault = false) {ks : List κ} (hks : ∀ k, k ∈ ks) :
    CircLists (initListHeads l head ks) head fun _ => [] := by
  have hloop : ∀ (ks done : List κ) (l : Links ν),
      (∀ k ∈ done, CircList l (head k) []) → ∀ k ∈ done ++ ks,
        CircList (initListHeads l head ks) (head k) [] := by
    intro ks
    induction ks with
    | nil =>
      intro done l hdone k hk
      rw [List.append_nil] at hk
      exact hdone k hk
    | cons j ks ih =>
      intro done l hdone k hk
      rw [← List.singleton_append, ← List.append_assoc] at hk
      refine ih (done ++ [j]) (listInit l (head j)) (fun i hi => ?_) k hk
      by_cases hij : head i = head j
      · rw [hij]
        exact CircList.init l (head j)
      · have hi' : i ∈ done := (List.mem_append.mp hi).resolve_right fun hin =>
          hij (congrArg head (List.mem_singleton.mp hin))
        refine (hdone i hi').init_other fun hin => hij (List.mem_singleton.mp hin).symm
  have hfault : ∀ (ks : List κ) (l : Links ν), l.fault = false →
      (initListHeads l head ks).fault = false := by
    intro ks
    induction ks with
    | nil => exact fun _ h => h
    | cons k ks ih => exact fun l h => ih (listInit l (head k)) h
  refine ⟨fun k => hloop ks [] l (fun _ h => absurd h List.not_mem_nil) k (hks k), ?_, hfault ks l hl⟩
  intro i j hij n hni hnj
  exact hij (hhead ((List.mem_singleton.mp hni).symm.trans (List.mem_singleton.mp hnj)))

theorem listStep_run {l : Links ν} {head : κ → ν} {lists : κ → List ν} (h : CircLists l head lists)
    {ops : List (ListOp ν)} (hops : Runs.Each (listsStep head) (ListOp.Legal head) lists ops) :
    CircLists (Runs.after listStep l ops) head (Runs.after (listsStep head) lists ops) := by
  induction ops generalizing l lists with
  | nil => exact h
  | cons op ops ih => exact ih (listStep_keeps h op hops.1) hops.2

/-- **The circular lists.**  From heads that have been initialised, in any memory, a run of calls that
is legal on the lists leaves pointers that stand for the lists: no store has gone through NULL, and
all functions that look answer as the lists do. -/
theorem list_run {head : κ → ν} (hhead : Function.Injective head) {ks : List κ}
    (hks : ∀ k, k ∈ ks) {l : Links ν} (hl : l.fault = false) (ops : List (ListOp ν))
    (hops : Runs.Each (listsStep head) (ListOp.Legal head) (fun _ => []) ops) :
    (Runs.after listStep (initListHeads l head ks) ops).fault = false ∧
      ∀ k, ListAnswers (Runs.after listStep (initListHeads l head ks) ops) (head k)
        (Runs.after (listsStep head) (fun _ => []) ops k) := by
  have hrun := listStep_run (initListHeads_circLists hhead hl hks) hops
  exact ⟨hrun.noFault, fun k => listAnswers (hrun.circ k)⟩

/-- Two lists, with the heads 0 and 1, in a memory full of other pointers. -/
theorem list_run_two : (Runs.after listStep
      (initListHeads (⟨fun _ => some 9, fun _ => some 9, false⟩ : Links ℕ)
        (fun k : Fin 2 => k.val) [0, 1])
      [.add 2 0, .addTail 3 2, .move 2 1, .addTail 4 1, .moveTail 4 2, .delInit 3]).fault = false ∧
    ∀ k : Fin 2, ListAnswers (Runs.after listStep
      (initListHeads (⟨fun _ => some 9, fun _ => some 9, false⟩ : Links ℕ)
        (fun k : Fin 2 => k.val) [0, 1])
      [.add 2 0, .addTail 3 2, .move 2 1, .addTail 4 1, .moveTail 4 2, .delInit 3]) k.val
        (Runs.after (listsStep fun k : Fin 2 => k.val) (fun _ => [])
          [.add 2 0, .addTail 3 2, .move 2 1, .addTail 4 1, .moveTail 4 2, .delInit 3] k) :=
  list_run Fin.val_injective (by decide) rfl _ (by
    simp only [Runs.each_cons, Runs.each_nil, ListOp.Legal]
    decide)

end

end

end Nomalloc
