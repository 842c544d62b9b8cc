import Mathlib.Data.List.Basic
import Mathlib.Data.List.Nodup
import Mathlib.Logic.Function.Basic

/-!
# Circular doubly linked lists in a memory of nodes

A node has a `next` and a `prev` pointer, and a list is a node, its head, from which the pointers
lead through the nodes of the list and back.  `listInit`, `listAddTail`, `listDel` are the
usual operations, store by store; a store through NULL sets `fault`.

* `LinkPath f o ns b`   the pointer `o` leads, along `f`, through the nodes `ns` to `b`;
* `CircList l head ns`  the list with this head has the nodes `ns`, along `next` and, backwards,
                        along `prev`.

`CircList.init`, `CircList.addTail`, `CircList.del` say what the operations do to a list,
`CircList.congr` that a list does not change while none of its nodes is stored to,
`CircList.unique` that the pointers determine the nodes.

Several lists that share no node are a `CircLists l head lists`; `CircLists.addTail` and
`CircLists.del` are the same operations on one list among them, and leave the others as they are.
-/

variable {ν : Type*}

/-! ## paths -/

/-- From the pointer `o`, following `f`, one meets `ns` and then `b`. -/
def LinkPath (f : ν → Option ν) : Option ν → List ν → ν → Prop
  | o, [], b => o = some b
  | o, n :: ns, b => o = some n ∧ LinkPath f (f n) ns b

section
variable {f f' : ν → Option ν} {o : Option ν} {ns as bs : List ν} {b h p x e : ν}

theorem LinkPath.congr (hp : LinkPath f o ns b) (heq : ∀ n ∈ ns, f' n = f n) :
    LinkPath f' o ns b := by
  induction ns generalizing o with
  | nil => exact hp
  | cons n ns ih =>
    refine ⟨hp.1, ?_⟩
    rw [heq n List.mem_cons_self]
    exact ih hp.2 fun m hm => heq m (List.mem_cons_of_mem _ hm)

theorem linkPath_append {m : ν} :
    LinkPath f o (as ++ m :: bs) b ↔ LinkPath f o as m ∧ LinkPath f (f m) bs b := by
  induction as generalizing o with
  | nil => exact Iff.rfl
  | cons n as ih =>
    show o = some n ∧ LinkPath f (f n) (as ++ m :: bs) b ↔
      (o = some n ∧ LinkPath f (f n) as m) ∧ _
    rw [ih, and_assoc]

theorem LinkPath.head (hp : LinkPath f o ns b) : o = (ns ++ [b]).head? := by
  cases ns with
  | nil => exact hp
  | cons n ns => exact hp.1

theorem LinkPath.suffix (hp : LinkPath f o (as ++ bs) b) : ∃ o', LinkPath f o' bs b := by
  induction as generalizing o with
  | nil => exact ⟨o, hp⟩
  | cons n as ih => exact ih hp.2

theorem LinkPath.agree {o' : Option ν} (hp : LinkPath f o ns b) (hp' : LinkPath f' o' ns b) :
    ∀ n ∈ ns, f' n = f n := by
  induction ns generalizing o o' with
  | nil => exact fun n hn => absurd hn List.not_mem_nil
  | cons m ns ih =>
    intro n hn
    rcases List.mem_cons.mp hn with rfl | hn
    · exact hp'.2.head.trans hp.2.head.symm
    · exact ih hp.2 hp'.2 n hn

/-- The nodes before the first return to `b` are determined. -/
theorem LinkPath.unique {ms : List ν} (hn : LinkPath f o ns b) (hm : LinkPath f o ms b)
    (hbn : b ∉ ns) (hbm : b ∉ ms) : ns = ms := by
  induction ns generalizing o ms with
  | nil =>
    cases ms with
    | nil => rfl
    | cons m ms =>
      have he : b = m := Option.some.inj (hn.symm.trans hm.1)
      exact absurd (he ▸ List.mem_cons_self) hbm
  | cons n ns ih =>
    cases ms with
    | nil =>
      have he : n = b := Option.some.inj (hn.1.symm.trans hm)
      exact absurd (he ▸ List.mem_cons_self) hbn
    | cons m ms =>
      have he : n = m := Option.some.inj (hn.1.symm.trans hm.1)
      subst he
      rw [ih hn.2 hm.2 (fun hb => hbn (List.mem_cons_of_mem _ hb))
        fun hb => hbm (List.mem_cons_of_mem _ hb)]

/-- A node is put into a circle behind `p`. -/
theorem LinkPath.insert (hp : LinkPath f (f h) (as ++ bs) h) (hnd : (h :: (as ++ bs)).Nodup)
    (hx : x ∉ h :: (as ++ bs)) (hlast : (h :: as).getLast? = some p) (hfp : f' p = some x)
    (hfx : f' x = f p) (hother : ∀ n ∈ h :: (as ++ bs), n ≠ p → f' n = f n) :
    LinkPath f' (f' h) (as ++ x :: bs) h := by
  obtain ⟨hh, hnd'⟩ := List.nodup_cons.mp hnd
  rcases List.eq_nil_or_concat' as with rfl | ⟨init, z, rfl⟩
  · have he : h = p := Option.some.inj hlast
    subst he
    refine ⟨hfp, ?_⟩
    rw [hfx]
    refine LinkPath.congr hp fun n hn => hother n (List.mem_cons_of_mem _ hn) ?_
    rintro rfl
    exact hh hn
  · have he : z = p := by
      rw [← List.cons_append, List.getLast?_concat] at hlast
      exact Option.some.inj hlast
    subst he
    rw [List.append_assoc, List.singleton_append] at hp hnd' hh hx hother ⊢
    obtain ⟨h1, h2⟩ := linkPath_append.mp hp
    obtain ⟨-, hnd2, hdis⟩ := List.nodup_append.mp hnd'
    have hhp : h ≠ z := by
      rintro rfl
      exact hh (List.mem_append_right _ List.mem_cons_self)
    refine linkPath_append.mpr ⟨?_, hfp, ?_⟩
    · rw [hother h List.mem_cons_self hhp]
      refine h1.congr fun n hn => hother n (List.mem_cons_of_mem _ (List.mem_append_left _ hn)) ?_
      exact hdis n hn z List.mem_cons_self
    · rw [hfx]
      refine h2.congr fun n hn => hother n
        (List.mem_cons_of_mem _ (List.mem_append_right _ (List.mem_cons_of_mem _ hn))) ?_
      rintro rfl
      exact (List.nodup_cons.mp hnd2).1 hn

/-- A path that ends anywhere is made longer: the last node leads to `x` now, and `x` to `t`. -/
theorem LinkPath.concat {t : ν} (hp : LinkPath f (f h) as b) (hnd : (h :: as).Nodup)
    (hlast : (h :: as).getLast? = some p) (hfp : f' p = some x) (hfx : f' x = some t)
    (hother : ∀ n ∈ h :: as, n ≠ p → f' n = f n) : LinkPath f' (f' h) (as ++ [x]) t := by
  obtain ⟨hh, hnd'⟩ := List.nodup_cons.mp hnd
  rcases List.eq_nil_or_concat' as with rfl | ⟨init, z, rfl⟩
  · have he : h = p := Option.some.inj hlast
    subst he
    exact ⟨hfp, hfx⟩
  · have he : z = p := by
      rw [← List.cons_append, List.getLast?_concat] at hlast
      exact Option.some.inj hlast
    subst he
    have hhp : h ≠ z := by
      rintro rfl
      exact hh (List.mem_append_right _ List.mem_cons_self)
    have hz : ∀ n ∈ init, n ≠ z := fun n hn =>
      (List.nodup_append.mp hnd').2.2 n hn z (List.mem_singleton_self z)
    rw [List.append_assoc, List.singleton_append]
    refine linkPath_append.mpr ⟨?_, hfp, hfx⟩
    rw [hother h List.mem_cons_self hhp]
    exact (linkPath_append.mp hp).1.congr fun n hn =>
      hother n (List.mem_cons_of_mem _ (List.mem_append_left _ hn)) (hz n hn)

/-- Two paths from one pointer go together until one of them ends. -/
theorem LinkPath.follow {ms : List ν} (hn : LinkPath f o ns b) (hm : LinkPath f o ms h)
    (hh : h ∉ ns) : ∃ rest, ms = ns ++ rest ∧ LinkPath f (some b) rest h := by
  induction ns generalizing o ms with
  | nil => exact ⟨ms, rfl, show LinkPath f (some b) ms h from hn ▸ hm⟩
  | cons n ns ih =>
    cases ms with
    | nil =>
      have he : n = h := Option.some.inj (hn.1.symm.trans hm)
      exact absurd (he ▸ List.mem_cons_self) hh
    | cons m ms =>
      have he : n = m := Option.some.inj (hn.1.symm.trans hm.1)
      subst he
      obtain ⟨rest, h1, h2⟩ := ih hn.2 hm.2 fun hin => hh (List.mem_cons_of_mem _ hin)
      exact ⟨rest, by rw [h1, List.cons_append], h2⟩

/-- A node is taken out of a circle, from behind `p`. -/
theorem LinkPath.remove (hp : LinkPath f (f h) (as ++ e :: bs) h)
    (hnd : (h :: (as ++ e :: bs)).Nodup) (hlast : (h :: as).getLast? = some p) (hfp : f' p = f e)
    (hother : ∀ n ∈ h :: (as ++ bs), n ≠ p → f' n = f n) : LinkPath f' (f' h) (as ++ bs) h := by
  obtain ⟨hh, hnd'⟩ := List.nodup_cons.mp hnd
  obtain ⟨h1, h2⟩ := linkPath_append.mp hp
  obtain ⟨-, hnd2, hdis⟩ := List.nodup_append.mp hnd'
  have hbs : ∀ n ∈ bs, n ≠ h := by
    rintro n hn rfl
    exact hh (List.mem_append_right _ (List.mem_cons_of_mem _ hn))
  rcases List.eq_nil_or_concat' as with rfl | ⟨init, z, rfl⟩
  · have he : h = p := Option.some.inj hlast
    subst he
    show LinkPath f' (f' h) bs h
    rw [hfp]
    exact h2.congr fun n hn => hother n (List.mem_cons_of_mem _ hn) (hbs n hn)
  · have he : z = p := by
      rw [← List.cons_append, List.getLast?_concat] at hlast
      exact Option.some.inj hlast
    subst he
    obtain ⟨h3, -⟩ := linkPath_append.mp h1
    have hhp : h ≠ z := by
      rintro rfl
      exact hh (List.mem_append_left _ (List.mem_append_right _ List.mem_cons_self))
    have hz : z ∉ init := by
      have hnd3 := (List.nodup_append.mp hnd').1
      intro hin
      exact (List.nodup_append.mp hnd3).2.2 z hin z List.mem_cons_self rfl
    rw [List.append_assoc, List.singleton_append] at hother ⊢
    refine linkPath_append.mpr ⟨?_, ?_⟩
    · rw [hother h List.mem_cons_self hhp]
      refine h3.congr fun n hn => hother n (List.mem_cons_of_mem _ (List.mem_append_left _ hn)) ?_
      rintro rfl
      exact hz hn
    · rw [hfp]
      refine h2.congr fun n hn => hother n
        (List.mem_cons_of_mem _ (List.mem_append_right _ (List.mem_cons_of_mem _ hn))) ?_
      rintro rfl
      exact hdis n (List.mem_append_right _ List.mem_cons_self) n (List.mem_cons_of_mem _ hn) rfl

end

/-! ## nodes in memory -/

/-- The pointers of the nodes, `none` for NULL; `fault` says that a store went through NULL. -/
structure Links (ν : Type*) where
  next : ν → Option ν
  prev : ν → Option ν
  fault : Bool

section
variable [DecidableEq ν]

/-- `n->next = v` -/
def Links.storeNext (l : Links ν) (n v : Option ν) : Links ν :=
  match n with
  | none => { l with fault := true }
  | some n => { l with next := Function.update l.next n v }

/-- `n->prev = v` -/
def Links.storePrev (l : Links ν) (n v : Option ν) : Links ν :=
  match n with
  | none => { l with fault := true }
  | some n => { l with prev := Function.update l.prev n v }

/-- `prev = next = n` -/
def listInit (l : Links ν) (n : ν) : Links ν :=
  (l.storePrev (some n) (some n)).storeNext (some n) (some n)

/-- Put `new` before the head, at the end of the list. -/
def listAddTail (l : Links ν) (new head : ν) : Links ν :=
  let l := l.storeNext (l.prev head) (some new)
  let l := l.storePrev (some new) (l.prev head)
  let l := l.storeNext (some new) (some head)
  l.storePrev (some head) (some new)

/-- Take a node out; its pointers become NULL. -/
def listDel (l : Links ν) (entry : ν) : Links ν :=
  let l := l.storeNext (l.prev entry) (l.next entry)
  let l := l.storePrev (l.next entry) (l.prev entry)
  let l := l.storePrev (some entry) none
  l.storeNext (some entry) none

/-- The list has no node besides its head. -/
def listEmpty (l : Links ν) (head : ν) : Bool := l.next head = some head

/-! ### what the operations do outside of lists -/

section
variable {l : Links ν} {e x head : ν} {n v : Option ν}

theorem fault_storeNext (h : l.fault = true) : (l.storeNext n v).fault = true := by
  cases n with
  | none => rfl
  | some n => exact h

theorem fault_storePrev (h : l.fault = true) : (l.storePrev n v).fault = true := by
  cases n with
  | none => rfl
  | some n => exact h

theorem fault_listAddTail (h : l.fault = true) : (listAddTail l x head).fault = true :=
  fault_storePrev (fault_storeNext (fault_storePrev (fault_storeNext h)))

theorem fault_listDel (h : l.fault = true) : (listDel l e).fault = true :=
  fault_storeNext (fault_storePrev (fault_storePrev (fault_storeNext h)))

/-- A node whose pointers are NULL cannot be taken out again. -/
theorem fault_listDel_of_null (h : l.prev e = none) : (listDel l e).fault = true := by
  refine fault_storeNext (fault_storePrev (fault_storePrev ?_))
  rw [h]
  rfl

theorem listDel_prev_self (l : Links ν) (e : ν) : (listDel l e).prev e = none :=
  Function.update_self ..

theorem listAddTail_prev_other (l : Links ν) (hx : e ≠ x) (hhead : e ≠ head) :
    (listAddTail l x head).prev e = l.prev e := by
  have hstore : ∀ n v, (l.storeNext n v).prev = l.prev := fun n _ => by cases n <;> rfl
  show Function.update (Function.update (l.storeNext _ _).prev x _) head _ e = l.prev e
  rw [Function.update_of_ne hhead, Function.update_of_ne hx, hstore]

end

end

/-- The list with this head has the nodes `ns`. -/
structure CircList (l : Links ν) (head : ν) (ns : List ν) : Prop where
  next : LinkPath l.next (l.next head) ns head
  prev : LinkPath l.prev (l.prev head) ns.reverse head
  nodup : (head :: ns).Nodup

namespace CircList

variable {l l' : Links ν} {head e x : ν} {ns ms : List ν}

theorem congr (h : CircList l head ns) (hnext : ∀ n ∈ head :: ns, l'.next n = l.next n)
    (hprev : ∀ n ∈ head :: ns, l'.prev n = l.prev n) : CircList l' head ns := by
  refine ⟨?_, ?_, h.nodup⟩
  · rw [hnext head List.mem_cons_self]
    exact h.next.congr fun n hn => hnext n (List.mem_cons_of_mem _ hn)
  · rw [hprev head List.mem_cons_self]
    exact h.prev.congr fun n hn =>
      hprev n (List.mem_cons_of_mem _ (List.mem_reverse.mp hn))

theorem unique (h : CircList l head ns) (h' : CircList l head ms) : ns = ms :=
  h.next.unique h'.next (List.nodup_cons.mp h.nodup).1 (List.nodup_cons.mp h'.nodup).1

theorem head_next (h : CircList l head ns) : l.next head = (ns ++ [head]).head? := h.next.head

theorem head_prev (h : CircList l head ns) : l.prev head = (head :: ns).getLast? := by
  rw [h.prev.head, ← List.getLast?_reverse, List.reverse_append, List.reverse_reverse]
  rfl

/-- The last node leads back to the head. -/
theorem last_next {z : ν} (h : CircList l head ns) (hlast : (head :: ns).getLast? = some z) :
    l.next z = some head := by
  rcases List.eq_nil_or_concat' ns with rfl | ⟨init, y, rfl⟩
  · have he : head = z := Option.some.inj hlast
    rw [← he]
    exact h.next
  · have he : y = z := by
      rw [← List.cons_append, List.getLast?_concat] at hlast
      exact Option.some.inj hlast
    rw [← he]
    exact (linkPath_append.mp h.next).2

theorem nodup_reverse (h : CircList l head ns) : (head :: ns.reverse).Nodup := by
  obtain ⟨h1, h2⟩ := List.nodup_cons.mp h.nodup
  exact List.nodup_cons.mpr ⟨fun hin => h1 (List.mem_reverse.mp hin), List.nodup_reverse.mpr h2⟩

theorem split {as bs : List ν} (h : CircList l head (as ++ e :: bs)) :
    l.next e = (bs ++ [head]).head? ∧ l.prev e = (head :: as).getLast? := by
  have hprev := h.prev
  rw [List.reverse_append, List.reverse_cons, List.append_assoc, List.singleton_append] at hprev
  refine ⟨(linkPath_append.mp h.next).2.head, ?_⟩
  rw [(linkPath_append.mp hprev).2.head, ← List.getLast?_reverse, List.reverse_append,
    List.reverse_reverse]
  rfl

theorem last_of_prev (h : CircList l head ns) : ∃ z, (head :: ns).getLast? = some z ∧
    l.prev head = some z ∧ z ∈ head :: ns := by
  obtain ⟨z, hz⟩ : ∃ z, (head :: ns).getLast? = some z :=
    ⟨_, List.getLast?_eq_some_getLast (List.cons_ne_nil _ _)⟩
  exact ⟨z, hz, h.head_prev.trans hz, List.mem_of_getLast? hz⟩

theorem neighbours (h : CircList l head ns) (he : e ∈ ns) : ∃ as bs p n, ns = as ++ e :: bs ∧
    l.prev e = some p ∧ l.next e = some n ∧ (head :: as).getLast? = some p ∧
    (bs ++ [head]).head? = some n ∧ p ∈ head :: ns ∧ n ∈ head :: ns := by
  obtain ⟨as, bs, rfl⟩ := List.append_of_mem he
  obtain ⟨hnext, hprev⟩ := h.split
  obtain ⟨p, hp⟩ : ∃ p, (head :: as).getLast? = some p :=
    ⟨_, List.getLast?_eq_some_getLast (List.cons_ne_nil _ _)⟩
  obtain ⟨n, hn⟩ : ∃ n, (bs ++ [head]).head? = some n :=
    ⟨_, List.head?_eq_some_head (by simp)⟩
  refine ⟨as, bs, p, n, rfl, hprev.trans hp, hnext.trans hn, hp, hn, ?_, ?_⟩
  · rcases List.mem_cons.mp (List.mem_of_getLast? hp) with he | hin
    · rw [he]
      exact List.mem_cons_self
    · exact List.mem_cons_of_mem _ (List.mem_append_left _ hin)
  · rcases List.mem_append.mp (List.mem_of_head? hn) with hin | he
    · exact List.mem_cons_of_mem _ (List.mem_append_right _ (List.mem_cons_of_mem _ hin))
    · rw [List.mem_singleton.mp he]
      exact List.mem_cons_self

variable [DecidableEq ν]

theorem listEmpty_iff (h : CircList l head ns) : listEmpty l head = true ↔ ns = [] := by
  unfold listEmpty
  rw [decide_eq_true_iff, h.head_next]
  cases ns with
  | nil => simp
  | cons n ns =>
    have hne : n ≠ head := by
      rintro rfl
      exact (List.nodup_cons.mp h.nodup).1 List.mem_cons_self
    simp [hne]

theorem init (l : Links ν) (head : ν) : CircList (listInit l head) head [] := by
  refine ⟨?_, ?_, List.nodup_singleton head⟩
  · show Function.update l.next head (some head) head = some head
    rw [Function.update_self]
  · show Function.update l.prev head (some head) head = some head
    rw [Function.update_self]

theorem init_other (h : CircList l head ns) {n : ν} (hn : n ∉ head :: ns) :
    CircList (listInit l n) head ns := by
  refine h.congr (fun m hm => ?_) fun m hm => ?_
  all_goals
    refine Function.update_of_ne ?_ ..
    rintro rfl
    exact hn hm

/-! ### `listAddTail` -/

theorem listAddTail_eq {z : ν} (hz : l.prev head = some z) (x : ν) :
    listAddTail l x head =
      { next := Function.update (Function.update l.next z (some x)) x (some head)
        prev := Function.update (Function.update l.prev x (some z)) head (some x)
        fault := l.fault } := by
  unfold listAddTail Links.storeNext Links.storePrev
  simp only [hz]

/-- **`list_add_tail`** puts a node at the end. -/
theorem addTail (h : CircList l head ns) (hx : x ∉ head :: ns) :
    CircList (listAddTail l x head) head (ns ++ [x]) ∧ (listAddTail l x head).fault = l.fault := by
  obtain ⟨z, hlast, hz, hzmem⟩ := h.last_of_prev
  have hxh : head ≠ x := fun he => hx (he ▸ List.mem_cons_self)
  have hxz : z ≠ x := fun he => hx (he ▸ hzmem)
  rw [listAddTail_eq hz]
  refine ⟨⟨?_, ?_, ?_⟩, rfl⟩
  · have hnd : (head :: (ns ++ [])).Nodup := by
      rw [List.append_nil]
      exact h.nodup
    have hp : LinkPath l.next (l.next head) (ns ++ []) head := by
      rw [List.append_nil]
      exact h.next
    refine hp.insert hnd (by rwa [List.append_nil]) hlast ?_ ?_ ?_
    · dsimp only
      rw [Function.update_of_ne hxz, Function.update_self]
    · dsimp only
      rw [Function.update_self]
      exact (h.last_next hlast).symm
    · intro n hn hne
      rw [List.append_nil] at hn
      have hnx : n ≠ x := fun he => hx (he ▸ hn)
      dsimp only
      rw [Function.update_of_ne hnx, Function.update_of_ne hne]
  · rw [List.reverse_append, List.reverse_singleton, List.singleton_append]
    have hnd : (head :: ([] ++ ns.reverse)).Nodup := h.nodup_reverse
    refine LinkPath.insert (p := head) h.prev hnd ?_ rfl ?_ ?_ ?_
    · intro hin
      rcases List.mem_cons.mp hin with he | hin
      · exact hxh he.symm
      · exact hx (List.mem_cons_of_mem _ (List.mem_reverse.mp hin))
    · dsimp only
      rw [Function.update_self]
    · dsimp only
      rw [Function.update_of_ne hxh.symm, Function.update_self, hz]
    · intro n hn hne
      have hnx : n ≠ x := by
        rintro rfl
        rcases List.mem_cons.mp hn with he | hn
        · exact hne he
        · exact hx (List.mem_cons_of_mem _ (List.mem_reverse.mp hn))
      dsimp only
      rw [Function.update_of_ne hne, Function.update_of_ne hnx]
  · rw [← List.cons_append]
    refine List.nodup_append.mpr ⟨h.nodup, List.nodup_singleton x, fun n hn m hm => ?_⟩
    rw [List.mem_singleton.mp hm]
    rintro rfl
    exact hx hn

theorem addTail_other (h : CircList l head ns) {head' : ν} (h' : CircList l head' ms)
    (hx : x ∉ head' :: ms) (hdis : ∀ n ∈ head :: ns, n ∉ head' :: ms) :
    CircList (listAddTail l x head) head' ms := by
  obtain ⟨z, -, hz, hzmem⟩ := h.last_of_prev
  have hne : ∀ n ∈ head' :: ms, n ≠ x ∧ n ≠ z ∧ n ≠ head := by
    intro n hn
    refine ⟨?_, ?_, ?_⟩
    · rintro rfl
      exact hx hn
    · rintro rfl
      exact hdis n hzmem hn
    · rintro rfl
      exact hdis n List.mem_cons_self hn
  rw [listAddTail_eq hz]
  refine h'.congr (fun n hn => ?_) fun n hn => ?_
  · show Function.update (Function.update l.next z (some x)) x (some head) n = l.next n
    rw [Function.update_of_ne (hne n hn).1, Function.update_of_ne (hne n hn).2.1]
  · show Function.update (Function.update l.prev x (some z)) head (some x) n = l.prev n
    rw [Function.update_of_ne (hne n hn).2.2, Function.update_of_ne (hne n hn).1]

/-! ### `listDel` -/

theorem listDel_eq {p n : ν} (hp : l.prev e = some p) (hn : l.next e = some n) :
    listDel l e =
      { next := Function.update (Function.update l.next p (some n)) e none
        prev := Function.update (Function.update l.prev n (some p)) e none
        fault := l.fault } := by
  have hread : Function.update l.next p (some n) e = some n := by
    by_cases he : e = p
    · rw [he, Function.update_self]
    · rw [Function.update_of_ne he, hn]
  unfold listDel Links.storeNext Links.storePrev
  simp only [hp, hn, hread]

/-- **`list_del`** takes a node out. -/
theorem del (h : CircList l head ns) (he : e ∈ ns) :
    CircList (listDel l e) head (ns.erase e) ∧ (listDel l e).fault = l.fault := by
  obtain ⟨as, bs, p, n, rfl, hp, hn, hlast, hfirst, -, -⟩ := h.neighbours he
  obtain ⟨hh, hnd⟩ := List.nodup_cons.mp h.nodup
  obtain ⟨-, hndb, hdis⟩ := List.nodup_append.mp hnd
  have heas : e ∉ as := fun hin => hdis e hin e List.mem_cons_self rfl
  have hebs : e ∉ bs := (List.nodup_cons.mp hndb).1
  have heh : e ≠ head := by
    rintro rfl
    exact hh he
  have herase : (as ++ e :: bs).erase e = as ++ bs := by
    rw [List.erase_append_right _ heas, List.erase_cons_head]
  have hne : ∀ m ∈ head :: (as ++ bs), m ≠ e := by
    rintro m hm rfl
    rcases List.mem_cons.mp hm with hm | hm
    · exact heh hm
    · rcases List.mem_append.mp hm with hm | hm
      · exact heas hm
      · exact hebs hm
  have hpe : p ≠ e := by
    refine hne p ?_
    rcases List.mem_cons.mp (List.mem_of_getLast? hlast) with hm | hm
    · rw [hm]
      exact List.mem_cons_self
    · exact List.mem_cons_of_mem _ (List.mem_append_left _ hm)
  have hnne : n ≠ e := by
    refine hne n ?_
    rcases List.mem_append.mp (List.mem_of_head? hfirst) with hm | hm
    · exact List.mem_cons_of_mem _ (List.mem_append_right _ hm)
    · rw [List.mem_singleton.mp hm]
      exact List.mem_cons_self
  rw [listDel_eq hp hn, herase]
  refine ⟨⟨?_, ?_, ?_⟩, rfl⟩
  · refine h.next.remove h.nodup hlast ?_ fun m hm hmp => ?_
    · dsimp only
      rw [Function.update_of_ne hpe, Function.update_self, hn]
    · dsimp only
      rw [Function.update_of_ne (hne m hm), Function.update_of_ne hmp]
  · have hrev : (as ++ e :: bs).reverse = bs.reverse ++ e :: as.reverse := by
      rw [List.reverse_append, List.reverse_cons, List.append_assoc, List.singleton_append]
    have hprev := h.prev
    rw [hrev] at hprev
    have hnd' : (head :: (bs.reverse ++ e :: as.reverse)).Nodup := hrev ▸ h.nodup_reverse
    have hlast' : (head :: bs.reverse).getLast? = some n := by
      rw [← hfirst, ← List.getLast?_reverse, List.reverse_append]
      rfl
    rw [List.reverse_append]
    refine hprev.remove hnd' hlast' ?_ fun m hm hmn => ?_
    · dsimp only
      rw [Function.update_of_ne hnne, Function.update_self, hp]
    · have hm' : m ∈ head :: (as ++ bs) := by
        rcases List.mem_cons.mp hm with hm | hm
        · rw [hm]
          exact List.mem_cons_self
        · rw [← List.reverse_append] at hm
          exact List.mem_cons_of_mem _ (List.mem_reverse.mp hm)
      dsimp only
      rw [Function.update_of_ne (hne m hm'), Function.update_of_ne hmn]
  · rw [← herase]
    exact List.nodup_cons.mpr ⟨fun hin => hh (List.mem_of_mem_erase hin), hnd.erase e⟩

theorem del_other (h : CircList l head ns) (he : e ∈ ns) {head' : ν} (h' : CircList l head' ms)
    (hdis : ∀ n ∈ head :: ns, n ∉ head' :: ms) : CircList (listDel l e) head' ms := by
  obtain ⟨as, bs, p, n, hns, hp, hn, -, -, hpmem, hnmem⟩ := h.neighbours he
  have hne : ∀ m ∈ head' :: ms, m ≠ e ∧ m ≠ p ∧ m ≠ n := by
    intro m hm
    refine ⟨?_, ?_, ?_⟩
    · rintro rfl
      exact hdis m (List.mem_cons_of_mem _ he) hm
    · rintro rfl
      exact hdis m hpmem hm
    · rintro rfl
      exact hdis m hnmem hm
  rw [listDel_eq hp hn]
  refine h'.congr (fun m hm => ?_) fun m hm => ?_
  · show Function.update (Function.update l.next p (some n)) e none m = l.next m
    rw [Function.update_of_ne (hne m hm).1, Function.update_of_ne (hne m hm).2.1]
  · show Function.update (Function.update l.prev n (some p)) e none m = l.prev m
    rw [Function.update_of_ne (hne m hm).1, Function.update_of_ne (hne m hm).2.2]

end CircList

/-! ## several lists -/

/-- The lists with the heads `head k` have the nodes `lists k` and share none; no store has gone
through NULL. -/
structure CircLists {κ : Type*} (l : Links ν) (head : κ → ν) (lists : κ → List ν) : Prop where
  circ : ∀ k, CircList l (head k) (lists k)
  apart : ∀ k j, k ≠ j → ∀ n ∈ head k :: lists k, n ∉ head j :: lists j
  noFault : l.fault = false

namespace CircLists

variable {κ : Type*} {l : Links ν} {head : κ → ν} {lists : κ → List ν} {k j : κ} {x e : ν}

variable [DecidableEq ν]

/-- A list takes no notice of a node outside all of them being initialised. -/
theorem init_other (h : CircLists l head lists) (hx : ∀ j, x ∉ head j :: lists j) :
    CircLists (listInit l x) head lists :=
  ⟨fun j => (h.circ j).init_other (hx j), h.apart, h.noFault⟩

/-- A node outside of all lists keeps its pointers when another one is taken off its list. -/
theorem del_prev_outside (h : CircLists l head lists) (he : e ∈ lists k)
    (hx : ∀ j, x ∉ head j :: lists j) : (listDel l e).prev x = l.prev x := by
  obtain ⟨as, bs, p, n, -, hp, hn, -, -, -, hnmem⟩ := (h.circ k).neighbours he
  have hxe : x ≠ e := fun hxe => hx k (hxe ▸ List.mem_cons_of_mem _ he)
  have hxn : x ≠ n := fun hxn => hx k (hxn ▸ hnmem)
  rw [CircList.listDel_eq hp hn]
  show Function.update (Function.update l.prev n (some p)) e none x = l.prev x
  rw [Function.update_of_ne hxe, Function.update_of_ne hxn]

variable [DecidableEq κ]

/-- A node that is on no list is put at the end of one. -/
theorem addTail (h : CircLists l head lists) (k : κ) (hx : ∀ j, x ∉ head j :: lists j) :
    CircLists (listAddTail l x (head k)) head (Function.update lists k (lists k ++ [x])) := by
  obtain ⟨hcirc, hfault⟩ := (h.circ k).addTail (hx k)
  refine ⟨fun j => ?_, fun j i hji n hn hni => ?_, hfault.trans h.noFault⟩
  · by_cases hj : j = k
    · subst hj
      rw [Function.update_self]
      exact hcirc
    · rw [Function.update_of_ne hj]
      exact (h.circ k).addTail_other (h.circ j) (hx j) (h.apart k j (Ne.symm hj))
  · have hold : ∀ i, ∀ n ∈ head i :: Function.update lists k (lists k ++ [x]) i,
        n ∈ head i :: lists i ∨ (n = x ∧ i = k) := by
      intro i n hn
      by_cases hi : i = k
      · subst hi
        rw [Function.update_self, ← List.cons_append] at hn
        rcases List.mem_append.mp hn with hn | hn
        · exact Or.inl hn
        · exact Or.inr ⟨List.mem_singleton.mp hn, rfl⟩
      · rw [Function.update_of_ne hi] at hn
        exact Or.inl hn
    rcases hold j n hn with h1 | ⟨rfl, hj⟩ <;> rcases hold i n hni with h2 | ⟨h2, hi⟩
    · exact h.apart j i hji n h1 h2
    · exact hx j (h2 ▸ h1)
    · exact hx i h2
    · exact hji (hj.trans hi.symm)

/-- A node is taken off its list. -/
theorem del (h : CircLists l head lists) (he : e ∈ lists k) :
    CircLists (listDel l e) head (Function.update lists k ((lists k).erase e)) := by
  obtain ⟨hcirc, hfault⟩ := (h.circ k).del he
  have hsub : ∀ i, ∀ n ∈ head i :: Function.update lists k ((lists k).erase e) i,
      n ∈ head i :: lists i := by
    intro i n hn
    by_cases hi : i = k
    · subst hi
      rw [Function.update_self] at hn
      exact List.cons_subset_cons _ List.erase_subset hn
    · rwa [Function.update_of_ne hi] at hn
  refine ⟨fun j => ?_, fun j i hji n hn hni => h.apart j i hji n (hsub j n hn) (hsub i n hni),
    hfault.trans h.noFault⟩
  by_cases hj : j = k
  · subst hj
    rw [Function.update_self]
    exact hcirc
  · rw [Function.update_of_ne hj]
    exact (h.circ k).del_other he (h.circ j) (h.apart k j (Ne.symm hj))

end CircLists
