import Mathlib.Data.List.Basic
import Mathlib.Data.List.Induction
import Mathlib.Data.List.Nodup
import Mathlib.Logic.Function.Basic
import Mathlib.Tactic.TypeStar

/-!
# Chains with back pointers

The buckets of a hash table are null-terminated chains.  A pointer to a node lies in a *slot*: the
head of a bucket or the `next` field of a node.  A node knows the slot that points to it, in
`pprev`, so that it can be taken out without its bucket being known.

* `HashSeg m s ns`          from the slot `s` the pointers lead through `ns`, and each node points back;
* `HashChain m s ns`        and there the chain ends;
* `HashChains m buckets`    every bucket is a chain, and no two share a node;
* `Put m m' s x o`          `x` is put into the slot `s`, before `o`;
* `Cut m m' s x o`          `x` is taken out of the slot `s`, and `o` put there.

`HashChains.of_chain`: that nodes point back is enough for the buckets to be apart.
`HashChains.put` and `HashChains.cut` are the two rules; the one changes a bucket `as ++ bs` to
`as ++ x :: bs`, the other one back.
-/

/-- Where a pointer to a node lies. -/
inductive Slot (ι ν : Type*) where
  | first (b : ι)
  | next (n : ν)
deriving DecidableEq, Repr

variable {ι ν : Type*}

/-- What the slots hold, and the back pointers. -/
structure ChainMem (ι ν : Type*) where
  ptr : Slot ι ν → Option ν
  pprev : ν → Option (Slot ι ν)
  /-- a store has gone through NULL -/
  fault : Bool

namespace ChainMem

variable (m : ChainMem ι ν) (s t : Slot ι ν) (o : Option ν) (n k : ν) (r : Option (Slot ι ν))

section
variable [DecidableEq ν]

/-- A store to a back pointer. -/
def setPprev (m : ChainMem ι ν) (n : ν) (s : Option (Slot ι ν)) : ChainMem ι ν :=
  { m with pprev := Function.update m.pprev n s }

/-- `if (o) o->pprev = s;` -/
def linkBack (m : ChainMem ι ν) : Option ν → Option (Slot ι ν) → ChainMem ι ν
  | some n, s => m.setPprev n s
  | none, _ => m

@[simp] theorem ptr_setPprev : (m.setPprev n r).ptr = m.ptr := rfl

@[simp] theorem pprev_setPprev : (m.setPprev n r).pprev k = if k = n then r else m.pprev k :=
  Function.update_apply ..

@[simp] theorem fault_setPprev : (m.setPprev n r).fault = m.fault := rfl

@[simp] theorem ptr_linkBack : (m.linkBack o r).ptr = m.ptr := by cases o <;> rfl

@[simp] theorem pprev_linkBack :
    (m.linkBack o r).pprev k = if o = some k then r else m.pprev k := by
  cases o with
  | none => simp [linkBack]
  | some n => simp [linkBack, eq_comm]

@[simp] theorem fault_linkBack : (m.linkBack o r).fault = m.fault := by cases o <;> rfl

end

variable [DecidableEq ι] [DecidableEq ν]

/-- A store to a slot. -/
def setPtr (m : ChainMem ι ν) (s : Slot ι ν) (o : Option ν) : ChainMem ι ν :=
  { m with ptr := Function.update m.ptr s o }

/-- A store through a pointer to a slot. -/
def storeAt (m : ChainMem ι ν) : Option (Slot ι ν) → Option ν → ChainMem ι ν
  | some s, o => m.setPtr s o
  | none, _ => { m with fault := true }

@[simp] theorem ptr_setPtr : (m.setPtr s o).ptr t = if t = s then o else m.ptr t :=
  Function.update_apply ..

@[simp] theorem pprev_setPtr : (m.setPtr s o).pprev = m.pprev := rfl

@[simp] theorem fault_setPtr : (m.setPtr s o).fault = m.fault := rfl

end ChainMem

/-- The slot that the nodes `ns` lead to from `s`. -/
def Slot.after (s : Slot ι ν) (ns : List ν) : Slot ι ν := ns.foldl (fun _ n => .next n) s

/-- From the slot `s` the pointers lead through `ns`, and each node points back. -/
def HashSeg (m : ChainMem ι ν) : Slot ι ν → List ν → Prop
  | _, [] => True
  | s, n :: ns => m.ptr s = some n ∧ m.pprev n = some s ∧ HashSeg m (.next n) ns

/-- The chain in the slot `s` has the nodes `ns`. -/
def HashChain (m : ChainMem ι ν) (s : Slot ι ν) (ns : List ν) : Prop :=
  HashSeg m s ns ∧ m.ptr (s.after ns) = none

/-- The buckets of a table. -/
structure HashChains (m : ChainMem ι ν) (buckets : ι → List ν) : Prop where
  chain : ∀ b, HashChain m (.first b) (buckets b)
  once : ∀ b, (buckets b).Nodup
  apart : ∀ b c, b ≠ c → ∀ n ∈ buckets b, n ∉ buckets c
  noFault : m.fault = false

/-- Nothing is stored to but the slot `s`, the node `x` and the back pointer of `o`. -/
structure StoresAt (m m' : ChainMem ι ν) (s : Slot ι ν) (x : ν) (o : Option ν) : Prop where
  ptr : ∀ t, t ≠ s → t ≠ .next x → m'.ptr t = m.ptr t
  pprev : ∀ n, n ≠ x → o ≠ some n → m'.pprev n = m.pprev n
  fault : m'.fault = m.fault

/-- The node `x` is put into the slot `s`; `o` comes after it. -/
structure Put (m m' : ChainMem ι ν) (s : Slot ι ν) (x : ν) (o : Option ν) : Prop
    extends StoresAt m m' s x o where
  slot : m'.ptr s = some x
  node : m'.ptr (.next x) = o
  back : m'.pprev x = some s
  nextBack : ∀ n, o = some n → m'.pprev n = some (.next x)

/-- The node `x` is taken out of the slot `s`; `o` came after it. -/
structure Cut (m m' : ChainMem ι ν) (s : Slot ι ν) (x : ν) (o : Option ν) : Prop
    extends StoresAt m m' s x o where
  slot : m'.ptr s = o
  nextBack : ∀ n, o = some n → m'.pprev n = some s

section
variable {m m' : ChainMem ι ν} {s t : Slot ι ν} {as bs cs ds ns : List ν} {b c : ι} {n x : ν}
  {o : Option ν} {buckets : ι → List ν}

theorem Slot.first_ne_next (b : ι) (n : ν) : Slot.first b ≠ Slot.next n := nofun

@[simp] theorem Slot.after_nil (s : Slot ι ν) : s.after [] = s := rfl

@[simp] theorem Slot.after_cons (s : Slot ι ν) (n : ν) (ns : List ν) :
    s.after (n :: ns) = (Slot.next n).after ns := rfl

theorem Slot.after_concat (s : Slot ι ν) (ns : List ν) (n : ν) : s.after (ns ++ [n]) = .next n := by
  unfold Slot.after
  rw [List.foldl_append]
  rfl

theorem Slot.after_append (s : Slot ι ν) (as bs : List ν) :
    s.after (as ++ bs) = (s.after as).after bs := List.foldl_append

theorem Slot.after_eq (s : Slot ι ν) (ns : List ν) :
    s.after ns = s ∨ ∃ n ∈ ns, s.after ns = .next n := by
  rcases List.eq_nil_or_concat' ns with rfl | ⟨as, n, rfl⟩
  · exact Or.inl rfl
  · exact Or.inr ⟨n, List.mem_append_right _ (List.mem_singleton_self n), s.after_concat as n⟩

/-! ## segments -/

theorem hashSeg_append :
    HashSeg m s (as ++ bs) ↔ HashSeg m s as ∧ HashSeg m (s.after as) bs := by
  induction as generalizing s with
  | nil => exact ⟨fun h => ⟨trivial, h⟩, fun h => h.2⟩
  | cons a as ih =>
    show _ ∧ _ ∧ HashSeg m (.next a) (as ++ bs) ↔ (_ ∧ _ ∧ HashSeg m (.next a) as) ∧ _
    rw [ih, Slot.after_cons, and_assoc, and_assoc]

theorem hashChain_append :
    HashChain m s (as ++ bs) ↔ HashSeg m s as ∧ HashChain m (s.after as) bs := by
  unfold HashChain
  rw [hashSeg_append, Slot.after_append, and_assoc]

theorem HashChain.ptr_eq (h : HashChain m s ns) : m.ptr s = ns.head? := by
  cases ns with
  | nil => exact h.2
  | cons n ns => exact h.1.1

theorem hashChain_cons :
    HashChain m s (n :: ns) ↔ m.ptr s = some n ∧ m.pprev n = some s ∧ HashChain m (.next n) ns := by
  unfold HashChain
  rw [Slot.after_cons]
  exact and_assoc.trans (and_congr_right fun _ => and_assoc)

/-- A segment does not change while its slots and nodes are not stored to. -/
theorem HashSeg.congr (h : HashSeg m s ns)
    (hptr : ∀ as n bs, ns = as ++ n :: bs → m'.ptr (s.after as) = m.ptr (s.after as))
    (hpprev : ∀ n ∈ ns, m'.pprev n = m.pprev n) : HashSeg m' s ns := by
  induction ns generalizing s with
  | nil => trivial
  | cons n ns ih =>
    refine ⟨(hptr [] n ns rfl).trans h.1, (hpprev n List.mem_cons_self).trans h.2.1, ?_⟩
    refine ih h.2.2 (fun as k bs hns => ?_) fun k hk => hpprev k (List.mem_cons_of_mem _ hk)
    exact hptr (n :: as) k bs (by rw [hns, List.cons_append])

theorem HashChain.congr (h : HashChain m s ns) (hs : m'.ptr s = m.ptr s)
    (hptr : ∀ n ∈ ns, m'.ptr (.next n) = m.ptr (.next n))
    (hpprev : ∀ n ∈ ns, m'.pprev n = m.pprev n) : HashChain m' s ns := by
  induction ns generalizing s with
  | nil => exact ⟨trivial, hs.trans h.2⟩
  | cons n ns ih =>
    obtain ⟨hn, hback, hrest⟩ := hashChain_cons.mp h
    refine hashChain_cons.mpr ⟨hs.trans hn, (hpprev n List.mem_cons_self).trans hback, ?_⟩
    exact ih hrest (hptr n List.mem_cons_self) (fun k hk => hptr k (List.mem_cons_of_mem _ hk))
      fun k hk => hpprev k (List.mem_cons_of_mem _ hk)

/-! ## the place of a node -/

/-- Two ways to a slot that start at a head are the same: the nodes on the way point back. -/
theorem HashSeg.way_unique (has : HashSeg m (.first b) as) (hcs : HashSeg m (.first c) cs)
    (h : (Slot.first b).after as = (Slot.first c).after cs) : b = c ∧ as = cs := by
  induction as using List.reverseRecOn generalizing cs with
  | nil =>
    rcases List.eq_nil_or_concat' cs with rfl | ⟨cs, k, rfl⟩
    · exact ⟨Slot.first.inj h, rfl⟩
    · rw [Slot.after_concat] at h
      exact absurd h (Slot.first_ne_next b k)
  | append_singleton as a ih =>
    rw [Slot.after_concat] at h
    rcases List.eq_nil_or_concat' cs with rfl | ⟨cs, k, rfl⟩
    · exact absurd h.symm (Slot.first_ne_next c a)
    · rw [Slot.after_concat] at h
      obtain rfl : a = k := Slot.next.inj h
      obtain ⟨has, -, hback, -⟩ := hashSeg_append.mp has
      obtain ⟨hcs, -, hback', -⟩ := hashSeg_append.mp hcs
      obtain ⟨rfl, rfl⟩ := ih has hcs (Option.some.inj (hback.symm.trans hback'))
      exact ⟨rfl, rfl⟩

/-- A node is in one bucket, and there in one place. -/
theorem HashSeg.place_unique (h : HashSeg m (.first b) (as ++ n :: bs))
    (h' : HashSeg m (.first c) (cs ++ n :: ds)) : b = c ∧ as = cs := by
  obtain ⟨has, -, hback, -⟩ := hashSeg_append.mp h
  obtain ⟨hcs, -, hback', -⟩ := hashSeg_append.mp h'
  exact has.way_unique hcs (Option.some.inj (hback.symm.trans hback'))

theorem nodup_of_place_unique {l : List ν}
    (h : ∀ as cs n bs ds, l = as ++ n :: bs → l = cs ++ n :: ds → as = cs) : l.Nodup := by
  induction l with
  | nil => exact List.nodup_nil
  | cons a l ih =>
    refine List.nodup_cons.mpr ⟨fun ha => ?_, ih fun as cs n bs ds has hcs => ?_⟩
    · obtain ⟨cs, ds, rfl⟩ := List.append_of_mem ha
      exact absurd (h [] (a :: cs) a _ ds rfl rfl) (List.cons_ne_nil a cs).symm
    · have he := h (a :: as) (a :: cs) n bs ds (by rw [has, List.cons_append])
        (by rw [hcs, List.cons_append])
      exact (List.cons.inj he).2

/-- **Chains whose nodes point back share none.** -/
theorem HashChains.of_chain (h : ∀ b, HashChain m (.first b) (buckets b)) (hfault : m.fault = false) :
    HashChains m buckets := by
  refine ⟨h, fun b => ?_, fun b c hbc n hb hc => ?_, hfault⟩
  · refine nodup_of_place_unique fun as cs n bs ds has hcs => ?_
    exact (HashSeg.place_unique (has ▸ (h b).1) (hcs ▸ (h b).1)).2
  · obtain ⟨as, bs, hb⟩ := List.append_of_mem hb
    obtain ⟨cs, ds, hc⟩ := List.append_of_mem hc
    exact hbc (HashSeg.place_unique (hb ▸ (h b).1) (hc ▸ (h c).1)).1

/-! ## the two rules -/

namespace HashChains

/-- What the slots of a bucket hold, and where its nodes point back to. -/
theorem ptr_after (h : HashChains m buckets) (hb : buckets b = as ++ bs) :
    m.ptr ((Slot.first b).after as) = bs.head? :=
  (hashChain_append.mp (hb ▸ h.chain b)).2.ptr_eq

theorem ptr_next (h : HashChains m buckets) (hb : buckets b = as ++ n :: bs) :
    m.ptr (.next n) = bs.head? :=
  (hashChain_cons.mp (hashChain_append.mp (hb ▸ h.chain b)).2).2.2.ptr_eq

theorem pprev_eq (h : HashChains m buckets) (hb : buckets b = as ++ n :: bs) :
    m.pprev n = some ((Slot.first b).after as) :=
  (hashChain_cons.mp (hashChain_append.mp (hb ▸ h.chain b)).2).2.1

theorem notMem_of_pprev (h : HashChains m buckets) (hn : m.pprev n = none) (b : ι) :
    n ∉ buckets b := by
  intro hin
  obtain ⟨as, bs, hb⟩ := List.append_of_mem hin
  exact Option.some_ne_none _ ((h.pprev_eq hb).symm.trans hn)

/-- The slot of a place is the head of the bucket or in a node before the place. -/
theorem after_ne (b : ι) (hn : n ∉ as) : (Slot.first b).after as ≠ .next n := by
  intro he
  rcases (Slot.first b).after_eq as with h1 | ⟨k, hk, h1⟩
  · exact Slot.first_ne_next b n (h1.symm.trans he)
  · exact hn (Slot.next.inj (h1.symm.trans he) ▸ hk)

section
variable (h : HashChains m buckets) (hb : buckets b = as ++ bs)
  (hstores : StoresAt m m' ((Slot.first b).after as) x o)
include h hb hstores

/-- A bucket takes no notice of what is stored to another. -/
theorem other (hc : c ≠ b) (hx : x ∉ buckets c) (ho : ∀ n, o = some n → n ∈ bs) :
    HashChain m' (.first c) (buckets c) := by
  have hapart : ∀ n ∈ buckets c, n ∉ as ++ bs := hb ▸ h.apart c b hc
  refine (h.chain c).congr (hstores.ptr _ (fun he => ?_) (Slot.first_ne_next c x))
    (fun n hn => ?_) fun n hn => ?_
  · rcases (Slot.first b).after_eq as with h1 | ⟨k, -, h1⟩
    · exact hc (Slot.first.inj (he.trans h1))
    · exact Slot.first_ne_next c k (he.trans h1)
  · have hnas : n ∉ as := fun hin => hapart n hn (List.mem_append_left _ hin)
    exact hstores.ptr _ (after_ne b hnas).symm fun he => hx (Slot.next.inj he ▸ hn)
  · refine hstores.pprev n (fun he => hx (he ▸ hn)) fun he => ?_
    exact hapart n hn (List.mem_append_right _ (ho n he))

/-- Nor do the nodes before the place. -/
theorem before (hx : x ∉ as) (ho : ∀ n, o = some n → n ∈ bs) : HashSeg m' (.first b) as := by
  have hseg := (hashChain_append.mp (hb ▸ h.chain b)).1
  obtain ⟨-, -, hdis⟩ := List.nodup_append.mp (hb ▸ h.once b : (as ++ bs).Nodup)
  refine hseg.congr (fun cs n ds has => hstores.ptr _ (fun he => ?_) ?_) fun n hn => ?_
  · -- two beginnings of the bucket lead to one slot only if they are the same
    have hcs : HashSeg m (.first b) cs := (hashSeg_append.mp (has ▸ hseg)).1
    have hlen := congrArg List.length (hcs.way_unique hseg he).2
    rw [has, List.length_append, List.length_cons] at hlen
    omega
  · exact after_ne b fun hk => hx (has ▸ List.mem_append_left _ hk)
  · exact hstores.pprev n (fun he => hx (he ▸ hn)) fun he => hdis n hn n (ho n he) rfl

/-- Nor do the nodes behind it, the first one's back pointer apart. -/
theorem behind (hbs : bs = cs ++ n :: ds) (hn : n ≠ x) (hx : x ∉ ds)
    (ho : o = some n) : HashChain m' (.next n) ds := by
  subst hbs ho
  obtain ⟨-, hndb, hdis⟩ := List.nodup_append.mp (hb ▸ h.once b : (as ++ (cs ++ n :: ds)).Nodup)
  have hnd : n ∉ ds := (List.nodup_cons.mp (List.nodup_append.mp hndb).2.1).1
  have hslot : ∀ k, k ≠ x → k ∈ n :: ds → m'.ptr (.next k) = m.ptr (.next k) := fun k hkx hk => by
    have hka : k ∉ as := fun hka => hdis k hka k (List.mem_append_right _ hk) rfl
    exact hstores.ptr _ (after_ne b hka).symm fun he => hkx (Slot.next.inj he)
  have hrest := (hashChain_append.mp (hashChain_append.mp (hb ▸ h.chain b)).2).2
  have hne : ∀ k ∈ ds, k ≠ x := fun k hk he => hx (he ▸ hk)
  refine (hashChain_cons.mp hrest).2.2.congr (hslot n hn List.mem_cons_self)
    (fun k hk => hslot k (hne k hk) (List.mem_cons_of_mem _ hk))
    fun k hk => hstores.pprev k (hne k hk) fun he => hnd (Option.some.inj he ▸ hk)

end

variable [DecidableEq ι]

/-- **A node that is in no bucket is put into one.** -/
theorem put (h : HashChains m buckets) (hb : buckets b = as ++ bs) (hx : ∀ c, x ∉ buckets c)
    (hput : Put m m' ((Slot.first b).after as) x bs.head?) :
    HashChains m' (Function.update buckets b (as ++ x :: bs)) := by
  have hstores := hput.toStoresAt
  have ho : ∀ n, bs.head? = some n → n ∈ bs := fun n hn => List.mem_of_head? hn
  obtain ⟨hxa, hxb⟩ := not_or.mp (mt List.mem_append.mpr (hb ▸ hx b : x ∉ as ++ bs))
  refine of_chain (fun c => ?_) (hput.fault.trans h.noFault)
  by_cases hc : c = b
  · subst hc
    rw [Function.update_self]
    refine hashChain_append.mpr ⟨h.before hb hstores hxa ho, ?_⟩
    refine hashChain_cons.mpr ⟨hput.slot, hput.back, ?_⟩
    cases bs with
    | nil => exact ⟨trivial, hput.node⟩
    | cons n bs =>
      obtain ⟨hxn, hxbs⟩ := not_or.mp (mt List.mem_cons.mpr hxb)
      refine hashChain_cons.mpr ⟨hput.node, hput.nextBack n rfl, ?_⟩
      exact h.behind hb hstores (show n :: bs = [] ++ n :: bs from rfl) (Ne.symm hxn) hxbs rfl
  · rw [Function.update_of_ne hc]
    exact h.other hb hstores hc (hx c) ho

/-- **A node is taken out of its bucket.** -/
theorem cut (h : HashChains m buckets) (hb : buckets b = as ++ x :: bs)
    (hcut : Cut m m' ((Slot.first b).after as) x bs.head?) :
    HashChains m' (Function.update buckets b (as ++ bs)) := by
  have hstores := hcut.toStoresAt
  have ho : ∀ n, bs.head? = some n → n ∈ x :: bs := fun n hn =>
    List.mem_cons_of_mem _ (List.mem_of_head? hn)
  obtain ⟨-, hndb, hdis⟩ := List.nodup_append.mp (hb ▸ h.once b : (as ++ x :: bs).Nodup)
  have hxa : x ∉ as := fun hin => hdis x hin x List.mem_cons_self rfl
  have hxb : x ∉ bs := (List.nodup_cons.mp hndb).1
  have hxc : ∀ c, c ≠ b → x ∉ buckets c := fun c hc =>
    h.apart b c (Ne.symm hc) x (hb ▸ List.mem_append_right _ List.mem_cons_self)
  refine of_chain (fun c => ?_) (hcut.fault.trans h.noFault)
  by_cases hc : c = b
  · subst hc
    rw [Function.update_self]
    refine hashChain_append.mpr ⟨h.before hb hstores hxa ho, ?_⟩
    cases bs with
    | nil => exact ⟨trivial, hcut.slot⟩
    | cons n bs =>
      obtain ⟨hxn, hxbs⟩ := not_or.mp (mt List.mem_cons.mpr hxb)
      refine hashChain_cons.mpr ⟨hcut.slot, hcut.nextBack n rfl, ?_⟩
      exact h.behind hb hstores (show x :: n :: bs = [x] ++ n :: bs from rfl) (Ne.symm hxn) hxbs rfl
  · rw [Function.update_of_ne hc]
    exact h.other hb hstores hc (hxc c hc) ho

end HashChains

/-- The nodes that point back are in the buckets, before and after. -/
theorem StoresAt.hashed [DecidableEq ι] {l : List ν} (hstores : StoresAt m m' s x o)
    (hold : ∀ n, m.pprev n ≠ none → ∃ c, n ∈ buckets c) (hkept : ∀ n ∈ buckets b, n ≠ x → n ∈ l)
    (hx : m'.pprev x ≠ none → x ∈ l) (ho : ∀ n, o = some n → n ∈ l) (hn : m'.pprev n ≠ none) :
    ∃ c, n ∈ Function.update buckets b l c := by
  have hin : n ∈ l → ∃ c, n ∈ Function.update buckets b l c := fun hl => ⟨b, by rwa [Function.update_self]⟩
  by_cases hnx : n = x
  · exact hin (hnx ▸ hx (hnx ▸ hn))
  · by_cases hno : o = some n
    · exact hin (ho n hno)
    · rw [hstores.pprev n hnx hno] at hn
      obtain ⟨c, hc⟩ := hold n hn
      by_cases hcb : c = b
      · exact hin (hkept n (hcb ▸ hc) hnx)
      · exact ⟨c, by rwa [Function.update_of_ne hcb]⟩

end
