import Mathlib.Tactic

/-!
# The calls made to an underlying allocator

A client of `malloc` and `free` is seen as the log of its calls, newest first: `got b` (the block
`b` was handed out) and `gave p` (the address `p` was handed back).

* `live log`         the blocks handed out and not handed back since;
* `Matched log`      every address handed back was the address of a live block;
* `Sound al top log` what is assumed of the underlying allocator: every block it hands out is not
                     at address zero, is aligned to `al`, ends by `top` and overlaps no live block.

In a sound log the live blocks are pairwise apart (`Sound.apart`), so that a byte lies in one of
them at most (`Sound.eq_of_holds`).
-/

namespace Heap

/-- A block: the `size` bytes from `addr`. -/
structure Block where
  addr : ℕ
  size : ℕ
  deriving DecidableEq

namespace Block

/-- The byte `p` belongs to the block; an empty block still has its own address. -/
def Holds (b : Block) (p : ℕ) : Prop := b.addr ≤ p ∧ p < b.addr + max b.size 1

/-- Two blocks at different addresses, one of them wholly before the other. -/
def Apart (b c : Block) : Prop :=
  b.addr ≠ c.addr ∧ (b.addr + b.size ≤ c.addr ∨ c.addr + c.size ≤ b.addr)

instance : DecidableRel Apart := fun _ _ => inferInstanceAs (Decidable (_ ∧ _))

theorem Apart.symm {b c : Block} (h : b.Apart c) : c.Apart b := ⟨h.1.symm, h.2.symm⟩

instance : Std.Symm Apart := ⟨fun _ _ h => h.symm⟩

/-- Blocks that are apart share no byte. -/
theorem Apart.not_holds {b c : Block} {p : ℕ} (h : b.Apart c) (hb : b.Holds p) : ¬ c.Holds p := by
  obtain ⟨hne, hsep⟩ := h
  unfold Holds at *
  omega

theorem holds_addr (b : Block) : b.Holds b.addr := ⟨le_rfl, by omega⟩

end Block

/-- A call: a block obtained, or an address handed back. -/
inductive Event where
  | got (b : Block)
  | gave (p : ℕ)
  deriving DecidableEq

/-- The blocks handed out and not handed back. -/
def live : List Event → List Block
  | [] => []
  | .got b :: log => b :: live log
  | .gave p :: log => (live log).filter (·.addr ≠ p)

/-- Every address handed back was then the address of a live block. -/
def Matched : List Event → Prop
  | [] => True
  | .got _ :: log => Matched log
  | .gave p :: log => (∃ b ∈ live log, b.addr = p) ∧ Matched log

instance decidableMatched : (log : List Event) → Decidable (Matched log)
  | [] => .isTrue trivial
  | .got _ :: log => decidableMatched log
  | .gave _ :: log => @instDecidableAnd _ _ _ (decidableMatched log)

/-- The answer `b` of the underlying allocator while the blocks `bs` are live. -/
structure Fits (al top : ℕ) (bs : List Block) (b : Block) : Prop where
  nonzero : b.addr ≠ 0
  aligned : al ∣ b.addr
  within : b.addr + b.size ≤ top
  apart : ∀ c ∈ bs, b.Apart c

instance (al top : ℕ) (bs : List Block) (b : Block) : Decidable (Fits al top bs b) :=
  decidable_of_iff (b.addr ≠ 0 ∧ al ∣ b.addr ∧ b.addr + b.size ≤ top ∧ ∀ c ∈ bs, b.Apart c)
    ⟨fun h => ⟨h.1, h.2.1, h.2.2.1, h.2.2.2⟩, fun h => ⟨h.1, h.2, h.3, h.4⟩⟩

/-- Every answer of the underlying allocator is a block of its own. -/
def Sound (al top : ℕ) : List Event → Prop
  | [] => True
  | .got b :: log => Fits al top (live log) b ∧ Sound al top log
  | .gave _ :: log => Sound al top log

instance decidableSound (al top : ℕ) : (log : List Event) → Decidable (Sound al top log)
  | [] => .isTrue trivial
  | .got _ :: log => @instDecidableAnd _ _ _ (decidableSound al top log)
  | .gave _ :: log => decidableSound al top log

variable {al top : ℕ} {log : List Event} {b c : Block} {p : ℕ}

@[simp] theorem live_got : live (.got b :: log) = b :: live log := rfl

theorem mem_live_gave : c ∈ live (.gave p :: log) ↔ c ∈ live log ∧ c.addr ≠ p := by
  show c ∈ (live log).filter (·.addr ≠ p) ↔ _
  rw [List.mem_filter, decide_eq_true_eq]

theorem Sound.apart (h : Sound al top log) : (live log).Pairwise Block.Apart := by
  induction log with
  | nil => exact .nil
  | cons e log ih =>
    cases e with
    | got b => exact List.pairwise_cons.2 ⟨h.1.apart, ih h.2⟩
    | gave p => exact (ih h).filter _

/-- Each of them is aligned and ends by the top of the address space. -/
theorem Sound.fits (h : Sound al top log) (hb : b ∈ live log) :
    b.addr ≠ 0 ∧ al ∣ b.addr ∧ b.addr + b.size ≤ top := by
  induction log with
  | nil => cases hb
  | cons e log ih =>
    cases e with
    | got c =>
      rcases List.mem_cons.1 hb with rfl | hb
      · exact ⟨h.1.nonzero, h.1.aligned, h.1.within⟩
      · exact ih h.2 hb
    | gave p => exact ih h (mem_live_gave.1 hb).1

theorem Sound.apart_of_ne (h : Sound al top log) (hb : b ∈ live log) (hc : c ∈ live log)
    (hne : b ≠ c) : b.Apart c :=
  h.apart.forall hb hc hne

/-- A byte lies in one live block at most. -/
theorem Sound.eq_of_holds (h : Sound al top log) (hb : b ∈ live log) (hc : c ∈ live log)
    (hbp : b.Holds p) (hcp : c.Holds p) : b = c := by
  by_contra hne
  exact (h.apart_of_ne hb hc hne).not_holds hbp hcp

theorem Sound.eq_of_addr (h : Sound al top log) (hb : b ∈ live log) (hc : c ∈ live log)
    (ha : b.addr = c.addr) : b = c :=
  h.eq_of_holds hb hc b.holds_addr (ha ▸ c.holds_addr)

end Heap
