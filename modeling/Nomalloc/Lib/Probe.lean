import Mathlib.Tactic

/-!
# Linear probing

An open-addressing table of `cap` slots; `slot i` is what slot `i` holds, one value of it means
"never used".  A key `k` is looked for at `pos (home k) cap 0`, `pos (home k) cap 1`, ...

* `pos h cap n`      the `n`-th position of the probe sequence of `h`;
* `scan stop cap m i`   walk at most `m` slots from `i` and return the first one that stops;
* `Chained`          no key in the table lies behind a never used slot of its own sequence;
* `Once`             no key lies in two slots.

`Chained.scan_eq`, `Chained.scan_eq_none` say what a walk for a key finds, `Chained.put`,
`Chained.bury`, `Once.put`, `Once.bury` that writing and burying keep the two.
-/

namespace Probe

/-- The `n`-th position of the probe sequence that starts at `h`. -/
def pos (h cap n : ℕ) : ℕ := (h + n) % cap

/-- Walk at most `m` slots from slot `i`, and return the first that stops. -/
def scan (stop : ℕ → Bool) (cap : ℕ) : ℕ → ℕ → Option ℕ
  | 0, _ => none
  | m + 1, i => if stop i then some i else scan stop cap m ((i + 1) % cap)

section
variable {h cap : ℕ}

theorem pos_lt (hcap : 0 < cap) (n : ℕ) : pos h cap n < cap := Nat.mod_lt _ hcap

theorem pos_succ (n : ℕ) : (pos h cap n + 1) % cap = pos h cap (n + 1) := by
  unfold pos
  rw [Nat.mod_add_mod, Nat.add_assoc]

/-- The first `cap` positions of a probe sequence are all the slots. -/
theorem exists_pos (h : ℕ) {i : ℕ} (hi : i < cap) : ∃ n < cap, pos h cap n = i := by
  have hcap : 0 < cap := by omega
  have hmod := Nat.mod_lt h hcap
  rcases Nat.lt_or_ge i (h % cap) with hlt | hge
  · refine ⟨i + cap - h % cap, by omega, ?_⟩
    unfold pos
    rw [← Nat.mod_add_mod, show h % cap + (i + cap - h % cap) = i + cap by omega,
      Nat.add_mod_right]
    exact Nat.mod_eq_of_lt hi
  · refine ⟨i - h % cap, by omega, ?_⟩
    unfold pos
    rw [← Nat.mod_add_mod, show h % cap + (i - h % cap) = i by omega]
    exact Nat.mod_eq_of_lt hi

/-- The first `cap` positions of a probe sequence are different slots. -/
theorem pos_inj {m n : ℕ} (hm : m < cap) (hn : n < cap) (he : pos h cap m = pos h cap n) :
    m = n :=
  Nat.ModEq.eq_of_lt_of_lt (Nat.ModEq.add_left_cancel' h he) hm hn

theorem scan_eq_some {stop : ℕ → Bool} {m n i : ℕ} (hs : scan stop cap m (pos h cap n) = some i) :
    ∃ d < m, pos h cap (n + d) = i ∧ stop i = true ∧ ∀ e < d, stop (pos h cap (n + e)) = false := by
  induction m generalizing n with
  | zero => exact absurd hs (by simp [scan])
  | succ m ih =>
    unfold scan at hs
    cases hstop : stop (pos h cap n) with
    | true =>
      rw [hstop, if_pos rfl] at hs
      cases hs
      exact ⟨0, by omega, rfl, hstop, by simp⟩
    | false =>
      rw [hstop, if_neg (by simp), pos_succ] at hs
      obtain ⟨d, hd, hpos, hi, hbefore⟩ := ih hs
      refine ⟨d + 1, by omega, by rw [← hpos]; congr 1; omega, hi, fun e he => ?_⟩
      rcases e with _ | e
      · exact hstop
      · rw [show n + (e + 1) = n + 1 + e by omega]
        exact hbefore e (by omega)

theorem scan_eq_none {stop : ℕ → Bool} {m n : ℕ} (hs : scan stop cap m (pos h cap n) = none) :
    ∀ d < m, stop (pos h cap (n + d)) = false := by
  induction m generalizing n with
  | zero => simp
  | succ m ih =>
    unfold scan at hs
    cases hstop : stop (pos h cap n) with
    | true =>
      rw [hstop, if_pos rfl] at hs
      exact absurd hs (by simp)
    | false =>
      rw [hstop, if_neg (by simp), pos_succ] at hs
      intro d hd
      rcases d with _ | d
      · exact hstop
      · rw [show n + (d + 1) = n + 1 + d by omega]
        exact ih hs d (by omega)

/-- The walk stops at the first slot of the sequence that does. -/
theorem scan_first {stop : ℕ → Bool} {m d : ℕ} (hd : d < m) (hstop : stop (pos h cap d) = true)
    (hbefore : ∀ e < d, stop (pos h cap e) = false) :
    scan stop cap m (pos h cap 0) = some (pos h cap d) := by
  cases hs : scan stop cap m (pos h cap 0) with
  | none =>
    have := scan_eq_none hs d hd
    rw [Nat.zero_add, hstop] at this
    exact absurd this (by decide)
  | some i =>
    obtain ⟨d', hd', hpos, hi, hb⟩ := scan_eq_some hs
    rw [Nat.zero_add] at hpos
    rcases Nat.lt_trichotomy d d' with hlt | rfl | hlt
    · have := hb d hlt
      rw [Nat.zero_add, hstop] at this
      exact absurd this (by decide)
    · rw [hpos]
    · have := hbefore d' hlt
      rw [hpos, hi] at this
      exact absurd this (by decide)

end

section
variable {κ : Type*} (home : κ → ℕ) (cap : ℕ) (live : κ → Prop) (empty : κ)

/-- No live key lies behind a never used slot of its own probe sequence. -/
def Chained (slot : ℕ → κ) : Prop :=
  ∀ k, live k → ∀ n < cap, slot (pos (home k) cap n) = k →
    ∀ j < n, slot (pos (home k) cap j) ≠ empty

/-- No live key lies in two slots. -/
def Once (slot : ℕ → κ) : Prop :=
  ∀ i < cap, ∀ j < cap, live (slot i) → slot i = slot j → i = j

variable {home cap live empty} {slot : ℕ → κ}

/-- Write the key `k` into the `n`-th slot of its sequence, with no never used slot before it. -/
theorem Chained.put (hc : Chained home cap live empty slot) {k : κ} {n : ℕ} (hn : n < cap)
    (hk : k ≠ empty) (hbefore : ∀ j < n, slot (pos (home k) cap j) ≠ empty) :
    Chained home cap live empty (Function.update slot (pos (home k) cap n) k) := by
  intro k' hk' m hm hslot j hj
  by_cases hw : pos (home k') cap j = pos (home k) cap n
  · rw [hw, Function.update_self]
    exact hk
  rw [Function.update_of_ne hw]
  by_cases hi : pos (home k') cap m = pos (home k) cap n
  · rw [hi, Function.update_self] at hslot
    subst hslot
    exact hbefore j (pos_inj hm hn hi ▸ hj)
  · rw [Function.update_of_ne hi] at hslot
    exact hc k' hk' m hm hslot j hj

/-- Bury a slot: what replaces its key is no key, and does not read as never used. -/
theorem Chained.bury (hc : Chained home cap live empty slot) {i : ℕ} {t : κ} (ht : ¬ live t)
    (hne : t ≠ empty) : Chained home cap live empty (Function.update slot i t) := by
  intro k hk m hm hslot j hj
  by_cases hi : pos (home k) cap m = i
  · rw [hi, Function.update_self] at hslot
    exact absurd (hslot ▸ hk) ht
  rw [Function.update_of_ne hi] at hslot
  by_cases hw : pos (home k) cap j = i
  · rw [hw, Function.update_self]
    exact hne
  · rw [Function.update_of_ne hw]
    exact hc k hk m hm hslot j hj

theorem Once.put (ho : Once cap live slot) {i : ℕ} {k : κ} (hk : ∀ j < cap, slot j ≠ k) :
    Once cap live (Function.update slot i k) := by
  intro a ha b hb hlive he
  by_cases hai : a = i <;> by_cases hbi : b = i
  · exact hai.trans hbi.symm
  · rw [hai, Function.update_self, Function.update_of_ne hbi] at he
    exact absurd he.symm (hk b hb)
  · rw [hbi, Function.update_self, Function.update_of_ne hai] at he
    exact absurd he (hk a ha)
  · rw [Function.update_of_ne hai, Function.update_of_ne hbi] at he
    rw [Function.update_of_ne hai] at hlive
    exact ho a ha b hb hlive he

theorem Once.bury (ho : Once cap live slot) {i : ℕ} {t : κ} (ht : ¬ live t) :
    Once cap live (Function.update slot i t) := by
  intro a ha b hb hlive he
  by_cases hai : a = i
  · rw [hai, Function.update_self] at hlive
    exact absurd hlive ht
  · rw [Function.update_of_ne hai] at hlive he
    by_cases hbi : b = i
    · rw [hbi, Function.update_self] at he
      exact absurd (he ▸ hlive) ht
    · rw [Function.update_of_ne hbi] at he
      exact ho a ha b hb hlive he

/-- A walk that stops at `k` and at never used slots finds `k` where it lies. -/
theorem Chained.scan_eq (hc : Chained home cap live empty slot) {stop : ℕ → Bool} {k : κ}
    (hstop : ∀ i, stop i = true ↔ slot i = k ∨ slot i = empty) (ho : Once cap live slot)
    (hk : live k) {i : ℕ} (hi : i < cap) (hslot : slot i = k) :
    scan stop cap cap (pos (home k) cap 0) = some i := by
  obtain ⟨n, hn, rfl⟩ := exists_pos (home k) hi
  refine scan_first hn ((hstop _).mpr (Or.inl hslot)) fun e he => ?_
  rw [Bool.eq_false_iff, ne_eq, hstop]
  rintro (hs | hs)
  · have := ho _ (pos_lt (by omega) e) _ hi (by rw [hs]; exact hk) (hs.trans hslot.symm)
    have := pos_inj (by omega) hn this
    omega
  · exact hc k hk n hn hslot e he hs

end

end Probe
