import Nomalloc.Lib.Runs

/-!
# Progress under fair schedules

A run is a list of movers.  A round is a part of it in which every mover comes up at least once.
`Near n u s` says that the goal is at most `n` moves of the right movers away, `u` being the next
one; the others do no harm.  Then `n` rounds reach the goal.
-/

namespace Runs

variable {σ ι : Type*} {step : σ → ι → σ} {Near : ℕ → ι → σ → Prop} {Goal : σ → Prop}

/-- A goal that is never lost again. -/
theorem goal_after (hkeep : ∀ s i, Goal s → Goal (step s i)) {s : σ} (h : Goal s) (is : List ι) :
    Goal (after step s is) :=
  inv_after (C := fun _ _ => True) (fun s i h _ => hkeep s i h) h (each_of_forall (fun _ _ => trivial) s is)

/-- Up to the first move of the mover that matters, nothing changes. -/
theorem near_wait (hother : ∀ n u v s, Near n u s → v ≠ u → Near n u (step s v)) {n : ℕ} {u : ι}
    {s : σ} (h : Near n u s) {is : List ι} (his : u ∉ is) : Near n u (after step s is) := by
  induction is generalizing s with
  | nil => exact h
  | cons v is ih =>
    have hv : v ≠ u := fun he => his (he ▸ List.mem_cons_self)
    exact ih (hother n u v s h hv) fun hin => his (List.mem_cons_of_mem _ hin)

/-- While the goal is not reached, it is no further off than it was. -/
theorem near_after (hother : ∀ n u v s, Near n u s → v ≠ u → Near n u (step s v))
    (hself : ∀ n u s, Near n u s → Goal (step s u) ∨ ∃ m < n, ∃ v, Near m v (step s u))
    (hkeep : ∀ s i, Goal s → Goal (step s i)) {n : ℕ} {u : ι} {s : σ} (h : Near n u s)
    (is : List ι) : Goal (after step s is) ∨ ∃ m ≤ n, ∃ v, Near m v (after step s is) := by
  classical
  induction is generalizing s n u with
  | nil => exact Or.inr ⟨n, Nat.le_refl n, u, h⟩
  | cons v is ih =>
    rw [after_cons]
    by_cases hv : v = u
    · subst hv
      rcases hself n v s h with hgoal | ⟨m, hm, w, hw⟩
      · exact Or.inl (goal_after hkeep hgoal is)
      · rcases ih hw with hgoal | ⟨k, hk, x, hx⟩
        · exact Or.inl hgoal
        · exact Or.inr ⟨k, by omega, x, hx⟩
    · exact ih (hother n u v s h hv)

/-- **A fair round** brings the goal nearer. -/
theorem near_round (hother : ∀ n u v s, Near n u s → v ≠ u → Near n u (step s v))
    (hself : ∀ n u s, Near n u s → Goal (step s u) ∨ ∃ m < n, ∃ v, Near m v (step s u))
    (hkeep : ∀ s i, Goal s → Goal (step s i)) {n : ℕ} {u : ι} {s : σ} (h : Near n u s)
    {round : List ι} (hu : u ∈ round) :
    Goal (after step s round) ∨ ∃ m < n, ∃ v, Near m v (after step s round) := by
  classical
  obtain ⟨before, rest, rfl, hbefore⟩ := List.eq_append_cons_of_mem hu
  rw [after_append, after_cons]
  have hwait := near_wait hother h hbefore
  rcases hself n u _ hwait with hgoal | ⟨m, hm, v, hv⟩
  · exact Or.inl (goal_after hkeep hgoal rest)
  · rcases near_after hother hself hkeep hv rest with hgoal | ⟨k, hk, w, hw⟩
    · exact Or.inl hgoal
    · exact Or.inr ⟨k, by omega, w, hw⟩

/-- **Rounds reach the goal**, as many as it is far off. -/
theorem goal_of_rounds (Near : ℕ → ι → σ → Prop) (Goal : σ → Prop)
    (hother : ∀ n u v s, Near n u s → v ≠ u → Near n u (step s v))
    (hself : ∀ n u s, Near n u s → Goal (step s u) ∨ ∃ m < n, ∃ v, Near m v (step s u))
    (hkeep : ∀ s i, Goal s → Goal (step s i)) {n : ℕ} {u : ι} {s : σ} (h : Near n u s)
    {rounds : List (List ι)} (hfair : ∀ round ∈ rounds, ∀ v, v ∈ round) (hn : n ≤ rounds.length)
    (hpos : ∀ u s, ¬ Near 0 u s) : Goal (after step s rounds.flatten) := by
  induction rounds generalizing s n u with
  | nil =>
    rw [Nat.le_zero.mp hn] at h
    exact absurd h (hpos u s)
  | cons round rounds ih =>
    rw [List.flatten_cons, after_append]
    rcases near_round hother hself hkeep h (hfair round List.mem_cons_self u) with
      hgoal | ⟨m, hm, v, hv⟩
    · exact goal_after hkeep hgoal _
    · rw [List.length_cons] at hn
      exact ih hv (fun r hr => hfair r (List.mem_cons_of_mem _ hr)) (by omega)

end Runs
