import Mathlib.Data.List.Nodup
import Mathlib.Tactic

/-!
# Lists in the order of the last access

A history lists accesses, the newest one first, and `recent` keeps of every item its newest access.
A list is stacked when it is an initial part of the recent items that are still known: nothing that is
known was accessed after one of its items without being on the list.

* `Stacked.touch`    an item that is accessed comes to the front of both;
* `Stacked.shrink`   items may leave the end of the list, and items off the list may be forgotten;
* `Stacked.erase`    an item may be forgotten and leave the list;
* `Stacked.over_last_iff`   which items are over the last one.
-/

variable {α : Type*} [DecidableEq α]

/-- The items of a history, each at its newest access. -/
def recent : List α → List α
  | [] => []
  | k :: hist => k :: (recent hist).erase k

theorem recent_nodup (hist : List α) : (recent hist).Nodup := by
  induction hist with
  | nil => exact List.nodup_nil
  | cons j hist ih => exact List.nodup_cons.mpr ⟨ih.not_mem_erase, ih.erase j⟩

/-- The list `s` is what was accessed last among the items that are known. -/
structure Stacked (known : α → Bool) (hist s : List α) : Prop where
  isPrefix : s <+: (recent hist).filter known
  accessed : ∀ k, known k = true → k ∈ hist

namespace Stacked
variable {known known' : α → Bool} {hist s s' : List α} {k : α}

theorem nodup (h : Stacked known hist s) : s.Nodup :=
  ((recent_nodup hist).filter _).sublist h.isPrefix.sublist

theorem known_of_mem (h : Stacked known hist s) (hk : k ∈ s) : known k = true :=
  (List.mem_filter.mp (h.isPrefix.subset hk)).2

/-- What is known and off the list was accessed before what is on the list. -/
theorem shrink (h : Stacked known hist s) (hs : s' <+: s) (hknown : ∀ k, known' k = true → known k = true)
    (hkeep : ∀ k ∈ s', known' k = true) : Stacked known' hist s' := by
  refine ⟨?_, fun k hk => h.accessed k (hknown k hk)⟩
  have hall : s'.filter known' = s' := List.filter_eq_self.mpr hkeep
  have hfilter : ((recent hist).filter known).filter known' = (recent hist).filter known' := by
    rw [List.filter_filter]
    refine List.filter_congr fun k _ => ?_
    by_cases hk : known' k = true
    · rw [hk, hknown k hk]
      rfl
    · rw [Bool.eq_false_iff.mpr hk]
      rfl
  have hprefix := (hs.trans h.isPrefix).filter known'
  rwa [hall, hfilter] at hprefix

/-- The items known stay as they are. -/
theorem congr (h : Stacked known hist s) (hknown : ∀ k, known' k = known k) :
    Stacked known' hist s := by
  have he : known' = known := funext hknown
  rwa [he]

theorem erase (h : Stacked known hist s) (hknown : ∀ j, known' j = (known j && j != k)) :
    Stacked known' hist (s.erase k) := by
  refine ⟨?_, fun j hj => h.accessed j ?_⟩
  · have hfilter : (recent hist).filter known' = ((recent hist).filter known).filter (· != k) := by
      rw [List.filter_filter]
      refine List.filter_congr fun j _ => ?_
      rw [hknown, Bool.and_comm]
    rw [hfilter, h.nodup.erase_eq_filter]
    exact h.isPrefix.filter _
  · rw [hknown, Bool.and_eq_true] at hj
    exact hj.1

theorem touch (h : Stacked known hist s) (hk : known k = true) :
    Stacked known (k :: hist) (k :: s.erase k) := by
  refine ⟨?_, fun j hj => List.mem_cons_of_mem _ (h.accessed j hj)⟩
  have hfilter : (recent (k :: hist)).filter known =
      k :: ((recent hist).filter known).filter (· != k) := by
    rw [recent, List.filter_cons_of_pos hk, (recent_nodup hist).erase_eq_filter, List.filter_filter,
      List.filter_filter]
    congr 1
    exact List.filter_congr fun j _ => Bool.and_comm ..
  rw [hfilter, h.nodup.erase_eq_filter, List.cons_prefix_cons]
  refine ⟨rfl, ?_⟩
  exact h.isPrefix.filter _

/-- An item that was not known. -/
theorem add (h : Stacked known hist s) (hk : known k = false)
    (hknown : ∀ j, known' j = (known j || decide (j = k))) : Stacked known' (k :: hist) (k :: s) := by
  have hself : known' k = true := by
    rw [hknown]
    simp
  have hfilter : (recent (k :: hist)).filter known' = k :: (recent hist).filter known := by
    rw [recent, List.filter_cons_of_pos hself, (recent_nodup hist).erase_eq_filter, List.filter_filter]
    congr 1
    refine List.filter_congr fun j _ => ?_
    rw [hknown]
    by_cases hj : j = k
    · subst hj
      simp [hk]
    · simp [hj]
  refine ⟨?_, fun j hj => ?_⟩
  · rw [hfilter, List.cons_prefix_cons]
    exact ⟨rfl, h.isPrefix⟩
  · rw [hknown, Bool.or_eq_true, decide_eq_true_eq] at hj
    rcases hj with hj | rfl
    · exact List.mem_cons_of_mem _ (h.accessed j hj)
    · exact List.mem_cons_self

/-- The items over the last one of the list are those that were accessed after it. -/
theorem over_last_iff (h : Stacked known hist s) (hk : known k = true) :
    k ∈ s ∧ s.getLast? ≠ some k ↔ ∃ b, s.getLast? = some b ∧ [k, b].Sublist (recent hist) := by
  rcases List.eq_nil_or_concat' s with hs | ⟨as, b, hs⟩
  · subst hs
    simp
  have hlast : s.getLast? = some b := by rw [hs, List.getLast?_concat]
  have hb : b ∈ s := by rw [hs]; simp
  rw [hlast]
  constructor
  · rintro ⟨hks, hne⟩
    have hkas : k ∈ as := by
      rw [hs, List.mem_append, List.mem_singleton] at hks
      exact hks.resolve_right fun hkb => hne (by rw [hkb])
    have hsub : [k, b].Sublist s := by
      rw [hs]
      exact (List.singleton_sublist.mpr hkas).append_right [b]
    exact ⟨b, rfl, hsub.trans (h.isPrefix.sublist.trans List.filter_sublist)⟩
  · rintro ⟨b', hb', hsub⟩
    cases hb'
    have hsub' : [k, b].Sublist ((recent hist).filter known) := by
      have hfilter := hsub.filter known
      rwa [List.filter_cons_of_pos hk, List.filter_cons_of_pos (h.known_of_mem hb)] at hfilter
    have hnodup := (recent_nodup hist).filter known
    obtain ⟨rest, hrest⟩ := h.isPrefix
    rw [← hrest] at hsub' hnodup
    refine ⟨?_, fun hkb => ?_⟩
    · by_contra hks
      have hsub'' : [k, b].Sublist rest := by
        obtain ⟨l1, l2, he, h1, h2⟩ := List.sublist_append_iff.mp hsub'
        cases l1 with
        | nil => rwa [show [k, b] = l2 from he]
        | cons j l1 =>
          obtain rfl : k = j := (List.cons.inj he).1
          exact absurd (h1.subset List.mem_cons_self) hks
      exact (List.nodup_append.mp hnodup).2.2 b hb b (hsub''.subset (by simp)) rfl
    · obtain rfl : b = k := Option.some.inj hkb
      have hpair := hnodup.sublist hsub'
      simp at hpair

end Stacked
