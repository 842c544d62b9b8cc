import Mathlib.Data.List.Perm.Basic
import Mathlib.Data.List.Nodup
import Mathlib.Logic.Function.Basic

/-!
# A family of bins

Items are kept in bins, one list of items for every key.

* `binned bins ks`     the items in the bins of the keys `ks`;
* `binned_split`       the items of one bin, and those of the others;
* `binned_update`      the same after the items of one bin have changed.
-/

variable {κ α : Type*}

/-- The items in the bins of the keys `ks`. -/
def binned (bins : κ → List α) (ks : List κ) : List α := ks.flatMap bins

section
variable {bins bins' : κ → List α} {ks : List κ} {k : κ}

theorem mem_binned {x : α} : x ∈ binned bins ks ↔ ∃ k ∈ ks, x ∈ bins k := List.mem_flatMap

theorem binned_congr (h : ∀ k ∈ ks, bins' k = bins k) : binned bins' ks = binned bins ks := by
  unfold binned
  rw [List.flatMap_def, List.flatMap_def, List.map_congr_left h]

variable [DecidableEq κ]

theorem binned_split (bins : κ → List α) (hk : k ∈ ks) :
    (binned bins ks).Perm (bins k ++ binned bins (ks.erase k)) :=
  (List.perm_cons_erase hk).flatMap_right bins

theorem binned_update (bins : κ → List α) (hnd : ks.Nodup) (hk : k ∈ ks) (items : List α) :
    (binned (Function.update bins k items) ks).Perm (items ++ binned bins (ks.erase k)) := by
  have hrest : binned (Function.update bins k items) (ks.erase k) = binned bins (ks.erase k) := by
    refine binned_congr fun j hj => Function.update_of_ne ?_ ..
    exact ((List.Nodup.mem_erase_iff hnd).mp hj).1
  have hperm := binned_split (Function.update bins k items) hk
  rwa [Function.update_self, hrest] at hperm

end
