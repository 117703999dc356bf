import Mathlib.Data.List.Basic
import Mathlib.Data.Int.Notation

/-!
# The list as a sequence

What `base/linked_list.h` promises, read on the sequence of stored items from head to
tail. `AioServer.LinkedList.Refinement` shows that the linked nodes do this, and the
server model keeps its `sv_clients` as such a sequence.
-/

namespace AioServer.Sequence

variable {α : Type*}

/-- `dlist_find`: the first item from the head for which the comparator answers 0. -/
def find (cmp : α → α → ℤ) (item : α) : List α → Option α
  | [] => none
  | x :: xs => if cmp x item = 0 then some x else find cmp item xs

/-- `dlist_remove_item`: the item found, and the sequence without it. -/
def removeItem (cmp : α → α → ℤ) (item : α) : List α → Option α × List α
  | [] => (none, [])
  | x :: xs =>
    if cmp x item = 0 then (some x, xs)
    else ((removeItem cmp item xs).1, x :: (removeItem cmp item xs).2)

/-- The items that a search hands to the comparator, in this order. -/
def compared (cmp : α → α → ℤ) (item : α) : List α → List α
  | [] => []
  | x :: xs => if cmp x item = 0 then [x] else x :: compared cmp item xs

theorem compared_prefix (cmp : α → α → ℤ) (item : α) (xs : List α) :
    compared cmp item xs <+: xs := by
  induction xs with
  | nil => exact List.nil_prefix
  | cons x xs ih =>
    rw [compared]
    split
    · exact ⟨xs, rfl⟩
    · exact (List.prefix_cons_inj x).mpr ih

/-- The outcome depends on the answers of the comparator for the items that it is asked about. -/
theorem removeItem_congr {f g : α → α → ℤ} {item : α} {xs : List α}
    (h : ∀ x ∈ compared f item xs, f x item = g x item) :
    removeItem f item xs = removeItem g item xs ∧ compared f item xs = compared g item xs := by
  induction xs with
  | nil => exact ⟨rfl, rfl⟩
  | cons x xs ih =>
    have hx : f x item = g x item := h x (by rw [compared]; split <;> simp)
    simp only [removeItem, compared, ← hx]
    split_ifs with h0
    · exact ⟨rfl, rfl⟩
    · obtain ⟨hrem, hcomp⟩ := ih fun y hy => h y (by simp [compared, h0, hy])
      rw [hrem, hcomp]
      exact ⟨rfl, rfl⟩

theorem length_removeItem_le (cmp : α → α → ℤ) (item : α) (xs : List α) :
    (removeItem cmp item xs).2.length ≤ xs.length := by
  induction xs with
  | nil => exact Nat.le_refl 0
  | cons x xs ih =>
    rw [removeItem]
    split
    · exact Nat.le_succ _
    · exact Nat.succ_le_succ ih

/-- When only `item` itself compares equal to `item`, removing it erases it. -/
theorem removeItem_snd_of_unique [DecidableEq α] {cmp : α → α → ℤ} {item : α} {xs : List α}
    (h : ∀ x ∈ xs, cmp x item = 0 ↔ x = item) : (removeItem cmp item xs).2 = xs.erase item := by
  induction xs with
  | nil => rfl
  | cons x xs ih =>
    rw [removeItem]
    have hx : cmp x item = 0 ↔ x = item := h x (by simp)
    by_cases hxi : x = item
    · rw [if_pos (hx.mpr hxi), hxi, List.erase_cons_head]
    · rw [if_neg (fun h0 => hxi (hx.mp h0)), List.erase_cons_tail (by simpa using hxi),
        ih fun y hy => h y (List.mem_cons_of_mem x hy)]

/-- It is `item` that is removed, if it is there. -/
theorem removeItem_fst_of_unique [DecidableEq α] {cmp : α → α → ℤ} {item : α} {xs : List α}
    (h : ∀ x ∈ xs, cmp x item = 0 ↔ x = item) :
    (removeItem cmp item xs).1 = if item ∈ xs then some item else none := by
  induction xs with
  | nil => rfl
  | cons x xs ih =>
    rw [removeItem]
    have hx : cmp x item = 0 ↔ x = item := h x (by simp)
    by_cases hxi : x = item
    · rw [if_pos (hx.mpr hxi), if_pos (by simp [hxi]), hxi]
    · rw [if_neg fun h0 => hxi (hx.mp h0), ih fun y hy => h y (List.mem_cons_of_mem x hy)]
      simp [Ne.symm hxi]

end AioServer.Sequence
