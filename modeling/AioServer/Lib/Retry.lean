import Mathlib.Data.Nat.Find
import Mathlib.Data.Nat.Notation

/-!
# Calling again

A call is made until its result is not one of those after which it is made again. What the
environment answers is a stream: `calls k` is the result of the call number `k`.

* `retry`: the loop, for at most `fuel` calls;
* `retry_spec`, `retry_eq_some`: which call it ends with;
* `exists_first`: it does end when the stream has a result that ends it.
-/

namespace AioServer.Lib

variable {α : Type*} {again : α → Bool} {calls : ℕ → α} {fuel k : ℕ}

/-- Call until the result is not `again`, from the call number `k` on: the result, and the
number of the next call. -/
def retry (again : α → Bool) (calls : ℕ → α) : ℕ → ℕ → Option (α × ℕ)
  | 0, _ => none
  | fuel + 1, k =>
    if again (calls k) then retry again calls fuel (k + 1) else some (calls k, k + 1)

theorem retry_of_again (h : again (calls k) = true) :
    retry again calls (fuel + 1) k = retry again calls fuel (k + 1) := by
  rw [retry, if_pos h]

theorem retry_of_not_again (h : again (calls k) = false) :
    retry again calls (fuel + 1) k = some (calls k, k + 1) := by
  rw [retry, h]
  rfl

/-- The loop ends with the call number `j` if all before it are made again. -/
theorem retry_eq_some {j : ℕ} (hkj : k ≤ j) (hfuel : j < k + fuel)
    (hall : ∀ i, k ≤ i → i < j → again (calls i) = true) (hj : again (calls j) = false) :
    retry again calls fuel k = some (calls j, j + 1) := by
  induction fuel generalizing k with
  | zero => omega
  | succ fuel ih =>
    obtain rfl | hlt := Nat.eq_or_lt_of_le hkj
    · exact retry_of_not_again hj
    · rw [retry_of_again (hall k (Nat.le_refl k) hlt)]
      exact ih hlt (by omega) fun i hi hij => hall i (by omega) hij

/-- All results before the one that the loop ends with are called again. -/
theorem retry_spec {r : α} {next : ℕ} (h : retry again calls fuel k = some (r, next)) :
    ∃ j, next = j + 1 ∧ r = calls j ∧ k ≤ j ∧ j < k + fuel ∧ again (calls j) = false ∧
      ∀ i, k ≤ i → i < j → again (calls i) = true := by
  induction fuel generalizing k with
  | zero => cases h
  | succ fuel ih =>
    cases hk : again (calls k) with
    | false =>
      rw [retry_of_not_again hk] at h
      cases h
      exact ⟨k, rfl, rfl, Nat.le_refl k, by omega, hk, by omega⟩
    | true =>
      rw [retry_of_again hk] at h
      obtain ⟨j, hnext, hr, hkj, hfuel, hj, hall⟩ := ih h
      refine ⟨j, hnext, hr, by omega, by omega, hj, fun i hi hij => ?_⟩
      obtain rfl | hlt := Nat.eq_or_lt_of_le hi
      · exact hk
      · exact hall i hlt hij

/-- Among the calls up to one that ends the loop there is a first such call. -/
theorem exists_first {j : ℕ} (hkj : k ≤ j) (hj : again (calls j) = false) :
    ∃ i, k ≤ i ∧ i ≤ j ∧ again (calls i) = false ∧
      ∀ l, k ≤ l → l < i → again (calls l) = true := by
  have hex : ∃ i, k ≤ i ∧ again (calls i) = false := ⟨j, hkj, hj⟩
  obtain ⟨i, ⟨hki, hi⟩, hmin⟩ := Nat.findX hex
  have hij : i ≤ j := Nat.not_lt.mp fun hlt => hmin j hlt ⟨hkj, hj⟩
  refine ⟨i, hki, hij, hi, fun l hl hli => ?_⟩
  have hnot : ¬ (k ≤ l ∧ again (calls l) = false) := hmin l hli
  simpa [hl] using hnot

end AioServer.Lib
