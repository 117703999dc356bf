import AioServer.Lib.Printf
import Mathlib.Data.List.TakeWhile

/-!
# Numbers in strings

`atoi` skips white space, takes a sign and then digits, and ignores what is behind them. A
number that does not fit into an `int` gives the nearest one.

* `atoi`;
* `atoi_of_readDecimal`: a string of digits only;
* `atoi_formatInt`: what `%d` prints is read back;
* `atoi_bounds`: the result is an `int`.
-/

namespace AioServer.Lib

/-- `isspace` in the C locale. -/
def isspace (b : UInt8) : Bool := b = 32 || (9 ≤ b && b ≤ 13)

/-- `atoi`. -/
def atoi (s : List UInt8) : ℤ :=
  let s := s.dropWhile isspace
  let sign : ℤ := if s.head? = some 45 then -1 else 1
  let digits := (if s.head? = some 45 ∨ s.head? = some 43 then s.tail else s).takeWhile isDigit
  let n : ℤ := Nat.ofDigitChars 10 (digits.map Char.ofUInt8) 0
  max (-2 ^ 31) (min (sign * n) (2 ^ 31 - 1))

theorem atoi_bounds (s : List UInt8) : -2 ^ 31 ≤ atoi s ∧ atoi s < 2 ^ 31 := by
  unfold atoi
  simp only
  omega

theorem isspace_of_isDigit {b : UInt8} (h : isDigit b = true) : isspace b = false := by
  have hval : 48 ≤ b.toNat := (val_of_isDigit h).1
  have hne : b ≠ 32 := ne_of_isDigit h (by decide)
  have hgt : ¬ b ≤ 13 := by
    rw [UInt8.le_iff_toNat_le]
    exact Nat.not_le.mpr (Nat.lt_of_lt_of_le (by decide) hval)
  simp [isspace, hne, hgt]

/-- A string of digits stands for its number. -/
theorem atoi_of_readDecimal {s : List UInt8} {n : ℕ} (h : readDecimal s = some n) :
    atoi s = min n (2 ^ 31 - 1) := by
  unfold readDecimal at h
  split_ifs at h with hs
  obtain ⟨hne, hall⟩ := hs
  obtain ⟨b, rest, rfl⟩ := List.exists_cons_of_ne_nil hne
  have hdigits : ∀ x ∈ b :: rest, isDigit x = true := List.all_eq_true.mp hall
  have hb : isDigit b = true := hdigits b List.mem_cons_self
  have hspace : (b :: rest).dropWhile isspace = b :: rest :=
    List.dropWhile_cons_of_neg (by rw [isspace_of_isDigit hb]; decide)
  have hsign : ¬ b = 45 ∧ ¬ b = 43 := ⟨ne_of_isDigit hb (by decide), ne_of_isDigit hb (by decide)⟩
  have htake : (b :: rest).takeWhile isDigit = b :: rest := List.takeWhile_eq_self_iff.mpr hdigits
  unfold atoi
  simp only [hspace, List.head?_cons, Option.some.injEq, hsign, or_self, if_false, one_mul, htake]
  rw [Option.some.inj h]
  omega

/-- What `%d` prints for an `int` is read back. -/
theorem atoi_formatInt {n : ℤ} (hlow : -2 ^ 31 ≤ n) (hhigh : n < 2 ^ 31) :
    atoi (formatInt n) = n := by
  unfold formatInt
  split_ifs with hneg
  · have hall : ∀ x ∈ decimal n.natAbs, isDigit x = true := isDigit_decimal
    have htake : (decimal n.natAbs).takeWhile isDigit = decimal n.natAbs :=
      List.takeWhile_eq_self_iff.mpr hall
    have hspace : (45 :: decimal n.natAbs).dropWhile isspace = 45 :: decimal n.natAbs :=
      List.dropWhile_cons_of_neg (by decide)
    unfold atoi
    simp only [hspace, List.head?_cons, if_true, true_or, List.tail_cons, htake]
    rw [map_ofUInt8_decimal, Nat.ofDigitChars_ten_toDigits]
    omega
  · rw [atoi_of_readDecimal (readDecimal_decimal n.natAbs)]
    omega

end AioServer.Lib
