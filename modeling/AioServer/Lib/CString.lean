import Mathlib.Data.Int.Notation
import Mathlib.Data.Nat.Notation

/-!
# C strings in a buffer

`strtok_s` and `_stricmp` of the C runtime, on the bytes from a pointer to the end of the
memory that it may read. A string ends at its NUL, or where the memory ends.

* `strtokS_nul`, `strtokS_delim`, `strtokS_token`: one byte of `strtok_s`;
* `stricmp_eq_zero`: what `_stricmp` compares.
-/

namespace AioServer.Lib

/-- The bytes of a string literal, without the NUL. -/
def cstr (s : String) : List UInt8 := s.toList.map Char.toUInt8

/-! ## strtok_s -/

/-- The byte belongs to a token. -/
def isToken (delims : List UInt8) (b : UInt8) : Bool := b ≠ 0 && !delims.contains b

/-- `strtok_s` overwrites the delimiter after a token with NUL and continues behind it; it
stays in front of a NUL. -/
def skipTerminator : List UInt8 → List UInt8
  | [] => []
  | b :: str => if b = 0 then b :: str else str

/-- `strtok_s`: the token, and the new context. -/
def strtokS (delims : List UInt8) : List UInt8 → Option (List UInt8) × List UInt8
  | [] => (none, [])
  | b :: str =>
    if b = 0 then (none, b :: str)
    else if delims.contains b then strtokS delims str
    else
      (some (b :: str.takeWhile (isToken delims)),
        skipTerminator (str.dropWhile (isToken delims)))

section strtok

variable {delims str : List UInt8} {b : UInt8}

@[simp] theorem strtokS_nul : strtokS delims (0 :: str) = (none, 0 :: str) := by simp [strtokS]

theorem strtokS_delim (h0 : b ≠ 0) (h : b ∈ delims) :
    strtokS delims (b :: str) = strtokS delims str := by
  rw [strtokS, if_neg h0, if_pos (by simpa using h)]

theorem strtokS_token (h0 : b ≠ 0) (h : b ∉ delims) :
    strtokS delims (b :: str) = (some (b :: str.takeWhile (isToken delims)),
      skipTerminator (str.dropWhile (isToken delims))) := by
  rw [strtokS, if_neg h0, if_neg (by simpa using h)]

theorem isToken_iff : isToken delims b = true ↔ b ≠ 0 ∧ b ∉ delims := by simp [isToken]

end strtok

/-! ## _stricmp -/

/-- `tolower` in the C locale. -/
def tolower (b : UInt8) : UInt8 := if 65 ≤ b ∧ b ≤ 90 then b + 32 else b

/-- `_stricmp`. -/
def stricmp : List UInt8 → List UInt8 → ℤ
  | [], [] => 0
  | [], _ :: _ => -1
  | _ :: _, [] => 1
  | a :: s, b :: t =>
    if tolower a = tolower b then stricmp s t
    else ((tolower a).toNat : ℤ) - (tolower b).toNat

theorem stricmp_eq_zero {s t : List UInt8} : stricmp s t = 0 ↔ s.map tolower = t.map tolower := by
  induction s generalizing t with
  | nil => cases t <;> simp [stricmp]
  | cons a s ih =>
    cases t with
    | nil => simp [stricmp]
    | cons b t =>
      by_cases hab : tolower a = tolower b
      · simp [stricmp, hab, ih]
      · have hne : (tolower a).toNat ≠ (tolower b).toNat := fun h => hab (UInt8.toNat_inj.mp h)
        have hlist : (a :: s).map tolower ≠ (b :: t).map tolower := by simp [hab]
        rw [stricmp, if_neg hab]
        exact iff_of_false (by omega) hlist

end AioServer.Lib
