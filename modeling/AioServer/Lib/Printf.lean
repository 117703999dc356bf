import AioServer.Lib.Header

/-!
# Formatted output

`snprintf` and `vsnprintf` write the text that a format and its arguments come to, cut to the
buffer, and a NUL. They return the length of the whole text, or a negative number.

* `formatInt`: the conversion `%d`;
* `Formatted`: what a format and its arguments come to;
* `snprintf`: the functions of the C library; `take_snprintf` says what is in the buffer and
  `snprintf_ret` what is returned.
-/

namespace AioServer.Lib

/-! ## Integers -/

/-- The conversion `%d`. -/
def formatInt (n : ℤ) : List UInt8 := if n < 0 then 45 :: decimal n.natAbs else decimal n.natAbs

theorem decimal_inj {m n : ℕ} : decimal m = decimal n ↔ m = n := by
  constructor
  · intro h
    have hread := congrArg readDecimal h
    rw [readDecimal_decimal, readDecimal_decimal] at hread
    exact Option.some.inj hread
  · rintro rfl
    rfl

/-- No number begins with the sign. -/
theorem sign_ne_decimal {m n : ℕ} : 45 :: decimal m ≠ decimal n := by
  intro h
  have hmem : 45 ∈ decimal n := h ▸ List.mem_cons_self
  exact ne_of_isDigit (isDigit_decimal 45 hmem) (by decide) rfl

/-- Different integers are printed differently. -/
theorem formatInt_inj {m n : ℤ} : formatInt m = formatInt n ↔ m = n := by
  refine ⟨fun h => ?_, fun h => h ▸ rfl⟩
  unfold formatInt at h
  split_ifs at h with hm hn hn
  · have habs := decimal_inj.mp (List.cons.inj h).2
    omega
  · exact absurd h sign_ne_decimal
  · exact absurd h.symm sign_ne_decimal
  · have habs := decimal_inj.mp h
    omega

/-- Ten digits and a sign. -/
theorem length_formatInt_le {n : ℤ} (h : n.natAbs ≤ 2 ^ 31) : (formatInt n).length ≤ 11 := by
  have hdigits : (decimal n.natAbs).length ≤ 10 :=
    length_decimal_le (by decide) (Nat.lt_of_le_of_lt h (by decide))
  unfold formatInt
  split_ifs
  · rw [List.length_cons]
    omega
  · omega

/-! ## snprintf -/

/-- An error: the result of the function, and what it leaves in the buffer. -/
structure Failure where
  ret : ℤ
  left : List UInt8
  negative : -2 ^ 31 ≤ ret ∧ ret < 0

/-- What a format and its arguments come to. -/
inductive Formatted
  | text (s : List UInt8)
  | error (e : Failure)

/-- The text. -/
def Formatted.bytes : Formatted → List UInt8
  | .text s => s
  | .error _ => []

/-- `snprintf` and `vsnprintf`: the result, and the buffer. The length of a text that is too
long for an `int` is an error as well. -/
def snprintf (size : ℕ) (f : Formatted) (buff : List UInt8) : ℤ × List UInt8 :=
  match f with
  | .text s =>
    let written := s.take (size - 1) ++ [0]
    (if s.length < 2 ^ 31 then s.length else -1, written ++ buff.drop written.length)
  | .error e => (e.ret, e.left)

section snprintf

variable {size count : ℕ} {s buff : List UInt8}

/-- In front of the NUL there is the front of the text. -/
theorem take_snprintf (hsize : count ≤ size - 1) (hcount : count ≤ s.length) :
    (snprintf size (.text s) buff).2.take count = s.take count := by
  have hlen : count ≤ (s.take (size - 1)).length := by
    rw [List.length_take]
    omega
  unfold snprintf
  simp only
  rw [List.append_assoc, List.take_append_of_le_length hlen, List.take_take, Nat.min_eq_left hsize]

theorem snprintf_ret (h : s.length < 2 ^ 31) : (snprintf size (.text s) buff).1 = s.length :=
  if_pos h

/-- A text that fits is in the buffer, and its length is returned. -/
theorem snprintf_fits (hsize : s.length ≤ size - 1) (hint : s.length < 2 ^ 31) :
    (snprintf size (.text s) buff).1 = s.length ∧
      (snprintf size (.text s) buff).2.take s.length = s := by
  refine ⟨snprintf_ret hint, ?_⟩
  rw [take_snprintf hsize (Nat.le_refl _), List.take_length]

end snprintf

end AioServer.Lib
