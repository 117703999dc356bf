import AioServer.Lib.Printf

/-!
# The Linux server: diagnostic output

`base/debug_helpers_linux.c`: `output_formatted_string_to_debugger` formats the place and the
message one after the other into the same buffer, and writes each to the standard error output
with the result of `snprintf` as the number of bytes.

* `outputFormattedStringToDebugger`: the three calls of `write`;
* `Sends`: a call sends what was formatted, as far as it fits;
* `sends_iff`: so it does just when nothing is cut and nothing fails;
* `diagnostics_iff`: for the place and the message of a call.
-/

namespace AioServer.Linux

open Lib

/-! ## The code -/

/-- The buffer and the number of bytes in a call of `write`. -/
structure Write where
  buff : List UInt8
  count : ℕ
deriving DecidableEq, Repr

/-- What the call sends from the buffer. -/
def Write.bytes (w : Write) : List UInt8 := w.buff.take w.count

/-- An `int` as a `size_t` of 32 bits. -/
def toSizeT (n : ℤ) : ℕ := (n % 2 ^ 32).toNat

/-- `_countof(buff_msg)`. -/
def countofBuffMsg : ℕ := 1024

/-- The text of `"\nFile %s, line %d"`. -/
def placeText (file : List UInt8) (line : ℤ) : List UInt8 :=
  cstr "\nFile " ++ file ++ cstr ", line " ++ formatInt line

/-- `"\nFile %s, line %d"`, where the conversion may fail. -/
def formatPlace (file : List UInt8) (line : ℤ) (failure : Option Failure) : Formatted :=
  match failure with
  | none => .text (placeText file line)
  | some e => .error e

/-- `output_formatted_string_to_debugger`; `message` is what `fstring` and the arguments behind
it come to, and `stack` is in `buff_msg` before. -/
def outputFormattedStringToDebugger (file : List UInt8) (line : ℤ) (failure : Option Failure)
    (message : Formatted) (stack : List UInt8) : List Write :=
  let (byteCount, buffMsg) := snprintf countofBuffMsg (formatPlace file line failure) stack
  let first : Write := ⟨buffMsg, toSizeT byteCount⟩
  let (byteCount, buffMsg) := snprintf countofBuffMsg message buffMsg
  [first, ⟨buffMsg, toSizeT byteCount⟩, ⟨cstr "\n", 1⟩]

/-! ## What a call of write sends -/

/-- The call sends a front of what was formatted, at most 1023 bytes, and all of it if it fits. -/
structure Sends (f : Formatted) (w : Write) : Prop where
  count_le : w.count ≤ countofBuffMsg - 1
  front : w.bytes <+: f.bytes
  whole : f.bytes.length ≤ countofBuffMsg - 1 → w.bytes = f.bytes

/-- Both calls of `write` that follow a call of `snprintf`. -/
def Diagnostics (place message : Formatted) (writes : List Write) : Prop :=
  ∃ first second rest, writes = first :: second :: rest ∧ Sends place first ∧ Sends message second

/-- The text that fits into the buffer. -/
def Fits (f : Formatted) : Prop := ∃ s, f = .text s ∧ s.length ≤ countofBuffMsg - 1

section sends

variable {f message : Formatted} {buff file stack : List UInt8} {line : ℤ}
  {failure : Option Failure}

/-- What follows a call of `snprintf`. -/
def written (f : Formatted) (buff : List UInt8) : Write :=
  ⟨(snprintf countofBuffMsg f buff).2, toSizeT (snprintf countofBuffMsg f buff).1⟩

theorem toSizeT_of_le {n : ℕ} (h : n < 2 ^ 31) : toSizeT n = n := by
  unfold toSizeT
  omega

/-- A negative result is a huge number of bytes. -/
theorem le_toSizeT {n : ℤ} (h : -2 ^ 31 ≤ n ∧ n < 0) : 2 ^ 31 ≤ toSizeT n := by
  unfold toSizeT
  omega

/-- A text that does not fit is counted in full. -/
theorem le_count_of_long {s : List UInt8} (h : countofBuffMsg - 1 < s.length) :
    countofBuffMsg - 1 < (written (.text s) buff).count := by
  have hlong : 1023 < s.length := h
  show 1023 < toSizeT (if s.length < 2 ^ 31 then (s.length : ℤ) else -1)
  split_ifs with hint
  · rw [toSizeT_of_le hint]
    exact hlong
  · have hhuge := @le_toSizeT (-1) (by decide)
    omega

/-- What a call of `snprintf` has formatted is sent if and only if it is a text that fits. -/
theorem sends_iff : Sends f (written f buff) ↔ Fits f := by
  constructor
  · intro h
    have hcount : (written f buff).count ≤ 1023 := h.count_le
    cases f with
    | error e =>
      have hhuge : 2 ^ 31 ≤ (written (.error e) buff).count := le_toSizeT e.negative
      omega
    | text s =>
      refine ⟨s, rfl, ?_⟩
      by_contra hlong
      have hmore := @le_count_of_long buff s (Nat.not_le.mp hlong)
      exact absurd h.count_le (Nat.not_le.mpr hmore)
  · rintro ⟨s, rfl, hs⟩
    have hint : s.length < 2 ^ 31 := Nat.lt_of_le_of_lt hs (by decide)
    obtain ⟨hret, htake⟩ := @snprintf_fits countofBuffMsg s buff hs hint
    have hcount : (written (.text s) buff).count = s.length := by
      unfold written
      rw [hret, toSizeT_of_le hint]
    have hbytes : (written (.text s) buff).bytes = s := by
      unfold Write.bytes
      rw [hcount]
      exact htake
    refine ⟨hcount.le.trans hs, ?_, fun _ => hbytes⟩
    rw [hbytes]
    exact List.prefix_refl s

theorem writes_eq : outputFormattedStringToDebugger file line failure message stack =
    [written (formatPlace file line failure) stack,
      written message (snprintf countofBuffMsg (formatPlace file line failure) stack).2,
      ⟨cstr "\n", 1⟩] := rfl

/-- The diagnostic output is right if and only if neither call fails, and the place and the
message have at most 1023 bytes each. -/
theorem diagnostics_iff :
    Diagnostics (formatPlace file line failure) message
        (outputFormattedStringToDebugger file line failure message stack) ↔
      failure = none ∧ (placeText file line).length ≤ 1023 ∧
        ∃ s, message = .text s ∧ s.length ≤ 1023 := by
  have hplace : Fits (formatPlace file line failure) ↔
      failure = none ∧ (placeText file line).length ≤ 1023 := by
    cases failure with
    | none => simp [formatPlace, Fits, countofBuffMsg]
    | some e => simp [formatPlace, Fits]
  rw [← and_assoc, ← hplace, writes_eq]
  constructor
  · rintro ⟨first, second, rest, hwrites, hfirst, hsecond⟩
    obtain ⟨rfl, rfl, -⟩ : _ = first ∧ _ = second ∧ _ = rest := by simpa using hwrites
    exact ⟨sends_iff.mp hfirst, sends_iff.mp hsecond⟩
  · rintro ⟨hfirst, hsecond⟩
    exact ⟨_, _, _, rfl, sends_iff.mpr hfirst, sends_iff.mpr hsecond⟩

end sends

/-- A message of 1024 bytes: `snprintf` has written 1023 of them and a NUL, which is sent too. -/
theorem message_overrun : ¬ ∀ (file : List UInt8) (line : ℤ) (failure : Option Failure)
    (message : Formatted) (stack : List UInt8), Diagnostics (formatPlace file line failure) message
      (outputFormattedStringToDebugger file line failure message stack) := by
  intro h
  obtain ⟨first, second, rest, hwrites, -, hsecond⟩ :=
    h (cstr "misc.c") 1 none (.text (List.replicate 1024 120)) []
  obtain ⟨-, rfl, -⟩ : _ = first ∧ _ = second ∧ _ = rest := by
    simpa only [writes_eq, List.cons.injEq] using hwrites
  obtain ⟨s, hs, hle⟩ := sends_iff.mp hsecond
  obtain rfl := Formatted.text.inj hs
  rw [List.length_replicate] at hle
  exact absurd hle (by decide)

end AioServer.Linux
