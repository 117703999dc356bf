import AioServer.Lib.Object
import Mathlib.Data.Nat.Notation

/-!
# Atomic operations

`base/atomic_gcc.h` and `base/atomic_msvc.h` implement the same functions on an `atomic32_t`,
the first with the instructions of the processor and the second with those of the Windows API.
On a 32-bit target the cell is a word, and sums are taken modulo 2^32.

* `Gcc.exec`, `Msvc.exec`: the two back ends;
* `contract`: what the comments of both headers say;
* `gcc_exec`, `cell_msvc`: the first keeps it, the second keeps it for the cell;
* `backendsAgree_iff`: `atomic32_increment` is the exception, where `InterlockedExchangeAdd`
  returns the old value.
-/

namespace AioServer.Atomic

open Lib

/-- `atomic32_t`, `LONG` and a register of a 32-bit target. -/
abbrev Atomic32 := BitVec 32

/-! ## The instructions -/

/-- `cmpxchg source, destination`: the accumulator, and the destination. -/
def cmpxchgl (accumulator source destination : Atomic32) : Atomic32 × Atomic32 :=
  if accumulator = destination then (accumulator, source) else (destination, destination)

/-- `xchg register, destination`: the register, and the destination. -/
def xchgl (register destination : Atomic32) : Atomic32 × Atomic32 := (destination, register)

/-- `xadd register, destination`: the register, and the destination. -/
def xaddl (register destination : Atomic32) : Atomic32 × Atomic32 :=
  (destination, register + destination)

/-! ## The Windows API -/

/-- `InterlockedCompareExchange`: what it returns, and the destination. -/
def interlockedCompareExchange (destination exchange comparand : Atomic32) : Atomic32 × Atomic32 :=
  (destination, if destination = comparand then exchange else destination)

/-- `InterlockedExchange`: what it returns, and the target. -/
def interlockedExchange (target value : Atomic32) : Atomic32 × Atomic32 := (target, value)

/-- `InterlockedExchangeAdd`: what it returns, and the addend. -/
def interlockedExchangeAdd (addend value : Atomic32) : Atomic32 × Atomic32 :=
  (addend, addend + value)

/-! ## The two headers

Each function is given the cell, and returns its own result and the cell. -/

/-- The calls of the functions. -/
inductive Call
  | load
  | store (val : Atomic32)
  | compareAndSwap (comparand newval : Atomic32)
  | swap (newval : Atomic32)
  | increment (newval : Atomic32)
deriving DecidableEq, Repr

/-- A function that returns something. -/
def returning (r : Atomic32 × Atomic32) : Option Atomic32 × Atomic32 := (r.1, r.2)

namespace Gcc

def atomic32Load (val : Atomic32) : Atomic32 × Atomic32 := (val, val)

def atomic32Store (_ptr val : Atomic32) : Atomic32 := val

def atomic32CompareAndSwap (ptr comparand newval : Atomic32) : Atomic32 × Atomic32 :=
  cmpxchgl comparand newval ptr

def atomic32Swap (ptr newval : Atomic32) : Atomic32 × Atomic32 := xchgl newval ptr

def atomic32Increment (ptr newval : Atomic32) : Atomic32 × Atomic32 :=
  let (oldVal, ptr) := xaddl newval ptr
  (oldVal + newval, ptr)

/-- A call; `atomic32_store` returns nothing. -/
def exec : Call → Atomic32 → Option Atomic32 × Atomic32
  | .load, ptr => returning (atomic32Load ptr)
  | .store val, ptr => (none, atomic32Store ptr val)
  | .compareAndSwap comparand newval, ptr =>
    returning (atomic32CompareAndSwap ptr comparand newval)
  | .swap newval, ptr => returning (atomic32Swap ptr newval)
  | .increment newval, ptr => returning (atomic32Increment ptr newval)

end Gcc

namespace Msvc

def atomic32Load (ptr : Atomic32) : Atomic32 × Atomic32 := (ptr, ptr)

def atomic32Store (_ptr val : Atomic32) : Atomic32 := val

def atomic32CompareAndSwap (ptr oldval newval : Atomic32) : Atomic32 × Atomic32 :=
  interlockedCompareExchange ptr newval oldval

def atomic32Swap (ptr newval : Atomic32) : Atomic32 × Atomic32 := interlockedExchange ptr newval

def atomic32Increment (ptr newval : Atomic32) : Atomic32 × Atomic32 :=
  interlockedExchangeAdd ptr newval

/-- A call; `atomic32_store` returns nothing. -/
def exec : Call → Atomic32 → Option Atomic32 × Atomic32
  | .load, ptr => returning (atomic32Load ptr)
  | .store val, ptr => (none, atomic32Store ptr val)
  | .compareAndSwap oldval newval, ptr =>
    returning (atomic32CompareAndSwap ptr oldval newval)
  | .swap newval, ptr => returning (atomic32Swap ptr newval)
  | .increment newval, ptr => returning (atomic32Increment ptr newval)

end Msvc

/-! ## The contract -/

/-- What a call returns and stores by the comments in front of the functions. -/
def contract : Call → Atomic32 → Option Atomic32 × Atomic32
  | .load, cell => (cell, cell)
  | .store val, _ => (none, val)
  | .compareAndSwap oldval newval, cell => (cell, if cell = oldval then newval else cell)
  | .swap newval, cell => (cell, newval)
  | .increment newval, cell => (some (cell + newval), cell + newval)

/-- Both back ends return what the contract says, and leave the same cell. -/
structure BackendsAgree (cell : Atomic32) (calls : List Call) : Prop where
  same : runCalls Gcc.exec calls cell = runCalls Msvc.exec calls cell
  gcc : runCalls Gcc.exec calls cell = runCalls contract calls cell
  msvc : runCalls Msvc.exec calls cell = runCalls contract calls cell

variable {cell n : Atomic32} {c : Call} {calls : List Call}

/-- The back end for GCC keeps the contract. -/
theorem gcc_exec (c : Call) (cell : Atomic32) : Gcc.exec c cell = contract c cell := by
  cases c with
  | load => rfl
  | store val => rfl
  | compareAndSwap comparand newval =>
    simp only [Gcc.exec, returning, Gcc.atomic32CompareAndSwap, cmpxchgl, contract]
    by_cases h : comparand = cell
    · subst h
      simp
    · simp [h, Ne.symm h]
  | swap newval => rfl
  | increment newval =>
    simp only [Gcc.exec, returning, Gcc.atomic32Increment, xaddl, contract]
    rw [BitVec.add_comm newval cell]

/-- The one for MSVC leaves the cell of the contract. -/
theorem cell_msvc (c : Call) (cell : Atomic32) :
    (Msvc.exec c cell).2 = (contract c cell).2 := by
  cases c <;> rfl

/-- The calls for which the one for MSVC returns what the contract says. -/
def Call.AddsNothing (c : Call) : Prop := ∀ n, c = .increment n → n = 0

theorem eq_add_iff (a b : Atomic32) : a = a + b ↔ b = 0 := by
  constructor
  · intro h
    bv_omega
  · rintro rfl
    exact (BitVec.add_zero a).symm

/-- `InterlockedExchangeAdd` returns the old value, which is the new one only when 0 is added. -/
theorem returns_msvc (c : Call) (cell : Atomic32) :
    (Msvc.exec c cell).1 = (contract c cell).1 ↔ c.AddsNothing := by
  cases c with
  | increment newval =>
    simp only [Msvc.exec, returning, Msvc.atomic32Increment, interlockedExchangeAdd, contract,
      Call.AddsNothing, Option.some.injEq, Call.increment.injEq, forall_eq']
    exact eq_add_iff cell newval
  | load => exact iff_of_true rfl fun _ h => nomatch h
  | store val => exact iff_of_true rfl fun _ h => nomatch h
  | compareAndSwap oldval newval => exact iff_of_true rfl fun _ h => nomatch h
  | swap newval => exact iff_of_true rfl fun _ h => nomatch h

theorem runCalls_gcc : runCalls Gcc.exec calls cell = runCalls contract calls cell := by
  have hexec : Gcc.exec = contract := funext fun c => funext fun cell => gcc_exec c cell
  rw [hexec]

/-- The cell is always the same. -/
theorem cells_agree : (runCalls Gcc.exec calls cell).2 = (runCalls Msvc.exec calls cell).2 := by
  rw [runCalls_gcc]
  exact (state_runCalls cell_msvc).symm

/-- The back ends agree if and only if every call of `atomic32_increment` adds 0. -/
theorem backendsAgree_iff :
    BackendsAgree cell calls ↔ ∀ n, .increment n ∈ calls → n = 0 := by
  have hmsvc := @runCalls_eq_iff _ _ _ _ _ calls cell _ cell_msvc returns_msvc
  have hadds : (∀ c ∈ calls, c.AddsNothing) ↔ ∀ n, .increment n ∈ calls → n = 0 := by
    constructor
    · intro h n hn
      exact h _ hn n rfl
    · rintro h c hc n rfl
      exact h n hc
  rw [← hadds, ← hmsvc]
  constructor
  · exact fun h => h.msvc
  · intro h
    exact ⟨runCalls_gcc.trans h.symm, runCalls_gcc, h⟩

/-- 1 is added to 0: one back end returns 1, the other 0. -/
theorem increment_disagrees : ¬ ∀ (cell : Atomic32) (calls : List Call),
    BackendsAgree cell calls := by
  intro h
  have hreturn := congrArg Prod.fst (h 0 [.increment 1]).same
  exact absurd hreturn (by decide)

end AioServer.Atomic
