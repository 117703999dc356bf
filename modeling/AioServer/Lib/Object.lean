import Mathlib.Data.List.Basic

/-!
# Objects that are called

An object is a state that only its calls read and change: `exec c s` is what the call `c`
returns in the state `s`, and the state after it.

* `runCalls`: calls one after the other;
* `state_runCalls`: two implementations of which each call leaves the same state;
* `runCalls_eq_iff`: such implementations return the same just when each call does.
-/

namespace AioServer.Lib

variable {κ σ ρ : Type*} {exec exec' : κ → σ → ρ × σ} {calls : List κ} {s : σ}

/-- Calls one after the other: what they return, and the state after them. -/
def runCalls (exec : κ → σ → ρ × σ) : List κ → σ → List ρ × σ
  | [], s => ([], s)
  | c :: calls, s =>
    let r := exec c s
    let rest := runCalls exec calls r.2
    (r.1 :: rest.1, rest.2)

theorem runCalls_cons (c : κ) : runCalls exec (c :: calls) s =
    ((exec c s).1 :: (runCalls exec calls (exec c s).2).1, (runCalls exec calls (exec c s).2).2) :=
  rfl

/-- One more call. -/
theorem runCalls_snoc (calls : List κ) (c : κ) (s : σ) : runCalls exec (calls ++ [c]) s =
    ((runCalls exec calls s).1 ++ [(exec c (runCalls exec calls s).2).1],
      (exec c (runCalls exec calls s).2).2) := by
  induction calls generalizing s with
  | nil => rfl
  | cons d calls ih =>
    rw [List.cons_append, runCalls_cons, ih, runCalls_cons]
    rfl

/-- The same state after each call is the same state after all of them. -/
theorem state_runCalls (hstate : ∀ c s, (exec c s).2 = (exec' c s).2) :
    (runCalls exec calls s).2 = (runCalls exec' calls s).2 := by
  induction calls generalizing s with
  | nil => rfl
  | cons c calls ih =>
    rw [runCalls_cons, runCalls_cons, hstate]
    exact ih

/-- When each call leaves the same state, and returns the same just when `P` holds of it, then
a sequence of calls does the same just when `P` holds of all of them. -/
theorem runCalls_eq_iff {P : κ → Prop} (hstate : ∀ c s, (exec c s).2 = (exec' c s).2)
    (hreturn : ∀ c s, (exec c s).1 = (exec' c s).1 ↔ P c) :
    runCalls exec calls s = runCalls exec' calls s ↔ ∀ c ∈ calls, P c := by
  induction calls generalizing s with
  | nil => simp [runCalls]
  | cons c calls ih =>
    rw [List.forall_mem_cons, ← hreturn c s, ← ih (s := (exec' c s).2), runCalls_cons,
      runCalls_cons, hstate, Prod.mk.injEq, List.cons.injEq, and_assoc]
    exact and_congr_right fun _ => Prod.ext_iff.symm

end AioServer.Lib
