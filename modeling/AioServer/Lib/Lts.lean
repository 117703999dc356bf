import Mathlib.Algebra.BigOperators.Group.List.Basic
import Mathlib.Algebra.Order.Ring.Int
import Mathlib.Data.List.Basic

/-!
# Runs of an executable transition system

A system is a partial function `step : σ → α → Option σ`: the label `a : α` fixes which
party moves and everything its environment decides, `none` means that the label cannot
happen there. A run keeps the pairs (state before, label) it went through, so that a fact
about the past of a state is a fact about its trace.

* `Run.invariant`, `Run.invariant_of`: the induction rules, the second for the runs all
  of whose steps meet a condition;
* `Run.since`: a property that one kind of step establishes and every step keeps;
* `Run.ledger`: a quantity of the state against what the steps of the trace add to it and
  take from it;
* `exec`: a run computed from its labels.
-/

namespace AioServer.Lib

variable {σ α : Type*}

/-- `Run step s₀ tr s`: the system gets from `s₀` to `s` through the steps of `tr`. -/
inductive Run (step : σ → α → Option σ) (s₀ : σ) : List (σ × α) → σ → Prop
  | nil : Run step s₀ [] s₀
  | snoc {tr s a s'} : Run step s₀ tr s → step s a = some s' → Run step s₀ (tr ++ [(s, a)]) s'

namespace Run

variable {step : σ → α → Option σ} {s₀ s : σ} {tr : List (σ × α)}

/-! ## Invariants -/

/-- What holds at the start and is kept by every step that meets `P` holds at the end of a
run all of whose steps meet `P`. -/
theorem invariant_of {I : σ → Prop} {P : σ × α → Prop} (hrun : Run step s₀ tr s)
    (hP : ∀ x ∈ tr, P x) (h0 : I s₀)
    (hstep : ∀ s a s', I s → P (s, a) → step s a = some s' → I s') : I s := by
  induction hrun with
  | nil => exact h0
  | @snoc tr s a s' _ hs ih =>
    have hpre : I s := ih fun x hx => hP x (List.mem_append_left _ hx)
    exact hstep s a s' hpre (hP (s, a) (by simp)) hs

/-- What holds at the start and is kept by every step holds at the end of every run. -/
theorem invariant {I : σ → Prop} (hrun : Run step s₀ tr s) (h0 : I s₀)
    (hstep : ∀ s a s', I s → step s a = some s' → I s') : I s :=
  hrun.invariant_of (P := fun _ => True) (fun _ _ => trivial) h0
    fun s a s' hI _ hs => hstep s a s' hI hs

/-- Every step of the trace starts in a state that a part of the run reaches. -/
theorem prefix_of_mem (hrun : Run step s₀ tr s) {x : σ × α} (hx : x ∈ tr) :
    ∃ tr' s', tr' <+: tr ∧ Run step s₀ tr' x.1 ∧ step x.1 x.2 = some s' := by
  induction hrun with
  | nil => simp at hx
  | @snoc tr s a s' hr hs ih =>
    rcases List.mem_append.mp hx with h | h
    · obtain ⟨tr', t, hpre, hrun', ht⟩ := ih h
      exact ⟨tr', t, hpre.trans (List.prefix_append _ _), hrun', ht⟩
    · obtain rfl : x = (s, a) := by simpa using h
      exact ⟨tr, s', List.prefix_append _ _, hr, hs⟩

/-- A property that the steps meeting `p` establish, and that every step keeps, holds after
any run with such a step. The steps may use an invariant `I` of the runs. -/
theorem since {I K : σ → Prop} {P p : σ × α → Prop} (hrun : Run step s₀ tr s)
    (hI : ∀ tr s, Run step s₀ tr s → I s) (hP : ∀ x ∈ tr, P x)
    (hset : ∀ s a s', I s → P (s, a) → p (s, a) → step s a = some s' → K s')
    (hkeep : ∀ s a s', I s → P (s, a) → K s → step s a = some s' → K s')
    (hp : ∃ x ∈ tr, p x) : K s := by
  induction hrun with
  | nil => simp at hp
  | @snoc tr s a s' hr hs ih =>
    have hPa : P (s, a) := hP (s, a) (by simp)
    by_cases ha : p (s, a)
    · exact hset s a s' (hI tr s hr) hPa ha hs
    · obtain ⟨x, hx, hpx⟩ := hp
      have hxtr : x ∈ tr := by
        rcases List.mem_append.mp hx with h | h
        · exact h
        · obtain rfl : x = (s, a) := by simpa using h
          exact absurd hpx ha
      have hK : K s := ih (fun y hy => hP y (List.mem_append_left _ hy)) ⟨x, hxtr, hpx⟩
      exact hkeep s a s' (hI tr s hr) hPa hK hs

/-! ## Quantities and their history -/

/-- A quantity that a step may raise by its gain and lower by its loss is, at the end of a
run, its initial value plus all gains minus all losses. The steps may use an invariant `I`
of the runs. -/
theorem ledger {I : σ → Prop} (m : σ → ℤ) (gain loss : σ × α → ℕ) (hrun : Run step s₀ tr s)
    (hI : ∀ tr s, Run step s₀ tr s → I s)
    (hstep : ∀ s a s', I s → step s a = some s' → m s' + loss (s, a) = m s + gain (s, a)) :
    m s + (tr.map loss).sum = m s₀ + (tr.map gain).sum := by
  induction hrun with
  | nil => simp
  | @snoc tr s a s' hr hs ih =>
    have hlast := hstep s a s' (hI tr s hr) hs
    simp only [List.map_append, List.sum_append, List.map_cons, List.map_nil, List.sum_cons,
      List.sum_nil, add_zero]
    omega

end Run

/-- The sum over a trace that counts one kind of step. -/
theorem sum_map_toNat {β : Type*} (p : β → Bool) (l : List β) :
    (l.map fun x => (p x).toNat).sum = l.countP p := by
  induction l with
  | nil => rfl
  | cons x l ih =>
    rw [List.map_cons, List.sum_cons, ih, List.countP_cons, add_comm]
    cases p x <;> rfl

/-! ## Computed runs -/

/-- The run with the given labels, with its trace; `none` if one of them cannot happen. -/
def exec (step : σ → α → Option σ) : σ → List α → Option (List (σ × α) × σ)
  | s, [] => some ([], s)
  | s, a :: as =>
    match step s a with
    | none => none
    | some s' => (exec step s' as).map fun r => ((s, a) :: r.1, r.2)

/-- A run may be extended at its front. -/
theorem Run.cons {step : σ → α → Option σ} {s s' t : σ} {a : α} {tr : List (σ × α)}
    (hs : step s a = some s') (hrun : Run step s' tr t) : Run step s ((s, a) :: tr) t := by
  induction hrun with
  | nil =>
    have h : Run step s ([] ++ [(s, a)]) s' := Run.snoc Run.nil hs
    exact h
  | @snoc tr u b u' _ hu ih =>
    have h : Run step s (((s, a) :: tr) ++ [(u, b)]) u' := Run.snoc ih hu
    exact h

/-- Two runs, one after the other. -/
theorem Run.append {step : σ → α → Option σ} {s t u : σ} {tr tr' : List (σ × α)}
    (h : Run step s tr t) (h' : Run step t tr' u) : Run step s (tr ++ tr') u := by
  induction h' with
  | nil => simpa using h
  | @snoc tr' v a v' _ hs ih =>
    rw [← List.append_assoc]
    exact ih.snoc hs

theorem run_of_exec {step : σ → α → Option σ} {s t : σ} {as : List α} {tr : List (σ × α)}
    (h : exec step s as = some (tr, t)) : Run step s tr t := by
  induction as generalizing s tr with
  | nil =>
    obtain ⟨rfl, rfl⟩ : [] = tr ∧ s = t := by simpa [exec] using h
    exact Run.nil
  | cons a as ih =>
    cases hs : step s a with
    | none => simp [exec, hs] at h
    | some s' =>
      simp only [exec, hs, Option.map_eq_some_iff] at h
      obtain ⟨r, hr, heq⟩ := h
      obtain ⟨rfl, rfl⟩ : (s, a) :: r.1 = tr ∧ r.2 = t := by simpa using heq
      exact Run.cons hs (ih hr)

end AioServer.Lib
