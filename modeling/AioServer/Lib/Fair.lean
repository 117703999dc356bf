import AioServer.Lib.Lts
import Mathlib.Data.Prod.Lex
import Mathlib.Order.WellFounded

/-!
# Endless executions and fairness

A run is finite; that something happens in the end is a property of an execution, which
goes on for ever. At a time without a label nothing happens, so an execution may come to a
rest.

* `Execution.run`: every time of an execution ends a run;
* `Execution.Fair`: a party that is ready from some time on moves again. Parties are given
  by the states in which they are ready and by the labels with which they move;
* `eventually_of_helpful`: a goal is reached if there is always a party that is ready and brings
  a rank down with its next move, and the others never raise it. `Fair.eventually_of_rank` and
  `Fair.eventually_until` are the case of one party;
* `Execution.eventually_of_drops`: a goal is reached if a rank comes down again and again;
* `exists_execution`: a computed run, followed by rest.
-/

namespace AioServer.Lib

variable {σ α : Type*}

/-- An endless execution from `s₀`. -/
structure Execution (step : σ → α → Option σ) (s₀ : σ) where
  state : ℕ → σ
  label : ℕ → Option α
  start : state 0 = s₀
  rest : ∀ k, label k = none → state (k + 1) = state k
  next : ∀ k a, label k = some a → step (state k) a = some (state (k + 1))

namespace Execution

variable {step : σ → α → Option σ} {s₀ : σ} (e : Execution step s₀)

/-! ## Runs and stable properties -/

/-- The steps before time `k`. -/
def trace : ℕ → List (σ × α)
  | 0 => []
  | k + 1 => trace k ++ ((e.label k).map fun a => (e.state k, a)).toList

theorem run (k : ℕ) : Run step s₀ (e.trace k) (e.state k) := by
  induction k with
  | zero =>
    rw [e.start]
    exact Run.nil
  | succ k ih =>
    rw [trace]
    cases hl : e.label k with
    | none => simpa [e.rest k hl] using ih
    | some a => exact ih.snoc (e.next k a hl)

theorem mem_trace {k : ℕ} {x : σ × α} :
    x ∈ e.trace k ↔ ∃ j < k, e.state j = x.1 ∧ e.label j = some x.2 := by
  induction k with
  | zero => simp [trace]
  | succ k ih =>
    rw [trace, List.mem_append, ih]
    constructor
    · rintro (⟨j, hj, hx⟩ | hx)
      · exact ⟨j, Nat.lt_succ_of_lt hj, hx⟩
      · obtain ⟨a, ha, rfl⟩ : ∃ a, e.label k = some a ∧ (e.state k, a) = x := by simpa using hx
        exact ⟨k, Nat.lt_succ_self k, rfl, ha⟩
    · rintro ⟨j, hj, hs, hl⟩
      rcases Nat.lt_succ_iff_lt_or_eq.mp hj with hj | rfl
      · exact Or.inl ⟨j, hj, hs, hl⟩
      · exact Or.inr (by simp [hl, hs])

/-- What every step keeps from time `k` on stays true. -/
theorem stable {K : σ → Prop} {k : ℕ} (h0 : K (e.state k))
    (hkeep : ∀ j a, k ≤ j → e.label j = some a → K (e.state j) → K (e.state (j + 1))) {j : ℕ}
    (hj : k ≤ j) : K (e.state j) := by
  induction j, hj using Nat.le_induction with
  | base => exact h0
  | succ j hj ih =>
    cases hl : e.label j with
    | none => rwa [e.rest j hl]
    | some a => exact hkeep j a hj hl ih

/-! ## Fairness -/

/-- A party that is ready for ever from some time on moves again. -/
def Fair (ready : σ → Prop) (moves : α → Prop) : Prop :=
  ∀ k, (∀ j, k ≤ j → ready (e.state j)) → ∃ j a, k ≤ j ∧ e.label j = some a ∧ moves a

variable {e}

/-- A party that is not ready in the end makes no demand. -/
theorem fair_of_rest {ready : σ → Prop} {moves : α → Prop} {k : ℕ}
    (h : ∀ j, k ≤ j → ¬ ready (e.state j)) : e.Fair ready moves := by
  intro i hi
  exact absurd (hi (max i k) (le_max_left i k)) (h _ (le_max_right i k))

/-- Where a fair party is ready, something can happen. -/
theorem Fair.exists_step {ready : σ → Prop} {moves : α → Prop} (hfair : e.Fair ready moves) {k : ℕ}
    (h : ready (e.state k)) : ∃ a s', step (e.state k) a = some s' := by
  by_contra hno
  have hstuck : ∀ j, k ≤ j → e.state j = e.state k := fun j hj =>
    e.stable (K := fun s => s = e.state k) rfl
      (fun i a _ hl hi => absurd ⟨a, _, hi ▸ e.next i a hl⟩ hno) hj
  obtain ⟨j, a, hj, hl, -⟩ := hfair k fun j hj => (hstuck j hj).symm ▸ h
  exact hno ⟨a, _, hstuck j hj ▸ e.next j a hl⟩

/-- As long as the goal is not reached one party can help: it is ready, and its next move brings
the rank down. Every other step brings the rank down as well, or leaves the rank and the party
as they are. So the goal is reached. -/
theorem eventually_of_helpful {ι β : Type*} [Preorder β] [WellFoundedLT β] {ready : ι → σ → Prop}
    {moves : ι → α → Prop} (hfair : ∀ i, e.Fair (ready i) (moves i)) (rank : σ → β)
    (helpful : σ → ι) (goal : σ → Prop) {k : ℕ}
    (hready : ∀ j, k ≤ j → ¬ goal (e.state j) → ready (helpful (e.state j)) (e.state j))
    (hstep : ∀ j a, k ≤ j → e.label j = some a → ¬ goal (e.state j) → ¬ goal (e.state (j + 1)) →
      rank (e.state (j + 1)) < rank (e.state j) ∨
        rank (e.state (j + 1)) = rank (e.state j) ∧
          helpful (e.state (j + 1)) = helpful (e.state j) ∧ ¬ moves (helpful (e.state j)) a) :
    ∃ j, k ≤ j ∧ goal (e.state j) := by
  by_contra hno
  have hgoal : ∀ j, k ≤ j → ¬ goal (e.state j) := fun j hj hg => hno ⟨j, hj, hg⟩
  -- by induction on the rank that is reached, there is no such time
  have hnone : ∀ b j, k ≤ j → rank (e.state j) ≠ b := by
    intro b
    induction b using WellFoundedLT.induction with
    | ind b ih =>
      intro j hj hb
      have hlevel : ∀ l, j ≤ l →
          rank (e.state l) = b ∧ helpful (e.state l) = helpful (e.state j) := by
        intro l hl
        refine e.stable (K := fun s => rank s = b ∧ helpful s = helpful (e.state j)) ⟨hb, rfl⟩
          (fun i a hji hla hi => ?_) hl
        have hki := hj.trans hji
        rcases hstep i a hki hla (hgoal i hki) (hgoal _ (Nat.le_succ_of_le hki)) with hlt | heq
        · exact absurd rfl (ih _ (hi.1 ▸ hlt) (i + 1) (Nat.le_succ_of_le hki))
        · exact ⟨heq.1.trans hi.1, heq.2.1.trans hi.2⟩
      obtain ⟨i, a, hji, hla, hm⟩ := hfair (helpful (e.state j)) j fun i hi =>
        (hlevel i hi).2 ▸ hready i (hj.trans hi) (hgoal i (hj.trans hi))
      have hki := hj.trans hji
      rcases hstep i a hki hla (hgoal i hki) (hgoal _ (Nat.le_succ_of_le hki)) with hlt | heq
      · rw [(hlevel i hji).1, (hlevel (i + 1) (Nat.le_succ_of_le hji)).1] at hlt
        exact lt_irrefl b hlt
      · exact heq.2.2 ((hlevel i hji).2.symm ▸ hm)
  exact hnone _ k le_rfl rfl

/-- The case of one party, which stays ready. -/
theorem Fair.eventually_of_rank {β : Type*} [Preorder β] [WellFoundedLT β] {ready : σ → Prop}
    {moves : α → Prop} (hfair : e.Fair ready moves) (rank : σ → β) (goal : σ → Prop) {k : ℕ}
    (hready : ∀ j, k ≤ j → ¬ goal (e.state j) → ready (e.state j))
    (hstep : ∀ j a, k ≤ j → e.label j = some a → ¬ goal (e.state j) → ¬ goal (e.state (j + 1)) →
      rank (e.state (j + 1)) < rank (e.state j) ∨
        rank (e.state (j + 1)) = rank (e.state j) ∧ ¬ moves a) :
    ∃ j, k ≤ j ∧ goal (e.state j) :=
  eventually_of_helpful (fun _ : Unit => hfair) rank (fun _ => ()) goal hready
    fun j a hj hl hg hg' => (hstep j a hj hl hg hg').imp_right fun h => ⟨h.1, rfl, h.2⟩

/-- The case of one party and a property that lasts until the goal is reached. -/
theorem Fair.eventually_until {β : Type*} [Preorder β] [WellFoundedLT β] {ready : σ → Prop}
    {moves : α → Prop} (hfair : e.Fair ready moves) (rank : σ → β) (K goal : σ → Prop) {k : ℕ}
    (h0 : K (e.state k)) (hready : ∀ j, K (e.state j) → ¬ goal (e.state j) → ready (e.state j))
    (hstep : ∀ j a, e.label j = some a → K (e.state j) → ¬ goal (e.state j) →
      ¬ goal (e.state (j + 1)) → K (e.state (j + 1)) ∧
        (rank (e.state (j + 1)) < rank (e.state j) ∨
          rank (e.state (j + 1)) = rank (e.state j) ∧ ¬ moves a)) :
    ∃ j, k ≤ j ∧ goal (e.state j) := by
  by_contra hno
  have hgoal : ∀ j, k ≤ j → ¬ goal (e.state j) := fun j hj hg => hno ⟨j, hj, hg⟩
  have hkeep : ∀ j, k ≤ j → K (e.state j) := fun j hj =>
    e.stable h0 (fun i a hi hl hK =>
      (hstep i a hl hK (hgoal i hi) (hgoal _ (Nat.le_succ_of_le hi))).1) hj
  refine absurd (hfair.eventually_of_rank (k := k) rank (fun _ => False) ?_ ?_) (by simp)
  · exact fun j hj _ => hready j (hkeep j hj) (hgoal j hj)
  · exact fun j a hj hl _ _ =>
      (hstep j a hl (hkeep j hj) (hgoal j hj) (hgoal _ (Nat.le_succ_of_le hj))).2

/-- A rank that comes down again and again, unless the goal is reached. -/
theorem eventually_of_drops {β : Type*} [Preorder β] [WellFoundedLT β] (rank : σ → β)
    (goal : σ → Prop) {k : ℕ}
    (hdrop : ∀ i, k ≤ i → ¬ goal (e.state i) →
      ∃ j, i ≤ j ∧ (goal (e.state j) ∨ rank (e.state j) < rank (e.state i))) :
    ∃ j, k ≤ j ∧ goal (e.state j) := by
  have hall : ∀ b i, k ≤ i → rank (e.state i) = b → ∃ j, i ≤ j ∧ goal (e.state j) := by
    intro b
    induction b using WellFoundedLT.induction with
    | ind b ih =>
      intro i hi hb
      by_cases hg : goal (e.state i)
      · exact ⟨i, le_rfl, hg⟩
      obtain ⟨j, hij, hj | hlt⟩ := hdrop i hi hg
      · exact ⟨j, hij, hj⟩
      · obtain ⟨l, hjl, hl⟩ := ih _ (hb ▸ hlt) j (hi.trans hij) rfl
        exact ⟨l, hij.trans hjl, hl⟩
  exact hall _ k le_rfl rfl

end Execution

/-! ## Computed executions -/

section computed

variable {step : σ → α → Option σ} {s s' t : σ} {a : α} {as : List α} {tr : List (σ × α)}

/-- Nothing happens. -/
def Execution.idle (s : σ) : Execution step s where
  state _ := s
  label _ := none
  start := rfl
  rest _ _ := rfl
  next _ _ h := absurd h (by simp)

/-- One step, and then an execution. -/
def Execution.cons (hs : step s a = some s') (e : Execution step s') : Execution step s where
  state k := Nat.casesOn k s e.state
  label k := Nat.casesOn k (some a) e.label
  start := rfl
  rest k h := by
    cases k with
    | zero => simp at h
    | succ k => exact e.rest k h
  next k b h := by
    cases k with
    | zero =>
      obtain rfl : a = b := by simpa using h
      exact hs.trans (congrArg some e.start.symm)
    | succ k => exact e.next k b h

/-- A computed run, followed by rest. -/
theorem exists_execution (h : exec step s as = some (tr, t)) :
    ∃ e : Execution step s, (∀ k, e.label k = as[k]?) ∧ (∀ k, as.length ≤ k → e.state k = t) ∧
      e.trace as.length = tr := by
  induction as generalizing s tr with
  | nil =>
    obtain ⟨rfl, rfl⟩ : [] = tr ∧ s = t := by simpa [exec] using h
    exact ⟨Execution.idle s, fun _ => rfl, fun _ _ => rfl, rfl⟩
  | cons a as ih =>
    cases hs : step s a with
    | none => simp [exec, hs] at h
    | some s' =>
      simp only [exec, hs, Option.map_eq_some_iff] at h
      obtain ⟨r, hr, heq⟩ := h
      obtain ⟨rfl, rfl⟩ : (s, a) :: r.1 = tr ∧ r.2 = t := by simpa using heq
      obtain ⟨e, hlabel, hstate, htrace⟩ := ih hr
      refine ⟨e.cons hs, fun k => ?_, fun k hk => ?_, ?_⟩
      · cases k with
        | zero => rfl
        | succ k => exact (hlabel k).trans (by simp)
      · cases k with
        | zero => simp at hk
        | succ k => exact hstate k (by simpa using hk)
      · rw [← htrace]
        have hshift : ∀ k, (e.cons hs).trace (k + 1) = (s, a) :: e.trace k := by
          intro k
          induction k with
          | zero => rfl
          | succ k ih =>
            rw [Execution.trace, ih]
            rfl
        exact hshift as.length

end computed

end AioServer.Lib
