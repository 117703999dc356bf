import Mathlib.Algebra.BigOperators.Group.List.Basic
import Mathlib.Data.Multiset.AddSub
import Mathlib.Data.Multiset.MapFold
import Mathlib.Data.Multiset.UnionInter
import Mathlib.Data.Multiset.ZeroCons

/-!
# Custody of tokens

Tokens `τ` travel between stations `κ`; `M : Multiset (κ × τ)` is where they are, and
`v : τ → Option V` what a token looks like, `none` for a token that does not exist.

* `Custody ok M v`: no token is at two stations, and every token that is somewhere exists
  and looks as its station requires;
* `Complete M v`: every token that exists is somewhere;
* `Transfer`: one step of the system moves the tokens of `out` to `inn` and leaves the
  rest alone. `Custody.transfer` and `Complete.transfer` carry the two facts over a step;
* `exists_split_sum`, `sum_map_set`, `exists_mem_set`: what a change of one member does to a
  pool.
-/

namespace AioServer.Lib

variable {κ τ V : Type*}

/-- The tokens that are somewhere. -/
def tokens (M : Multiset (κ × τ)) : Multiset τ := M.map Prod.snd

@[simp] theorem tokens_zero : tokens (0 : Multiset (κ × τ)) = 0 := rfl

@[simp] theorem tokens_add (M N : Multiset (κ × τ)) : tokens (M + N) = tokens M + tokens N :=
  Multiset.map_add _ M N

@[simp] theorem tokens_singleton (x : κ × τ) : tokens {x} = {x.2} :=
  Multiset.map_singleton _ x

theorem mem_tokens {M : Multiset (κ × τ)} {t : τ} : t ∈ tokens M ↔ ∃ k, (k, t) ∈ M := by
  simp [tokens]

theorem mem_tokens_of_mem {M : Multiset (κ × τ)} {x : κ × τ} (h : x ∈ M) : x.2 ∈ tokens M :=
  Multiset.mem_map_of_mem _ h

/-- No token is at two stations, and each one looks as its station requires. -/
structure Custody (ok : κ → V → Prop) (M : Multiset (κ × τ)) (v : τ → Option V) : Prop where
  exclusive : (tokens M).Nodup
  good : ∀ x ∈ M, ∃ w, v x.2 = some w ∧ ok x.1 w

/-- Every token that exists is somewhere. -/
def Complete (M : Multiset (κ × τ)) (v : τ → Option V) : Prop :=
  ∀ t w, v t = some w → t ∈ tokens M

/-- One step moves the tokens of `out` to the stations of `inn`, where they look as those
require; it may create tokens, and leaves `rest` as it is. -/
structure Transfer (ok : κ → V → Prop) (M : Multiset (κ × τ)) (v : τ → Option V)
    (M' : Multiset (κ × τ)) (v' : τ → Option V) (out inn rest : Multiset (κ × τ)) : Prop where
  before : M = out + rest
  after : M' = inn + rest
  frame : ∀ t, t ∉ tokens out → t ∉ tokens inn → v' t = v t
  source : ∀ t ∈ tokens inn, t ∈ tokens out ∨ v t = none
  nodup : (tokens inn).Nodup
  arrives : ∀ x ∈ inn, ∃ w, v' x.2 = some w ∧ ok x.1 w

section transfer

variable {ok : κ → V → Prop} {M M' out inn rest : Multiset (κ × τ)} {v v' : τ → Option V}

theorem Custody.exists_of_mem (h : Custody ok M v) {t : τ} (ht : t ∈ tokens M) :
    ∃ w, v t = some w := by
  obtain ⟨k, hk⟩ := mem_tokens.mp ht
  obtain ⟨w, hw, -⟩ := h.good (k, t) hk
  exact ⟨w, hw⟩

theorem Transfer.disjoint (hT : Transfer ok M v M' v' out inn rest) (h : Custody ok M v) {t : τ}
    (hrest : t ∈ tokens rest) : t ∉ tokens out ∧ t ∉ tokens inn := by
  have hnd := h.exclusive
  rw [hT.before, tokens_add, Multiset.nodup_add] at hnd
  have hout : t ∉ tokens out := fun ho => Multiset.disjoint_left.mp hnd.2.2 ho hrest
  refine ⟨hout, fun hi => ?_⟩
  rcases hT.source t hi with ho | hnone
  · exact hout ho
  · have hmem : t ∈ tokens M := by simp [hT.before, hrest]
    obtain ⟨w, hw⟩ := h.exists_of_mem hmem
    simp [hnone] at hw

theorem Custody.transfer (h : Custody ok M v) (hT : Transfer ok M v M' v' out inn rest) :
    Custody ok M' v' := by
  constructor
  · have hnd := h.exclusive
    rw [hT.before, tokens_add, Multiset.nodup_add] at hnd
    rw [hT.after, tokens_add, Multiset.nodup_add]
    refine ⟨hT.nodup, hnd.2.1, Multiset.disjoint_left.mpr fun hi hr => ?_⟩
    exact (hT.disjoint h hr).2 hi
  · intro x hx
    rw [hT.after, Multiset.mem_add] at hx
    rcases hx with hi | hr
    · exact hT.arrives x hi
    · have hd := hT.disjoint h (mem_tokens_of_mem hr)
      rw [hT.frame x.2 hd.1 hd.2]
      exact h.good x (by simp [hT.before, hr])

/-- A step that loses no token (one that leaves its station and still exists arrives at
another) keeps every token somewhere. -/
theorem Complete.transfer (h : Complete M v) (hT : Transfer ok M v M' v' out inn rest)
    (hkeep : ∀ t ∈ tokens out, (v' t).isSome → t ∈ tokens inn) : Complete M' v' := by
  intro t w hw
  rw [hT.after, tokens_add, Multiset.mem_add]
  by_cases hi : t ∈ tokens inn
  · exact Or.inl hi
  by_cases ho : t ∈ tokens out
  · exact Or.inl (hkeep t ho (by simp [hw]))
  · rw [hT.frame t ho hi] at hw
    have hmem : t ∈ tokens M := h t w hw
    rw [hT.before, tokens_add, Multiset.mem_add] at hmem
    exact Or.inr (hmem.resolve_left ho)

end transfer

/-- Where the tokens are, collected over a list. -/
theorem mem_sum_map {α β : Type*} {f : α → Multiset β} {l : List α} {x : β} :
    x ∈ (l.map f).sum ↔ ∃ a ∈ l, x ∈ f a := by
  induction l with
  | nil => simp
  | cons a l ih => simp [ih]

/-! ## One member of a pool -/

/-- A sum over a pool is the share of one member plus a rest that does not change when
that member does. -/
theorem exists_split_sum {α M : Type*} [AddCommMonoid M] (f : α → M) {ws : List α} {i : ℕ}
    {w : α} (h : ws[i]? = some w) :
    ∃ rest, (ws.map f).sum = f w + rest ∧ ∀ w', ((ws.set i w').map f).sum = f w' + rest := by
  induction ws generalizing i with
  | nil => simp at h
  | cons u us ih =>
    cases i with
    | zero =>
      obtain rfl : u = w := by simpa using h
      exact ⟨(us.map f).sum, by simp, by simp⟩
    | succ i =>
      obtain ⟨rest, h1, h2⟩ := ih (i := i) (by simpa using h)
      refine ⟨f u + rest, ?_, fun w' => ?_⟩
      · rw [List.map_cons, List.sum_cons, h1, add_left_comm]
      · rw [List.set_cons_succ, List.map_cons, List.sum_cons, h2, add_left_comm]

/-- A sum over a pool changes as the share of the member that changes. -/
theorem sum_map_set {α M : Type*} [AddCommMonoid M] (f : α → M) {ws : List α} {i : ℕ} {w : α}
    (h : ws[i]? = some w) (w' : α) : ((ws.set i w').map f).sum + f w = (ws.map f).sum + f w' := by
  obtain ⟨rest, h1, h2⟩ := exists_split_sum f h
  rw [h1, h2, add_right_comm, add_comm (f w')]
  rw [add_right_comm]

/-- When one member of a pool changes, the others keep what they have. -/
theorem exists_mem_set {α : Type*} {p : α → Prop} {ws : List α} {i : ℕ} {w : α}
    (hw : ws[i]? = some w) (h : ∃ v ∈ ws, p v) (hno : ¬ p w) (w' : α) : ∃ v ∈ ws.set i w', p v := by
  obtain ⟨v, hv, hp⟩ := h
  obtain ⟨j, hj⟩ := List.mem_iff_getElem?.mp hv
  have hij : i ≠ j := by
    rintro rfl
    obtain rfl : w = v := by simpa [hw] using hj
    exact hno hp
  exact ⟨v, List.mem_iff_getElem?.mpr ⟨j, by rw [List.getElem?_set_ne hij, hj]⟩, hp⟩

/-- The member that changes is in the pool. -/
theorem mem_set_of_getElem? {α : Type*} {ws : List α} {i : ℕ} {w : α} (hw : ws[i]? = some w)
    (w' : α) : w' ∈ ws.set i w' :=
  List.mem_set (List.getElem?_eq_some_iff.mp hw).1 w'

/-- A sum over a list, split at one of its elements. -/
theorem sum_map_eraseIdx {α M : Type*} [AddCommMonoid M] (f : α → M) {ws : List α} {i : ℕ} {w : α}
    (h : ws[i]? = some w) : (ws.map f).sum = f w + ((ws.eraseIdx i).map f).sum := by
  induction ws generalizing i with
  | nil => simp at h
  | cons u us ih =>
    cases i with
    | zero =>
      obtain rfl : u = w := by simpa using h
      simp
    | succ i =>
      have hus := ih (i := i) (by simpa using h)
      rw [List.map_cons, List.sum_cons, hus, List.eraseIdx_cons_succ, List.map_cons,
        List.sum_cons, add_left_comm]

end AioServer.Lib
