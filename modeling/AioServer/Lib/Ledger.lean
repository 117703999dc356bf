import Mathlib.Data.List.Count
import Mathlib.Data.Multiset.AddSub
import Mathlib.Data.Multiset.ZeroCons

/-!
# Ledgers of resources

A program acquires, uses and releases resources `ρ`. Its ledger is the list of these events.

* `settle held es`: the resources held after the events `es`, if `held` are held before;
  `none` if something is used or released that is not held;
* `settle_add`: a program does not notice resources that others hold;
* `settle_uses`, `settle_acquires`, `settle_releases`: several events of one kind;
* `Balanced`: a ledger that starts and ends with nothing. `Balanced.count_eq` reads it as
  counts, `settle_count` on every prefix;
* `fallThrough`: a `switch` whose cases fall through.
-/

namespace AioServer.Lib

/-- What happens to a resource. -/
inductive Event (ρ : Type)
  | acquire (r : ρ)
  | use (r : ρ)
  | release (r : ρ)
deriving DecidableEq, Repr

section settle

variable {ρ : Type} [DecidableEq ρ] {held held' k : Multiset ρ} {es fs : List (Event ρ)} {r : ρ}

/-- The resources held after some events. -/
def settle (held : Multiset ρ) : List (Event ρ) → Option (Multiset ρ)
  | [] => some held
  | .acquire r :: es => settle (r ::ₘ held) es
  | .use r :: es => if r ∈ held then settle held es else none
  | .release r :: es => if r ∈ held then settle (held.erase r) es else none

@[simp] theorem settle_nil : settle held [] = some held := rfl

@[simp] theorem settle_acquire : settle held (.acquire r :: es) = settle (r ::ₘ held) es := rfl

@[simp] theorem settle_use_cons : settle (r ::ₘ held) (.use r :: es) = settle (r ::ₘ held) es :=
  if_pos (Multiset.mem_cons_self r held)

@[simp] theorem settle_release_cons : settle (r ::ₘ held) (.release r :: es) = settle held es := by
  rw [settle, if_pos (Multiset.mem_cons_self r held), Multiset.erase_cons_head]

theorem settle_use (h : r ∈ held) : settle held (.use r :: es) = settle held es := if_pos h

theorem settle_release (h : r ∈ held) :
    settle held (.release r :: es) = settle (held.erase r) es := if_pos h

theorem settle_append : settle held (es ++ fs) = (settle held es).bind fun h => settle h fs := by
  induction es generalizing held with
  | nil => rfl
  | cons e es ih =>
    cases e with
    | acquire r => exact ih
    | use r =>
      simp only [List.cons_append, settle]
      split_ifs
      · exact ih
      · rfl
    | release r =>
      simp only [List.cons_append, settle]
      split_ifs
      · exact ih
      · rfl

/-- Two programs, one after the other. -/
theorem settle_trans {mid : Multiset ρ} (h₁ : settle held es = some mid)
    (h₂ : settle mid fs = some held') : settle held (es ++ fs) = some held' := by
  rw [settle_append, h₁]
  exact h₂

/-- What others hold stays with them. -/
theorem settle_add (h : settle held es = some held') (k : Multiset ρ) :
    settle (held + k) es = some (held' + k) := by
  induction es generalizing held with
  | nil =>
    obtain rfl := Option.some.inj h
    rfl
  | cons e es ih =>
    cases e with
    | acquire r =>
      rw [settle_acquire, ← Multiset.cons_add]
      exact ih h
    | use r =>
      simp only [settle] at h
      split_ifs at h with hr
      rw [settle_use (Multiset.mem_add.mpr (Or.inl hr))]
      exact ih h
    | release r =>
      simp only [settle] at h
      split_ifs at h with hr
      rw [settle_release (Multiset.mem_add.mpr (Or.inl hr)), Multiset.erase_add_left_pos k hr]
      exact ih h

/-- A program that works with `part` of what is held. -/
theorem settle_part {part part' rest : Multiset ρ} (h : settle part es = some part')
    (hb : held = part + rest) (ha : held' = part' + rest) : settle held es = some held' := by
  rw [hb, ha]
  exact settle_add h rest

/-- Using what is held. -/
theorem settle_uses {rs : List ρ} (h : ∀ r ∈ rs, r ∈ held) :
    settle held (rs.map .use) = some held := by
  induction rs with
  | nil => rfl
  | cons r rs ih =>
    rw [List.map_cons, settle_use (h r (by simp))]
    exact ih fun r hr => h r (List.mem_cons_of_mem _ hr)

theorem settle_acquires (rs : List ρ) :
    settle held (rs.map .acquire) = some ((rs : Multiset ρ) + held) := by
  induction rs generalizing held with
  | nil => simp
  | cons r rs ih =>
    rw [List.map_cons, settle_acquire, ih, Multiset.add_cons, ← Multiset.cons_add,
      Multiset.cons_coe]

theorem settle_releases (rs : List ρ) :
    settle ((rs : Multiset ρ) + held) (rs.map .release) = some held := by
  induction rs with
  | nil => simp
  | cons r rs ih =>
    rw [List.map_cons, ← Multiset.cons_coe, Multiset.cons_add, settle_release_cons, ih]

/-- Every acquisition of a resource is matched by a release, or the resource is still held. -/
theorem settle_count (h : settle held es = some held') (r : ρ) :
    held.count r + es.count (.acquire r) = held'.count r + es.count (.release r) := by
  induction es generalizing held with
  | nil =>
    obtain rfl := Option.some.inj h
    rfl
  | cons e es ih =>
    cases e with
    | acquire x =>
      have hrest : (x ::ₘ held).count r + es.count (.acquire r)
          = held'.count r + es.count (.release r) := ih h
      rw [Multiset.count_cons] at hrest
      by_cases hx : r = x
      · simp only [hx, if_true, List.count_cons_self] at hrest ⊢
        rw [List.count_cons_of_ne (by simp)]
        omega
      · rw [if_neg hx] at hrest
        rw [List.count_cons_of_ne (by simpa using Ne.symm hx), List.count_cons_of_ne (by simp)]
        omega
    | use x =>
      simp only [settle] at h
      split_ifs at h with hr
      rw [List.count_cons_of_ne (by simp), List.count_cons_of_ne (by simp)]
      exact ih h
    | release x =>
      simp only [settle] at h
      split_ifs at h with hmem
      have hrest := ih h
      rw [List.count_cons_of_ne (by simp)]
      by_cases hx : r = x
      · subst hx
        have hpos := Multiset.count_pos.mpr hmem
        rw [Multiset.count_erase_self] at hrest
        rw [List.count_cons_self]
        omega
      · rw [Multiset.count_erase_of_ne hx] at hrest
        rw [List.count_cons_of_ne (by simpa using Ne.symm hx)]
        omega

/-- A ledger that starts with nothing and ends with nothing. -/
def Balanced (es : List (Event ρ)) : Prop := settle 0 es = some 0

instance : DecidablePred (Balanced (ρ := ρ)) := fun es =>
  inferInstanceAs (Decidable (settle 0 es = some 0))

/-- Every acquisition is matched by exactly one release. -/
theorem Balanced.count_eq (h : Balanced es) (r : ρ) :
    es.count (.release r) = es.count (.acquire r) := by
  have hcount := settle_count h r
  simpa using hcount.symm

end settle

/-- The statements that a `switch` runs when each case falls through to the next. -/
def fallThrough {ε : Type} : List (ℕ × List ε) → ℕ → List ε
  | [], _ => []
  | (n, es) :: cases, level =>
    if n = level then es ++ cases.flatMap Prod.snd else fallThrough cases level

end AioServer.Lib
