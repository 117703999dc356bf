import Mathlib.Data.List.Induction
import Mathlib.Data.Nat.Notation

/-!
# Resolving paths

A path is a list of steps: stay (an empty segment or `.`), up (`..`) or down to a name `ν`.
The place it leads to is a number of climbs that could not be undone, and the names after
them. In a rooted path a climb at the top is dropped.

* `Place.walk`: the steps one after the other;
* `Place.walk_eq_append`: to walk some steps is to climb as often as the steps do on balance,
  and then to go down the names they are left with;
* `Place.within_append_iff`: whether one is below the starting place again after that.
-/

namespace AioServer.Lib

/-- What a segment of a path does. -/
inductive PathStep (ν : Type)
  | stay
  | up
  | down (name : ν)
deriving DecidableEq, Repr

/-- Where a path leads. -/
structure Place (ν : Type) where
  climbs : ℕ
  names : List ν
deriving DecidableEq, Repr

namespace Place

variable {ν : Type} {rooted : Bool} {p q dir : Place ν}

/-- Where a path begins. -/
def start : Place ν := ⟨0, []⟩

/-- One step. -/
def step (rooted : Bool) (p : Place ν) : PathStep ν → Place ν
  | .stay => p
  | .down name => ⟨p.climbs, p.names ++ [name]⟩
  | .up =>
    if p.names.isEmpty then if rooted then p else ⟨p.climbs + 1, []⟩
    else ⟨p.climbs, p.names.dropLast⟩

/-- All steps. -/
def walk (rooted : Bool) (p : Place ν) (steps : List (PathStep ν)) : Place ν :=
  steps.foldl (step rooted) p

/-- The steps by themselves. -/
def normalize (steps : List (PathStep ν)) : Place ν := walk false start steps

theorem walk_append (steps steps' : List (PathStep ν)) :
    p.walk rooted (steps ++ steps') = (p.walk rooted steps).walk rooted steps' :=
  List.foldl_append

/-! ## Climbing -/

/-- `k` steps up. -/
def ascend (rooted : Bool) (p : Place ν) (k : ℕ) : Place ν :=
  if k ≤ p.names.length then ⟨p.climbs, p.names.take (p.names.length - k)⟩
  else ⟨if rooted then p.climbs else p.climbs + (k - p.names.length), []⟩

/-- Climb as often as `q` says and go down its names. -/
def append (rooted : Bool) (p q : Place ν) : Place ν :=
  ⟨(p.ascend rooted q.climbs).climbs, (p.ascend rooted q.climbs).names ++ q.names⟩

theorem append_start : p.append rooted start = p := by
  simp [append, ascend, start]

theorem ascend_succ (k : ℕ) : (p.ascend rooted k).step rooted .up = p.ascend rooted (k + 1) := by
  unfold ascend
  by_cases hlt : k + 1 ≤ p.names.length
  · -- a name is left to go up from
    have hne : (p.names.take (p.names.length - k)).isEmpty = false := by
      rw [List.isEmpty_eq_false_iff, ← List.length_pos_iff, List.length_take]
      omega
    have hlen : min (min (p.names.length - k) p.names.length - 1) (p.names.length - k)
        = p.names.length - (k + 1) := by omega
    rw [if_pos (by omega), if_pos hlt, step, if_neg (by simp [hne]), List.dropLast_eq_take,
      List.take_take, List.length_take, hlen]
  · by_cases heq : k = p.names.length
    · rw [if_pos (by omega), if_neg hlt, heq, Nat.sub_self, Nat.add_sub_cancel_left]
      cases rooted <;> rfl
    · have hsub : k + 1 - p.names.length = k - p.names.length + 1 := by omega
      rw [if_neg (by omega), if_neg hlt, hsub]
      cases rooted <;> rfl

theorem append_step (s : PathStep ν) :
    (p.append rooted q).step rooted s = p.append rooted (q.step false s) := by
  cases s with
  | stay => rfl
  | down name => exact congrArg (Place.mk _) (List.append_assoc ..)
  | up =>
    by_cases hq : q.names = []
    · have hup : q.step false .up = ⟨q.climbs + 1, []⟩ := by simp [step, hq]
      have happ : p.append rooted q = p.ascend rooted q.climbs := by simp [append, hq]
      rw [hup, happ, ascend_succ]
      simp [append]
    · have hup : q.step false .up = ⟨q.climbs, q.names.dropLast⟩ := by simp [step, hq]
      rw [hup]
      simp [step, append, hq, List.dropLast_append_of_ne_nil]

/-- What a walk does depends on where the steps lead by themselves. -/
theorem walk_eq_append (steps : List (PathStep ν)) :
    p.walk rooted steps = p.append rooted (normalize steps) := by
  induction steps using List.reverseRecOn with
  | nil => exact append_start.symm
  | append_singleton steps s ih =>
    unfold normalize at ih ⊢
    rw [walk_append, walk_append, ih]
    exact append_step s

/-! ## Below a place -/

/-- `p` is the place `dir` or below it. -/
def Within (dir p : Place ν) : Prop := p.climbs = dir.climbs ∧ dir.names <+: p.names

instance [DecidableEq ν] : Decidable (dir.Within p) :=
  inferInstanceAs (Decidable (_ ∧ _))

/-- After some climbs one is below `dir` again when `dir` has that many names, or is rooted, and
one goes down the last of them. -/
theorem within_append_iff : dir.Within (dir.append rooted q) ↔
    (rooted = true ∨ q.climbs ≤ dir.names.length) ∧
      dir.names.drop (dir.names.length - q.climbs) <+: q.names := by
  unfold Within append ascend
  by_cases hle : q.climbs ≤ dir.names.length
  · have hpre : dir.names <+: dir.names.take (dir.names.length - q.climbs) ++ q.names ↔
        dir.names.drop (dir.names.length - q.climbs) <+: q.names := by
      have hinj : dir.names.take (dir.names.length - q.climbs) ++
            dir.names.drop (dir.names.length - q.climbs) <+:
            dir.names.take (dir.names.length - q.climbs) ++ q.names ↔
          dir.names.drop (dir.names.length - q.climbs) <+: q.names :=
        List.prefix_append_right_inj _
      rw [List.take_append_drop] at hinj
      exact hinj
    simp [hle, hpre]
  · have hsub : dir.names.length - q.climbs = 0 := by omega
    have hpos : q.climbs - dir.names.length ≠ 0 := by omega
    cases rooted <;> simp [hle, hsub, hpos]

end Place

end AioServer.Lib
