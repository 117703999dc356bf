import AioServer.Lib.Mutex

/-!
# Programs of operations

A program makes one operation at a time, and goes on with what the operation returns. An
operation may be undefined. A loop is a label, to which the program goes back.

* `Machine`: what the operations do, and the programs at the labels;
* `Prog.routine`: the operations one by one, as threads under a lock make them;
* `Prog.eval`: a program that meets no label, run without interruption; `Prog.reaches_of_eval`
  makes the operations of such a run one by one.
-/

namespace AioServer.Lib

variable {σ κ ι L ω : Type} {υ : ι → Type}

/-- A program: an operation and how it goes on, a jump, or the result. -/
inductive Prog (ι : Type) (υ : ι → Type) (L ω : Type)
  | op (i : ι) (k : υ i → Prog ι υ L ω)
  | goto (l : L)
  | ret (out : ω)

/-- The operations on a memory, and the program at each label. -/
structure Machine (σ ι : Type) (υ : ι → Type) (L ω : Type) where
  exec (i : ι) : σ → Option (υ i × σ)
  code : L → Prog ι υ L ω

namespace Prog

variable (M : Machine σ ι υ L ω)

/-- The next operation. A program whose operation is undefined ends without a result. -/
def next : Prog ι υ L ω → σ → (Prog ι υ L ω × σ) ⊕ Option ω
  | .op i k, m =>
    match M.exec i m with
    | some (r, m') => .inl (k r, m')
    | none => .inr none
  | .goto l, m => .inl (M.code l, m)
  | .ret out, _ => .inr (some out)

/-- The routine of the given programs. -/
def routine (body : κ → Prog ι υ L ω) : Routine σ (Prog ι υ L ω) κ (Option ω) := ⟨body, next M⟩

/-- A program without interruption, up to a label. -/
def eval : Prog ι υ L ω → σ → Option (ω × σ)
  | .op i k, m => (M.exec i m).bind fun r => (k r.1).eval r.2
  | .goto _, _ => none
  | .ret out, m => some (out, m)

/-- The way of a program, operation by operation. -/
abbrev Reaches : Prog ι υ L ω × σ → Prog ι υ L ω × σ → Prop :=
  Relation.ReflTransGen fun x y => next M x.1 x.2 = .inl y

variable {M} {i : ι} {k : υ i → Prog ι υ L ω} {p : Prog ι υ L ω} {y : Prog ι υ L ω × σ}
  {m m' : σ} {out : ω}

theorem reaches_op {r : υ i} (h : M.exec i m = some (r, m')) (hrest : Reaches M (k r, m') y) :
    Reaches M (.op i k, m) y := by
  refine .head ?_ hrest
  simp only [next, h]

theorem reaches_goto {l : L} (hrest : Reaches M (M.code l, m) y) : Reaches M (.goto l, m) y :=
  .head rfl hrest

/-- A program that evaluates to a result gets there. -/
theorem reaches_of_eval (h : p.eval M m = some (out, m')) : Reaches M (p, m) (.ret out, m') := by
  induction p generalizing m with
  | op i k ih =>
    obtain ⟨⟨r, n⟩, hexec, hrest⟩ := Option.bind_eq_some_iff.mp h
    exact reaches_op hexec (ih r hrest)
  | goto l => cases h
  | ret out' =>
    obtain ⟨rfl, rfl⟩ := Prod.mk.inj (Option.some.inj h)
    exact .refl

theorem eq_ret_of_next (h : next M p m = .inr (some out)) : p = .ret out := by
  cases p with
  | op i k =>
    rw [next] at h
    split at h
    · cases h
    · cases h
  | goto l => cases h
  | ret out' =>
    obtain rfl := Option.some.inj (Sum.inr.inj h)
    rfl

/-- A call that gets to a result. -/
theorem performs_of_reaches {body : κ → Prog ι υ L ω} {c : κ}
    (h : Reaches M (body c, m) (.ret out, m')) :
    (routine M body).Performs c m (some out) m' := ⟨.ret out, h, rfl⟩

/-- What is left of such a call gets there too. -/
theorem reaches_of_performs {body : κ → Prog ι υ L ω} {c : κ} {n : σ}
    (h : (routine M body).Performs c m (some out) m')
    (hreach : Relation.ReflTransGen (routine M body).Access (body c, m) (p, n)) :
    Reaches M (p, n) (.ret out, m') := by
  obtain ⟨q, hrest, hret⟩ := h.resume hreach
  rw [← eq_ret_of_next hret]
  exact hrest

end Prog

end AioServer.Lib
