import AioServer.Lib.Lts
import AioServer.Lib.Object
import Mathlib.Data.List.Perm.Basic
import Mathlib.Logic.Function.Basic
import Mathlib.Logic.Relation

/-!
# Routines under a lock

Threads call routines that access a shared memory in many small steps, between the acquisition
and the release of one lock. The threads are interleaved at will.

* `Routine`: a routine, access by access; `Routine.Performs` is one call without interruption;
* `Body`: a routine given by the reads and writes of its body; `Body.performs_eval` says what one
  call of it amounts to;
* `Mutex.step`: the interleaved system, in which only the acquisition looks at the lock;
* `Mutex.mutual_exclusion`: two threads are never inside;
* `Mutex.serial_of_run`: what was completed amounts to whole calls, one after the other in the
  order of the lock, and the thread inside has begun on what they have left;
* `Routine.Serial.refines`: such calls do to an abstract object what each of them does;
* `Mutex.calls_eq`: each call is completed once, and each thread's calls in their order.
-/

namespace AioServer.Lib

variable {σ lam κ ω τ : Type}

/-- A routine: where a call starts, and its next access to the memory or its result. -/
structure Routine (σ lam κ ω : Type) where
  entry : κ → lam
  next : lam → σ → (lam × σ) ⊕ ω

namespace Routine

variable (P : Routine σ lam κ ω)

/-- One access. -/
def Access (x y : lam × σ) : Prop := P.next x.1 x.2 = .inl y

/-- A whole call, with its result. -/
def Performs (c : κ) (m : σ) (out : ω) (m' : σ) : Prop :=
  ∃ l, Relation.ReflTransGen P.Access (P.entry c, m) (l, m') ∧ P.next l m' = .inr out

/-- Whole calls, one after the other. Each is made where `ok` holds of it. -/
inductive Serial (ok : κ → σ → Prop) (m₀ : σ) : List (τ × κ × ω) → σ → Prop
  | nil : Serial ok m₀ [] m₀
  | snoc {done m t c out m'} : Serial ok m₀ done m → ok c m → P.Performs c m out m' →
    Serial ok m₀ (done ++ [(t, c, out)]) m'

variable {P} {ok : κ → σ → Prop} {m₀ m : σ} {done : List (τ × κ × ω)}

theorem access_unique {x y z : lam × σ} (hy : P.Access x y) (hz : P.Access x z) : y = z :=
  Sum.inl.inj (hy.symm.trans hz)

/-- Nothing comes behind the result. -/
theorem eq_of_returned {l : lam} {out : ω} {x : lam × σ} (hret : P.next l m = .inr out)
    (h : Relation.ReflTransGen P.Access (l, m) x) : x = (l, m) := by
  rcases h.cases_head with rfl | ⟨y, hy, -⟩
  · rfl
  · rw [Access, hret] at hy
    cases hy

/-- A call that has begun and can be completed is on its way to the end. -/
theorem Performs.resume {c : κ} {m' : σ} {out : ω} {x : lam × σ} (h : P.Performs c m out m')
    (hx : Relation.ReflTransGen P.Access (P.entry c, m) x) :
    ∃ l, Relation.ReflTransGen P.Access x (l, m') ∧ P.next l m' = .inr out := by
  obtain ⟨l, hreach, hret⟩ := h
  have hunique : Relator.RightUnique P.Access := fun _ _ _ => access_unique
  rcases Relation.ReflTransGen.total_of_right_unique hunique hx hreach with hto | hfrom
  · exact ⟨l, hto, hret⟩
  · rw [eq_of_returned hret hfrom]
    exact ⟨l, .refl, hret⟩

/-- A call has one result. -/
theorem Performs.unique {c : κ} {m' n' : σ} {out out' : ω} (h : P.Performs c m out m')
    (h' : P.Performs c m out' n') : out = out' ∧ m' = n' := by
  obtain ⟨l, hreach, hret⟩ := h
  obtain ⟨k, hmore, hret'⟩ := h'.resume hreach
  obtain ⟨rfl, rfl⟩ := Prod.mk.inj (eq_of_returned hret hmore)
  exact ⟨Sum.inr.inj (hret.symm.trans hret'), rfl⟩

/-- Where a call amounts to a function, a series of calls does. -/
theorem Serial.eq_foldl {effect : σ → κ → σ} {result : σ → κ → ω}
    (hP : ∀ c m out m', P.Performs c m out m' → m' = effect m c ∧ out = result m c)
    (h : P.Serial ok m₀ done m) :
    m = (done.map fun x => x.2.1).foldl effect m₀ ∧
      ∀ before t c out after, done = before ++ (t, c, out) :: after →
        out = result ((before.map fun x => x.2.1).foldl effect m₀) c := by
  induction h with
  | nil => exact ⟨rfl, fun before t c out after h => by simp at h⟩
  | @snoc done m t c out m' _ _ hc ih =>
    obtain ⟨heffect, hresult⟩ := hP c m out m' hc
    refine ⟨?_, fun before u d out' after hsplit => ?_⟩
    · rw [heffect, ih.1, List.map_append, List.foldl_append]
      rfl
    · rcases List.eq_nil_or_concat after with rfl | ⟨after, x, rfl⟩
      · obtain ⟨rfl, hx⟩ := List.append_inj' hsplit rfl
        obtain ⟨rfl, rfl, rfl⟩ : t = u ∧ c = d ∧ out = out' := by simpa using hx
        rw [hresult, ih.1]
      · rw [List.concat_eq_append, ← List.cons_append, ← List.append_assoc] at hsplit
        exact ih.2 before u d out' after (List.append_inj' hsplit rfl).1

/-- Where a call refines one of an abstract object, a series of calls does. -/
theorem Serial.refines {β ρ : Type} (R : σ → β → Prop) (exec : κ → β → ρ × β) (ret : ρ → ω)
    {b₀ : β} (hP : ∀ c m b out m', R m b → ok c m → P.Performs c m out m' →
      out = ret (exec c b).1 ∧ R m' (exec c b).2)
    (h : P.Serial ok m₀ done m) (hstart : R m₀ b₀) :
    (done.map fun x => x.2.2) = (runCalls exec (done.map fun x => x.2.1) b₀).1.map ret ∧
      R m (runCalls exec (done.map fun x => x.2.1) b₀).2 := by
  induction h with
  | nil => exact ⟨rfl, hstart⟩
  | @snoc done m t c out m' _ hok hc ih =>
    obtain ⟨rfl, hrel⟩ := hP c m _ out m' ih.2 hok hc
    rw [List.map_append, List.map_append, ih.1, List.map_singleton, List.map_singleton,
      runCalls_snoc]
    exact ⟨by simp, hrel⟩

end Routine

/-! ## Bodies -/

/-- The cells of a memory. -/
structure Cells (σ ι : Type) (υ : ι → Type) where
  get (i : ι) : σ → υ i
  put (i : ι) : υ i → σ → σ

/-- A body reads and writes one cell at a time, and returns. -/
inductive Body (ι : Type) (υ : ι → Type) (ω : Type)
  | load (i : ι) (k : υ i → Body ι υ ω)
  | store (i : ι) (v : υ i) (k : Body ι υ ω)
  | ret (out : ω)

namespace Body

variable {ι : Type} {υ : ι → Type} (C : Cells σ ι υ)

/-- A body without interruption. -/
def eval : Body ι υ ω → σ → ω × σ
  | .load i k, m => (k (C.get i m)).eval m
  | .store i v k, m => k.eval (C.put i v m)
  | .ret out, m => (out, m)

/-- The next access of a body. -/
def next : Body ι υ ω → σ → (Body ι υ ω × σ) ⊕ ω
  | .load i k, m => .inl (k (C.get i m), m)
  | .store i v k, m => .inl (k, C.put i v m)
  | .ret out, _ => .inr out

/-- The routine with the given bodies. -/
def routine (body : κ → Body ι υ ω) : Routine σ (Body ι υ ω) κ ω := ⟨body, next C⟩

variable {C} {body : κ → Body ι υ ω}

/-- An access leaves what remains to be evaluated. -/
theorem eval_access {x y : Body ι υ ω × σ} (h : (routine C body).Access x y) :
    x.1.eval C x.2 = y.1.eval C y.2 := by
  obtain ⟨b, m⟩ := x
  unfold Routine.Access at h
  cases b with
  | load i k =>
    obtain rfl := Sum.inl.inj h
    rfl
  | store i v k =>
    obtain rfl := Sum.inl.inj h
    rfl
  | ret out => cases h

/-- A whole call evaluates its body. -/
theorem performs_eval {c : κ} {m m' : σ} {out : ω} (h : (routine C body).Performs c m out m') :
    (body c).eval C m = (out, m') := by
  obtain ⟨b, hreach, hret⟩ := h
  have heval : ∀ y, Relation.ReflTransGen (routine C body).Access (body c, m) y →
      (body c).eval C m = y.1.eval C y.2 := by
    intro y hy
    induction hy with
    | refl => rfl
    | tail _ hstep ih => exact ih.trans (eval_access hstep)
  rw [heval (b, m') hreach]
  cases b with
  | load i k => cases hret
  | store i v k => cases hret
  | ret r =>
    obtain rfl : r = out := Sum.inr.inj hret
    rfl

end Body

namespace Mutex

/-! ## The interleaved system -/

/-- A thread is between two calls, waits for the lock, or is inside. -/
inductive Phase (lam κ : Type)
  | idle
  | waiting (c : κ)
  | inside (c : κ) (l : lam)

/-- The memory, the holder of the lock, and the threads. -/
structure State (σ lam κ τ : Type) where
  mem : σ
  holder : Option τ
  phase : τ → Phase lam κ

inductive Action (κ τ : Type)
  | call (t : τ) (c : κ)
  | acquire (t : τ)
  | access (t : τ)
  | release (t : τ)
deriving DecidableEq, Repr

def State.init (m₀ : σ) : State σ lam κ τ := ⟨m₀, none, fun _ => .idle⟩

variable [DecidableEq τ]

/-- Put a thread into a phase. -/
def State.move (s : State σ lam κ τ) (t : τ) (p : Phase lam κ) : State σ lam κ τ :=
  { s with phase := Function.update s.phase t p }

/-- One step. Nobody but `acquire` asks who holds the lock. -/
def step (P : Routine σ lam κ ω) (s : State σ lam κ τ) : Action κ τ → Option (State σ lam κ τ)
  | .call t c =>
    match s.phase t with
    | .idle => some (s.move t (.waiting c))
    | _ => none
  | .acquire t =>
    match s.phase t, s.holder with
    | .waiting c, none => some { s.move t (.inside c (P.entry c)) with holder := some t }
    | _, _ => none
  | .access t =>
    match s.phase t with
    | .inside c l =>
      match P.next l s.mem with
      | .inl (l', m) => some { s.move t (.inside c l') with mem := m }
      | .inr _ => none
    | _ => none
  | .release t =>
    match s.phase t with
    | .inside _ l =>
      match P.next l s.mem with
      | .inl _ => none
      | .inr _ => some { s.move t .idle with holder := none }
    | _ => none

/-- The transitions. -/
inductive Trans (P : Routine σ lam κ ω) (s : State σ lam κ τ) :
    Action κ τ → State σ lam κ τ → Prop
  | call {t c} (hp : s.phase t = .idle) : Trans P s (.call t c) (s.move t (.waiting c))
  | acquire {t c} (hp : s.phase t = .waiting c) (hfree : s.holder = none) :
    Trans P s (.acquire t) { s.move t (.inside c (P.entry c)) with holder := some t }
  | access {t c l l' m} (hp : s.phase t = .inside c l) (hn : P.next l s.mem = .inl (l', m)) :
    Trans P s (.access t) { s.move t (.inside c l') with mem := m }
  | release {t c l out} (hp : s.phase t = .inside c l) (hn : P.next l s.mem = .inr out) :
    Trans P s (.release t) { s.move t .idle with holder := none }

variable {P : Routine σ lam κ ω} {s s' : State σ lam κ τ} {a : Action κ τ}

theorem trans_of_step (h : step P s a = some s') : Trans P s a s' := by
  unfold step at h
  split at h
  · split at h
    · next hp =>
      cases h
      exact .call hp
    · cases h
  · split at h
    · next hp hfree =>
      cases h
      exact .acquire hp hfree
    · cases h
  · split at h
    · next hp =>
      split at h
      · next hn =>
        cases h
        exact .access hp hn
      · cases h
    · cases h
  · split at h
    · next hp =>
      split at h
      · cases h
      · next hn =>
        cases h
        exact .release hp hn
    · cases h

/-- The call that a step completes. -/
def completes (P : Routine σ lam κ ω) (x : State σ lam κ τ × Action κ τ) :
    Option (τ × κ × ω) :=
  match x.2 with
  | .release t =>
    match x.1.phase t with
    | .inside c l =>
      match P.next l x.1.mem with
      | .inl _ => none
      | .inr out => some (t, c, out)
    | _ => none
  | _ => none

/-- The calls that a run has completed. -/
def completed (P : Routine σ lam κ ω) (tr : List (State σ lam κ τ × Action κ τ)) :
    List (τ × κ × ω) := tr.filterMap (completes P)

omit [DecidableEq τ] in
theorem completed_snoc (tr : List (State σ lam κ τ × Action κ τ)) :
    completed P (tr ++ [(s, a)]) = completed P tr ++ (completes P (s, a)).toList := by
  rw [completed, List.filterMap_append]
  cases h : completes P (s, a) <;> simp [completed, h]

/-! ## The lock -/

/-- The thread inside holds the lock and has begun on `m`, where `ok` held of its call; nobody
else does. -/
structure Guarded (P : Routine σ lam κ ω) (ok : κ → σ → Prop) (m : σ) (s : State σ lam κ τ) :
    Prop where
  inside : ∀ t c l, s.phase t = .inside c l → s.holder = some t ∧ ok c m ∧
    Relation.ReflTransGen P.Access (P.entry c, m) (l, s.mem)
  held : ∀ t, s.holder = some t → ∃ c l, s.phase t = .inside c l
  free : s.holder = none → s.mem = m

/-- `ok` holds of each call when it gets the lock. -/
def Admits (ok : κ → σ → Prop) (tr : List (State σ lam κ τ × Action κ τ)) : Prop :=
  ∀ x ∈ tr, ∀ t c, x.2 = .acquire t → x.1.phase t = .waiting c → ok c x.1.mem

variable {ok : κ → σ → Prop}

/-- The test for one step. -/
def admits (ok : κ → σ → Prop) [∀ c m, Decidable (ok c m)]
    (x : State σ lam κ τ × Action κ τ) : Bool :=
  match x.2 with
  | .acquire t =>
    match x.1.phase t with
    | .waiting c => ok c x.1.mem
    | _ => true
  | _ => true

omit [DecidableEq τ] in
theorem admits_of_all [∀ c m, Decidable (ok c m)] {tr : List (State σ lam κ τ × Action κ τ)}
    (h : tr.all (admits ok) = true) : Admits ok tr := by
  intro x hx t c hact hwait
  have htest := List.all_eq_true.mp h x hx
  simpa [admits, hact, hwait] using htest

/-- A thread outside that stays outside. -/
theorem Guarded.move {m : σ} {t : τ} {p : Phase lam κ} (h : Guarded P ok m s)
    (ht : ∀ c l, s.phase t ≠ .inside c l) (hp : ∀ c l, p ≠ .inside c l) :
    Guarded P ok m (s.move t p) where
  inside u c l hu := by
    change Function.update s.phase t p u = _ at hu
    by_cases hut : u = t
    · rw [hut, Function.update_self] at hu
      exact absurd hu (hp c l)
    · rw [Function.update_of_ne hut] at hu
      exact h.inside u c l hu
  held u hu := by
    obtain ⟨c, l, hin⟩ := h.held u hu
    have hut : u ≠ t := by
      rintro rfl
      exact ht c l hin
    exact ⟨c, l, (Function.update_of_ne hut _ _).trans hin⟩
  free := h.free

/-- The thread inside: it has gone on to `l`, or has got the lock. -/
theorem guarded_inside {m m' : σ} {t : τ} {c : κ} {l : lam}
    (hother : ∀ u d k, u ≠ t → s.phase u ≠ .inside d k) (hok : ok c m)
    (hreach : Relation.ReflTransGen P.Access (P.entry c, m) (l, m')) :
    Guarded P ok m { s.move t (.inside c l) with mem := m', holder := some t } where
  inside u d k hu := by
    change Function.update s.phase t _ u = _ at hu
    by_cases hut : u = t
    · rw [hut, Function.update_self] at hu
      obtain ⟨rfl, rfl⟩ : c = d ∧ l = k := by simpa using hu
      exact ⟨by rw [hut], hok, hreach⟩
    · rw [Function.update_of_ne hut] at hu
      exact absurd hu (hother u d k hut)
  held u hu := by
    obtain rfl : t = u := Option.some.inj hu
    exact ⟨c, l, Function.update_self ..⟩
  free hno := by simp at hno

omit [DecidableEq τ] in
/-- Nobody else is inside. -/
theorem Guarded.alone {m : σ} {t : τ} (h : Guarded P ok m s) (ht : s.holder = some t) :
    ∀ u d k, u ≠ t → s.phase u ≠ .inside d k :=
  fun u d k hut hu => hut (Option.some.inj ((h.inside u d k hu).1.symm.trans ht))

/-- One step keeps the memory guarded, and completes at most one call on it. -/
theorem guarded_step {m : σ} (h : Guarded P ok m s) (ht : Trans P s a s')
    (hok : ∀ t c, a = .acquire t → s.phase t = .waiting c → ok c s.mem) :
    completes P (s, a) = none ∧ Guarded P ok m s' ∨
      ∃ t c out m', completes P (s, a) = some (t, c, out) ∧ ok c m ∧ P.Performs c m out m' ∧
        Guarded P ok m' s' := by
  cases ht with
  | call hp => exact Or.inl ⟨rfl, h.move (by simp [hp]) (by simp)⟩
  | @acquire t c hp hfree =>
    have hnobody : ∀ u d k, u ≠ t → s.phase u ≠ .inside d k := by
      intro u d k _ hu
      simp [(h.inside u d k hu).1] at hfree
    have hstart : Relation.ReflTransGen P.Access (P.entry c, m) (P.entry c, s.mem) := by
      rw [h.free hfree]
    have hokm : ok c m := by
      rw [← h.free hfree]
      exact hok t c rfl hp
    exact Or.inl ⟨rfl, guarded_inside hnobody hokm hstart⟩
  | @access t c l l' m' hp hn =>
    obtain ⟨hholder, hokm, hreach⟩ := h.inside t c l hp
    have hgo := guarded_inside (h.alone hholder) hokm (hreach.tail hn)
    rw [← hholder] at hgo
    exact Or.inl ⟨rfl, hgo⟩
  | @release t c l out hp hn =>
    obtain ⟨hholder, hokm, hreach⟩ := h.inside t c l hp
    refine Or.inr ⟨t, c, out, s.mem, by simp [completes, hp, hn], hokm, ⟨l, hreach, hn⟩, ?_⟩
    refine ⟨fun u d k hu => ?_, fun u hu => by simp at hu, fun _ => rfl⟩
    change Function.update s.phase t _ u = _ at hu
    by_cases hut : u = t
    · rw [hut, Function.update_self] at hu
      cases hu
    · rw [Function.update_of_ne hut] at hu
      exact absurd hu (h.alone hholder u d k hut)

section run

variable {m₀ : σ} {tr : List (State σ lam κ τ × Action κ τ)}

/-- Every run amounts to the calls that it has completed, one after the other. -/
theorem serial_of_run (hrun : Run (step P) (State.init m₀) tr s) (hok : Admits ok tr) :
    ∃ m, P.Serial ok m₀ (completed P tr) m ∧ Guarded P ok m s := by
  induction hrun with
  | nil =>
    refine ⟨m₀, .nil, ⟨fun t c l h => ?_, fun t h => ?_, fun _ => rfl⟩⟩
    · cases h
    · cases h
  | @snoc tr s a s' _ hs ih =>
    obtain ⟨m, hserial, hguard⟩ := ih fun x hx => hok x (List.mem_append_left _ hx)
    rw [completed_snoc]
    rcases guarded_step hguard (trans_of_step hs) (hok (s, a) (by simp)) with
        ⟨hnone, hguard'⟩ | ⟨t, c, out, m', hdone, hokm, hc, hguard'⟩
    · refine ⟨m, ?_, hguard'⟩
      rw [hnone]
      simpa using hserial
    · refine ⟨m', ?_, hguard'⟩
      rw [hdone]
      exact hserial.snoc hokm hc

omit [DecidableEq τ] in
theorem admits_true : Admits (fun _ _ => True) tr := fun _ _ _ _ _ _ => trivial

theorem mutual_exclusion (hrun : Run (step P) (State.init m₀) tr s) {t u : τ} {c d : κ}
    {l k : lam} (ht : s.phase t = .inside c l) (hu : s.phase u = .inside d k) : t = u := by
  obtain ⟨m, -, hguard⟩ := serial_of_run hrun admits_true
  exact Option.some.inj ((hguard.inside t c l ht).1.symm.trans (hguard.inside u d k hu).1)

/-- Between the calls the lock is free. -/
theorem free_of_idle (hrun : Run (step P) (State.init m₀) tr s)
    (hidle : ∀ t, s.phase t = .idle) : s.holder = none := by
  obtain ⟨m, -, hguard⟩ := serial_of_run hrun admits_true
  cases hholder : s.holder with
  | none => rfl
  | some t =>
    obtain ⟨c, l, hin⟩ := hguard.held t hholder
    rw [hidle t] at hin
    cases hin

/-! ## The calls of a thread -/

/-- The call that a step begins. -/
def calls (x : State σ lam κ τ × Action κ τ) : Option (τ × κ) :=
  match x.2 with
  | .call t c => some (t, c)
  | _ => none

/-- The calls that a run has begun. -/
def called (tr : List (State σ lam κ τ × Action κ τ)) : List (τ × κ) := tr.filterMap calls

/-- The call that a thread has begun and not completed. -/
def Phase.pending : Phase lam κ → List κ
  | .idle => []
  | .waiting c | .inside c _ => [c]

/-- The calls of one thread. -/
def ofThread (t : τ) (xs : List (τ × κ)) : List κ := (xs.filter fun x => x.1 = t).map Prod.snd

theorem ofThread_append (t : τ) (xs ys : List (τ × κ)) :
    ofThread t (xs ++ ys) = ofThread t xs ++ ofThread t ys := by simp [ofThread]

/-- Every thread has completed its calls in their order, up to the one that it is at. -/
theorem calls_eq (hrun : Run (step P) (State.init m₀) tr s) (t : τ) :
    ofThread t (called tr)
      = ofThread t ((completed P tr).map fun x => (x.1, x.2.1)) ++ (s.phase t).pending := by
  induction hrun with
  | nil => rfl
  | @snoc tr s a s' _ hs ih =>
    have hcalled : called (tr ++ [(s, a)]) = called tr ++ (calls (s, a)).toList := by
      rw [called, List.filterMap_append]
      cases h : calls (s, a) <;> simp [called, h]
    rw [hcalled, completed_snoc, ofThread_append, List.map_append, ofThread_append, ih,
      List.append_assoc, List.append_assoc]
    refine congrArg _ ?_
    -- what the step adds to the calls, it adds to the pending call or to the completed ones
    cases trans_of_step hs with
    | @call u c hp =>
      show _ = ofThread t [] ++ (Function.update s.phase u (.waiting c) t).pending
      by_cases htu : t = u
      · rw [htu, Function.update_self, hp]
        simp [calls, ofThread, Phase.pending]
      · rw [Function.update_of_ne htu]
        simp [calls, ofThread, Ne.symm htu]
    | @acquire u c hp hfree =>
      show _ = ofThread t [] ++ (Function.update s.phase u (.inside c (P.entry c)) t).pending
      by_cases htu : t = u
      · rw [htu, Function.update_self, hp]
        rfl
      · rw [Function.update_of_ne htu]
        simp [calls, ofThread]
    | @access u c l l' m hp hn =>
      show _ = ofThread t [] ++ (Function.update s.phase u (.inside c l') t).pending
      by_cases htu : t = u
      · rw [htu, Function.update_self, hp]
        rfl
      · rw [Function.update_of_ne htu]
        simp [calls, ofThread]
    | @release u c l out hp hn =>
      have hdone : completes P (s, .release u) = some (u, c, out) := by simp [completes, hp, hn]
      show _ = _ ++ (Function.update s.phase u .idle t).pending
      rw [hdone]
      by_cases htu : t = u
      · rw [htu, Function.update_self, hp]
        simp [calls, ofThread, Phase.pending]
      · rw [Function.update_of_ne htu]
        simp [calls, ofThread, Ne.symm htu]

/-- When no call is under way, the completed calls are those that were made. -/
theorem completed_perm [DecidableEq κ] (hrun : Run (step P) (State.init m₀) tr s)
    (hidle : ∀ t, s.phase t = .idle) :
    ((completed P tr).map fun x => (x.1, x.2.1)).Perm (called tr) := by
  refine List.perm_iff_count.mpr fun x => ?_
  have hcount : ∀ xs : List (τ × κ), xs.count x = (ofThread x.1 xs).count x.2 := by
    intro xs
    induction xs with
    | nil => rfl
    | cons y ys ih =>
      obtain ⟨t, c⟩ := x
      obtain ⟨u, d⟩ := y
      rw [List.count_cons, ih]
      by_cases htu : u = t
      · subst htu
        simp [ofThread, List.count_cons]
      · simp [ofThread, htu]
  have hcalls := calls_eq hrun x.1
  rw [hidle x.1] at hcalls
  rw [hcount, hcount, hcalls]
  simp [Phase.pending]

end run

end Mutex

end AioServer.Lib
