import AioServer.Lib.Lts
import AioServer.Linux.Clients
import AioServer.Linux.Eintr

/-!
# The Linux server: closing descriptors

`client_create`, `client_destroy`, `worker_thread_create`, `worker_thread_destroy` and
`worker_thread_handle_msgqueue_event` close descriptors through `HANDLE_EINTR_ON_SYSCALL`.
On Linux a `close` that fails with `EINTR` has released its number, which the next `open`,
`accept4` or `eventfd` of any thread may get.

* `State` is the table of descriptors of the process with the threads that open descriptors
  and close their own, `step` what one of them does next;
* `SafeCloses`: what the owners of descriptors rely on;
* `closes_safe`: it holds as long as no number is handed out again whose `close` is repeated;
* `reuse_exposes`: otherwise the repeated `close` may come next, and hit another owner.
-/

namespace AioServer.Linux.Descriptors

open Lib

/-! ## The data -/

/-- A thread. -/
abbrev ThreadId := ℕ

/-- An open descriptor, told from all others by its serial number. -/
structure Descriptor where
  serial : ℕ
  owner : ThreadId
deriving DecidableEq, Repr

/-- A thread, which may be in the loop of `HANDLE_EINTR_ON_SYSCALL(close(fd))` for a
descriptor of its own. -/
inductive ThreadPc
  | running
  | closing (fd : Fd) (own : Descriptor)
deriving DecidableEq, Repr

/-- The process. `released` is the history of the calls that released a descriptor, with the
thread that made it, and `closed` that of the loops that were left. -/
structure State where
  table : Fd → Option Descriptor
  next : ℕ
  threads : ThreadId → ThreadPc
  released : List (ThreadId × Descriptor)
  closed : List Descriptor

/-- No descriptor is open. -/
def State.init : State where
  table := fun _ => none
  next := 0
  threads := fun _ => .running
  released := []
  closed := []

/-- `open` stands for every call that returns a new descriptor; `close` is one call in the
loop, with its result. -/
inductive Action
  | open (t : ThreadId) (fd : Fd)
  | enter (t : ThreadId) (fd : Fd)
  | close (t : ThreadId) (r : SysResult Unit)
deriving DecidableEq

/-! ## The steps -/

/-- The loop is left unless the call was interrupted. -/
def State.afterCall (s : State) (t : ThreadId) (own : Descriptor) (r : SysResult Unit) : State :=
  if interrupted r then s
  else { s with threads := Function.update s.threads t .running, closed := own :: s.closed }

/-- The system releases a number. -/
def State.release (s : State) (t : ThreadId) (fd : Fd) (d : Descriptor) : State :=
  { s with table := Function.update s.table fd none, released := (t, d) :: s.released }

/-- One step; `none` if it cannot happen. -/
def step (s : State) (a : Action) : Option State :=
  match a with
  | .open t fd =>
    if s.threads t = .running ∧ s.table fd = none then
      some { s with table := Function.update s.table fd (some ⟨s.next, t⟩), next := s.next + 1 }
    else none
  | .enter t fd =>
    match s.threads t, s.table fd with
    | .running, some d =>
      if d.owner = t then
        some { s with threads := Function.update s.threads t (.closing fd d) }
      else none
    | _, _ => none
  | .close t r =>
    match s.threads t with
    | .running => none
    | .closing fd own =>
      match s.table fd with
      | none => if r = .error ebadf then some (s.afterCall t own r) else none
      -- whatever else the result, the number is released
      | some d =>
        if r = .error ebadf then none else some ((s.release t fd d).afterCall t own r)

/-- What a step does. -/
theorem step_cases {s s' : State} {a : Action} (h : step s a = some s') :
    (∃ t fd, a = .open t fd ∧ s.threads t = .running ∧ s.table fd = none ∧
      s' = { s with
        table := Function.update s.table fd (some ⟨s.next, t⟩), next := s.next + 1 }) ∨
    (∃ t fd d, a = .enter t fd ∧ s.threads t = .running ∧ s.table fd = some d ∧ d.owner = t ∧
      s' = { s with threads := Function.update s.threads t (.closing fd d) }) ∨
    (∃ t fd own, s.threads t = .closing fd own ∧ s.table fd = none ∧
      s' = s.afterCall t own (.error ebadf)) ∨
    ∃ t fd own d r, s.threads t = .closing fd own ∧ s.table fd = some d ∧
      s' = (s.release t fd d).afterCall t own r := by
  cases a with
  | «open» t fd =>
    simp only [step] at h
    split_ifs at h with hif
    exact Or.inl ⟨t, fd, rfl, hif.1, hif.2, (Option.some.inj h).symm⟩
  | enter t fd =>
    simp only [step] at h
    split at h
    case h_1 d ht hd =>
      split_ifs at h with howner
      exact Or.inr (Or.inl ⟨t, fd, d, rfl, ht, hd, howner, (Option.some.inj h).symm⟩)
    case h_2 => cases h
  | close t r =>
    simp only [step] at h
    cases ht : s.threads t with
    | running => simp [ht] at h
    | closing fd own =>
      cases hd : s.table fd with
      | none =>
        simp only [ht, hd] at h
        split_ifs at h with hr
        subst hr
        exact Or.inr (Or.inr (Or.inl ⟨t, fd, own, ht, hd, (Option.some.inj h).symm⟩))
      | some d =>
        simp only [ht, hd] at h
        split_ifs at h with hr
        exact Or.inr (Or.inr (Or.inr ⟨t, fd, own, d, r, ht, hd, (Option.some.inj h).symm⟩))

/-! ## What the owners rely on -/

/-- How often a descriptor was released. -/
def State.releases (s : State) (d : Descriptor) : ℕ := s.released.countP fun x => x.2 = d

/-- Nobody's descriptor is closed by another thread, and one that its owner has closed was
released once. -/
structure SafeCloses (s : State) : Prop where
  own : ∀ x ∈ s.released, x.2.owner = x.1
  once : ∀ d ∈ s.closed, s.releases d = 1

/-- The step hands out a number whose `close` a thread is going to make again. -/
def Reuses (x : State × Action) : Prop :=
  ∃ t fd u own, x.2 = .open t fd ∧ x.1.threads u = .closing fd own

/-- The descriptor that a loop is for is open, or was released by this loop. -/
def State.Pending (s : State) (fd : Fd) (own : Descriptor) : Prop :=
  s.table fd = some own ∨ s.table fd = none ∧ s.releases own = 1

/-- The invariant of the runs that reuse no number. -/
structure Inv (s : State) : Prop extends SafeCloses s where
  tableFresh : ∀ fd d, s.table fd = some d → d.serial < s.next ∧ s.releases d = 0
  tableInj : ∀ fd fd' d, s.table fd = some d → s.table fd' = some d → fd = fd'
  releasedFresh : ∀ x ∈ s.released, x.2.serial < s.next
  pending : ∀ t fd own, s.threads t = .closing fd own → own.owner = t ∧ s.Pending fd own

section steps

variable {s : State} {t : ThreadId} {fd : Fd} {own d : Descriptor}

@[simp] theorem releases_release (e : Descriptor) :
    (s.release t fd d).releases e = s.releases e + if d = e then 1 else 0 := by
  simp [State.release, State.releases, List.countP_cons]

theorem releases_eq_zero (h : ∀ x ∈ s.released, x.2.serial < s.next) :
    s.releases ⟨s.next, t⟩ = 0 := by
  refine List.countP_eq_zero.mpr fun x hx heq => ?_
  have hlt := h x hx
  rw [of_decide_eq_true heq] at hlt
  exact Nat.lt_irrefl _ hlt

theorem inv_init : Inv State.init := by
  refine ⟨⟨?_, ?_⟩, ?_, ?_, ?_, ?_⟩ <;> simp [State.init]

/-- A new descriptor does not come where one is still to be closed. -/
theorem Inv.open (hI : Inv s) (hfree : s.table fd = none)
    (hP : ∀ u own, s.threads u ≠ .closing fd own) :
    Inv { s with
      table := Function.update s.table fd (some ⟨s.next, t⟩), next := s.next + 1 } := by
  have hnew : ∀ {fd' d}, s.table fd' = some d → d ≠ ⟨s.next, t⟩ := by
    rintro fd' d hd rfl
    exact Nat.lt_irrefl _ (hI.tableFresh fd' _ hd).1
  refine ⟨⟨hI.own, hI.once⟩, fun fd' d hd => ?_, fun fd₁ fd₂ d h₁ h₂ => ?_,
    fun x hx => Nat.lt_succ_of_lt (hI.releasedFresh x hx), fun u fd' own hu => ?_⟩
  · simp only [Function.update_apply] at hd
    split_ifs at hd with heq
    · obtain rfl := Option.some.inj hd
      exact ⟨Nat.lt_succ_self _, releases_eq_zero hI.releasedFresh⟩
    · obtain ⟨hlt, hzero⟩ := hI.tableFresh fd' d hd
      exact ⟨Nat.lt_succ_of_lt hlt, hzero⟩
  · simp only [Function.update_apply] at h₁ h₂
    split_ifs at h₁ h₂ with heq₁ heq₂ heq₂
    · rw [heq₁, heq₂]
    · exact absurd (Option.some.inj h₁).symm (hnew h₂)
    · exact absurd (Option.some.inj h₂).symm (hnew h₁)
    · exact hI.tableInj fd₁ fd₂ d h₁ h₂
  · have hne : fd' ≠ fd := by
      rintro rfl
      exact hP u own hu
    obtain ⟨howner, hpend⟩ := hI.pending u fd' own hu
    refine ⟨howner, ?_⟩
    unfold State.Pending at hpend ⊢
    simp only [Function.update_of_ne hne]
    exact hpend

/-- A thread enters the loop for a descriptor of its own. -/
theorem Inv.enter (hI : Inv s) (hd : s.table fd = some d) (howner : d.owner = t) :
    Inv { s with threads := Function.update s.threads t (.closing fd d) } := by
  refine ⟨⟨hI.own, hI.once⟩, hI.tableFresh, hI.tableInj, hI.releasedFresh,
    fun u fd' own hu => ?_⟩
  simp only [Function.update_apply] at hu
  split_ifs at hu with heq
  · obtain ⟨rfl, rfl⟩ : fd = fd' ∧ d = own := by simpa using hu
    exact ⟨howner.trans heq.symm, Or.inl hd⟩
  · exact hI.pending u fd' own hu

/-- The loop is left or not, when its descriptor has been released. -/
theorem Inv.afterCall (hI : Inv s) (hone : s.releases own = 1) (r : SysResult Unit) :
    Inv (s.afterCall t own r) := by
  unfold State.afterCall
  split_ifs
  · exact hI
  · refine ⟨⟨hI.own, fun d hd => ?_⟩, hI.tableFresh, hI.tableInj, hI.releasedFresh,
      fun u fd' own' hu => ?_⟩
    · rcases List.mem_cons.mp hd with rfl | hd
      · exact hone
      · exact hI.once d hd
    · simp only [Function.update_apply] at hu
      split_ifs at hu
      exact hI.pending u fd' own' hu

/-- A thread releases its own descriptor. -/
theorem Inv.release (hI : Inv s) (ht : s.threads t = .closing fd own)
    (hd : s.table fd = some own) : Inv (s.release t fd own) := by
  obtain ⟨hlt, hzero⟩ := hI.tableFresh fd own hd
  obtain ⟨howner, -⟩ := hI.pending t fd own ht
  -- what was released before is another descriptor
  have hkeep : ∀ e, s.releases e = 1 → (s.release t fd own).releases e = 1 := by
    intro e he
    have hne : own ≠ e := by
      rintro rfl
      omega
    rw [releases_release, he, if_neg hne]
  refine ⟨⟨fun x hx => ?_, fun e he => hkeep e (hI.once e he)⟩, fun fd' e he => ?_,
    fun fd₁ fd₂ e h₁ h₂ => ?_, fun x hx => ?_, fun u fd' own' hu => ?_⟩
  · rcases List.mem_cons.mp hx with rfl | hx
    · exact howner
    · exact hI.own x hx
  · simp only [State.release, Function.update_apply] at he
    split_ifs at he with heq
    obtain ⟨helt, hezero⟩ := hI.tableFresh fd' e he
    have hne : own ≠ e := by
      rintro rfl
      exact heq (hI.tableInj fd' fd own he hd)
    exact ⟨helt, by rw [releases_release, hezero, if_neg hne]⟩
  · simp only [State.release, Function.update_apply] at h₁ h₂
    split_ifs at h₁ h₂
    exact hI.tableInj fd₁ fd₂ e h₁ h₂
  · rcases List.mem_cons.mp hx with rfl | hx
    · exact hlt
    · exact hI.releasedFresh x hx
  · obtain ⟨howner', hpend⟩ := hI.pending u fd' own' hu
    refine ⟨howner', ?_⟩
    by_cases heq : fd' = fd
    · -- only `t` is closing this number
      subst heq
      obtain hopen | ⟨hnone, -⟩ := hpend
      · obtain rfl : own = own' := Option.some.inj (hd.symm.trans hopen)
        exact Or.inr ⟨by simp [State.release], by simp [hzero]⟩
      · rw [hd] at hnone
        cases hnone
    · have htable : (s.release t fd own).table fd' = s.table fd' := by
        simp [State.release, Function.update_of_ne heq]
      obtain hopen | ⟨hnone, hone⟩ := hpend
      · exact Or.inl (htable.trans hopen)
      · exact Or.inr ⟨htable.trans hnone, hkeep own' hone⟩

theorem Inv.step {s' : State} {a : Action} (hI : Inv s) (hP : ¬ Reuses (s, a))
    (h : Descriptors.step s a = some s') : Inv s' := by
  obtain ⟨t, fd, rfl, -, hfree, rfl⟩ | ⟨t, fd, d, rfl, -, hd, howner, rfl⟩ |
    ⟨t, fd, own, ht, hnone, rfl⟩ | ⟨t, fd, own, d, r, ht, hd, rfl⟩ := step_cases h
  · exact hI.open hfree fun u own hu => hP ⟨t, fd, u, own, rfl, hu⟩
  · exact hI.enter hd howner
  · obtain ⟨-, hopen | ⟨-, hone⟩⟩ := hI.pending t fd own ht
    · rw [hnone] at hopen
      cases hopen
    · exact hI.afterCall hone _
  · obtain ⟨-, hopen | ⟨hnone, -⟩⟩ := hI.pending t fd own ht
    · obtain rfl : d = own := Option.some.inj (hd.symm.trans hopen)
      have hzero := (hI.tableFresh fd d hd).2
      exact (hI.release ht hd).afterCall (by simp [hzero]) r
    · rw [hd] at hnone
      cases hnone

end steps

/-! ## Runs -/

/-- If no number is handed out whose `close` is still to be repeated, every descriptor is
released by its owner and once. -/
theorem closes_safe {tr : List (State × Action)} {s : State} (h : Run step State.init tr s)
    (hP : ∀ x ∈ tr, ¬ Reuses x) : SafeCloses s := by
  have hI : Inv s := h.invariant_of hP inv_init fun s a s' hI hPa hs => hI.step hPa hs
  exact hI.toSafeCloses

/-- Where a number is handed out too early, the repeated `close` can come next, and releases
the descriptor of another thread. -/
theorem reuse_exposes {s s' : State} {a : Action} (hreuse : Reuses (s, a))
    (h : step s a = some s') : ∃ u s'', step s' (.close u (.ok ())) = some s'' ∧
      ¬ SafeCloses s'' := by
  obtain ⟨t, fd, u, own, ha, hu⟩ := hreuse
  obtain rfl : a = .open t fd := ha
  simp only [step] at h
  split_ifs at h with hif
  obtain rfl := Option.some.inj h
  have htu : t ≠ u := by
    rintro rfl
    have hrun := hif.1
    rw [hu] at hrun
    cases hrun
  have hclosing : s.threads u = .closing fd own := hu
  refine ⟨u, _, by simp only [step, hclosing, Function.update_self]; rfl, fun hsafe => ?_⟩
  have howner := hsafe.own (u, ⟨s.next, t⟩)
    (by simp [State.afterCall, State.release, interrupted])
  exact htu howner

/-- An interrupted `close` whose number nobody gets. -/
theorem closes_safe_interrupted : ∃ tr s, Run step State.init tr s ∧ s.closed ≠ [] ∧
    SafeCloses s := by
  have hrun : ∃ tr s, Run step State.init tr s ∧ s.closed ≠ [] ∧ ∀ x ∈ tr, ¬ Reuses x := by
    refine ⟨_, _, run_of_exec (show exec step State.init [.open 0 3, .enter 0 3,
      .close 0 (.error eintr), .close 0 (.error ebadf)] = some (_, _) from rfl), ?_, ?_⟩
    · exact List.cons_ne_nil _ _
    · simp [Reuses, State.init]
  obtain ⟨tr, s, hrun, hclosed, hP⟩ := hrun
  exact ⟨tr, s, hrun, hclosed, closes_safe hrun hP⟩

/-- The number of an interrupted `close` is given to another thread, and closed again. -/
theorem closes_other_owner : ¬ ∀ tr s, Run step State.init tr s → SafeCloses s := by
  intro h
  have hsafe := h _ _ (run_of_exec (show exec step State.init [.open 0 3, .enter 0 3,
    .close 0 (.error eintr), .open 1 3, .close 0 (.ok ())] = some (_, _) from rfl))
  have howner := hsafe.own (0, ⟨1, 1⟩) List.mem_cons_self
  cases howner

end AioServer.Linux.Descriptors
