import AioServer.Lib.Fair
import AioServer.Linux.Accepted

/-!
# The Linux server: the start and the end come about

The starting thread waits for others at three places: for the status of a thread that it has
started, for clients, and for the threads that it joins. Here the threads run for ever, and
each one that can go on does so in the end.

* `State.awaits`: the thread that the starting thread waits for;
* `State.MainReady`, `State.ThreadReady`: a thread that can go on. It can then make a step
  (`exists_step_main`, `exists_step_thread`), so it is not stuck (`never_stuck`);
* `rank_main`, `rank_thread`: each step on the way brings the starting thread nearer to its aim;
* `eventually_atRest`: so it waits for clients in the end, or has left;
* `sigint_ends`: after SIGINT it leaves, when all its workers have returned.
-/

namespace AioServer.Linux

open Lib

variable {s s' : State}

/-! ## Threads that can go on -/

/-- The thread that `worker_thread_destroy` has to wait for. -/
def State.joins (s : State) (a : Addr) : Option ThreadId :=
  (s.workers a).bind fun w =>
    if w.wkRollback = 6 ∧ ¬ s.Returned w then some w.wkThreadid else none

/-- The thread that the starting thread waits for. -/
def State.awaits (s : State) : Option ThreadId :=
  match s.main with
  | .readStatus _ a => if s.ready = 0 then (s.workers a).map WorkerThread.wkThreadid else none
  | .destroy _ a => s.joins a
  | .cleanupWorker i => (s.sv.svWorkers[i]?).bind s.joins
  | _ => none

/-- The starting thread is neither done nor waiting. -/
def State.MainReady (s : State) : Prop :=
  s.main ≠ .exited ∧ s.main ≠ .epollWait ∧ s.awaits = none

/-- Thread `t` is neither done nor waiting for an event. -/
def State.ThreadReady (s : State) (t : ThreadId) : Prop :=
  ∃ th, s.threads[t]? = some th ∧ th.pc ≠ .returned ∧
    (th.pc = .loop → ∃ w, s.workers th.arg = some w ∧ (w.wkQuitflag = true ∨ s.Told w))

/-- The call is not interrupted, and an event of `wk_termsig` is among those of `epoll_wait`. -/
def ThreadCall.advances : ThreadCall → Bool
  | .eintr => false
  | .epollWait (some events) => .signal ∈ events
  | _ => true

def Action.byMain : Action → Prop
  | .main call => call ≠ .eintr
  | _ => False

def Action.byThread (t : ThreadId) : Action → Prop
  | .thread u call => u = t ∧ call.advances = true
  | _ => False

/-- The starting thread, or another one. -/
def State.Ready : Option ThreadId → State → Prop
  | none, s => s.MainReady
  | some t, s => s.ThreadReady t

def Action.By : Option ThreadId → Action → Prop
  | none, a => a.byMain
  | some t, a => a.byThread t

/-! ## The steps of the workers -/

/-- How many steps a thread has left, after it was told to quit. -/
def ThreadPc.work (quit : Bool) : ThreadPc → ℕ
  | .addTermsig => 5
  | .addMessagequeue _ => 4
  | .report _ => 3
  | .loop => if quit then 1 else 2
  | .returned => 0

def State.workOf (s : State) (t : ThreadId) : ℕ :=
  (s.threads[t]?).elim 0 fun th => th.pc.work ((s.workers th.arg).any WorkerThread.wkQuitflag)

/-- What a step of thread `t` does to the others, to the workers, and to its own work. -/
structure ThreadMoves (s s' : State) (t : ThreadId) (call : ThreadCall) : Prop where
  main : s'.main = s.main
  sv : s'.sv = s.sv
  nrProcs : s'.nrProcs = s.nrProcs
  others : ∀ u, u ≠ t → s'.threads[u]? = s.threads[u]? ∧ s'.workOf u = s.workOf u
  workers : ∀ a, (s'.workers a).map (fun w => (w.wkThreadid, w.wkRollback))
    = (s.workers a).map fun w => (w.wkThreadid, w.wkRollback)
  returned : ∀ w, s.Returned w → s'.Returned w
  advances : call.advances = true → s'.workOf t < s.workOf t
  stays : call.advances = false → s'.threads = s.threads ∧ s'.workOf t = s.workOf t

section thread

variable {t : ThreadId} {th th' : Thread} {call : ThreadCall} {w : WorkerThread}

theorem workOf_eq (ht : s.threads[t]? = some th) (hw : s.workers th.arg = some w) :
    s.workOf t = th.pc.work w.wkQuitflag := by
  rw [State.workOf, ht, Option.elim_some, hw]
  rfl

/-- A thread moves to another point. -/
theorem ThreadMoves.of_setThread (ht : s.threads[t]? = some th)
    (hthreads : s'.threads = s.threads.set t th') (hworkers : s'.workers = s.workers)
    (hmain : s'.main = s.main) (hsv : s'.sv = s.sv) (hprocs : s'.nrProcs = s.nrProcs)
    (hpc : th.pc ≠ .returned) (hw : s.workers th.arg = some w) (harg : th'.arg = th.arg)
    (hadv : call.advances = true)
    (hwork : th'.pc.work w.wkQuitflag < th.pc.work w.wkQuitflag) :
    ThreadMoves s s' t call := by
  have hlt : t < s.threads.length := (List.getElem?_eq_some_iff.mp ht).1
  have hself : s'.threads[t]? = some th' := by
    rw [hthreads]
    exact List.getElem?_set_self hlt
  refine ⟨hmain, hsv, hprocs, fun u hu => ?_, fun a => by rw [hworkers], fun v hv => ?_,
    fun _ => ?_, fun hno => absurd (hno.symm.trans hadv) (by simp)⟩
  · have hother : s'.threads[u]? = s.threads[u]? := by
      rw [hthreads]
      exact List.getElem?_set_ne (Ne.symm hu)
    exact ⟨hother, by rw [State.workOf, State.workOf, hother, hworkers]⟩
  · rw [State.Returned, hthreads]
    exact returned_set ht hpc hv
  · rw [workOf_eq ht hw, workOf_eq hself (by rw [hworkers, harg]; exact hw)]
    exact hwork

theorem threadMoves (h : Alive s) (ht : s.threads[t]? = some th)
    (hs : ThreadTrans s t th call s') : ThreadMoves s s' t call := by
  cases hs with
  | eintr =>
    exact ⟨rfl, rfl, rfl, fun _ _ => ⟨rfl, rfl⟩, fun _ => rfl, fun _ => id,
      fun hadv => (by cases hadv), fun _ => ⟨rfl, rfl⟩⟩
  | addTermsig ok w hpc hw =>
    exact .of_setThread ht rfl rfl rfl rfl rfl (by simp [hpc]) hw rfl rfl
      (by simp [hpc, ThreadPc.work])
  | addMessagequeue result ok w hpc hw =>
    exact .of_setThread ht rfl rfl rfl rfl rfl (by simp [hpc]) hw rfl rfl
      (by simp [hpc, ThreadPc.work])
  | report result w counter hpc hw hc =>
    refine .of_setThread ht rfl rfl rfl rfl rfl (by simp [hpc]) hw rfl rfl ?_
    rw [hpc]
    cases w.wkQuitflag <;> by_cases hr : result = 2 <;> simp [hr, ThreadPc.work]
  | reportFails result w hpc hw =>
    refine .of_setThread ht rfl rfl rfl rfl rfl (by simp [hpc]) hw rfl rfl ?_
    rw [hpc]
    cases w.wkQuitflag <;> by_cases hr : result = 2 <;> simp [hr, ThreadPc.work]
  | quit w hpc hw hq =>
    exact .of_setThread ht rfl rfl rfl rfl rfl (by simp [hpc]) hw rfl rfl
      (by simp [hpc, hq, ThreadPc.work])
  | epollFails w hpc hw hq =>
    exact .of_setThread ht rfl rfl rfl rfl rfl (by simp [hpc]) hw rfl rfl
      (by simp [hpc, hq, ThreadPc.work])
  | epollWait w events hpc hw hq =>
    have hself : Function.update s.workers th.arg
        (some { w with wkQuitflag := decide (.signal ∈ events) }) th.arg
        = some { w with wkQuitflag := decide (.signal ∈ events) } := Function.update_self ..
    refine ⟨rfl, rfl, rfl, fun u hu => ⟨rfl, ?_⟩, fun a => ?_, fun _ => id, fun hadv => ?_,
      fun hno => ⟨rfl, ?_⟩⟩
    · -- another thread that has not returned has another worker
      show (s.threads[u]?).elim 0 _ = (s.threads[u]?).elim 0 _
      cases hu' : s.threads[u]? with
      | none => rfl
      | some v =>
        by_cases hret : v.pc = .returned
        · simp [hret, ThreadPc.work]
        · obtain ⟨x, hx, hid, -⟩ := h.threads u v hu' hret
          obtain ⟨y, hy, hid', -⟩ := h.threads t th ht (by simp [hpc])
          have hne : v.arg ≠ th.arg := by
            intro heq
            rw [heq, hy] at hx
            obtain rfl := Option.some.inj hx
            exact hu (hid.symm.trans hid')
          show v.pc.work (Option.any _ (Function.update s.workers th.arg _ v.arg)) = _
          rw [Function.update_of_ne hne]
          rfl
    · show (Function.update s.workers th.arg _ a).map _ = _
      by_cases ha : a = th.arg
      · rw [ha, Function.update_self, hw]
        rfl
      · rw [Function.update_of_ne ha]
    · have hsig : .signal ∈ events := by simpa [ThreadCall.advances] using hadv
      rw [workOf_eq ht hw, workOf_eq (s := (s.record _).setWorker th.arg _) ht hself, hpc, hq]
      simp [hsig, ThreadPc.work]
    · have hsig : .signal ∉ events := by simpa [ThreadCall.advances] using hno
      rw [workOf_eq ht hw, workOf_eq (s := (s.record _).setWorker th.arg _) ht hself, hpc, hq]
      simp [hsig]
  | crash _ _ hpc hdead =>
    obtain ⟨w, hw, -⟩ := h.threads t th ht hpc
    rw [hdead] at hw
    cases hw

end thread

/-! ## Steps that are possible -/

section ready

variable {t : ThreadId} {a : Addr}

theorem joins_eq_none {w : WorkerThread} (hw : s.workers a = some w) :
    s.joins a = none ↔ (w.wkRollback = 6 → s.Returned w) := by
  rw [State.joins, hw]
  simp

/-- So has the starting thread. -/
theorem exists_step_main (ha : Alive s) (hready : s.MainReady) :
    ∃ call : MainCall, call ≠ .eintr ∧ (Action.main call).statusOk = true ∧
      (step s (.main call)).isSome := by
  obtain ⟨hexit, hwait, hawaits⟩ := hready
  have hstep : ∀ call, step s (.main call) = mainStep s call := by
    intro call
    simp only [step, ha.crashed, Bool.false_eq_true, if_false]
  have hlive : ∀ a, s.main.touches s.sv.svWorkers = some a → ∃ w, s.workers a = some w :=
    fun a htouch => Option.isSome_iff_exists.mp (ha.touches_isSome htouch)
  cases hpc : s.main with
  | init =>
    refine ⟨.serverInit ⟨⟨none, none, false, false⟩, none, false, false, none, false, false, none,
      none, none⟩, by simp, rfl, ?_⟩
    simp only [hstep, mainStep, hpc]
    rfl
  | create l =>
    by_cases hl : l < s.nrProcs
    · refine ⟨.workerThreadCreate ⟨none, none, none, none, none, none⟩, by simp, rfl, ?_⟩
      simp [hstep, mainStep, hpc, hl, workerThreadCreate]
    · exact ⟨.tau, by simp, rfl, by simp [hstep, mainStep, hpc, hl]⟩
  | pthreadCreate l a =>
    obtain ⟨w, hw⟩ := hlive a (by rw [hpc]; rfl)
    exact ⟨.pthreadCreate false, by simp, rfl,
      by simp [hstep, mainStep, hpc, State.withWorker, hw]⟩
  | readStatus l a =>
    have hmem : a ∈ s.live := by
      rw [State.live, hpc]
      exact List.mem_cons_self
    obtain ⟨w, hw⟩ := Option.isSome_iff_exists.mp ((ha.live_iff a).mpr hmem)
    have hready : s.ready ≠ 0 := by
      intro hzero
      rw [State.awaits, hpc] at hawaits
      simp [hzero, hw] at hawaits
    refine ⟨.read true, by simp, rfl, ?_⟩
    rw [step_read ha.crashed hpc, if_neg hready]
    split_ifs <;> rfl
  | destroy l a =>
    obtain ⟨w, hw⟩ := hlive a (by rw [hpc]; rfl)
    rw [State.awaits, hpc] at hawaits
    refine ⟨.workerThreadDestroy, by simp, rfl, ?_⟩
    simp only [hstep, mainStep, hpc, step_destroyWorker hw ((joins_eq_none hw).mp hawaits)]
    rfl
  | epollWait => exact absurd hpc hwait
  | dispatch events =>
    refine ⟨.tau, by simp, rfl, ?_⟩
    simp only [hstep, mainStep, hpc]
    split_ifs
    · rfl
    · cases events <;> rfl
  | accept events => exact ⟨.accept4 .again, by simp, rfl, by simp [hstep, mainStep, hpc]⟩
  | notify i events =>
    by_cases hi : i < s.sv.svWorkers.length
    · have hget := List.getElem?_eq_getElem hi
      obtain ⟨w, hw⟩ := hlive _ (by rw [hpc]; exact hget)
      refine ⟨.write, by simp, rfl, ?_⟩
      simp [hstep, mainStep, hpc, hget, State.withWorker, hw]
    · exact ⟨.tau, by simp, rfl, by simp [hstep, mainStep, hpc, hi]⟩
  | cleanup =>
    refine ⟨.tau, by simp, rfl, ?_⟩
    simp only [hstep, mainStep, hpc]
    split_ifs <;> rfl
  | cleanupWorker i =>
    by_cases hi : i < s.sv.svWorkers.length
    · have hget := List.getElem?_eq_getElem hi
      obtain ⟨w, hw⟩ := hlive _ (by rw [hpc]; exact hget)
      rw [State.awaits, hpc] at hawaits
      dsimp only at hawaits
      rw [hget] at hawaits
      have hj : w.wkRollback = 6 → s.Returned w := (joins_eq_none hw).mp hawaits
      have hdestroy : ∀ pc, (s.record [.use (.block s.sv.svWorkersArray)]).destroyWorker _ pc
          = some _ := fun pc => step_destroyWorker hw hj
      refine ⟨.workerThreadDestroy, by simp, rfl, ?_⟩
      simp only [hstep, mainStep, hpc, hget, hdestroy]
      rfl
    · exact ⟨.tau, by simp, rfl, by simp [hstep, mainStep, hpc, hi]⟩
  | exited => exact absurd hpc hexit

end ready

/-! ## The way of the starting thread -/

/-- The starting thread is neither with its clients nor done. Until a SIGINT the events that it
dispatches are those of its clients. -/
def State.Busy (s : State) : Prop :=
  match s.main with
  | .epollWait | .accept _ | .exited => False
  | .dispatch _ => s.sv.svQuitflag = true
  | _ => True

/-- It waits for clients, or is done. -/
def State.AtRest (s : State) : Prop := s.main = .epollWait ∨ s.main = .exited

/-- The stages of its way, with the workers that are left in each and the steps for one worker. -/
def MainPc.rank (procs workers : ℕ) : MainPc → ℕ ×ₗ ℕ ×ₗ ℕ
  | .init => toLex (6, toLex (0, 0))
  | .create l => toLex (5, toLex (procs - l, 3))
  | .pthreadCreate l _ => toLex (5, toLex (procs - l, 2))
  | .readStatus l _ => toLex (5, toLex (procs - l, 1))
  | .destroy l _ => toLex (5, toLex (procs - l, 0))
  | .notify i _ => toLex (4, toLex (workers - i, 0))
  | .dispatch _ => toLex (3, toLex (0, 0))
  | .cleanup => toLex (2, toLex (0, 0))
  | .cleanupWorker i => toLex (1, toLex (workers - i, 0))
  | .epollWait | .accept _ | .exited => toLex (0, toLex (0, 0))

def State.mainRank (s : State) : ℕ ×ₗ ℕ ×ₗ ℕ := s.main.rank s.nrProcs s.sv.svWorkers.length

/-- The way of the starting thread, and the work of the thread that it waits for. -/
def State.rank (s : State) : (ℕ ×ₗ ℕ ×ₗ ℕ) ×ₗ ℕ := toLex (s.mainRank, s.awaits.elim 0 s.workOf)

/-- A worker that is being started is one of those that `server_init` counts. -/
def State.Counting (s : State) : Prop :=
  ∀ l a, s.main = .pthreadCreate l a ∨ s.main = .readStatus l a ∨ s.main = .destroy l a →
    l < s.nrProcs

theorem counting_step {a : Action} (ha : Alive s) (h : s.Counting) (hs : step s a = some s') :
    s'.Counting := by
  cases trans_of_step hs with
  | thread ht hth =>
    have hmoves := threadMoves ha ht hth
    rw [State.Counting, hmoves.main, hmoves.nrProcs]
    exact h
  | main hm =>
    intro k b hk
    cases hm with
    | eintr => exact h k b hk
    | create l o a w es hpc hl hc hnew =>
      obtain ⟨rfl, -⟩ : l = k ∧ a = b := by simpa [State.setMain] using hk
      exact hl
    | start l a w hpc hw =>
      obtain ⟨rfl, -⟩ : l = k ∧ a = b := by simpa [State.started, State.setMain] using hk
      exact h l a (Or.inl hpc)
    | startFails l a w hpc hw =>
      obtain ⟨rfl, -⟩ : l = k ∧ a = b := by simpa [State.setMain] using hk
      exact h l a (Or.inl hpc)
    | readFail l a hpc h0 hr =>
      obtain ⟨rfl, -⟩ : l = k ∧ a = b := by simpa [State.setMain] using hk
      exact h l a (Or.inr (Or.inl hpc))
    | readFails l a hpc =>
      obtain ⟨rfl, -⟩ : l = k ∧ a = b := by simpa [State.setMain] using hk
      exact h l a (Or.inr (Or.inl hpc))
    | loopDone l hpc hl =>
      simp only [State.setMain] at hk
      split_ifs at hk <;> simp at hk
    | dispatch fd events pc hpc hq hto =>
      rcases hto with rfl | rfl | rfl <;> simp [State.setMain] at hk
    | acceptFails events hpc => simp [hpc] at hk
    | accept events fd hpc => simp [hpc] at hk
    | crash _ a _ htouch hdead => exact absurd hdead (ha.touches_ne_none htouch)
    | _ => simp [State.setMain, State.enlisted, State.destroyed] at hk

theorem counting_of_run {tr : List (State × Action)} (hrun : ServerRun tr s) : s.Counting := by
  have hboth : Alive s ∧ s.Counting := by
    refine hrun.invariant (I := fun s => Alive s ∧ s.Counting) ⟨alive_init, ?_⟩ ?_
    · rintro l a (h | h | h) <;> cases h
    · exact fun s a s' h hs => ⟨h.1.step hs, counting_step h.1 h.2 hs⟩
  exact hboth.2

/-- A step on the way, to the point `pc'`. -/
theorem busy_of_rank {pc : MainPc} (hpc : s.main = pc) (pc' : MainPc) (hpc' : s'.main = pc')
    (hbusy : s'.Busy)
    (hlt : pc'.rank s'.nrProcs s'.sv.svWorkers.length < pc.rank s.nrProcs s.sv.svWorkers.length) :
    s'.AtRest ∨ s'.Busy ∧ s'.mainRank < s.mainRank := by
  refine Or.inr ⟨hbusy, ?_⟩
  rw [State.mainRank, State.mainRank, hpc, hpc']
  exact hlt

/-- To the next worker. -/
theorem rank_create_lt {procs ws ws' l : ℕ} (hl : l < procs) {pc : MainPc}
    (hpc : pc = .create l ∨ ∃ a, pc = .readStatus l a ∨ pc = .destroy l a) :
    (MainPc.create (l + 1)).rank procs ws' < pc.rank procs ws := by
  have hfewer : procs - (l + 1) < procs - l := by omega
  rcases hpc with rfl | ⟨a, rfl | rfl⟩ <;> simp [MainPc.rank, Prod.Lex.toLex_lt_toLex, hfewer]

/-- On with the same worker. -/
theorem rank_worker_lt {procs ws ws' l : ℕ} {a : Addr} :
    (MainPc.pthreadCreate l a).rank procs ws' < (MainPc.create l).rank procs ws ∧
      (MainPc.readStatus l a).rank procs ws' < (MainPc.pthreadCreate l a).rank procs ws ∧
      (MainPc.destroy l a).rank procs ws' < (MainPc.pthreadCreate l a).rank procs ws ∧
      (MainPc.destroy l a).rank procs ws' < (MainPc.readStatus l a).rank procs ws := by
  simp [MainPc.rank, Prod.Lex.toLex_lt_toLex]

/-- Every step of the starting thread brings it on its way. -/
theorem rank_main {call : MainCall} (ha : Alive s) (hcount : s.Counting) (hbusy : s.Busy)
    (hs : MainTrans s call s') :
    call = .eintr ∧ s' = s ∨ s'.AtRest ∨ s'.Busy ∧ s'.mainRank < s.mainRank := by
  cases hs with
  | eintr => exact Or.inl ⟨rfl, rfl⟩
  | initFails o sv es hpc hset =>
    exact Or.inr (busy_of_rank hpc .cleanup rfl trivial
      (by simp [MainPc.rank, Prod.Lex.toLex_lt_toLex]))
  | init o sv es n hpc hset =>
    exact Or.inr (busy_of_rank hpc (.create 0) rfl trivial
      (by simp [MainPc.rank, Prod.Lex.toLex_lt_toLex]))
  | createFails l o es hpc hl hc =>
    exact Or.inr (busy_of_rank hpc (.create (l + 1)) rfl trivial
      (rank_create_lt hl (Or.inl rfl)))
  | create l o a w es hpc hl hc hnew =>
    exact Or.inr (busy_of_rank hpc (.pthreadCreate l a) rfl trivial rank_worker_lt.1)
  | loopDone l hpc hl =>
    by_cases hws : s.sv.svWorkers = []
    · exact Or.inr (busy_of_rank hpc .cleanup (if_pos hws)
        (by simp [State.Busy, State.setMain, hws])
        (by simp [MainPc.rank, Prod.Lex.toLex_lt_toLex]))
    · exact Or.inr (Or.inl (Or.inl (if_neg hws)))
  | start l a w hpc hw =>
    exact Or.inr (busy_of_rank hpc (.readStatus l a) rfl trivial rank_worker_lt.2.1)
  | startFails l a w hpc hw =>
    exact Or.inr (busy_of_rank hpc (.destroy l a) rfl trivial rank_worker_lt.2.2.1)
  | readOk l a hpc hready =>
    exact Or.inr (busy_of_rank hpc (.create (l + 1)) rfl trivial
      (rank_create_lt (hcount l a (Or.inr (Or.inl hpc))) (Or.inr ⟨a, Or.inl rfl⟩)))
  | readFail l a hpc h0 hready =>
    exact Or.inr (busy_of_rank hpc (.destroy l a) rfl trivial rank_worker_lt.2.2.2)
  | readFails l a hpc =>
    exact Or.inr (busy_of_rank hpc (.destroy l a) rfl trivial rank_worker_lt.2.2.2)
  | destroy l a w hpc hw hj =>
    exact Or.inr (busy_of_rank hpc (.create (l + 1)) rfl trivial
      (rank_create_lt (hcount l a (Or.inr (Or.inr hpc))) (Or.inr ⟨a, Or.inr rfl⟩)))
  | quitSeen events hpc hq =>
    exact Or.inr (busy_of_rank hpc .cleanup rfl trivial
      (by simp [MainPc.rank, Prod.Lex.toLex_lt_toLex]))
  | eventsDone hpc hq => simp [State.Busy, hpc, hq] at hbusy
  | dispatch fd events pc hpc hq hto => simp [State.Busy, hpc, hq] at hbusy
  | notify i events a w hpc hi hw =>
    have hlt : i < s.sv.svWorkers.length := (List.getElem?_eq_some_iff.mp hi).1
    have hfewer : s.sv.svWorkers.length - (i + 1) < s.sv.svWorkers.length - i := by omega
    exact Or.inr (busy_of_rank hpc (.notify (i + 1) events) notified_main (by simp [State.Busy])
      (by simp [MainPc.rank, Prod.Lex.toLex_lt_toLex, hfewer]))
  | notifyDone i events hpc hi =>
    exact Or.inr (busy_of_rank hpc (.dispatch events) rfl rfl
      (by simp [MainPc.rank, Prod.Lex.toLex_lt_toLex]))
  | cleanup hpc hr =>
    exact Or.inr (busy_of_rank hpc (.cleanupWorker 0) rfl trivial
      (by simp [MainPc.rank, Prod.Lex.toLex_lt_toLex]))
  | cleanupNone hpc hr => exact Or.inr (Or.inl (Or.inr rfl))
  | cleanupWorker i a w hpc hi hw hj =>
    have hlt : i < s.sv.svWorkers.length := (List.getElem?_eq_some_iff.mp hi).1
    have hfewer : s.sv.svWorkers.length - (i + 1) < s.sv.svWorkers.length - i := by omega
    exact Or.inr (busy_of_rank hpc (.cleanupWorker (i + 1)) rfl trivial
      (by simp [MainPc.rank, Prod.Lex.toLex_lt_toLex, State.destroyed, State.setMain, hfewer]))
  | cleanupDone i hpc hi => exact Or.inr (Or.inl (Or.inr rfl))
  | crash _ a _ htouch hdead => exact absurd hdead (ha.touches_ne_none htouch)
  | _ =>
    have hpc := ‹s.main = _›
    simp [State.Busy, hpc] at hbusy

/-! ## The threads on the way -/

section threads

variable {t : ThreadId} {th : Thread} {call : ThreadCall}

/-- The latest thread is behind those that have been started before. -/
theorem length_threads {old : List (Addr × Option ThreadInitStatus)}
    {x : Addr × Option ThreadInitStatus} (h : s.reports = old ++ [x]) :
    s.threads.length = old.length + 1 := by
  rw [← length_reports, h, List.length_append]
  rfl

/-- The only status that a thread can write is the one that is waited for. -/
theorem ready_thread (hh : Handshake s) (ht : s.threads[t]? = some th)
    (hs : ThreadTrans s t th call s') (ha : Alive s) :
    s'.ready = s.ready ∨ s.awaits = some t ∧ s'.awaits = none ∧ call.advances = true := by
  cases hs with
  | report result w counter hpc hw hc =>
    have hnone : th.reported = none := by
      have hth := hh.consistent th (List.mem_of_getElem? ht)
      rw [Thread.Consistent, hpc] at hth
      exact hth
    obtain ⟨l, hmain, old, v, hold, hlast, -, -, hzero, hv, hev, hid⟩ :=
      unread_of_report hh ht hnone
    obtain rfl : w = v := Option.some.inj (hw.symm.trans hv)
    have hpos : counter ≠ 0 := by
      have hsum := le_of_eventfdWrite hc
      have hvalue := (initStatus result).value_pos
      omega
    refine Or.inr ⟨?_, ?_, rfl⟩
    · rw [State.awaits, hmain]
      dsimp only
      rw [if_pos hzero, hw, Option.map_some]
      rw [Nat.succ.inj (hid.trans (length_threads hold)), hlast]
    · rw [State.awaits]
      simp only [State.setThread, State.setEventfd, record_main, hmain]
      refine if_neg ?_
      show Function.update s.eventfds w.wkReadyevent counter s.sv.svThreadrdyEventfds ≠ 0
      rw [← hev, Function.update_self]
      exact hpos
  | crash _ _ hpc hdead =>
    obtain ⟨w, hw, -⟩ := ha.threads t th ht hpc
    rw [hdead] at hw
    cases hw
  | _ => exact Or.inl rfl

/-- A thread that is joined is waited for until it returns. -/
theorem ThreadMoves.joins (h : ThreadMoves s s' t call) (a : Addr) :
    s'.joins a = s.joins a ∨ s.joins a = some t ∧ s'.joins a = none ∧ call.advances = true := by
  have hworker := h.workers a
  cases hw : s.workers a with
  | none =>
    rw [hw, Option.map_none, Option.map_eq_none_iff] at hworker
    refine Or.inl ?_
    rw [State.joins, State.joins, hw, hworker]
    rfl
  | some w =>
    rw [hw, Option.map_some, Option.map_eq_some_iff] at hworker
    obtain ⟨w', hw', hsame⟩ := hworker
    obtain ⟨hid, hr⟩ := Prod.mk.inj hsame
    have hret : s'.Returned w' ↔ s'.Returned w := by rw [State.Returned, State.Returned, hid]
    rw [State.joins, State.joins, hw, hw', Option.bind_some, Option.bind_some, hid, hr]
    by_cases hold : s.Returned w
    · exact Or.inl (by simp [hold, hret.mpr (h.returned w hold)])
    · by_cases hnew : s'.Returned w'
      · -- it has just returned, so it is the thread that moved
        have htid : w.wkThreadid = t := by
          by_contra hne
          rw [hret, State.Returned, (h.others _ hne).1] at hnew
          exact hold hnew
        have hadv : call.advances = true := by
          by_contra hno
          rw [hret, State.Returned, (h.stays (by simpa using hno)).1] at hnew
          exact hold hnew
        by_cases h6 : w.wkRollback = 6
        · exact Or.inr ⟨by simp [h6, hold, htid], by simp [hnew], hadv⟩
        · exact Or.inl (by simp [h6])
      · exact Or.inl (by simp [hold, hnew])

theorem awaits_thread (ha : Alive s) (hh : Handshake s) (ht : s.threads[t]? = some th)
    (hs : ThreadTrans s t th call s') :
    s'.awaits = s.awaits ∨ s.awaits = some t ∧ s'.awaits = none ∧ call.advances = true := by
  have hmoves := threadMoves ha ht hs
  rcases ready_thread hh ht hs ha with hready | hreport
  · have hmain := hmoves.main
    cases hpc : s.main with
    | readStatus l a =>
      rw [hpc] at hmain
      have hid := congrArg (Option.map Prod.fst) (hmoves.workers a)
      rw [Option.map_map, Option.map_map] at hid
      refine Or.inl ?_
      rw [State.awaits, State.awaits, hmain, hpc]
      dsimp only
      rw [hready]
      exact if_congr Iff.rfl hid rfl
    | destroy l a =>
      rw [hpc] at hmain
      rw [State.awaits, State.awaits, hmain, hpc]
      exact hmoves.joins a
    | cleanupWorker i =>
      rw [hpc] at hmain
      rw [State.awaits, State.awaits, hmain, hpc]
      dsimp only
      rw [hmoves.sv]
      cases s.sv.svWorkers[i]? with
      | none => exact Or.inl rfl
      | some a => exact hmoves.joins a
    | _ =>
      rw [hpc] at hmain
      exact Or.inl (by rw [State.awaits, State.awaits, hmain, hpc])
  · exact Or.inr hreport

/-- Every step of the thread that is waited for brings it nearer to its end; the others do
not matter. -/
theorem rank_thread (ha : Alive s) (hh : Handshake s) (ht : s.threads[t]? = some th)
    (hs : ThreadTrans s t th call s') :
    s'.rank < s.rank ∨ s'.rank = s.rank ∧ s'.awaits = s.awaits ∧
      ¬ (Action.thread t call).By s.awaits := by
  have hmoves := threadMoves ha ht hs
  have hmain : s'.mainRank = s.mainRank := by
    rw [State.mainRank, State.mainRank, hmoves.main, hmoves.nrProcs, hmoves.sv]
  have hdrop : s'.awaits.elim 0 s'.workOf < s.awaits.elim 0 s.workOf → s'.rank < s.rank :=
    fun h => Prod.Lex.toLex_lt_toLex.mpr (Or.inr ⟨hmain, h⟩)
  rcases awaits_thread ha hh ht hs with hsame | ⟨hbefore, hafter, hadv⟩
  · have hkeep : s'.awaits.elim 0 s'.workOf = s.awaits.elim 0 s.workOf → s'.rank = s.rank := by
      intro h
      rw [State.rank, State.rank, hmain, h]
    cases hu : s.awaits with
    | none => exact Or.inr ⟨hkeep (by rw [hsame, hu]; rfl), hu ▸ hsame, id⟩
    | some u =>
      by_cases hut : u = t
      · subst hut
        cases hadv : call.advances with
        | true => exact Or.inl (hdrop (by rw [hsame, hu]; exact hmoves.advances hadv))
        | false =>
          refine Or.inr ⟨hkeep (by rw [hsame, hu]; exact (hmoves.stays hadv).2), hu ▸ hsame, ?_⟩
          exact fun hby => absurd (hadv.symm.trans hby.2) (by simp)
      · refine Or.inr ⟨hkeep (by rw [hsame, hu]; exact (hmoves.others u hut).2), hu ▸ hsame, ?_⟩
        exact fun hby => hut hby.1.symm
  · refine Or.inl (hdrop ?_)
    rw [hbefore, hafter]
    exact Nat.zero_lt_of_lt (hmoves.advances hadv)

end threads

/-! ## The system on the way -/

/-- A step of the system while the starting thread is on its way. -/
theorem busy_step {a : Action} (ha : Alive s) (hh : Handshake s) (hcount : s.Counting)
    (hbusy : s.Busy) (hs : step s a = some s') :
    s'.AtRest ∨ s'.Busy ∧ (s'.rank < s.rank ∨
      s'.rank = s.rank ∧ s'.awaits = s.awaits ∧ ¬ a.By s.awaits) := by
  cases trans_of_step hs with
  | main hm =>
    rcases rank_main ha hcount hbusy hm with ⟨rfl, rfl⟩ | hrest | ⟨hbusy', hlt⟩
    · refine Or.inr ⟨hbusy, Or.inr ⟨rfl, rfl, ?_⟩⟩
      cases s'.awaits with
      | none => exact fun hby => hby rfl
      | some u => exact id
    · exact Or.inl hrest
    · exact Or.inr ⟨hbusy', Or.inl (Prod.Lex.toLex_lt_toLex.mpr (Or.inl hlt))⟩
  | thread ht hth =>
    have hmoves := threadMoves ha ht hth
    refine Or.inr ⟨?_, rank_thread ha hh ht hth⟩
    rw [State.Busy, hmoves.main, hmoves.sv]
    exact hbusy

/-- Whoever the starting thread waits for can go on. -/
theorem ready_of_busy (ha : Alive s) (hh : Handshake s) (hq : QuitInv s) (hbusy : s.Busy) :
    State.Ready s.awaits s := by
  -- a worker that is joined has its thread, which has not returned
  have hjoin : ∀ {a t}, s.joins a = some t → (∀ w, s.workers a = some w → s.Returned w ∨ s.Told w) →
      s.ThreadReady t := by
    intro a t ht hfin
    obtain ⟨w, hw, hcond⟩ := Option.bind_eq_some_iff.mp ht
    split_ifs at hcond with hrun
    obtain rfl := Option.some.inj hcond
    obtain ⟨th, hth, rfl⟩ := ha.joinable a w hw hrun.1
    have htold : s.Told w := (hfin w hw).resolve_left hrun.2
    refine ⟨th, hth, fun hpc => hrun.2 ?_, fun _ => ⟨w, hw, Or.inr htold⟩⟩
    rw [State.Returned, hth, Option.map_some, hpc]
  cases ht : s.awaits with
  | none =>
    refine ⟨fun hpc => ?_, fun hpc => ?_, ht⟩
    · rw [State.Busy, hpc] at hbusy
      exact hbusy
    · rw [State.Busy, hpc] at hbusy
      exact hbusy
  | some t =>
    show s.ThreadReady t
    rw [State.awaits] at ht
    split at ht
    · next l a hpc =>
      -- the thread has not written its status
      split_ifs at ht with hzero
      obtain ⟨old, st, w, hold, -, -, hcount, hw, -, hid⟩ :=
        (phase_readStatus hpc).mp hh.phase
      rw [hw] at ht
      obtain rfl := Option.some.inj ht
      have hlast : w.wkThreadid = old.length := Nat.succ.inj (hid.trans (length_threads hold))
      have hlt : w.wkThreadid < s.threads.length := by rw [← hid]; exact Nat.lt_succ_self _
      obtain ⟨th, hth⟩ : ∃ th, s.threads[w.wkThreadid]? = some th :=
        ⟨_, List.getElem?_eq_getElem hlt⟩
      have hreport := reports_getElem? hth
      rw [hold, hlast, List.getElem?_append_right (Nat.le_refl _), Nat.sub_self] at hreport
      obtain ⟨-, rfl⟩ : a = th.arg ∧ st = th.reported := by simpa using hreport
      have hnone : th.reported = none := by
        cases hst : th.reported with
        | none => rfl
        | some st =>
          rw [hzero, hst] at hcount
          exact absurd hcount.symm st.value_pos.ne'
      have hcons := hh.consistent th (List.mem_of_getElem? hth)
      rw [Thread.Consistent, hnone] at hcons
      refine ⟨th, hth, fun hret => ?_, fun hloop => ?_⟩
      · rw [hret] at hcons
        cases hcons
      · rw [hloop] at hcons
        cases hcons
    · next l a hpc =>
      exact hjoin ht fun w hw => by
        by_contra hno
        obtain ⟨v, hv, hcond⟩ := Option.bind_eq_some_iff.mp ht
        obtain rfl : w = v := Option.some.inj (hw.symm.trans hv)
        split_ifs at hcond with hrun
        exact hrun.2 (destroy_returned ha hh hpc hw hrun.1)
    · next i hpc =>
      obtain ⟨a, hi, hj⟩ := Option.bind_eq_some_iff.mp ht
      rw [QuitInv, hpc] at hq
      exact hjoin hj (hq a (List.mem_of_getElem? hi))
    · cases ht

/-- When the starting thread has left, no other thread runs. -/
theorem Alive.all_returned (h : Alive s) (hpc : s.main = .exited) :
    ∀ th ∈ s.threads, th.pc = .returned := by
  intro th hth
  obtain ⟨t, ht⟩ := List.mem_iff_getElem?.mp hth
  by_contra hrun
  obtain ⟨w, hw, -⟩ := h.threads t th ht hrun
  have hmem := (h.live_iff th.arg).mp (by simp [hw])
  rw [State.live, hpc] at hmem
  cases hmem

/-! ## Executions -/

section execution

variable {e : Execution step State.init}

/-- Every thread that can go on for ever goes on, and is told of its events. -/
structure FairThreads (e : Execution step State.init) : Prop where
  main : e.Fair State.MainReady Action.byMain
  thread : ∀ t, e.Fair (State.ThreadReady · t) (Action.byThread t)

/-- The statuses are written and read, and `epoll_wait` does not fail while a worker runs. -/
def Undisturbed (e : Execution step State.init) : Prop :=
  ∀ k a, e.label k = some a → a.statusOk = true ∧ ¬ StopsUntold (e.state k, a)

theorem FairThreads.party (h : FairThreads e) (i : Option ThreadId) :
    e.Fair (State.Ready i) (Action.By i) := by
  cases i with
  | none => exact h.main
  | some t => exact h.thread t

theorem alive_state (k : ℕ) : Alive (e.state k) := alive_of_run (e.run k)

theorem handshake_state (h : Undisturbed e) (k : ℕ) : Handshake (e.state k) := by
  refine handshake_of_run (e.run k) fun x hx => ?_
  obtain ⟨j, -, -, hl⟩ := e.mem_trace.mp hx
  exact (h j x.2 hl).1

theorem quitInv_state (h : Undisturbed e) (k : ℕ) : QuitInv (e.state k) := by
  refine quitInv_of_run (e.run k) fun ⟨s, a⟩ hx => ?_
  obtain ⟨j, -, rfl, hl⟩ := e.mem_trace.mp hx
  exact (h j a hl).2

/-- The starting thread gets to the end of its way. -/
theorem eventually_atRest (hfair : FairThreads e) (h : Undisturbed e) {k : ℕ}
    (hbusy : (e.state k).Busy) : ∃ j, k ≤ j ∧ (e.state j).AtRest := by
  by_contra hno
  have hrest : ∀ j, k ≤ j → ¬ (e.state j).AtRest := fun j hj hr => hno ⟨j, hj, hr⟩
  have hstep : ∀ j a, e.label j = some a → (e.state j).Busy → _ := fun j a hl hb =>
    busy_step (alive_state j) (handshake_state h j) (counting_of_run (e.run j)) hb (e.next j a hl)
  have hbusy' : ∀ j, k ≤ j → (e.state j).Busy := fun j hj =>
    e.stable hbusy (fun i a hi hl hb =>
      ((hstep i a hl hb).resolve_left (hrest _ (Nat.le_succ_of_le hi))).1) hj
  refine hno (Execution.eventually_of_helpful hfair.party State.rank State.awaits State.AtRest
    (fun j hj _ => ?_) fun j a hj hl _ hr => ?_)
  · exact ready_of_busy (alive_state j) (handshake_state h j) (quitInv_state h j) (hbusy' j hj)
  · exact ((hstep j a hl (hbusy' j hj)).resolve_left hr).2

/-- The start comes to an end: the starting thread gets to its clients, when every thread that
was started has reported and `sv_workers` are those that succeeded, or it leaves. -/
theorem start_ends (hfair : FairThreads e) (h : Undisturbed e) :
    ∃ k, (e.state k).main = .epollWait ∧ (e.state k).AllRead ∨
      (e.state k).main = .exited ∧ ∀ th ∈ (e.state k).threads, th.pc = .returned := by
  have hbusy : (e.state 0).Busy := by
    rw [e.start]
    trivial
  obtain ⟨k, -, hwait | hexit⟩ := eventually_atRest hfair h hbusy
  · have hphase := (handshake_state h k).phase
    rw [State.Phase, hwait] at hphase
    exact ⟨k, Or.inl ⟨hwait, hphase⟩⟩
  · exact ⟨k, Or.inr ⟨hexit, (alive_state k).all_returned hexit⟩⟩

end execution

/-- One worker is started, a client connects, and SIGINT arrives. -/
def connectedAndStopped : List Action :=
  startOne ++ [.main (.epollWait (some [3, 5])), .main .tau, .main (.accept4 (.socket 20)),
    .main (.accept4 .again), .main .tau, .main .write, .main .tau, .main .tau, .main .tau,
    .thread 0 (.epollWait (some [.signal])), .thread 0 .tau, .main .workerThreadDestroy,
    .main .tau]

theorem exists_stopped : ∃ e : Execution step State.init, FairThreads e ∧ Undisturbed e ∧
    ∃ k i events, (e.state k).main = .notify i events := by
  obtain ⟨tr, t, hexec, hpc, hret, x, hx, i, events, hnotify⟩ : ∃ tr t,
      exec step State.init connectedAndStopped = some (tr, t) ∧ t.main = .exited ∧
        (∀ th ∈ t.threads, th.pc = .returned) ∧ ∃ x ∈ tr, ∃ i events, x.1.main = .notify i events :=
    ⟨_, _, rfl, rfl, by decide, _, List.mem_of_getElem? (i := 13) rfl, 0, [], rfl⟩
  obtain ⟨e, hlabel, hstate, htrace⟩ := exists_execution hexec
  have hmem : ∀ k a, e.label k = some a → a ∈ connectedAndStopped := fun k a hl =>
    List.mem_of_getElem? ((hlabel k).symm.trans hl)
  refine ⟨e, ⟨?_, fun t => ?_⟩, fun k a hl => ⟨?_, fun hstop => ?_⟩, ?_⟩
  -- in the end no thread is ready
  · refine Execution.fair_of_rest (k := connectedAndStopped.length) fun j hj hready => ?_
    rw [hstate j hj] at hready
    exact hready.1 hpc
  · refine Execution.fair_of_rest (k := connectedAndStopped.length) fun j hj hready => ?_
    rw [hstate j hj] at hready
    obtain ⟨th, hth, hrun, -⟩ := hready
    exact hrun (hret th (List.mem_of_getElem? hth))
  · exact (show ∀ a ∈ connectedAndStopped, a.statusOk = true by decide) a (hmem k a hl)
  · exact (show ∀ a ∈ connectedAndStopped, a ≠ .main (.epollWait none) by decide) a (hmem k a hl)
      hstop.1
  · rw [← htrace] at hx
    obtain ⟨j, -, hs, -⟩ := e.mem_trace.mp hx
    exact ⟨j, i, events, by rw [hs, hnotify]⟩

theorem start_ends_one : ∃ e : Execution step State.init,
    ∃ k, (e.state k).main = .epollWait ∧ (e.state k).AllRead ∨
      (e.state k).main = .exited ∧ ∀ th ∈ (e.state k).threads, th.pc = .returned := by
  obtain ⟨e, hfair, h, -⟩ := exists_stopped
  exact ⟨e, start_ends hfair h⟩

end AioServer.Linux
