import AioServer.Linux.Step

/-!
# The Linux server: what a step can do

`MainTrans` and `ThreadTrans` list the transitions of the starting thread and of a worker, one
constructor for each; `trans_of_step` says that every step is one of them. Invariants are
proved by cases on these relations, so no proof looks into `step` again.
-/

namespace AioServer.Linux

open Lib

/-! ## Fields after an update -/

section fields

variable {s : State} {es : Events} {pc : MainPc} {a : Addr} {w : WorkerThread} {t : ThreadId}
  {th : Thread} {fd : Fd} {n : ℕ}

@[simp] theorem record_sv : (s.record es).sv = s.sv := rfl
@[simp] theorem record_nrProcs : (s.record es).nrProcs = s.nrProcs := rfl
@[simp] theorem record_main : (s.record es).main = s.main := rfl
@[simp] theorem record_workers : (s.record es).workers = s.workers := rfl
@[simp] theorem record_threads : (s.record es).threads = s.threads := rfl
@[simp] theorem record_eventfds : (s.record es).eventfds = s.eventfds := rfl
@[simp] theorem record_log : (s.record es).log = s.log ++ es := rfl
@[simp] theorem record_ready : (s.record es).ready = s.ready := rfl
@[simp] theorem record_crashed : (s.record es).crashed = s.crashed := rfl

theorem withWorker_eq_some {k : State → WorkerThread → Option State} {s' : State} :
    s.withWorker a k = some s' ↔
      s.workers a = none ∧ s' = { s.record [.use (.block a)] with crashed := true } ∨
        ∃ w, s.workers a = some w ∧ k (s.record [.use (.block a)]) w = some s' := by
  rw [State.withWorker]
  cases hw : s.workers a with
  | none => simp [hw, eq_comm]
  | some w => simp [hw]

end fields

/-! ## The starting thread -/

/-- The worker that the starting thread is about to touch. -/
def MainPc.touches (ws : List Addr) : MainPc → Option Addr
  | .pthreadCreate _ a | .destroy _ a => some a
  | .notify i _ | .cleanupWorker i => ws[i]?
  | _ => none

/-- The worker `a` is destroyed. -/
def State.destroyed (s : State) (a : Addr) (w : WorkerThread) (pc : MainPc) : State :=
  ({ s.record [.use (.block a)] with
    workers := Function.update s.workers a none }.record (workerThreadDestroy a w)).setMain pc

/-- The thread of the worker `a` is started. -/
def State.started (s : State) (l : ℕ) (a : Addr) (w : WorkerThread) : State :=
  ((((s.record [.use (.block a)]).setWorker a { w with
    wkReadyevent := s.sv.svThreadrdyEventfds
    wkThreadid := s.threads.length
    wkRollback := w.wkRollback + 1 }).spawn a).record
      [.acquire (.thread s.threads.length)]).setMain (.readStatus l a)

/-- The worker `a` is put into `sv_workers`. -/
def State.enlisted (s : State) (l : ℕ) (a : Addr) : State :=
  ({ s.setEventfd s.sv.svThreadrdyEventfds 0 with
    sv := { s.sv with svWorkers := s.sv.svWorkers ++ [a] } }.record
      [.use (.block s.sv.svWorkersArray)]).setMain (.create (l + 1))

/-- The worker `a` is told to quit. -/
def State.notified (s : State) (a : Addr) (w : WorkerThread) (pc : MainPc) : State :=
  let s := (s.record [.use (.block s.sv.svWorkersArray)]).record [.use (.block a)]
  (match eventfdWrite (s.eventfds w.wkTermsig) 1 with
    | none => s
    | some counter => s.setEventfd w.wkTermsig counter).setMain pc

section notified

variable {s : State} {a : Addr} {w : WorkerThread} {pc : MainPc}

@[simp] theorem notified_main : (s.notified a w pc).main = pc := rfl

@[simp] theorem notified_sv : (s.notified a w pc).sv = s.sv := by
  rw [State.notified]
  split <;> rfl

@[simp] theorem notified_workers : (s.notified a w pc).workers = s.workers := by
  rw [State.notified]
  split <;> rfl

@[simp] theorem notified_threads : (s.notified a w pc).threads = s.threads := by
  rw [State.notified]
  split <;> rfl

@[simp] theorem notified_crashed : (s.notified a w pc).crashed = s.crashed := by
  rw [State.notified]
  split <;> rfl

theorem notified_log : (s.notified a w pc).log
    = s.log ++ [.use (.block s.sv.svWorkersArray), .use (.block a)] := by
  rw [State.notified]
  split <;> exact List.append_assoc ..

end notified

/-- The transitions of the starting thread. -/
inductive MainTrans (s : State) : MainCall → State → Prop
  | eintr : MainTrans s .eintr s
  | initFails (o sv es) (hpc : s.main = .init) (hs : Setup o sv es none) :
    MainTrans s (.serverInit o) (({ s with sv := sv }.record es).setMain .cleanup)
  | init (o sv es n) (hpc : s.main = .init) (hs : Setup o sv es (some n)) :
    MainTrans s (.serverInit o)
      ((({ s with sv := sv, nrProcs := n }.record es).setEventfd sv.svThreadrdyEventfds 0).setMain
        (.create 0))
  | createFails (l o es) (hpc : s.main = .create l) (hl : l < s.nrProcs)
    (hc : workerThreadCreate (threadMsgqueue l) o = (none, es)) :
    MainTrans s (.workerThreadCreate o) ((s.record es).setMain (.create (l + 1)))
  | create (l o a w es) (hpc : s.main = .create l) (hl : l < s.nrProcs)
    (hc : workerThreadCreate (threadMsgqueue l) o = (some (a, w), es)) (ha : s.workers a = none) :
    MainTrans s (.workerThreadCreate o)
      ((((s.setWorker a w).record es).setEventfd w.wkTermsig 0).setMain (.pthreadCreate l a))
  | loopDone (l) (hpc : s.main = .create l) (hl : ¬ l < s.nrProcs) :
    MainTrans s .tau (s.setMain (if s.sv.svWorkers = [] then .cleanup else .epollWait))
  | start (l a w) (hpc : s.main = .pthreadCreate l a) (hw : s.workers a = some w) :
    MainTrans s (.pthreadCreate true) (s.started l a w)
  | startFails (l a w) (hpc : s.main = .pthreadCreate l a) (hw : s.workers a = some w) :
    MainTrans s (.pthreadCreate false)
      (((s.record [.use (.block a)]).setWorker a
        { w with wkReadyevent := s.sv.svThreadrdyEventfds }).setMain (.destroy l a))
  | readOk (l a) (hpc : s.main = .readStatus l a) (hr : s.ready = ThreadInitStatus.ok.value) :
    MainTrans s (.read true) (s.enlisted l a)
  | readFail (l a) (hpc : s.main = .readStatus l a) (h0 : s.ready ≠ 0)
    (hr : s.ready ≠ ThreadInitStatus.ok.value) :
    MainTrans s (.read true)
      ((s.setEventfd s.sv.svThreadrdyEventfds 0).setMain (.destroy l a))
  | readFails (l a) (hpc : s.main = .readStatus l a) :
    MainTrans s (.read false) (s.setMain (.destroy l a))
  | destroy (l a w) (hpc : s.main = .destroy l a) (hw : s.workers a = some w)
    (hj : w.wkRollback = 6 → s.Returned w) :
    MainTrans s .workerThreadDestroy (s.destroyed a w (.create (l + 1)))
  | epollFails (hpc : s.main = .epollWait) :
    MainTrans s (.epollWait none) (s.setMain .cleanup)
  | epollWait (events) (hpc : s.main = .epollWait) :
    MainTrans s (.epollWait (some events)) (s.setMain (.dispatch events))
  | quitSeen (events) (hpc : s.main = .dispatch events) (hq : s.sv.svQuitflag = true) :
    MainTrans s .tau (s.setMain .cleanup)
  | eventsDone (hpc : s.main = .dispatch []) (hq : s.sv.svQuitflag = false) :
    MainTrans s .tau (s.setMain .epollWait)
  | dispatch (fd events pc) (hpc : s.main = .dispatch (fd :: events))
    (hq : s.sv.svQuitflag = false)
    (hto : pc = .accept events ∨ pc = .notify 0 events ∨ pc = .dispatch events) :
    MainTrans s .tau (s.setMain pc)
  | acceptDone (events) (hpc : s.main = .accept events) :
    MainTrans s (.accept4 .again) (s.setMain (.dispatch events))
  | acceptFails (events) (hpc : s.main = .accept events) : MainTrans s (.accept4 .error) s
  | accept (events fd) (hpc : s.main = .accept events) :
    MainTrans s (.accept4 (.socket fd)) (s.record [.acquire (.fd fd)])
  | notify (i events a w) (hpc : s.main = .notify i events) (hi : s.sv.svWorkers[i]? = some a)
    (hw : s.workers a = some w) :
    MainTrans s .write (s.notified a w (.notify (i + 1) events))
  | notifyDone (i events) (hpc : s.main = .notify i events) (hi : ¬ i < s.sv.svWorkers.length) :
    MainTrans s .tau
      ({ s with sv := { s.sv with svQuitflag := true } }.setMain (.dispatch events))
  | cleanup (hpc : s.main = .cleanup) (hr : s.sv.svRollback = 5) :
    MainTrans s .tau (s.setMain (.cleanupWorker 0))
  | cleanupNone (hpc : s.main = .cleanup) (hr : s.sv.svRollback ≠ 5) :
    MainTrans s .tau ((s.record (serverCleanupRest s.sv)).setMain .exited)
  | cleanupWorker (i a w) (hpc : s.main = .cleanupWorker i) (hi : s.sv.svWorkers[i]? = some a)
    (hw : s.workers a = some w) (hj : w.wkRollback = 6 → s.Returned w) :
    MainTrans s .workerThreadDestroy
      ((s.record [.use (.block s.sv.svWorkersArray)]).destroyed a w (.cleanupWorker (i + 1)))
  | cleanupDone (i) (hpc : s.main = .cleanupWorker i) (hi : ¬ i < s.sv.svWorkers.length) :
    MainTrans s .tau ((s.record (serverCleanupRest s.sv)).setMain .exited)
  | crash (call a s') (ha : s.main.touches s.sv.svWorkers = some a) (hdead : s.workers a = none) :
    MainTrans s call s'

theorem destroyWorker_eq_some {s s' : State} {a : Addr} {pc : MainPc}
    (h : s.destroyWorker a pc = some s') :
    s.workers a = none ∨ ∃ w, s.workers a = some w ∧ (w.wkRollback = 6 → s.Returned w) ∧
      s' = s.destroyed a w pc := by
  rw [State.destroyWorker] at h
  rcases withWorker_eq_some.mp h with ⟨ha, -⟩ | ⟨w, hw, h⟩
  · exact Or.inl ha
  · split_ifs at h with hj
    cases h
    refine Or.inr ⟨w, hw, fun hr => ?_, rfl⟩
    by_contra hret
    exact hj ⟨hr, hret⟩

theorem mainTrans_of_mainStep {s s' : State} {call : MainCall}
    (h : mainStep s call = some s') : MainTrans s call s' := by
  unfold mainStep at h
  split at h
  case h_1 =>
    cases h
    exact .eintr
  case h_2 o hpc =>
    split at h
    · next sv es ho =>
      cases h
      exact .initFails o sv es hpc (setup_serverInitSetup ho)
    · next sv es n ho =>
      cases h
      exact .init o sv es n hpc (setup_serverInitSetup ho)
  case h_3 l o hpc =>
    split_ifs at h with hl
    split at h
    · next es ho =>
      cases h
      exact .createFails l o es hpc hl ho
    · next a w es ho =>
      split_ifs at h with ha
      cases h
      exact .create l o a w es hpc hl ho (by simpa using ha)
  case h_4 l hpc =>
    by_cases hl : l < s.nrProcs
    · rw [if_pos hl] at h
      cases h
    · rw [if_neg hl] at h
      cases h
      exact .loopDone l hpc hl
  case h_5 l a ok hpc =>
    rcases withWorker_eq_some.mp h with ⟨ha, -⟩ | ⟨w, hw, h⟩
    · exact .crash _ a _ (by rw [hpc]; rfl) ha
    cases ok with
    | true =>
      cases h
      exact .start l a w hpc hw
    | false =>
      cases h
      exact .startFails l a w hpc hw
  case h_6 l a ok hpc =>
    cases ok with
    | true =>
      simp only [true_and, if_true] at h
      split_ifs at h with h0 hr
      · cases h
        have hready : s.ready = ThreadInitStatus.ok.value := by
          by_contra hne
          simp [workerThreadStartResult, hne] at hr
        exact .readOk l a hpc hready
      · cases h
        have hready : s.ready ≠ ThreadInitStatus.ok.value := by
          intro heq
          simp [workerThreadStartResult, heq] at hr
        exact .readFail l a hpc h0 hready
    | false =>
      simp only [Bool.false_eq_true, false_and, if_false] at h
      rw [if_neg (by simp [workerThreadStartResult])] at h
      cases h
      exact .readFails l a hpc
  case h_7 l a hpc =>
    rcases destroyWorker_eq_some h with ha | ⟨w, hw, hj, rfl⟩
    · exact .crash _ a _ (by rw [hpc]; rfl) ha
    · exact .destroy l a w hpc hw hj
  case h_8 hpc =>
    cases h
    exact .epollFails hpc
  case h_9 events hpc =>
    cases h
    exact .epollWait events hpc
  case h_10 events hpc =>
    split_ifs at h with hq
    · cases h
      exact .quitSeen events hpc hq
    · split at h
      · cases h
        exact .eventsDone hpc (by simpa using hq)
      · next fd events =>
        cases h
        refine .dispatch fd events _ hpc (by simpa using hq) ?_
        split_ifs <;> simp
  case h_11 events hpc =>
    cases h
    exact .acceptDone events hpc
  case h_12 events hpc =>
    cases h
    exact .acceptFails events hpc
  case h_13 events fd hpc =>
    cases h
    exact .accept events fd hpc
  case h_14 i events hpc =>
    split at h
    · cases h
    · next a hi =>
      rcases withWorker_eq_some.mp h with ⟨ha, -⟩ | ⟨w, hw, h⟩
      · exact .crash _ a _ (by rw [hpc]; exact hi) ha
      · cases h
        exact .notify i events a w hpc hi hw
  case h_15 i events hpc =>
    split_ifs at h with hi
    cases h
    exact .notifyDone i events hpc hi
  case h_16 hpc =>
    split_ifs at h with hr
    · cases h
      exact .cleanup hpc hr
    · cases h
      exact .cleanupNone hpc hr
  case h_17 i hpc =>
    split at h
    · cases h
    · next a hi =>
      rcases destroyWorker_eq_some h with ha | ⟨w, hw, hj, rfl⟩
      · exact .crash _ a _ (by rw [hpc]; exact hi) ha
      · exact .cleanupWorker i a w hpc hi hw hj
  case h_18 i hpc =>
    split_ifs at h with hi
    cases h
    exact .cleanupDone i hpc hi
  case h_19 => cases h

/-! ## The workers -/

/-- The transitions of the thread `t` in the local state `th`. -/
inductive ThreadTrans (s : State) (t : ThreadId) (th : Thread) : ThreadCall → State → Prop
  | eintr : ThreadTrans s t th .eintr s
  | addTermsig (ok w) (hpc : th.pc = .addTermsig) (hw : s.workers th.arg = some w) :
    ThreadTrans s t th (.epollCtl ok) ((s.record [.use (.block th.arg)]).setThread t
      { th with pc := .addMessagequeue (if ok then 1 else 0) })
  | addMessagequeue (result ok w) (hpc : th.pc = .addMessagequeue result)
    (hw : s.workers th.arg = some w) :
    ThreadTrans s t th (.epollCtl ok) ((s.record [.use (.block th.arg)]).setThread t
      { th with pc := .report (if ok then result + 1 else result) })
  | report (result w counter) (hpc : th.pc = .report result) (hw : s.workers th.arg = some w)
    (hc : eventfdWrite (s.eventfds w.wkReadyevent) (initStatus result).value = some counter) :
    ThreadTrans s t th (.write true)
      (((s.record [.use (.block th.arg)]).setEventfd w.wkReadyevent counter).setThread t
        { th with
          pc := if result = 2 then .loop else .returned
          reported := some (initStatus result) })
  | reportFails (result w) (hpc : th.pc = .report result) (hw : s.workers th.arg = some w) :
    ThreadTrans s t th (.write false) ((s.record [.use (.block th.arg)]).setThread t
      { th with pc := if result = 2 then .loop else .returned })
  | quit (w) (hpc : th.pc = .loop) (hw : s.workers th.arg = some w) (hq : w.wkQuitflag = true) :
    ThreadTrans s t th .tau ((s.record [.use (.block th.arg)]).setThread t
      { th with pc := .returned })
  | epollFails (w) (hpc : th.pc = .loop) (hw : s.workers th.arg = some w)
    (hq : w.wkQuitflag = false) :
    ThreadTrans s t th (.epollWait none) ((s.record [.use (.block th.arg)]).setThread t
      { th with pc := .returned })
  | epollWait (w) (events : List WorkerEvent) (hpc : th.pc = .loop)
    (hw : s.workers th.arg = some w) (hq : w.wkQuitflag = false) :
    ThreadTrans s t th (.epollWait (some events)) ((s.record [.use (.block th.arg)]).setWorker
      th.arg { w with wkQuitflag := .signal ∈ events })
  | crash (call s') (hpc : th.pc ≠ .returned) (hdead : s.workers th.arg = none) :
    ThreadTrans s t th call s'

theorem threadTrans_of_threadStep {s s' : State} {t : ThreadId} {th : Thread} {call : ThreadCall}
    (h : threadStep s t th call = some s') : ThreadTrans s t th call s' := by
  unfold threadStep at h
  split at h
  case h_1 =>
    cases h
    exact .eintr
  case h_2 ok hpc =>
    rcases withWorker_eq_some.mp h with ⟨ha, -⟩ | ⟨w, hw, h⟩
    · exact .crash _ _ (by simp [hpc]) ha
    · cases h
      exact .addTermsig ok w hpc hw
  case h_3 result ok hpc =>
    rcases withWorker_eq_some.mp h with ⟨ha, -⟩ | ⟨w, hw, h⟩
    · exact .crash _ _ (by simp [hpc]) ha
    · cases h
      exact .addMessagequeue result ok w hpc hw
  case h_4 result ok hpc =>
    rcases withWorker_eq_some.mp h with ⟨ha, -⟩ | ⟨w, hw, h⟩
    · exact .crash _ _ (by simp [hpc]) ha
    · cases ok with
      | true =>
        simp only [if_true] at h
        split at h
        · cases h
        · next counter hc =>
          cases h
          exact .report result w counter hpc hw hc
      | false =>
        cases h
        exact .reportFails result w hpc hw
  case h_5 hpc =>
    rcases withWorker_eq_some.mp h with ⟨ha, -⟩ | ⟨w, hw, h⟩
    · exact .crash _ _ (by simp [hpc]) ha
    · split_ifs at h with hq
      cases h
      exact .quit w hpc hw hq
  case h_6 hpc =>
    rcases withWorker_eq_some.mp h with ⟨ha, -⟩ | ⟨w, hw, h⟩
    · exact .crash _ _ (by simp [hpc]) ha
    · split_ifs at h with hq
      cases h
      exact .epollFails w hpc hw (by simpa using hq)
  case h_7 events hpc =>
    rcases withWorker_eq_some.mp h with ⟨ha, -⟩ | ⟨w, hw, h⟩
    · exact .crash _ _ (by simp [hpc]) ha
    · split_ifs at h with hq hsig
      cases h
      exact .epollWait w events hpc hw (by simpa using hq)
  case h_8 => cases h

/-! ## The system -/

/-- The transitions of the system. -/
inductive Trans (s : State) : Action → State → Prop
  | main {call s'} (h : MainTrans s call s') : Trans s (.main call) s'
  | thread {t th call s'} (ht : s.threads[t]? = some th) (h : ThreadTrans s t th call s') :
    Trans s (.thread t call) s'

/-- Every step of a server that has not crashed is one of the listed transitions. -/
theorem trans_of_step {s s' : State} {a : Action} (h : step s a = some s') : Trans s a s' := by
  rw [step.eq_def] at h
  split_ifs at h
  cases a with
  | main call => exact .main (mainTrans_of_mainStep h)
  | thread t call =>
    cases ht : s.threads[t]? with
    | none => simp [ht] at h
    | some th => exact .thread ht (threadTrans_of_threadStep (by simpa [ht] using h))

end AioServer.Linux
