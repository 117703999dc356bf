import AioServer.Linux.Alive

/-!
# The Linux server: telling the workers to quit

`server_dispatch_event` writes to `wk_termsig` of every worker when SIGINT arrives, and
`server_cleanup` then joins them. `server_start_accepting_clients` also returns when
`epoll_wait` fails, and then nobody has told the workers.

* `Finishing`: a worker has been told, or its thread has returned;
* `joinsTold_of_run`: as long as `epoll_wait` does not fail while a worker runs, every worker
  that is joined is finishing.
-/

namespace AioServer.Linux

open Lib

variable {s s' : State}

/-! ## Finishing workers -/

/-- The counter of `wk_termsig` starts at 0 and nobody reads it: it is positive from the first
write on. -/
def State.Told (s : State) (w : WorkerThread) : Prop := 0 < s.eventfds w.wkTermsig

instance (s : State) (w : WorkerThread) : Decidable (s.Told w) :=
  inferInstanceAs (Decidable (_ < _))

/-- The thread of a worker has returned, or it has been told to. -/
def State.Finishing (s : State) (a : Addr) : Prop :=
  ∀ w, s.workers a = some w → s.Returned w ∨ s.Told w

/-- The thread of a worker reported `kThreadInitOk`. -/
def State.ReportedOk (s : State) (w : WorkerThread) : Prop :=
  (s.threads[w.wkThreadid]?).bind Thread.reported = some .ok

/-- `server_cleanup` joins the thread of a worker that reported success only when that thread
has returned or was told to. -/
def JoinsTold (s : State) : Prop :=
  ∀ i a w, s.main = .cleanupWorker i → s.sv.svWorkers[i]? = some a → s.workers a = some w →
    s.ReportedOk w → s.Returned w ∨ s.Told w

/-- The step is a failure of `epoll_wait` in the accept loop while a thread runs. -/
def StopsUntold (x : State × Action) : Prop :=
  x.2 = .main (.epollWait none) ∧
    ∃ a ∈ x.1.sv.svWorkers, ∃ w ∈ x.1.workers a, ¬ x.1.Returned w

/-- What a step keeps of the workers that it leaves. -/
def KeepsFinishing (s s' : State) : Prop :=
  ∀ a w', s'.workers a = some w' → ∃ w, s.workers a = some w ∧
    (s.Returned w → s'.Returned w') ∧ (s.Told w → s'.Told w')

theorem State.Finishing.mono {a : Addr} (h : s.Finishing a) (hk : KeepsFinishing s s') :
    s'.Finishing a := by
  intro w' hw'
  obtain ⟨w, hw, hret, htold⟩ := hk a w' hw'
  exact (h w hw).imp hret htold

theorem keepsFinishing_of_same (hw : s'.workers = s.workers) (ht : s'.threads = s.threads)
    (he : s'.eventfds = s.eventfds) : KeepsFinishing s s' := by
  intro a w' hw'
  refine ⟨w', hw ▸ hw', ?_, ?_⟩
  · intro hret
    rw [State.Returned, ht]
    exact hret
  · intro htold
    rw [State.Told, he]
    exact htold

/-- A write raises the counter. -/
theorem le_of_eventfdWrite {c v c' : ℕ} (h : eventfdWrite c v = some c') : c + v = c' := by
  rw [eventfdWrite] at h
  split_ifs at h
  exact Option.some.inj h

theorem le_update_eventfd {eventfds : Fd → ℕ} {fd : Fd} {v counter : ℕ}
    (h : eventfdWrite (eventfds fd) v = some counter) (k : Fd) :
    eventfds k ≤ Function.update eventfds fd counter k := by
  have hsum := le_of_eventfdWrite h
  by_cases hk : k = fd
  · rw [hk, Function.update_self]
    omega
  · rw [Function.update_of_ne hk]

/-- The worker is told. -/
theorem told_notified {a : Addr} {w : WorkerThread} {pc : MainPc} : (s.notified a w pc).Told w := by
  rw [State.Told, State.notified]
  split
  · next hfull =>
    rw [eventfdWrite] at hfull
    split_ifs at hfull with hle
    show 0 < s.eventfds w.wkTermsig
    change ¬ s.eventfds w.wkTermsig + 1 ≤ eventfdMax at hle
    have hmax : 1 ≤ eventfdMax := by decide
    omega
  · next counter hc =>
    have hsum := le_of_eventfdWrite hc
    show 0 < Function.update s.eventfds w.wkTermsig counter w.wkTermsig
    rw [Function.update_self]
    omega

theorem keepsFinishing_notified {a : Addr} {w : WorkerThread} {pc : MainPc} :
    KeepsFinishing s (s.notified a w pc) := by
  rw [State.notified]
  split
  · exact keepsFinishing_of_same rfl rfl rfl
  · next counter hc =>
    intro b v hv
    exact ⟨v, hv, id, fun htold => Nat.lt_of_lt_of_le htold (le_update_eventfd hc _)⟩

theorem keepsFinishing_destroyed {a : Addr} {w : WorkerThread} {pc : MainPc} :
    KeepsFinishing s (s.destroyed a w pc) := by
  intro b v hv
  change Function.update s.workers a none b = some v at hv
  by_cases hb : b = a
  · subst hb
    simp at hv
  · rw [Function.update_of_ne hb] at hv
    exact ⟨v, hv, id, id⟩

/-- A thread that moves has not returned, so no other thread seems to run again. -/
theorem returned_set {t : ThreadId} {th th' : Thread} {w : WorkerThread}
    (ht : s.threads[t]? = some th) (hpc : th.pc ≠ .returned) (hret : s.Returned w) :
    ((s.threads.set t th')[w.wkThreadid]?).map Thread.pc = some .returned := by
  rw [List.getElem?_set]
  split_ifs with heq hlt
  · rw [State.Returned, ← heq, ht] at hret
    exact absurd (Option.some.inj hret) hpc
  · rw [State.Returned, ← heq, ht] at hret
    exact absurd (Option.some.inj hret) hpc
  · exact hret

theorem keepsFinishing_setThread {t : ThreadId} {th th' : Thread}
    (ht : s.threads[t]? = some th) (hpc : th.pc ≠ .returned) (hw : s'.workers = s.workers)
    (hthreads : s'.threads = s.threads.set t th') (he : ∀ k, s.eventfds k ≤ s'.eventfds k) :
    KeepsFinishing s s' := by
  intro b v hv
  refine ⟨v, hw ▸ hv, ?_, ?_⟩
  · intro hret
    rw [State.Returned, hthreads]
    exact returned_set ht hpc hret
  · intro htold
    exact Nat.lt_of_lt_of_le htold (he _)

theorem keepsFinishing_thread (h : Alive s) {t : ThreadId} {th : Thread} {call : ThreadCall}
    (ht : s.threads[t]? = some th) (hs : ThreadTrans s t th call s') : KeepsFinishing s s' := by
  cases hs with
  | eintr => exact keepsFinishing_of_same rfl rfl rfl
  | addTermsig ok w hpc hw =>
    exact keepsFinishing_setThread ht (by simp [hpc]) rfl rfl fun _ => le_rfl
  | addMessagequeue result ok w hpc hw =>
    exact keepsFinishing_setThread ht (by simp [hpc]) rfl rfl fun _ => le_rfl
  | report result w counter hpc hw hc =>
    exact keepsFinishing_setThread ht (by simp [hpc]) rfl rfl (le_update_eventfd hc)
  | reportFails result w hpc hw =>
    exact keepsFinishing_setThread ht (by simp [hpc]) rfl rfl fun _ => le_rfl
  | quit w hpc hw hq => exact keepsFinishing_setThread ht (by simp [hpc]) rfl rfl fun _ => le_rfl
  | epollFails w hpc hw hq =>
    exact keepsFinishing_setThread ht (by simp [hpc]) rfl rfl fun _ => le_rfl
  | epollWait w events hpc hw hq =>
    intro b v hv
    change Function.update s.workers th.arg _ b = some v at hv
    by_cases hb : b = th.arg
    · subst hb
      rw [Function.update_self] at hv
      obtain rfl := Option.some.inj hv
      exact ⟨w, hw, id, id⟩
    · rw [Function.update_of_ne hb] at hv
      exact ⟨v, hv, id, id⟩
  | crash _ _ hpc hdead =>
    obtain ⟨w, hw, -⟩ := h.threads t th ht hpc
    rw [hdead] at hw
    cases hw

/-! ## The order of notification and join -/

/-- How far the workers are told, by the position of the starting thread. -/
def QuitInv (s : State) : Prop :=
  match s.main with
  | .notify i _ =>
    s.sv.svQuitflag = false ∧ ∀ j < i, ∀ a, s.sv.svWorkers[j]? = some a → s.Finishing a
  | .dispatch _ => s.sv.svQuitflag = true → ∀ a ∈ s.sv.svWorkers, s.Finishing a
  | .cleanup | .cleanupWorker _ => ∀ a ∈ s.sv.svWorkers, s.Finishing a
  | .exited => True
  | _ => s.sv.svQuitflag = false

theorem quitInv_thread {t : ThreadId} {th : Thread} {call : ThreadCall} (h : Alive s)
    (hq : QuitInv s) (ht : s.threads[t]? = some th) (hs : ThreadTrans s t th call s') :
    QuitInv s' := by
  have hkeep := keepsFinishing_thread h ht hs
  have hsame : s'.main = s.main ∧ s'.sv = s.sv := by
    cases hs with
    | crash _ _ hpc hdead =>
      obtain ⟨w, hw, -⟩ := h.threads t th ht hpc
      rw [hdead] at hw
      cases hw
    | _ => exact ⟨rfl, rfl⟩
  rw [QuitInv, hsame.1, hsame.2]
  rw [QuitInv] at hq
  split at hq <;> try exact hq
  · exact ⟨hq.1, fun j hj a ha => (hq.2 j hj a ha).mono hkeep⟩
  · exact fun hflag a ha => (hq hflag a ha).mono hkeep
  · exact fun a ha => (hq a ha).mono hkeep
  · exact fun a ha => (hq a ha).mono hkeep

/-- While nobody has asked to quit, nothing is owed to the workers. -/
theorem quitInv_dispatch {events : List Fd} (hpc : s.main = .dispatch events)
    (hflag : s.sv.svQuitflag = false) : QuitInv s := by
  rw [QuitInv, hpc]
  intro htrue
  rw [hflag] at htrue
  cases htrue

theorem quitInv_main {call : MainCall} (h : Alive s) (hq : QuitInv s)
    (hstop : ¬ StopsUntold (s, .main call)) (hs : MainTrans s call s') : QuitInv s' := by
  cases hs with
  | eintr => exact hq
  | initFails o sv es hpc hset =>
    intro a ha
    have hnone : a ∈ sv.svWorkers := ha
    rw [hset.workers] at hnone
    cases hnone
  | init o sv es n hpc hset => exact hset.quitflag
  | loopDone l hpc hl =>
    rw [QuitInv, hpc] at hq
    by_cases hws : s.sv.svWorkers = []
    · simp only [hws, if_true]
      intro a ha
      have hnone : a ∈ s.sv.svWorkers := ha
      rw [hws] at hnone
      cases hnone
    · simp only [hws, if_false]
      exact hq
  | epollFails hpc =>
    -- nobody tells the workers here
    intro a ha w hw
    by_contra hrun
    rw [not_or] at hrun
    exact hstop ⟨rfl, a, ha, w, hw, hrun.1⟩
  | epollWait events hpc =>
    rw [QuitInv, hpc] at hq
    exact quitInv_dispatch rfl hq
  | quitSeen events hpc hflag =>
    rw [QuitInv, hpc] at hq
    exact fun a ha => (hq hflag a ha).mono (keepsFinishing_of_same rfl rfl rfl)
  | eventsDone hpc hflag => exact hflag
  | dispatch fd events pc hpc hflag hto =>
    rcases hto with rfl | rfl | rfl
    · exact hflag
    · exact ⟨hflag, fun j hj => absurd hj (Nat.not_lt_zero j)⟩
    · exact quitInv_dispatch rfl hflag
  | acceptDone events hpc =>
    rw [QuitInv, hpc] at hq
    exact quitInv_dispatch rfl hq
  | acceptFails events hpc => exact hq
  | accept events fd hpc =>
    rw [QuitInv, hpc] at hq
    rw [QuitInv, record_main, hpc]
    exact hq
  | notify i events a w hpc hi hw =>
    rw [QuitInv, hpc] at hq
    rw [QuitInv, notified_main, notified_sv]
    refine ⟨hq.1, ?_⟩
    intro j hj b hb
    rcases Nat.lt_succ_iff_lt_or_eq.mp hj with hlt | rfl
    · exact (hq.2 j hlt b hb).mono keepsFinishing_notified
    · obtain rfl : a = b := Option.some.inj (hi.symm.trans hb)
      intro v hv
      rw [notified_workers, hw] at hv
      obtain rfl := Option.some.inj hv
      exact Or.inr told_notified
  | notifyDone i events hpc hi =>
    rw [QuitInv, hpc] at hq
    intro _ a ha
    obtain ⟨j, hj⟩ := List.mem_iff_getElem?.mp ha
    have hlt : j < s.sv.svWorkers.length := (List.getElem?_eq_some_iff.mp hj).1
    exact (hq.2 j (by omega) a hj).mono (keepsFinishing_of_same rfl rfl rfl)
  | cleanup hpc hr =>
    rw [QuitInv, hpc] at hq
    exact fun a ha => (hq a ha).mono (keepsFinishing_of_same rfl rfl rfl)
  | cleanupNone hpc hr => trivial
  | cleanupWorker i a w hpc hi hw hj =>
    rw [QuitInv, hpc] at hq
    exact fun b hb => (hq b hb).mono (keepsFinishing_destroyed (s := s.record _))
  | cleanupDone i hpc hi => trivial
  | crash _ a _ ha hdead =>
    exact absurd hdead (h.touches_ne_none ha)
  | _ =>
    have hpc := ‹s.main = _›
    rw [QuitInv, hpc] at hq
    exact hq

theorem quitInv_step {a : Action} (h : Alive s) (hq : QuitInv s) (hstop : ¬ StopsUntold (s, a))
    (hs : step s a = some s') : QuitInv s' := by
  cases trans_of_step hs with
  | main hm => exact quitInv_main h hq hstop hm
  | thread ht hth => exact quitInv_thread h hq ht hth

theorem quitInv_of_run {tr : List (State × Action)} (hrun : ServerRun tr s)
    (hstop : ∀ x ∈ tr, ¬ StopsUntold x) : QuitInv s := by
  have hboth : Alive s ∧ QuitInv s := by
    refine hrun.invariant_of (I := fun s => Alive s ∧ QuitInv s) hstop ⟨alive_init, rfl⟩ ?_
    intro s a s' h hok hs
    exact ⟨h.1.step hs, quitInv_step h.1 h.2 hok hs⟩
  exact hboth.2

/-! ## Joins -/

/-- A run in which `epoll_wait` never fails while a worker runs joins only workers that have
returned or were told to. -/
theorem joinsTold_of_run {tr : List (State × Action)} (hrun : ServerRun tr s)
    (hstop : ∀ x ∈ tr, ¬ StopsUntold x) : JoinsTold s := by
  intro i a w hpc hi hw _
  have hq := quitInv_of_run hrun hstop
  rw [QuitInv, hpc] at hq
  exact hq a (List.mem_of_getElem? hi) w hw

/-! ## One worker -/

/-- The labels of a start with one processor, where nothing fails. -/
def startOne : List Action :=
  [.main (.serverInit ⟨⟨some 1, some 3, true, true⟩, some 4, true, true, some 5, true, true,
     some 6, some 1, some 2⟩),
   .main (.workerThreadCreate ⟨some 10, some 7, some 11, some 12, some 8, some 9⟩),
   .main (.pthreadCreate true), .thread 0 (.epollCtl true), .thread 0 (.epollCtl true),
   .thread 0 (.write true), .main (.read true), .main .tau]

/-- SIGINT arrives: the worker is told before it is joined. -/
theorem joinsTold_sigint : ∃ tr s, ServerRun tr s ∧ s.main = .cleanupWorker 0 ∧ JoinsTold s := by
  have hrun : ∃ tr s, ServerRun tr s ∧ s.main = .cleanupWorker 0 ∧
      (∀ x ∈ tr, x.2 ≠ .main (.epollWait none)) :=
    ⟨_, _, run_of_exec (show exec step State.init (startOne ++
      [.main (.epollWait (some [5])), .main .tau, .main .write, .main .tau, .main .tau,
       .main .tau]) = some (_, _) from rfl), rfl, by decide⟩
  obtain ⟨tr, s, hrun, hpc, hok⟩ := hrun
  exact ⟨tr, s, hrun, hpc, joinsTold_of_run hrun fun x hx hstop => hok x hx hstop.1⟩

/-- `epoll_wait` fails: `server_cleanup` joins a worker that waits for events and that nobody
has told to quit. -/
theorem joins_untold : ¬ ∀ tr s, ServerRun tr s → JoinsTold s := by
  intro h
  have hjoin := h _ _ (run_of_exec (show exec step State.init (startOne ++
    [.main (.epollWait none), .main .tau]) = some (_, _) from rfl)) 0 10 _ rfl rfl rfl rfl
  revert hjoin
  decide

end AioServer.Linux
