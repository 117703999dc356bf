import AioServer.Windows.AcceptLimit

/-!
# The Windows server: no refill request is lost

A worker lowers the counter first and asks for another `AcceptEx` afterwards, and the accept
thread may go to sleep in between. While the accept thread is settled (it has seen enough
operations, or has asked for a client itself) one of three things is true: there are enough
operations, a message is on `sv_iocp_accept`, or a worker is about to post one.
-/

namespace AioServer.Windows

open Lib

/-- `client_create` returns NULL. -/
def Action.createFails : Action → Bool
  | .main (.clientCreate block buffer sock) =>
    block.isNone || !buffer || decide (sock = invalidSocket)
  | _ => false

/-- An attempt ends in `kAcceptExResultFailed`. -/
def Action.acceptExFails : Action → Bool
  | .main (.acceptEx .failed) => true
  | _ => false

/-- `server_control_handler` posts one of its messages. -/
def Action.requestsShutDown : Action → Bool
  | .ctrlShutDownIocp _ | .ctrlShutDownAccept _ => true
  | _ => false

/-- The steps of a run without a failed post, create or accept and without a shutdown. -/
structure Action.Undisturbed (a : Action) : Prop where
  post : a.postFails = false
  create : a.createFails = false
  accept : a.acceptExFails = false
  shutDown : a.requestsShutDown = false

/-- The worker has lowered the counter and not posted its message. -/
def WorkerPc.owesRefill : WorkerPc → Bool
  | .acceptMoreClients .newConnection none _ => true
  | _ => false

/-- The accept thread waits, or will wait without looking at the counter again. -/
def MainPc.settled : MainPc → Bool
  | .wait | .removeFromList .enoughPending .. | .destroy .enoughPending .. => true
  | _ => false

/-- Some worker is between the decrement and its post. -/
def State.RefillOwed (s : State) : Prop := ∃ w ∈ s.workers, w.pc.owesRefill = true

/-- There are enough operations, or something will make the accept thread look again. -/
def State.Refilled (m : ℤ) (s : State) : Prop :=
  m ≤ s.svOutstandingAccepts ∨ s.svIocpAccept ≠ [] ∨ s.RefillOwed

/-! ## The steps -/

theorem refilled_worker {m : ℤ} {s s' : State} {i : ℕ} {w : Worker} {call : WorkerCall}
    (hw : s.workers[i]? = some w) (h : WorkerTrans s i w call s')
    (hpost : (Action.worker i call).postFails = false) (hr : s.Refilled m) : s'.Refilled m := by
  -- a worker that owes nothing does not take a reason away
  have hmove : ∀ {t : State} (w' : Worker), t.workers = s.workers →
      t.svOutstandingAccepts = s.svOutstandingAccepts → t.svIocpAccept = s.svIocpAccept →
      w.pc.owesRefill = false → (t.setWorker i w').Refilled m := by
    intro t w' hws hc hq hno
    rcases hr with hr | hr | hr
    · exact Or.inl (hr.trans_eq hc.symm)
    · exact Or.inr (Or.inl (hq ▸ hr))
    · refine Or.inr (Or.inr ?_)
      have hset := exists_mem_set hw hr (by simp [hno]) w'
      rwa [← hws] at hset
  cases h with
  -- the decrement makes the worker owe a message, the post puts it on the port
  | releaseSlot hpc =>
    exact Or.inr (Or.inr ⟨_, mem_set_of_getElem? hw _, rfl⟩)
  | acceptMoreClients site cl reuseSocket ok hpc =>
    obtain rfl : ok = true := by simpa [Action.postFails] using hpost
    refine Or.inr (Or.inl ?_)
    simp [State.setWorker, serverAcceptMoreClients]
  | repost ok hpc =>
    exact hmove _ (by cases ok <;> rfl) (by cases ok <;> rfl) (by cases ok <;> rfl)
      (by rw [hpc]; rfl)
  | crash call c hdead hc => exact hr
  | _ =>
    have hpc := ‹w.pc = _›
    exact hmove _ rfl rfl rfl (by rw [hpc]; rfl)

theorem refilled_main {m : ℤ} {s s' : State} {call : MainCall} (h : MainTrans m s call s')
    (ha : (Action.main call).Undisturbed) (hr : s.main.settled = true → s.Refilled m) :
    s'.main.settled = true → s'.Refilled m := by
  cases h with
  | start ok hpc =>
    obtain rfl : ok = true := by simpa [Action.postFails] using ha.post
    exact fun _ => Or.inr (Or.inl (by simp [State.setMain, serverAcceptMoreClients]))
  -- the thread has just seen enough operations
  | enoughFree c opts hpc hm => exact fun _ => Or.inl hm
  | enoughIdle opts hpc hm => exact fun _ => Or.inl hm
  | createFails opts block buffer sock hpc hf =>
    have hno := ha.create
    simp only [Action.createFails] at hno
    rcases hf with rfl | rfl | rfl <;> simp at hno
  | removeFromList site c opts cl hpc hc hv =>
    intro hset
    cases site with
    | enoughPending => exact hr (by rw [hpc]; rfl)
    | acceptExFailed => simp [State.setMain, MainPc.settled] at hset
  | destroyEnough c opts cl hpc hc => exact fun _ => hr (by rw [hpc]; rfl)
  | dequeueFails hpc => exact hr
  | crash call c hdead hc => exact hr
  | acceptExFails c opts cl hpc hc => simp [State.setMain, MainPc.settled]
  | _ => simp [State.setMain, MainPc.settled]

theorem refilled_step {m : ℤ} {s s' : State} {a : Action} (ht : Trans m s a s')
    (ha : a.Undisturbed) (hr : s.main.settled = true → s.Refilled m) :
    s'.main.settled = true → s'.Refilled m := by
  cases ht with
  | main hm => exact refilled_main hm ha hr
  | worker hw ht =>
    rw [(workerTrans_frame ht).main]
    exact fun hset => refilled_worker hw ht ha.post (hr hset)
  | complete bytes hp => exact hr
  | ctrlShutDownIocp ok => exact absurd ha.shutDown (by simp [Action.requestsShutDown])
  | ctrlShutDownAccept ok hh => exact absurd ha.shutDown (by simp [Action.requestsShutDown])

/-! ## Every run -/

section run

variable {m : ℤ} {svSock : Socket} {n : ℕ} {tr : List (State × Action)} {s : State}

theorem ServerRun.refilled_of_settled (hrun : ServerRun m svSock n tr s)
    (htr : ∀ x ∈ tr, x.2.Undisturbed) (hset : s.main.settled = true) : s.Refilled m := by
  have hr : s.main.settled = true → s.Refilled m :=
    hrun.invariant_of (I := fun s => s.main.settled = true → s.Refilled m) htr
      (by simp [State.init, MainPc.settled])
      fun s a s' hI ha hs => refilled_step (trans_of_step hs).2 ha hI
  exact hr hset

/-- With nothing on the port and no worker about to post to it, there are enough operations. -/
theorem State.Refilled.enough (h : s.Refilled m) (hport : s.svIocpAccept = [])
    (hidle : ∀ w ∈ s.workers, w.pc.owesRefill = false) : m ≤ s.svOutstandingAccepts := by
  rcases h with h | h | ⟨w, hw, ho⟩
  · exact h
  · exact absurd hport h
  · simp [hidle w hw] at ho

/-- When the accept thread sleeps on an empty port and no worker is about to post to it,
there are enough operations. -/
theorem ServerRun.refilled (hrun : ServerRun m svSock n tr s) (htr : ∀ x ∈ tr, x.2.Undisturbed)
    (hwait : s.main = .wait) (hport : s.svIocpAccept = [])
    (hidle : ∀ w ∈ s.workers, w.pc.owesRefill = false) : m ≤ s.svOutstandingAccepts :=
  (hrun.refilled_of_settled htr (by rw [hwait]; rfl)).enough hport hidle

end run

/-- A failed setup on the way does not lose the request either. -/
theorem refilled_after_failed_setup : ∃ tr s, ServerRun 1 1 1 tr s ∧ s.main = .wait ∧
    s.svIocpAccept = [] ∧ 1 ≤ s.svOutstandingAccepts := by
  have hrun : ∃ tr s, ServerRun 1 1 1 tr s ∧ s.main = .wait ∧ s.svIocpAccept = [] ∧
      (∀ w ∈ s.workers, w.pc.owesRefill = false) ∧ ∀ x ∈ tr, x.2.postFails = false ∧
        x.2.createFails = false ∧ x.2.acceptExFails = false ∧ x.2.requestsShutDown = false :=
    ⟨_, _, run_of_exec (show exec (step 1) (State.init 1 1) (acceptedClient ++
      [.worker 0 (.setsockopt false), .worker 0 (.postQueuedCompletionStatus true),
        .main .atomicLoad, .main (.getQueuedCompletionStatus true), .main .atomicLoad,
        .main .dlistRemoveItem, .main .clientDestroy]) = some (_, _) from rfl),
      rfl, rfl, by decide, by decide⟩
  obtain ⟨tr, s, hrun, hwait, hport, hidle, hok⟩ := hrun
  refine ⟨tr, s, hrun, hwait, hport, hrun.refilled (fun x hx => ?_) hwait hport hidle⟩
  obtain ⟨h1, h2, h3, h4⟩ := hok x hx
  exact ⟨h1, h2, h3, h4⟩

end AioServer.Windows
