import AioServer.Windows.Accounting

/-!
# The Windows server: the shutdown token

One `kIocpMsgShutDown` packet stops all workers: the worker that meets it drops the rest of
its batch, posts the packet again and leaves. `State.HasToken` lists where the token can be;
while the posts succeed, no step gets rid of it.
-/

namespace AioServer.Windows

open Lib

/-- A shutdown packet is on `sv_iocp`, in a batch that a worker has not finished examining,
or a worker has received `kServerStop` and not posted it again. -/
def State.HasToken (s : State) : Prop :=
  .shutDown ∈ s.svIocp ∨ (∃ w ∈ s.workers, .shutDown ∈ w.batch) ∨
    ∃ w ∈ s.workers, w.pc = .stopReceived

/-- A shutdown packet is posted to `sv_iocp`, by `server_control_handler` or by a worker. -/
def postsShutDown (x : State × Action) : Bool :=
  match x.2 with
  | .ctrlShutDownIocp ok => ok
  | .worker i (.postQueuedCompletionStatus ok) =>
    ok && x.1.workers[i]?.any fun w => decide (w.pc = .stopReceived)
  | _ => false

/-- A worker that moves on with the same batch keeps the token where it is. -/
theorem HasToken.setWorker {s t : State} {i : ℕ} {w w' : Worker} (h : s.HasToken)
    (hw : s.workers[i]? = some w) (ht : t.workers = s.workers) (hq : s.svIocp ⊆ t.svIocp)
    (hb : .shutDown ∈ w.batch → .shutDown ∈ w'.batch ∨ w'.pc = .stopReceived)
    (hpc : w.pc = .stopReceived → .shutDown ∈ t.svIocp) : (t.setWorker i w').HasToken := by
  have hmem : w' ∈ (t.setWorker i w').workers := by
    have := mem_set_of_getElem? hw w'
    rwa [← ht] at this
  rcases h with h | h | h
  · exact Or.inl (hq h)
  · by_cases hwb : .shutDown ∈ w.batch
    · rcases hb hwb with hb | hb
      · exact Or.inr (Or.inl ⟨w', hmem, hb⟩)
      · exact Or.inr (Or.inr ⟨w', hmem, hb⟩)
    · have hset := exists_mem_set hw h hwb w'
      rw [← ht] at hset
      exact Or.inr (Or.inl hset)
  · by_cases hwp : w.pc = .stopReceived
    · exact Or.inl (hpc hwp)
    · have hset := exists_mem_set hw h hwp w'
      rw [← ht] at hset
      exact Or.inr (Or.inr hset)

theorem hasToken_worker {s s' : State} {i : ℕ} {w : Worker} {call : WorkerCall}
    (hbatch : s.BatchesOk) (hw : s.workers[i]? = some w) (h : WorkerTrans s i w call s')
    (hpost : (Action.worker i call).postFails = false) (ht : s.HasToken) : s'.HasToken := by
  cases h with
  | dequeue k hpc h0 hmax hk =>
    have hempty : w.batch = [] := hbatch w (List.mem_of_getElem? hw) hpc
    -- the packets go from the port to the batch
    rcases ht with ht | ht | ht
    · rw [← List.take_append_drop k s.svIocp, List.mem_append] at ht
      rcases ht with ht | ht
      · exact Or.inr (Or.inl ⟨_, mem_set_of_getElem? hw _, ht⟩)
      · exact Or.inl ht
    · exact Or.inr (Or.inl (exists_mem_set hw ht (by simp [hempty]) _))
    · exact Or.inr (Or.inr (exists_mem_set hw ht (by simp [hpc]) _))
  | repost ok hpc =>
    obtain rfl : ok = true := by simpa [Action.postFails] using hpost
    exact Or.inl (by simp [State.setWorker, serverPostShutDown])
  | batchDone hpc hb =>
    exact HasToken.setWorker ht hw rfl (List.Subset.refl _) (by simp [hb]) (by simp [hpc])
  -- the rest of the batch is dropped, but the worker holds a token now
  | stop rest hpc hb =>
    exact HasToken.setWorker ht hw rfl (List.Subset.refl _) (by simp) (by simp [hpc])
  | take n rest hpc hb =>
    exact HasToken.setWorker ht hw rfl (List.Subset.refl _) (by simp [hb]) (by simp [hpc])
  | acceptMoreClients site cl reuseSocket ok hpc =>
    exact HasToken.setWorker ht hw (by cases ok <;> rfl) (by cases ok <;> exact fun _ => id)
      Or.inl (by simp [hpc])
  | crash call c hdead hc => exact ht
  | _ =>
    have hpc := ‹w.pc = _›
    exact HasToken.setWorker ht hw rfl (List.Subset.refl _) Or.inl (by simp [hpc])

theorem hasToken_step {m : ℤ} {s s' : State} {a : Action} (hbatch : s.BatchesOk)
    (h : Trans m s a s') (hpost : a.postFails = false) (ht : s.HasToken) : s'.HasToken := by
  cases h with
  | main hm =>
    have hws := workers_mainTrans hm
    have hq : s'.svIocp = s.svIocp := by
      cases hm with
      | start ok => cases ok <;> rfl
      | _ => rfl
    rwa [State.HasToken, hws, hq]
  | worker hw hs => exact hasToken_worker hbatch hw hs hpost ht
  | complete bytes hp => exact ht.imp (List.mem_append_left _) id
  | ctrlShutDownIocp ok => cases ok <;> exact ht.imp (by simp [serverPostShutDown]) id
  | ctrlShutDownAccept ok hh => exact ht

theorem postsShutDown_worker {s : State} {i : ℕ} {w : Worker} {call : WorkerCall}
    (hw : s.workers[i]? = some w) (h : postsShutDown (s, .worker i call) = true) :
    call = .postQueuedCompletionStatus true ∧ w.pc = .stopReceived := by
  cases call <;> simp_all [postsShutDown]

theorem hasToken_of_postsShutDown {m : ℤ} {s s' : State} {a : Action} (h : Trans m s a s')
    (hp : postsShutDown (s, a) = true) : s'.HasToken := by
  cases h with
  | ctrlShutDownIocp ok =>
    obtain rfl : ok = true := hp
    exact Or.inl (by simp [serverPostShutDown])
  | worker hw hs =>
    obtain ⟨rfl, hstop⟩ := postsShutDown_worker hw hp
    cases hs with
    | repost ok hpc => exact Or.inl (by simp [State.setWorker, serverPostShutDown])
    | acceptMoreClients site cl reuseSocket ok hpc => simp [hstop] at hpc
    | crash call c hdead hc => simp [hstop, WorkerPc.client] at hc
  | _ => simp [postsShutDown] at hp

section run

variable {m : ℤ} {svSock : Socket} {n : ℕ} {tr : List (State × Action)} {s : State}

/-- Once a shutdown packet was posted to `sv_iocp` it is never lost. -/
theorem ServerRun.hasToken (hrun : ServerRun m svSock n tr s)
    (hpost : ∀ x ∈ tr, x.2.postFails = false) (hp : ∃ x ∈ tr, postsShutDown x = true) :
    s.HasToken :=
  hrun.since (K := State.HasToken) (fun _ _ hr => (ServerRun.custodial hr).batches) hpost
    (fun _ _ _ _ _ hp hs => hasToken_of_postsShutDown (trans_of_step hs).2 hp)
    (fun _ _ _ hb ha hK hs => hasToken_step hb (trans_of_step hs).2 ha hK) hp

end run

/-- The first of two workers has consumed the packet, posted it again and left. -/
theorem hasToken_after_repost : ∃ tr s, ServerRun 1 1 2 tr s ∧
    s.workers.map Worker.pc = [.left, .dequeue] ∧ s.HasToken := by
  have hrun : ∃ tr s, ServerRun 1 1 2 tr s ∧ s.workers.map Worker.pc = [.left, .dequeue] ∧
      (∀ x ∈ tr, x.2.postFails = false) ∧ ∃ x ∈ tr, postsShutDown x = true :=
    ⟨_, _, run_of_exec (show exec (step 1) (State.init 1 2) [.ctrlShutDownIocp true,
      .worker 0 (.getQueuedCompletionStatusEx (some 1)), .worker 0 .tau,
      .worker 0 (.postQueuedCompletionStatus true)] = some (_, _) from rfl),
      rfl, by decide, by decide⟩
  obtain ⟨tr, s, hrun, hws, hpost, hp⟩ := hrun
  exact ⟨tr, s, hrun, hws, hrun.hasToken hpost hp⟩

end AioServer.Windows
