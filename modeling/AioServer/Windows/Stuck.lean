import AioServer.Windows.Termination

/-!
# The Windows server: when it gets stuck

A setup of a connection that fails leaves `sv_outstanding_accepts` as it is although its
`AcceptEx` is over, so it costs the server one of its accepts for good.

* `Stuck`: nothing moves any more, unless a wait fails or the server is told to stop. A thread
  that is not at an empty port can go on (`exists_step_worker`, `exists_step_main`), so a stuck
  server is an idle one with nothing in the kernel (`stuck_iff_idle`). No thread waits for another
  one while it has a lock, so a critical section is one step;
* `ServerRun.capacity`: the slots in use and those that are lost make up the counter;
* `Serving`: what a run without failed posts, creates and accepts and without a shutdown keeps: no
  thread is told to stop or works on a released client;
* `ServerRun.stuck_iff`: after which runs the server is stuck, or deaf.
-/

namespace AioServer.Windows

open Lib

/-! ## Waiting -/

/-- A call that waits at a completion port returns an error. -/
def Action.waitFails : Action → Bool
  | .main (.getQueuedCompletionStatus ok) => !ok
  | .worker _ (.getQueuedCompletionStatusEx count) => count.isNone
  | _ => false

/-- Only `server_control_handler` and a failing wait can move the server on. -/
def Stuck (m : ℤ) (s : State) : Prop :=
  s.crashed = false ∧
    ∀ a s', step m s a = some s' → a.waitFails = true ∨ a.requestsShutDown = true

/-- The threads that are there wait, and there is nothing for them. -/
structure State.Idle (s : State) : Prop where
  main : s.main = .wait
  accept : s.svIocpAccept = []
  port : s.svIocp = []
  workers : ∀ w ∈ s.workers, w.pc = .dequeue ∨ w.pc = .left

/-- They have no packets left either. -/
theorem State.Idle.batch {n : ℕ} {s : State} (h : s.Idle) (hp : PoolOk n s) :
    ∀ w ∈ s.workers, w.batch = [] := by
  intro w hw
  rcases h.workers w hw with hpc | hpc
  · exact hp.custodial.batches w hw hpc
  · exact hp.leaver w hw (Or.inr hpc)

section ready

variable {m : ℤ} {s : State} {i : ℕ}

theorem step_eq_workerStep {w : Worker} {call : WorkerCall} (hcr : s.crashed = false)
    (hw : s.workers[i]? = some w) : step m s (.worker i call) = workerStep s i w call := by
  rw [step.eq_def, if_neg (by simp [hcr])]
  dsimp only
  rw [hw]

/-- A worker that is ready can make a step: the call that is next has an outcome. -/
theorem exists_step_worker (hcus : Custodial s) (hcr : s.crashed = false) (h : s.WorkerReady i) :
    ∃ call, (Action.worker i call).waitFails = false ∧ (step m s (.worker i call)).isSome := by
  obtain ⟨w, hw, hleft, hport⟩ := h
  have hlive : ∀ c, w.pc.client = some c → ∃ cl, s.heap c = some cl := fun c hc =>
    Option.ne_none_iff_exists'.mp (hcus.owned.worker_live (List.mem_of_getElem? hw) hc)
  simp only [step_eq_workerStep hcr hw]
  obtain ⟨pc, batch⟩ := w
  dsimp only at hleft hport hlive
  cases pc with
  | dequeue =>
    have hpos : 1 ≤ s.svIocp.length := List.length_pos_iff.mpr (hport rfl)
    exact ⟨.getQueuedCompletionStatusEx (some 1), rfl,
      by simp [workerStep, hpos, kMaxCompletionCount]⟩
  | left => exact absurd rfl hleft
  | examine =>
    cases batch with
    | nil => exact ⟨.tau, rfl, rfl⟩
    | cons p rest => cases p <;> exact ⟨.tau, rfl, rfl⟩
  | stopReceived => exact ⟨.postQueuedCompletionStatus true, rfl, rfl⟩
  | acceptMoreClients site cl reuseSocket => exact ⟨.postQueuedCompletionStatus true, rfl, rfl⟩
  | countConnection => exact ⟨.updateStats, rfl, rfl⟩
  | releaseSlot => exact ⟨.atomicIncrement, rfl, rfl⟩
  | countTransfer c bytes => exact ⟨.updateStats, rfl, rfl⟩
  | dispatch p =>
    obtain ⟨cl, hcl⟩ := hlive p.cl rfl
    exact ⟨.tau, rfl, by simp [workerStep, State.withClient, hcl]⟩
  | setsockopt c =>
    obtain ⟨cl, hcl⟩ := hlive c rfl
    exact ⟨.setsockopt true, rfl, by simp [workerStep, State.withClient, hcl]⟩
  | associate c =>
    obtain ⟨cl, hcl⟩ := hlive c rfl
    cases hr : cl.clSockReused with
    | true => exact ⟨.tau, rfl, by simp [workerStep, State.withClient, hcl, hr]⟩
    | false =>
      exact ⟨.createIoCompletionPort false, rfl, by simp [workerStep, State.withClient, hcl, hr]⟩
  | readFromClient c =>
    obtain ⟨cl, hcl⟩ := hlive c rfl
    exact ⟨.wsaRecv0Bytes true, rfl, by simp [workerStep, State.withClient, hcl]⟩
  | recvRequest c =>
    obtain ⟨cl, hcl⟩ := hlive c rfl
    exact ⟨.wsaRecv none, rfl, by simp [workerStep, State.withClient, hcl]⟩
  | openResource c resPath =>
    obtain ⟨cl, hcl⟩ := hlive c rfl
    cases resPath with
    | none => exact ⟨.tau, rfl, by simp [workerStep, State.withClient, hcl]⟩
    | some path => exact ⟨.createFile 0, rfl, by simp [workerStep, State.withClient, hcl]⟩
  | querySize c =>
    obtain ⟨cl, hcl⟩ := hlive c rfl
    exact ⟨.getFileSizeEx true, rfl, by simp [workerStep, State.withClient, hcl]⟩
  | transmit c =>
    obtain ⟨cl, hcl⟩ := hlive c rfl
    exact ⟨.transmitFile true, rfl, by simp [workerStep, State.withClient, hcl]⟩
  | markReused c =>
    obtain ⟨cl, hcl⟩ := hlive c rfl
    exact ⟨.tau, rfl, by simp [workerStep, State.withClient, hcl]⟩

theorem step_eq_mainStep {call : MainCall} (hcr : s.crashed = false) :
    step m s (.main call) = mainStep m s call := by
  rw [step.eq_def, if_neg (by simp [hcr])]

/-- So can the accept thread. -/
theorem exists_step_main (hcr : s.crashed = false) (h : s.MainReady) :
    ∃ call, (Action.main call).waitFails = false ∧ (step m s (.main call)).isSome := by
  obtain ⟨hleft, hport⟩ := h
  simp only [step_eq_mainStep hcr]
  -- a released client ends the call in the crashed state
  have hwith : ∀ (c : ClientPtr) (k : Client → Option State), (∀ cl, (k cl).isSome) →
      (s.withClient c k).isSome := by
    intro c k hk
    unfold State.withClient
    cases s.heap c with
    | none => rfl
    | some cl => exact hk cl
  have hreinit : ∀ (c : ClientPtr) (cl : Client) (opts : Bool) (k : ReinitResult → State),
      ((clientReinit c cl s.sockets opts invalidSocket).map k).isSome := by
    intro c cl opts k
    cases opts <;> simp [clientReinit, createOverlappedSocket]
  cases hpc : s.main with
  | start => exact ⟨.postQueuedCompletionStatus true, rfl, by simp only [mainStep, hpc]; rfl⟩
  | wait =>
    refine ⟨.getQueuedCompletionStatus true, rfl, ?_⟩
    simp only [mainStep, hpc]
    split
    · next hq => exact absurd hq (hport hpc)
    · rfl
    · rfl
  | guard cli opts =>
    refine ⟨.atomicLoad, rfl, ?_⟩
    simp only [mainStep, hpc]
    split <;> rfl
  | create opts => exact ⟨.clientCreate none true 0, rfl, by simp [mainStep, hpc, clientCreate]⟩
  | countAccept opts => exact ⟨.atomicIncrement, rfl, by simp only [mainStep, hpc]; rfl⟩
  | left => exact absurd hpc hleft
  | reinit c opts =>
    refine ⟨.clientReinit invalidSocket, rfl, ?_⟩
    simp only [mainStep, hpc]
    exact hwith c _ fun cl => hreinit c cl opts _
  | retry c opts =>
    refine ⟨.clientReinit invalidSocket, rfl, ?_⟩
    simp only [mainStep, hpc]
    exact hwith c _ fun cl => hreinit c cl false _
  | addToList c opts =>
    refine ⟨.dlistPushHead true, rfl, ?_⟩
    simp only [mainStep, hpc]
    exact hwith c _ fun cl => rfl
  | postAcceptEx c opts =>
    refine ⟨.acceptEx .failed, rfl, ?_⟩
    simp only [mainStep, hpc]
    exact hwith c _ fun cl => rfl
  | removeFromList site c opts =>
    refine ⟨.dlistRemoveItem, rfl, ?_⟩
    simp only [mainStep, hpc]
    refine hwith c _ fun cl => ?_
    split_ifs <;> rfl
  | destroy site c opts =>
    refine ⟨.clientDestroy, rfl, ?_⟩
    simp only [mainStep, hpc]
    refine hwith c _ fun cl => ?_
    cases site <;> rfl

/-- A server is stuck where its threads wait and the kernel has nothing for them. -/
theorem stuck_iff_idle (hcus : Custodial s) (hcr : s.crashed = false) (hmain : s.main ≠ .left)
    (hstay : ∃ w ∈ s.workers, w.pc ≠ .left) : Stuck m s ↔ s.Idle ∧ s.pending = [] := by
  constructor
  · rintro ⟨-, hstep⟩
    have hwait : ∀ a, a.waitFails = false → a.requestsShutDown = false →
        ¬ (step m s a).isSome := by
      intro a hno hno' hs
      obtain ⟨s', hs⟩ := Option.isSome_iff_exists.mp hs
      rcases hstep a s' hs with h | h
      · simp [hno] at h
      · simp [hno'] at h
    have hport : s.main = .wait ∧ s.svIocpAccept = [] := by
      by_contra hno
      obtain ⟨call, hw, hs⟩ := exists_step_main (m := m) hcr
        ⟨hmain, fun hw hq => hno ⟨hw, hq⟩⟩
      exact hwait _ hw rfl hs
    have hworker : ∀ w ∈ s.workers, w.pc ≠ .left → w.pc = .dequeue ∧ s.svIocp = [] := by
      intro w hw hleft
      obtain ⟨i, hi⟩ := List.mem_iff_getElem?.mp hw
      by_contra hno
      obtain ⟨call, hwf, hs⟩ := exists_step_worker (m := m) hcus hcr
        ⟨w, hi, hleft, fun hd hq => hno ⟨hd, hq⟩⟩
      exact hwait _ hwf rfl hs
    refine ⟨⟨hport.1, hport.2, ?_, fun w hw => ?_⟩, ?_⟩
    · obtain ⟨w, hw, hleft⟩ := hstay
      exact (hworker w hw hleft).2
    · by_cases hleft : w.pc = .left
      · exact Or.inr hleft
      · exact Or.inl (hworker w hw hleft).1
    · -- otherwise the kernel completes an operation
      cases hp : s.pending with
      | nil => rfl
      | cons p ps => exact absurd (by simp [step, hcr, hp]) (hwait (.complete 0 0) rfl rfl)
  · rintro ⟨hidle, hpending⟩
    refine ⟨hcr, fun a s' hs => ?_⟩
    cases (trans_of_step hs).2 with
    | main hm =>
      cases hm with
      | dequeueFails hpc => exact Or.inl rfl
      | takeShutDown rest hpc hq => simp [hidle.accept] at hq
      | takePostAccept cli opts rest hpc hq => simp [hidle.accept] at hq
      | crash call c hdead hc =>
        rcases hc with hc | ⟨site, x, opts, hpc, -⟩
        · simp [hidle.main, MainPc.client] at hc
        · simp [hidle.main] at hpc
      | _ =>
        have hpc := ‹s.main = _›
        simp [hidle.main] at hpc
    | @worker i w call s' hw ht =>
      have hrest := hidle.workers w (List.mem_of_getElem? hw)
      cases ht with
      | dequeueFails hpc => exact Or.inl rfl
      | dequeue k hpc h0 hmax hk =>
        rw [hidle.port, List.length_nil] at hk
        omega
      | crash call c hdead hc => rcases hrest with h | h <;> simp [h, WorkerPc.client] at hc
      | _ =>
        have hpc := ‹w.pc = _›
        rcases hrest with h | h <;> simp [h] at hpc
    | complete bytes hp => simp [hpending] at hp
    | ctrlShutDownIocp ok => exact Or.inr rfl
    | ctrlShutDownAccept ok hh => exact Or.inr rfl

end ready

/-! ## Slots in use and slots lost -/

section capacity

variable {m : ℤ} {svSock : Socket} {n : ℕ} {tr tr' : List (State × Action)} {s s' : State}

/-- The slots that are in use, those that failed setups have lost, and those whose completions
were dropped at a shutdown packet make up the counter. -/
theorem ServerRun.capacity (hrun : ServerRun m svSock n tr s) :
    (s.slots : ℤ) + (tr.countP fun x => x.2.setupFails) + (tr.map dropped).sum = s.counted := by
  have hslots := Run.ledger (fun s => (s.slots : ℤ)) (fun x => (posts x).toNat)
    (fun x => x.2.releases.toNat + x.2.setupFails.toNat + dropped x) hrun
    (fun _ _ hr => ServerRun.custodial hr) fun s a s' hcus hs => by
      exact_mod_cast slots_step hcus.owned hcus.batches (trans_of_step hs).2
  have hstart : (State.init svSock n).slots = 0 := by
    simp [State.init, State.slots, State.queuedSlots, State.pendingAccepts, Worker.slots,
      WorkerPc.holdsSlot]
  have hcounted := hrun.counted
  rw [List.sum_map_add, List.sum_map_add, sum_map_toNat, sum_map_toNat, sum_map_toNat, hstart]
    at hslots
  omega

/-- Whatever happens, the server has no more accepts than it has left after the failed setups. -/
theorem ServerRun.slots_add_le (hrun : ServerRun m svSock n tr s) :
    (s.slots : ℤ) + (tr.countP fun x => x.2.setupFails) ≤ max 0 m := by
  have hcap := hrun.capacity
  have hle := hrun.limitOk.counted_le
  omega

/-- Once all slots are lost, no operation is posted again. -/
theorem ServerRun.deaf (hrun : ServerRun m svSock n tr s)
    (hfull : max 0 m ≤ (tr.countP fun x => x.2.setupFails))
    (hrun' : Run (step m) s tr' s') : s'.pendingAccepts = 0 ∧ ∀ x ∈ tr', posts x = false := by
  have hnone : ∀ {tr' s'}, Run (step m) s tr' s' → s'.slots = 0 := by
    intro tr' s' hrun'
    have hle := ServerRun.slots_add_le (Run.append hrun hrun')
    rw [List.countP_append] at hle
    omega
  refine ⟨Nat.eq_zero_of_le_zero (hnone hrun' ▸ pendingAccepts_le_slots s'), fun x hx => ?_⟩
  by_contra hpost
  obtain ⟨v, a⟩ := x
  obtain ⟨tr'', u, -, hpre, hs⟩ := hrun'.prefix_of_mem hx
  obtain ⟨c, opts, -, -, rfl⟩ := posts_eq_true (by simpa using hpost)
  -- the operation would be in use after the step
  have hu := hnone (hpre.snoc hs)
  cases (trans_of_step hs).2 with
  | main hm =>
    rw [slots_main hm] at hu
    simp_all

end capacity

/-! ## Undisturbed runs -/

/-- No thread is told to stop, and the accept thread has not lost its client. -/
structure State.Serving (s : State) : Prop where
  running : s.crashed = false
  stays : s.main ≠ .left
  token : ¬ s.HasToken
  message : .shutDown ∉ s.svIocpAccept
  live : ∀ c, s.main.client = some c → s.Live c
  site : ∀ c opts, s.main ≠ .removeFromList .acceptExFailed c opts ∧
    s.main ≠ .destroy .acceptExFailed c opts

theorem serving_init (svSock : Socket) (n : ℕ) : (State.init svSock n).Serving := by
  constructor <;> simp [State.init, State.HasToken, MainPc.client]

section serving

variable {m : ℤ} {s s' : State} {a : Action}

/-- A worker that moves on has no token that was not there before. -/
theorem HasToken.of_setWorker {t : State} {i : ℕ} {w' : Worker} (h : (t.setWorker i w').HasToken)
    (ht : t.workers = s.workers) (hq : .shutDown ∈ t.svIocp → s.HasToken)
    (hb : .shutDown ∈ w'.batch → s.HasToken) (hpc : w'.pc = .stopReceived → s.HasToken) :
    s.HasToken := by
  have hmem : ∀ {v}, v ∈ (t.setWorker i w').workers → v ∈ s.workers ∨ v = w' := by
    intro v hv
    rw [← ht]
    exact List.mem_or_eq_of_mem_set hv
  rcases h with h | ⟨v, hv, h⟩ | ⟨v, hv, h⟩
  · exact hq h
  · rcases hmem hv with hv | rfl
    · exact Or.inr (Or.inl ⟨v, hv, h⟩)
    · exact hb h
  · rcases hmem hv with hv | rfl
    · exact Or.inr (Or.inr ⟨v, hv, h⟩)
    · exact hpc h

theorem hasToken_of_worker {i : ℕ} {w : Worker} {call : WorkerCall} (hown : s.Owned)
    (hw : s.workers[i]? = some w) (h : WorkerTrans s i w call s') (ht : s'.HasToken) :
    s.HasToken := by
  have hmem := List.mem_of_getElem? hw
  have hbatch : .shutDown ∈ w.batch → s.HasToken := fun hb => Or.inr (Or.inl ⟨w, hmem, hb⟩)
  cases h with
  | dequeue k hpc h0 hmax hk =>
    exact HasToken.of_setWorker ht rfl (fun hq => Or.inl (List.mem_of_mem_drop hq))
      (fun hb => Or.inl (List.mem_of_mem_take hb)) (by simp)
  | repost ok hpc => exact Or.inr (Or.inr ⟨w, hmem, hpc⟩)
  | batchDone hpc hb => exact HasToken.of_setWorker ht rfl Or.inl (by simp) (by simp)
  | stop rest hpc hb => exact hbatch (by simp [hb])
  | take n rest hpc hb =>
    exact HasToken.of_setWorker ht rfl Or.inl (fun hr => hbatch (by simp [hb, hr])) (by simp)
  | dispatch n cl hpc hc =>
    refine HasToken.of_setWorker ht rfl Or.inl hbatch fun hstop => ?_
    have hclient := (serverProcessCompletion_ok (hown.worker_ok hmem hpc rfl hc)).1
    simp [show serverProcessCompletion n cl.aioOpcode = .stopReceived from hstop,
      WorkerPc.client] at hclient
  | setsockopt c cl ok hpc hc =>
    exact HasToken.of_setWorker ht rfl Or.inl hbatch (by cases ok <;> simp)
  | openFile c cl path hd hpc hc =>
    exact HasToken.of_setWorker ht rfl Or.inl hbatch (by simp only; split <;> simp)
  | acceptMoreClients site cl reuseSocket ok hpc =>
    exact HasToken.of_setWorker ht (by cases ok <;> rfl) (by cases ok <;> exact Or.inl) hbatch
      (by cases site <;> simp)
  | crash call c hdead hc => exact absurd hdead (hown.worker_live hmem hc)
  | _ => exact HasToken.of_setWorker ht rfl Or.inl hbatch (by simp)

/-- Only `server_control_handler` makes a token. -/
theorem hasToken_of_trans (hown : s.Owned) (h : Trans m s a s') (ha : a.requestsShutDown = false)
    (ht : s'.HasToken) : s.HasToken := by
  cases h with
  | main hm =>
    have hws := workers_mainTrans hm
    have hq : s'.svIocp = s.svIocp := by
      cases hm with
      | start ok => cases ok <;> rfl
      | _ => rfl
    rwa [State.HasToken, hws, hq] at ht
  | worker hw hs => exact hasToken_of_worker hown hw hs ht
  | complete bytes hp => exact ht.imp (by simp) id
  | ctrlShutDownIocp ok => simp [Action.requestsShutDown] at ha
  | ctrlShutDownAccept ok hh => simp [Action.requestsShutDown] at ha

/-- The accept thread moves on, with a client that is live. -/
theorem State.Serving.setMain {t : State} {pc : MainPc} (hs : s.Serving)
    (htoken : ¬ (t.setMain pc).HasToken) (hcr : t.crashed = s.crashed)
    (hq : t.svIocpAccept ⊆ s.svIocpAccept) (hleft : pc ≠ .left)
    (hlive : ∀ c, pc.client = some c → t.Live c)
    (hsite : ∀ c opts, pc ≠ .removeFromList .acceptExFailed c opts ∧
      pc ≠ .destroy .acceptExFailed c opts) : (t.setMain pc).Serving :=
  ⟨hcr.trans hs.running, hleft, htoken, fun hr => hs.message (hq hr), hlive, hsite⟩

theorem serving_main {call : MainCall} (hcus : Custodial s) (hlist : ListSound s)
    (h : MainTrans m s call s') (ha : (Action.main call).Undisturbed) (hs : s.Serving) :
    s'.Serving := by
  have hlive : ∀ {c cl}, s.heap c = some cl → s.Live c := by
    intro c cl hc
    simp [State.Live, hc]
  -- the client that the thread writes to is still there
  have hown : ∀ {c x cl}, some c = some x → (s.setClient c cl).Live x := by
    rintro c x cl ⟨⟩
    simp [State.Live]
  have htoken : ¬ s'.HasToken := fun ht =>
    hs.token (hasToken_of_trans hcus.owned (.main h) rfl ht)
  cases h with
  | start ok hpc =>
    have hq := hs.message
    refine ⟨by cases ok <;> exact hs.running, by simp [State.setMain], htoken, ?_,
      by simp [State.setMain, MainPc.client], by simp [State.setMain]⟩
    cases ok <;> simp [State.setMain, serverAcceptMoreClients, hq]
  | dequeueFails hpc => exact hs
  | takeShutDown rest hpc hq => exact absurd (by simp [hq]) hs.message
  | takePostAccept cli opts rest hpc hq =>
    refine hs.setMain htoken rfl (by simp [hq]) (by simp) ?_ (by simp)
    rintro c rfl
    obtain ⟨cl, hc, -⟩ := hcus.owned.ok (mem_stations_message hq)
    exact hlive hc
  | enoughFree c opts hpc hm =>
    exact hs.setMain htoken rfl (List.Subset.refl _) (by simp)
      (fun x hx => hs.live x (by rw [hpc]; exact hx)) (by simp)
  | wantReuse c opts hpc hm =>
    exact hs.setMain htoken rfl (List.Subset.refl _) (by simp)
      (fun x hx => hs.live x (by rw [hpc]; exact hx)) (by simp)
  | reinit c opts cl sock r hpc hc hr =>
    exact hs.setMain htoken rfl (List.Subset.refl _) (by simp) (fun _ => hown) (by simp)
  | create opts c sock sockets hpc hc hsock ht =>
    exact hs.setMain htoken rfl (List.Subset.refl _) (by simp) (fun _ => hown) (by simp)
  | addToList c opts cl node hpc hc =>
    exact hs.setMain htoken rfl (List.Subset.refl _) (by simp) (fun _ => hown) (by simp)
  | acceptExReset c opts cl hpc hc =>
    refine hs.setMain htoken rfl (List.Subset.refl _) (by simp) ?_ (by simp)
    rintro x ⟨⟩
    exact hlive hc
  | acceptExFails c opts cl hpc hc => simpa [Action.acceptExFails] using ha.accept
  | retry c opts cl sock r hpc hc hr =>
    exact hs.setMain htoken rfl (List.Subset.refl _) (by simp) (fun _ => hown) (by simp)
  | removeFromList site c opts cl hpc hc hv =>
    refine hs.setMain htoken rfl (List.Subset.refl _) (by simp) (fun _ => hown) fun x o => ?_
    cases site with
    | enoughPending => simp
    | acceptExFailed => exact absurd hpc (hs.site c opts).1
  | destroyFailed c opts cl hpc hc => exact absurd hpc (hs.site c opts).2
  | crash call c hdead hc =>
    -- neither the client in the hand nor one on the list is released
    rcases hc with hc | ⟨site, x, opts, hpc, hc⟩
    · exact absurd (hs.live c hc) (by simp [State.Live, hdead])
    · have hl := (hlist.listed c ((Sequence.compared_prefix _ _ _).subset hc)).1
      exact absurd hl (by simp [State.Live, hdead])
  | _ =>
    exact hs.setMain htoken rfl (List.Subset.refl _) (by simp) (by simp [MainPc.client]) (by simp)

theorem State.Serving.trans (hs : s.Serving) (hcus : Custodial s) (hlist : ListSound s)
    (h : Trans m s a s') (ha : a.Undisturbed) : s'.Serving := by
  have htoken : ¬ s'.HasToken := fun ht =>
    hs.token (hasToken_of_trans hcus.owned h ha.shutDown ht)
  cases h with
  | main hm => exact serving_main hcus hlist hm ha hs
  | @worker i w call s' hw ht =>
    have hf := workerTrans_frame ht
    have hcr : s'.crashed = s.crashed := by
      cases ht with
      | crash call c hdead hc =>
        exact absurd hdead (hcus.owned.worker_live (List.mem_of_getElem? hw) hc)
      | repost ok hpc => cases ok <;> rfl
      | acceptMoreClients site cl reuseSocket ok hpc => cases ok <;> rfl
      | _ => rfl
    have hq : .shutDown ∉ s'.svIocpAccept := by
      have hno := hs.message
      cases ht with
      | repost ok hpc => cases ok <;> exact hno
      | acceptMoreClients site cl reuseSocket ok hpc =>
        cases ok <;> simp [State.setWorker, serverAcceptMoreClients, hno]
      | _ => exact hno
    refine ⟨hcr ▸ hs.running, hf.main ▸ hs.stays, htoken, hq, fun c hc => ?_, hf.main ▸ hs.site⟩
    rw [State.live_iff_listing, hf.listing, ← State.live_iff_listing]
    exact hs.live c (hf.main ▸ hc)
  | complete bytes hp => exact ⟨hs.running, hs.stays, htoken, hs.message, hs.live, hs.site⟩
  | ctrlShutDownIocp ok => simpa [Action.requestsShutDown] using ha.shutDown
  | ctrlShutDownAccept ok hh => simpa [Action.requestsShutDown] using ha.shutDown

/-- No thread takes a shutdown message. -/
theorem State.Serving.takesShutDown (hs : s.Serving) : takesShutDown (s, a) = false := by
  by_contra h
  unfold AioServer.Windows.takesShutDown at h
  split at h
  · exact hs.message (List.mem_of_mem_head? (by simpa using h))
  · next i =>
    simp only [Bool.not_eq_false, Option.any_eq_true] at h
    obtain ⟨w, hw, h⟩ := h
    simp only [Bool.and_eq_true, decide_eq_true_eq] at h
    exact hs.token (Or.inr (Or.inl ⟨w, List.mem_of_getElem? hw, List.mem_of_mem_head? h.2⟩))
  · exact h rfl

end serving

/-! ## The stuck server -/

/-- In an idle server every client is with the kernel. -/
theorem State.Idle.places_eq {n : ℕ} {s : State} (h : s.Idle) (hp : PoolOk n s) (c : ClientPtr) :
    s.places c = s.pending.countP fun p => p.1 = c := by
  have hbatch : (s.workers.map fun w => w.batch.countP fun p => p.client = some c).sum = 0 := by
    refine List.sum_eq_zero fun x hx => ?_
    obtain ⟨w, hw, rfl⟩ := List.mem_map.mp hx
    rw [h.batch hp w hw]
    rfl
  have hhands : s.workers.countP (fun w => w.pc.client = some c) = 0 := by
    refine List.countP_eq_zero.mpr fun w hw => ?_
    rcases h.workers w hw with hpc | hpc <;> simp [hpc, WorkerPc.client]
  rw [State.places, hbatch, hhands, h.main, h.accept, h.port]
  simp [MainPc.client]

theorem State.Idle.slots_eq {n : ℕ} {s : State} (h : s.Idle) (hp : PoolOk n s) :
    s.slots = s.pendingAccepts := by
  have hsum : (s.workers.map Worker.slots).sum = 0 := by
    refine List.sum_eq_zero fun x hx => ?_
    obtain ⟨w, hw, rfl⟩ := List.mem_map.mp hx
    rw [Worker.slots, h.batch hp w hw]
    rcases h.workers w hw with hpc | hpc <;> simp [hpc, WorkerPc.holdsSlot]
  rw [State.slots, State.queuedSlots, hsum, h.port]
  rfl

section run

variable {m : ℤ} {svSock : Socket} {n : ℕ} {tr : List (State × Action)} {s : State}

theorem ServerRun.poolOk (hrun : ServerRun m svSock n tr s) : PoolOk n s :=
  hrun.invariant (poolOk_init svSock n) fun _ _ _ h hs => h.trans (trans_of_step hs).2

theorem ServerRun.serving (hrun : ServerRun m svSock n tr s) (htr : ∀ x ∈ tr, x.2.Undisturbed) :
    s.Serving := by
  have h : (Custodial s ∧ ListSound s) ∧ s.Serving := by
    refine hrun.invariant_of (I := fun s => (Custodial s ∧ ListSound s) ∧ s.Serving) htr
      ⟨⟨custodial_init svSock n, listSound_init svSock n⟩, serving_init svSock n⟩
      fun s a s' hI ha hs => ?_
    have ht := (trans_of_step hs).2
    exact ⟨⟨hI.1.1.trans ht, hI.1.2.trans hI.1.1.sockets ht⟩, hI.2.trans hI.1.1 hI.1.2 ht ha⟩
  exact h.2

/-- In an undisturbed run no thread takes a shutdown message. -/
theorem ServerRun.takesShutDown_eq (hrun : ServerRun m svSock n tr s)
    (htr : ∀ x ∈ tr, x.2.Undisturbed) : ∀ x ∈ tr, takesShutDown x = false := by
  intro x hx
  obtain ⟨tr', s', hpre, hrun', -⟩ := hrun.prefix_of_mem hx
  exact (ServerRun.serving hrun' fun y hy => htr y (hpre.subset hy)).takesShutDown

/-- In an idle server the accepts that are left are all pending. -/
theorem ServerRun.idle_capacity (hrun : ServerRun m svSock n tr s)
    (htr : ∀ x ∈ tr, x.2.Undisturbed) (hidle : s.Idle) :
    (s.pendingAccepts : ℤ) + (tr.countP fun x => x.2.setupFails) = max 0 m := by
  have hdropped : (tr.map dropped).sum = 0 := by
    refine List.sum_eq_zero fun k hk => ?_
    obtain ⟨x, hx, rfl⟩ := List.mem_map.mp hk
    exact dropped_eq_zero (hrun.takesShutDown_eq htr x hx)
  have hcounted : s.counted = s.svOutstandingAccepts := by
    simp [State.counted, hidle.main, MainPc.owesIncrement]
  have hcap := hrun.capacity
  have hle := hrun.limitOk.counted_le
  -- the accept thread would not sleep below the limit
  have hfull : m ≤ s.svOutstandingAccepts := by
    refine (hrun.refilled_of_settled htr (by rw [hidle.main]; rfl)).enough hidle.accept ?_
    intro w hw
    rcases hidle.workers w hw with hpc | hpc <;> rw [hpc] <;> rfl
  rw [hidle.slots_eq hrun.poolOk, hdropped] at hcap
  omega

/-- In an idle server every client has one operation in the kernel. -/
theorem ServerRun.pending_of_live (hrun : ServerRun m svSock n tr s)
    (htr : ∀ x ∈ tr, x.2.Undisturbed) (hidle : s.Idle) {c : ClientPtr} (hl : s.Live c) :
    s.pending.countP (fun p => p.1 = c) = 1 := by
  rw [← hidle.places_eq hrun.poolOk c]
  exact hrun.places_eq_one (fun x hx => ⟨(htr x hx).post, hrun.takesShutDown_eq htr x hx⟩) hl

/-- When the server is stuck. In every run the pending `AcceptEx` and the setups that have failed
are together at most the limit, so after that many failures the server is deaf: nothing is
pending, and nothing is posted any more. In a run without failed posts, creates and accepts and
without a shutdown, an idle server has posted all accepts that are left, and it is stuck if and
only if none is left and there is no client. -/
theorem ServerRun.stuck_iff (hrun : ServerRun m svSock n tr s) :
    (s.pendingAccepts : ℤ) + (tr.countP fun x => x.2.setupFails) ≤ max 0 m ∧
    (max 0 m ≤ (tr.countP fun x => x.2.setupFails) → ∀ tr' s', Run (step m) s tr' s' →
      s'.pendingAccepts = 0 ∧ ∀ x ∈ tr', posts x = false) ∧
    ((∀ x ∈ tr, x.2.Undisturbed) → (∃ w ∈ s.workers, w.pc ≠ .left) →
      (s.Idle → (s.pendingAccepts : ℤ) + (tr.countP fun x => x.2.setupFails) = max 0 m) ∧
      (Stuck m s ↔ s.Idle ∧ (tr.countP fun x => x.2.setupFails) = max 0 m ∧
        ∀ c, ¬ s.Live c)) := by
  refine ⟨?_, fun hfull _ _ hrun' => hrun.deaf hfull hrun', fun htr hstay =>
    ⟨hrun.idle_capacity htr, ?_⟩⟩
  · have hslots := hrun.slots_add_le
    have hle := pendingAccepts_le_slots s
    omega
  have hserving := hrun.serving htr
  rw [stuck_iff_idle hrun.custodial hserving.running hserving.stays hstay]
  refine and_congr_right fun hidle => ?_
  have hcap := hrun.idle_capacity htr hidle
  constructor
  · intro hnone
    rw [State.pendingAccepts, hnone] at hcap
    exact ⟨by simpa using hcap, fun c hl => by
      simpa [hnone] using hrun.pending_of_live htr hidle hl⟩
  · rintro ⟨-, hdead⟩
    -- a pending operation is one on a client that is not released
    refine List.eq_nil_iff_forall_not_mem.mpr fun p hp => hdead p.1 ?_
    obtain ⟨cl, hc, -⟩ := hrun.owned.ok (mem_stations_pending hp)
    simp [State.Live, hc]

end run

/-- With a limit of 1 one failed `setsockopt` is enough: the client is destroyed, and the threads
wait for good. -/
theorem stuck_after_failed_setup : ∃ tr s, ServerRun 1 1 1 tr s ∧ s.svOutstandingAccepts = 1 ∧
    Stuck 1 s ∧ ∀ tr' s', Run (step 1) s tr' s' → s'.pendingAccepts = 0 := by
  have hrun : ∃ tr s, ServerRun 1 1 1 tr s ∧ s.svOutstandingAccepts = 1 ∧ s.main = .wait ∧
      s.svIocpAccept = [] ∧ s.svIocp = [] ∧ s.pending = [] ∧ (∃ w ∈ s.workers, w.pc ≠ .left) ∧
      (∀ w ∈ s.workers, w.pc = .dequeue ∨ w.pc = .left) ∧
      (tr.countP fun x => x.2.setupFails) = 1 ∧ ∀ x ∈ tr, x.2.postFails = false ∧
        x.2.createFails = false ∧ x.2.acceptExFails = false ∧ x.2.requestsShutDown = false :=
    ⟨_, _, run_of_exec (show exec (step 1) (State.init 1 1) (acceptedClient ++
      [.worker 0 (.setsockopt false), .worker 0 (.postQueuedCompletionStatus true),
        .worker 0 .tau, .main .atomicLoad, .main (.getQueuedCompletionStatus true),
        .main .atomicLoad, .main .dlistRemoveItem, .main .clientDestroy]) = some (_, _) from rfl),
      rfl, rfl, rfl, rfl, rfl, by decide, by decide, by decide, by decide⟩
  obtain ⟨tr, s, hrun, hcounter, hmain, haccept, hport, hpending, hstay, hws, hfails, hok⟩ := hrun
  have htr : ∀ x ∈ tr, x.2.Undisturbed := by
    intro x hx
    obtain ⟨h1, h2, h3, h4⟩ := hok x hx
    exact ⟨h1, h2, h3, h4⟩
  have hidle : s.Idle := ⟨hmain, haccept, hport, hws⟩
  have hdead : ∀ c, ¬ s.Live c := fun c hl => by
    simpa [hpending] using hrun.pending_of_live htr hidle hl
  have hstuck := hrun.stuck_iff
  exact ⟨tr, s, hrun, hcounter, (hstuck.2.2 htr hstay).2.mpr ⟨hidle, by simp [hfails], hdead⟩,
    fun tr' s' hrun' => (hstuck.2.1 (by simp [hfails]) tr' s' hrun').1⟩

end AioServer.Windows
