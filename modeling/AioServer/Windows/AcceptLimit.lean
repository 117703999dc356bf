import AioServer.Windows.Accounting

/-!
# The Windows server: the accept limit

The accept thread samples the counter, posts an operation and raises the counter in three
separate steps, while workers lower it. What bounds the operations in flight is

* `State.slots`: the `AcceptEx` operations that are pending, plus the completed ones whose
  slot was not given back. They are at most the counter plus the increment that the accept
  thread owes;
* the counter is below the limit while the accept thread is posting, because only this
  thread raises it.

A failed setup and a batch dropped at a shutdown message only lower `State.slots`.
-/

namespace AioServer.Windows

open Lib

/-! ## Slots in use -/

def KernelOp.isAccept : KernelOp → Bool
  | .acceptEx => true
  | _ => false

def Packet.isAccept : Packet → Bool
  | .completion n => n.op.isAccept
  | .shutDown => false

/-- The worker has a completed `AcceptEx` whose slot is not given back. -/
def WorkerPc.holdsSlot : WorkerPc → Bool
  | .dispatch n => n.op.isAccept
  | .setsockopt _ | .associate _ | .readFromClient _ | .countConnection | .releaseSlot => true
  | _ => false

def Worker.slots (w : Worker) : ℕ := w.batch.countP Packet.isAccept + w.pc.holdsSlot.toNat

/-- The `AcceptEx` operations that the kernel has accepted and not completed. -/
def State.pendingAccepts (s : State) : ℕ := s.pending.countP fun p => p.2.isAccept

/-- The slots in use outside the workers. -/
def State.queuedSlots (s : State) : ℕ := s.pendingAccepts + s.svIocp.countP Packet.isAccept

def State.slots (s : State) : ℕ := s.queuedSlots + (s.workers.map Worker.slots).sum

theorem pendingAccepts_le_slots (s : State) : s.pendingAccepts ≤ s.slots := by
  rw [State.slots, State.queuedSlots]
  omega

/-- The slots in use after a step of worker `i` that gives back or loses `r` of them. -/
theorem slots_setWorker {s t : State} {i r : ℕ} {w w' : Worker} (hw : s.workers[i]? = some w)
    (ht : t.workers = s.workers)
    (h : t.queuedSlots + w'.slots + r = s.queuedSlots + w.slots) :
    (t.setWorker i w').slots + r = s.slots := by
  have hset := sum_map_set Worker.slots hw w'
  have hq : (t.setWorker i w').queuedSlots = t.queuedSlots := rfl
  have hws : (t.setWorker i w').workers = s.workers.set i w' := by rw [← ht]; rfl
  rw [State.slots, State.slots, hq, hws]
  omega

/-- The worker that dispatches a completion holds a slot if that is one of an `AcceptEx`. -/
theorem holdsSlot_serverProcessCompletion {n : Completion} {cl : Client} {assoc : Option Bool}
    (h : OpOk n.op cl assoc) :
    (serverProcessCompletion n cl.aioOpcode).holdsSlot = n.op.isAccept := by
  rw [serverProcessCompletion.eq_def]
  cases hop : n.op <;> rw [hop] at h
  · simp [h.1, WorkerPc.holdsSlot, KernelOp.isAccept]
  · simp [h.1, WorkerPc.holdsSlot, KernelOp.isAccept]
  · split
    · rfl
    · rw [h.1]
      rfl

/-- The slots whose completions a worker drops with the rest of its batch. -/
def dropped (x : State × Action) : ℕ :=
  match x.2 with
  | .worker i .tau =>
    (x.1.workers[i]?).elim 0 fun w =>
      if w.pc = .examine ∧ w.batch.head? = some .shutDown then w.slots else 0
  | _ => 0

theorem dropped_of_pc {s : State} {i : ℕ} {w : Worker} {call : WorkerCall}
    (hw : s.workers[i]? = some w) (hpc : w.pc ≠ .examine) : dropped (s, .worker i call) = 0 := by
  cases call <;> simp [dropped, hw, hpc]

/-- Only a shutdown packet makes a worker drop completions. -/
theorem dropped_eq_zero {s : State} {a : Action} (h : takesShutDown (s, a) = false) :
    dropped (s, a) = 0 := by
  unfold dropped
  split
  · next i ha =>
    obtain rfl : a = .worker i .tau := ha
    cases hw : s.workers[i]? with
    | none => rfl
    | some w =>
      refine if_neg fun hx => ?_
      simp [takesShutDown, hw, hx] at h
  · rfl

theorem slots_worker {s s' : State} {i : ℕ} {w : Worker} {call : WorkerCall} (hown : s.Owned)
    (hbatch : s.BatchesOk) (hw : s.workers[i]? = some w) (h : WorkerTrans s i w call s') :
    s'.slots + ((Action.worker i call).releases.toNat + (Action.worker i call).setupFails.toNat
      + dropped (s, .worker i call)) = s.slots := by
  have hdrop : w.pc ≠ .examine → dropped (s, .worker i call) = 0 := dropped_of_pc hw
  cases h with
  | dequeue k hpc h0 hmax hk =>
    refine slots_setWorker hw rfl ?_
    -- the first packets go from the port to the batch
    have hsplit : s.svIocp.countP Packet.isAccept
        = (s.svIocp.take k).countP Packet.isAccept + (s.svIocp.drop k).countP Packet.isAccept := by
      rw [← List.countP_append, List.take_append_drop]
    have hempty : w.batch = [] := hbatch w (List.mem_of_getElem? hw) hpc
    simp only [State.queuedSlots, State.pendingAccepts, Worker.slots, WorkerPc.holdsSlot,
      Action.releases, Action.setupFails, hdrop (by simp [hpc]), Bool.toNat_false, hpc, hempty,
      List.countP_nil]
    omega
  | repost ok hpc =>
    refine slots_setWorker hw (by cases ok <;> rfl) ?_
    have hq : (serverPostShutDown s ok).queuedSlots = s.queuedSlots := by
      cases ok <;> simp [State.queuedSlots, State.pendingAccepts, serverPostShutDown,
        Packet.isAccept]
    simp [Worker.slots, hq, hpc, WorkerPc.holdsSlot, Action.releases, Action.setupFails,
      hdrop (by simp [hpc])]
  | batchDone hpc hb =>
    refine slots_setWorker hw rfl ?_
    simp [Worker.slots, hpc, hb, WorkerPc.holdsSlot, Action.releases, Action.setupFails, dropped,
      hw]
  | stop rest hpc hb =>
    refine slots_setWorker hw rfl ?_
    simp [Worker.slots, hpc, hb, WorkerPc.holdsSlot, Action.releases, Action.setupFails, dropped,
      hw]
  | take n rest hpc hb =>
    refine slots_setWorker hw rfl ?_
    have hn : (Packet.completion n).isAccept = n.op.isAccept := rfl
    have hd : dropped (s, .worker i .tau) = 0 := by simp [dropped, hw, hb]
    simp only [Worker.slots, hb, hpc, WorkerPc.holdsSlot, Action.releases, Action.setupFails, hd,
      List.countP_cons, hn, Bool.toNat_false]
    cases n.op.isAccept <;> simp
  | dispatch n cl hpc hc =>
    refine slots_setWorker hw rfl ?_
    have hok := hown.worker_ok (List.mem_of_getElem? hw) hpc rfl hc
    have hs := holdsSlot_serverProcessCompletion hok
    have hd : w.pc.holdsSlot = n.op.isAccept := by rw [hpc]; rfl
    simp only [Worker.slots, hs, hd, Action.releases, Action.setupFails, hdrop (by simp [hpc]),
      Bool.toNat_false]
    omega
  | setsockopt c cl ok hpc hc =>
    refine slots_setWorker hw rfl ?_
    -- a failure loses the slot
    cases ok <;> simp [Worker.slots, hpc, WorkerPc.holdsSlot, Action.releases, Action.setupFails,
      hdrop (by simp [hpc]), add_assoc]
  | read c cl hpc hc =>
    refine slots_setWorker hw rfl ?_
    simp [Worker.slots, hpc, WorkerPc.holdsSlot, Action.releases, Action.setupFails,
      hdrop (by simp [hpc]), State.queuedSlots, State.pendingAccepts, State.issue, State.setClient,
      KernelOp.isAccept]
  | transmit c cl hpc hc =>
    refine slots_setWorker hw rfl ?_
    simp [Worker.slots, hpc, WorkerPc.holdsSlot, Action.releases, Action.setupFails,
      hdrop (by simp [hpc]), State.queuedSlots, State.pendingAccepts, State.issue,
      KernelOp.isAccept]
  | openFile c cl path hd hpc hc =>
    refine slots_setWorker hw rfl ?_
    have hno : WorkerPc.holdsSlot (if hd = invalidHandleValue then .transmit c else .querySize c)
        = false := by
      split <;> rfl
    have hp : w.pc.holdsSlot = false := by rw [hpc]; rfl
    simp only [Worker.slots, hno, hp, Action.releases, Action.setupFails, hdrop (by simp [hpc]),
      State.queuedSlots, State.pendingAccepts, State.setClient, Bool.toNat_false]
    omega
  | releaseSlot hpc =>
    refine slots_setWorker hw rfl ?_
    simp only [Worker.slots, hpc, WorkerPc.holdsSlot, Action.releases, Action.setupFails,
      hdrop (by simp [hpc]), State.queuedSlots, State.pendingAccepts, Bool.toNat_false,
      Bool.toNat_true]
    omega
  | acceptMoreClients site cl reuseSocket ok hpc =>
    refine slots_setWorker hw (by cases ok <;> rfl) ?_
    have hq : (serverAcceptMoreClients s cl reuseSocket ok).queuedSlots = s.queuedSlots := by
      cases ok <;> rfl
    simp [Worker.slots, hq, hpc, WorkerPc.holdsSlot, Action.releases, Action.setupFails,
      hdrop (by simp [hpc])]
  | crash call c hdead hc => exact absurd hdead (hown.worker_live (List.mem_of_getElem? hw) hc)
  | _ =>
    have hpc := ‹w.pc = _›
    refine slots_setWorker hw rfl ?_
    simp [Worker.slots, hpc, WorkerPc.holdsSlot, Action.releases, Action.setupFails,
      hdrop (by simp [hpc]), State.queuedSlots, State.pendingAccepts, State.setClient, add_assoc]

theorem slots_main {m : ℤ} {s s' : State} {call : MainCall} (h : MainTrans m s call s') :
    s'.slots = s.slots + (posts (s, .main call)).toNat := by
  cases h with
  | start ok hpc =>
    cases ok <;> simp [State.slots, State.queuedSlots, State.pendingAccepts, State.setMain,
      serverAcceptMoreClients, posts, hpc]
  | acceptEx c opts cl hpc hc ho =>
    have hp : posts (s, .main (.acceptEx .success)) = true := by
      simp [posts, hpc, State.Live, hc]
    simp only [State.slots, State.queuedSlots, State.pendingAccepts, State.setMain, State.issue,
      List.countP_append, List.countP_singleton, KernelOp.isAccept, hp, if_true, Bool.toNat_true]
    omega
  | dequeueFails hpc => simp [posts, hpc]
  | crash call c hdead hc =>
    rw [posts_crash hdead hc]
    rfl
  | _ =>
    have hpc := ‹s.main = _›
    simp [State.slots, State.queuedSlots, State.pendingAccepts, State.setMain, State.setClient,
      serverAddClientToList, serverRemoveClientFromList, clientDestroy, posts, hpc]

/-- What a step does to the slots: an operation that is posted takes one, a decrement frees one,
and a failed setup or a dropped completion loses one. -/
theorem slots_step {m : ℤ} {s s' : State} {a : Action} (hown : s.Owned) (hbatch : s.BatchesOk)
    (h : Trans m s a s') :
    s'.slots + (a.releases.toNat + a.setupFails.toNat + dropped (s, a))
      = s.slots + (posts (s, a)).toNat := by
  cases h with
  | main hm => simp [slots_main hm, Action.releases, Action.setupFails, dropped]
  | @worker i w call s' hw ht =>
    have hp : posts (s, .worker i call) = false := by simp [posts]
    simpa [hp] using slots_worker hown hbatch hw ht
  | @complete i c op bytes hp =>
    -- the operation leaves the pending ones and its packet arrives on the port
    have hsum := sum_map_eraseIdx (fun p => p.2.isAccept.toNat) hp
    rw [sum_map_toNat, sum_map_toNat] at hsum
    have hpk : (Packet.completion ⟨c, op, bytes⟩).isAccept = op.isAccept := rfl
    have hpo : posts (s, .complete i bytes) = false := by simp [posts]
    simp only [State.slots, State.queuedSlots, State.pendingAccepts, List.countP_append,
      List.countP_singleton, hpk, Action.releases, Action.setupFails, dropped, hpo,
      Bool.toNat_false, hsum]
    cases op.isAccept with
    | false => simp
    | true =>
      simp only [if_true, Bool.toNat_true]
      omega
  | ctrlShutDownIocp ok =>
    cases ok <;> simp [State.slots, State.queuedSlots, State.pendingAccepts, serverPostShutDown,
      Packet.isAccept, Action.releases, Action.setupFails, dropped, posts]
  | ctrlShutDownAccept ok hh =>
    simp [State.slots, State.queuedSlots, State.pendingAccepts, Action.releases,
      Action.setupFails, dropped, posts]

/-! ## The limit -/

/-- The accept thread has seen a counter below the limit and has not raised it since. -/
def MainPc.posting : MainPc → Bool
  | .reinit .. | .create _ | .addToList .. | .postAcceptEx .. | .countAccept _ | .retry ..
  | .removeFromList .acceptExFailed .. | .destroy .acceptExFailed .. => true
  | _ => false

structure LimitOk (m : ℤ) (s : State) : Prop where
  slots : s.slots ≤ s.counted
  room : s.main.posting = true → s.svOutstandingAccepts < m
  counter : s.svOutstandingAccepts ≤ max 0 m

theorem limitOk_init (m : ℤ) (svSock : Socket) (n : ℕ) : LimitOk m (State.init svSock n) where
  slots := by
    simp [State.init, State.slots, State.queuedSlots, State.pendingAccepts, Worker.slots,
      WorkerPc.holdsSlot, State.counted, MainPc.owesIncrement]
  room := by simp [State.init, MainPc.posting]
  counter := by simp [State.init]

/-- Only the accept thread raises the counter, and only from below the limit. -/
theorem room_main {m : ℤ} {s s' : State} {call : MainCall} (h : MainTrans m s call s')
    (hroom : s.main.posting = true → s.svOutstandingAccepts < m)
    (hmax : s.svOutstandingAccepts ≤ max 0 m) :
    (s'.main.posting = true → s'.svOutstandingAccepts < m) ∧
      s'.svOutstandingAccepts ≤ max 0 m := by
  cases h with
  | start ok hpc => cases ok <;> exact ⟨by simp [State.setMain, MainPc.posting], hmax⟩
  | countAccept opts hpc =>
    have hlt : s.svOutstandingAccepts < m := hroom (by rw [hpc]; rfl)
    refine ⟨by simp [State.setMain, MainPc.posting], ?_⟩
    simp only [State.setMain]
    omega
  | wantReuse c opts hpc hm => exact ⟨fun _ => hm, hmax⟩
  | wantFresh opts hpc hm => exact ⟨fun _ => hm, hmax⟩
  | dequeueFails hpc => exact ⟨hroom, hmax⟩
  | removeFromList site c opts cl hpc hc hv =>
    refine ⟨fun hp => hroom ?_, hmax⟩
    rw [hpc]
    -- only the loop of `server_try_post_accept` goes on to post
    cases site <;> simp_all [State.setMain, MainPc.posting]
  | crash call c hdead hc => exact ⟨hroom, hmax⟩
  | _ =>
    have hpc := ‹s.main = _›
    refine ⟨fun hp => hroom ?_, hmax⟩
    simp_all [State.setMain, MainPc.posting]

theorem LimitOk.trans {m : ℤ} {s s' : State} {a : Action} (h : LimitOk m s) (hown : s.Owned)
    (hbatch : s.BatchesOk) (ht : Trans m s a s') : LimitOk m s' := by
  have hslots : (s'.slots : ℤ) ≤ s'.counted := by
    have hs := slots_step hown hbatch ht
    have hc := counted_step hown ht
    have hle := h.slots
    omega
  have hroom : (s'.main.posting = true → s'.svOutstandingAccepts < m) ∧
      s'.svOutstandingAccepts ≤ max 0 m := by
    cases ht with
    | main hm => exact room_main hm h.room h.counter
    | @worker i w call s' hw ht =>
      have hmain := (workerTrans_frame ht).main
      have hc := counter_worker ht fun c hc => hown.worker_live (List.mem_of_getElem? hw) hc
      have hmax := h.counter
      refine ⟨fun hp => ?_, by omega⟩
      have hlt := h.room (hmain ▸ hp)
      omega
    | ctrlShutDownIocp ok => cases ok <;> exact ⟨h.room, h.counter⟩
    | _ => exact ⟨h.room, h.counter⟩
  exact ⟨hslots, hroom.1, hroom.2⟩

section run

variable {m : ℤ} {svSock : Socket} {n : ℕ} {tr : List (State × Action)} {s : State}

theorem ServerRun.limitOk (hrun : ServerRun m svSock n tr s) : LimitOk m s := by
  have h : Custodial s ∧ LimitOk m s := by
    refine hrun.invariant (I := fun s => Custodial s ∧ LimitOk m s)
      ⟨custodial_init svSock n, limitOk_init m svSock n⟩ fun s a s' hI hs => ?_
    have ht := (trans_of_step hs).2
    exact ⟨hI.1.trans ht, hI.2.trans hI.1.owned hI.1.batches ht⟩
  exact h.2

theorem LimitOk.counted_le (h : LimitOk m s) : s.counted ≤ max 0 m := by
  have hmax := h.counter
  have hroom : s.main.owesIncrement = true → s.svOutstandingAccepts < m := by
    intro ho
    refine h.room ?_
    cases hpc : s.main <;> simp_all [MainPc.owesIncrement, MainPc.posting]
  rw [State.counted]
  cases ho : s.main.owesIncrement with
  | false => simpa using hmax
  | true =>
    have hlt := hroom ho
    simp only [Bool.toNat_true]
    omega

/-- In every reachable state at most `max 0 m` operations are pending. -/
theorem ServerRun.pendingAccepts_le (hrun : ServerRun m svSock n tr s) :
    (s.pendingAccepts : ℤ) ≤ max 0 m := by
  have hle := pendingAccepts_le_slots s
  have hslots := hrun.limitOk.slots
  have hmax := hrun.limitOk.counted_le
  omega

/-- The bound is reached: the one operation that a limit of 1 allows is pending. -/
theorem pendingAccepts_le_one : ∃ tr s, ServerRun 1 1 1 tr s ∧ s.pendingAccepts = 1 ∧
    (s.pendingAccepts : ℤ) ≤ max 0 1 := by
  have hrun : ∃ tr s, ServerRun 1 1 1 tr s ∧ s.pendingAccepts = 1 :=
    ⟨_, _, run_of_exec (show exec (step 1) (State.init 1 1) (acceptedClient.take 7)
      = some (_, _) from rfl), rfl⟩
  obtain ⟨tr, s, hrun, hone⟩ := hrun
  exact ⟨tr, s, hrun, hone, hrun.pendingAccepts_le⟩

/-- The counter stays between -1 and the limit, so its 32 bits never overflow. -/
theorem ServerRun.counter_bounds (hrun : ServerRun m svSock n tr s) :
    -1 ≤ s.svOutstandingAccepts ∧ s.svOutstandingAccepts ≤ max 0 m := by
  have hslots := hrun.limitOk.slots
  have howes : s.main.owesIncrement.toNat ≤ 1 := Bool.toNat_le _
  rw [State.counted] at hslots
  exact ⟨by omega, hrun.limitOk.counter⟩

end run

end AioServer.Windows
