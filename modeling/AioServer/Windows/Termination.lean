import AioServer.Lib.Fair
import AioServer.Windows.Access
import AioServer.Windows.ClientList
import AioServer.Windows.Shutdown
import Mathlib.Data.Finset.Card

/-!
# The Windows server: the shutdown ends

`server_control_handler` posts one packet for all workers and one message for the accept
thread, and `server_cleanup_and_shutdown` waits for all of them. Here the threads run for
ever, and each one that can go on does so in the end.

* `State.WorkerReady`, `State.MainReady`: a thread that has not left is not waiting at an
  empty port;
* `worker_progress`: what a step of a worker does to its own work and to the packet;
* the packet gets to a worker (`eventually_held`), that worker leaves (`eventually_left`), and
  so on until all have left (`eventually_all_left`);
* when no worker lowers the counter any more, the accept thread finds its message
  (`eventually_main_left`).
-/

namespace AioServer.Windows

open Lib

/-! ## Threads that can go on -/

def State.WorkerLeft (s : State) (i : ℕ) : Prop := (s.workers[i]?).map Worker.pc = some .left

/-- Worker `i` has not left and is not waiting at an empty `sv_iocp`. -/
def State.WorkerReady (s : State) (i : ℕ) : Prop :=
  ∃ w, s.workers[i]? = some w ∧ w.pc ≠ .left ∧ (w.pc = .dequeue → s.svIocp ≠ [])

/-- The accept thread has not left and is not waiting at an empty `sv_iocp_accept`. -/
def State.MainReady (s : State) : Prop :=
  s.main ≠ .left ∧ (s.main = .wait → s.svIocpAccept ≠ [])

def Action.byWorker (i : ℕ) : Action → Prop
  | .worker j _ => j = i
  | _ => False

def Action.byMain : Action → Prop
  | .main _ => True
  | _ => False

/-! ## The work of a worker -/

/-- The worker has the packet, in its batch or on its way back to `sv_iocp`. -/
def Worker.HoldsToken (w : Worker) : Prop := .shutDown ∈ w.batch ∨ w.pc = .stopReceived

/-- How many steps are left in a handler, at most. -/
def WorkerPc.work : WorkerPc → ℕ
  | .dispatch _ => 8
  | .setsockopt _ => 7
  | .associate _ | .recvRequest _ => 6
  | .readFromClient _ | .openResource .. => 5
  | .countConnection | .querySize _ | .countTransfer .. => 4
  | .releaseSlot | .transmit _ | .markReused _ => 3
  | .acceptMoreClients .. => 2
  | .examine | .stopReceived => 1
  | .dequeue | .left => 0

/-- A notification costs one step and a handler. -/
def Worker.work (w : Worker) : ℕ := 9 * w.batch.length + w.pc.work

/-- What a step does that is not the call of `GetQueuedCompletionStatusEx`: the worker has less
work, and it keeps the packet until it leaves with an empty batch. -/
structure Progress (s : State) (i : ℕ) (w w' : Worker) (s' : State) : Prop where
  workers : s'.workers = s.workers.set i w'
  port : ∃ X, s'.svIocp = s.svIocp ++ X
  work : w'.work < w.work
  token : w.HoldsToken → w'.HoldsToken ∨ w'.pc = .left
  leaver : (w.pc = .stopReceived → w.batch = []) → w'.pc = .stopReceived ∨ w'.pc = .left →
    w'.batch = []

/-- The worker takes packets from the port, or leaves because the call fails. -/
def Dequeues (s : State) (i : ℕ) (w : Worker) (s' : State) : Prop :=
  (∃ k, 0 < k ∧ k ≤ s.svIocp.length ∧ s'.svIocp = s.svIocp.drop k ∧
    s'.workers = s.workers.set i ⟨.examine, s.svIocp.take k⟩) ∨
  s'.svIocp = s.svIocp ∧ s'.workers = s.workers.set i { w with pc := .left }

theorem serverProcessCompletion_work (n : Completion) (opcode : IOOpcode) :
    (serverProcessCompletion n opcode).work < 8 ∧
      serverProcessCompletion n opcode ≠ .stopReceived ∧
      serverProcessCompletion n opcode ≠ .left :=
  serverProcessCompletion_of
    (P := fun pc => pc.work < 8 ∧ pc ≠ .stopReceived ∧ pc ≠ .left) opcode (by simp [WorkerPc.work])
    (by simp [WorkerPc.work]) (by simp [WorkerPc.work]) (by simp [WorkerPc.work])
    (by simp [WorkerPc.work])

theorem worker_progress {s s' : State} {i : ℕ} {w : Worker} {call : WorkerCall} (hown : s.Owned)
    (hw : s.workers[i]? = some w) (h : WorkerTrans s i w call s') :
    w.pc = .dequeue ∧ Dequeues s i w s' ∨ w.pc ≠ .dequeue ∧ ∃ w', Progress s i w w' s' := by
  -- a worker that only moves on in its handler
  have hmove : ∀ {t : State} {pc : WorkerPc}, t.workers = s.workers →
      (∃ X, t.svIocp = s.svIocp ++ X) → pc.work < w.pc.work →
      pc ≠ .stopReceived ∧ pc ≠ .left → w.pc ≠ .stopReceived →
      w.pc ≠ .dequeue ∧ ∃ w', Progress s i w w' (t.setWorker i { w with pc := pc }) := by
    intro t pc hws hX hlt hpc hno
    refine ⟨fun hd => by simp [hd, WorkerPc.work] at hlt, { w with pc := pc }, ?_, hX, ?_, ?_, ?_⟩
    · rw [← hws]
      rfl
    · exact Nat.add_lt_add_left hlt _
    · exact fun ht => Or.inl (Or.inl (ht.resolve_right hno))
    · rintro - (hd | hd)
      · exact absurd hd hpc.1
      · exact absurd hd hpc.2
  have hsame : ∃ X, s.svIocp = s.svIocp ++ X := ⟨[], by simp⟩
  cases h with
  | dequeueFails hpc => exact Or.inl ⟨hpc, Or.inr ⟨rfl, rfl⟩⟩
  | dequeue k hpc h0 hmax hk => exact Or.inl ⟨hpc, Or.inl ⟨k, h0, hk, rfl, rfl⟩⟩
  | repost ok hpc =>
    refine Or.inr ⟨by simp [hpc], { w with pc := .left }, ?_, ?_, ?_, fun _ => Or.inr rfl,
      fun hb _ => hb hpc⟩
    · cases ok <;> rfl
    · cases ok with
      | false => exact hsame
      | true => exact ⟨[.shutDown], rfl⟩
    · simp [Worker.work, hpc, WorkerPc.work]
  | batchDone hpc hb =>
    refine Or.inr ⟨by simp [hpc], ⟨.dequeue, []⟩, rfl, hsame, ?_, fun ht => ?_, fun _ _ => rfl⟩
    · simp [Worker.work, hpc, hb, WorkerPc.work]
    · simp [Worker.HoldsToken, hb, hpc] at ht
  | stop rest hpc hb =>
    refine Or.inr ⟨by simp [hpc], ⟨.stopReceived, []⟩, rfl, hsame, ?_, fun _ => Or.inl (Or.inr rfl),
      fun _ _ => rfl⟩
    simp only [Worker.work, hpc, hb, WorkerPc.work, List.length_cons, List.length_nil]
    omega
  | take n rest hpc hb =>
    refine Or.inr ⟨by simp [hpc], ⟨.dispatch n, rest⟩, rfl, hsame, ?_, fun ht => ?_, by simp⟩
    · simp only [Worker.work, hpc, hb, WorkerPc.work, List.length_cons]
      omega
    · exact Or.inl (Or.inl (by simpa [Worker.HoldsToken, hb, hpc] using ht))
  | dispatch n cl hpc hc =>
    obtain ⟨hlt, hne⟩ := serverProcessCompletion_work n cl.aioOpcode
    exact Or.inr (hmove rfl hsame (by rw [hpc]; exact hlt) hne (by simp [hpc]))
  | setsockopt c cl ok hpc hc =>
    refine Or.inr (hmove rfl hsame ?_ ?_ (by simp [hpc]))
    · cases ok <;> simp [hpc, WorkerPc.work]
    · cases ok <;> simp
  | openFile c cl path h hpc hc =>
    refine Or.inr (hmove rfl hsame ?_ ?_ (by simp [hpc]))
    · rw [hpc]
      split <;> simp [WorkerPc.work]
    · split <;> simp
  | acceptMoreClients site cl reuseSocket ok hpc =>
    refine Or.inr (hmove (by cases ok <;> rfl) ?_ (by simp [hpc, WorkerPc.work]) (by simp)
      (by simp [hpc]))
    cases ok <;> exact hsame
  | crash call c hdead hc => exact absurd hdead (hown.worker_live (List.mem_of_getElem? hw) hc)
  | _ =>
    have hpc := ‹w.pc = _›
    exact Or.inr (hmove rfl hsame (by simp [hpc, WorkerPc.work]) (by simp) (by simp [hpc]))

/-! ## The pool -/

/-- What every step of a server with `n` workers keeps. -/
structure PoolOk (n : ℕ) (s : State) : Prop where
  custodial : Custodial s
  length : s.workers.length = n
  leaver : ∀ w ∈ s.workers, w.pc = .stopReceived ∨ w.pc = .left → w.batch = []

section pool

variable {m : ℤ} {n : ℕ} {s s' : State} {a : Action} {i : ℕ}

/-- A worker makes progress or takes packets, or the pool stays as it is. -/
theorem pool_step (hown : s.Owned) (h : Trans m s a s') :
    (∃ j w call, a = .worker j call ∧ s.workers[j]? = some w ∧
      (w.pc = .dequeue ∧ Dequeues s j w s' ∨ w.pc ≠ .dequeue ∧ ∃ w', Progress s j w w' s')) ∨
    (∀ j, ¬ a.byWorker j) ∧ s'.workers = s.workers ∧ ∃ X, s'.svIocp = s.svIocp ++ X := by
  cases h with
  | @worker j w call s' hw ht => exact Or.inl ⟨j, w, call, rfl, hw, worker_progress hown hw ht⟩
  | main hm =>
    refine Or.inr ⟨fun _ => id, workers_mainTrans hm, [], ?_⟩
    rw [List.append_nil]
    cases hm with
    | start ok => cases ok <;> rfl
    | _ => rfl
  | complete bytes hp => exact Or.inr ⟨fun _ => id, rfl, _, rfl⟩
  | ctrlShutDownIocp ok =>
    refine Or.inr ⟨fun _ => id, by cases ok <;> rfl, if ok then [.shutDown] else [], ?_⟩
    cases ok <;> simp [serverPostShutDown]
  | ctrlShutDownAccept ok hh => exact Or.inr ⟨fun _ => id, rfl, [], by simp⟩

theorem poolOk_init (svSock : Socket) (n : ℕ) : PoolOk n (State.init svSock n) where
  custodial := custodial_init svSock n
  length := List.length_replicate
  leaver := by simp [State.init]

theorem PoolOk.trans (hp : PoolOk n s) (h : Trans m s a s') : PoolOk n s' := by
  have hset : ∀ {j : ℕ} {w w' : Worker}, s.workers[j]? = some w →
      s'.workers = s.workers.set j w' →
      (w'.pc = .stopReceived ∨ w'.pc = .left → w'.batch = []) → PoolOk n s' := by
    intro j w w' hw hws hw'
    refine ⟨hp.custodial.trans h, by rw [hws, List.length_set, hp.length], fun x hx hpc => ?_⟩
    rw [hws] at hx
    rcases List.mem_or_eq_of_mem_set hx with hx | rfl
    · exact hp.leaver x hx hpc
    · exact hw' hpc
  rcases pool_step hp.custodial.owned h with
    ⟨j, w, call, rfl, hw, ⟨hpc, hd⟩ | ⟨-, w', hw'⟩⟩ | ⟨-, hws, -⟩
  · rcases hd with ⟨k, -, -, -, hws⟩ | ⟨-, hws⟩
    · exact hset hw hws (by simp)
    · exact hset hw hws fun _ => hp.custodial.batches w (List.mem_of_getElem? hw) hpc
  · refine hset hw hw'.workers (hw'.leaver fun hstop => ?_)
    exact hp.leaver w (List.mem_of_getElem? hw) (Or.inl hstop)
  · exact ⟨hp.custodial.trans h, hws ▸ hp.length, hws ▸ hp.leaver⟩

/-- A worker that has left makes no step. -/
theorem PoolOk.mover_stays (hp : PoolOk n s) {w : Worker} (hw : s.workers[i]? = some w)
    (h : w.pc = .dequeue ∧ Dequeues s i w s' ∨ w.pc ≠ .dequeue ∧ ∃ w', Progress s i w w' s') :
    w.pc ≠ .left := by
  intro hleft
  rcases h with ⟨hd, -⟩ | ⟨-, w', hw'⟩
  · simp [hleft] at hd
  · have hwork := hw'.work
    rw [Worker.work, Worker.work, hleft,
      hp.leaver w (List.mem_of_getElem? hw) (Or.inr hleft)] at hwork
    simp [WorkerPc.work] at hwork

/-- The worker that moves is the only one that changes. -/
theorem getElem?_of_set {j : ℕ} {w' : Worker} (hws : s'.workers = s.workers.set j w')
    (hij : j ≠ i) : s'.workers[i]? = s.workers[i]? := by
  rw [hws, List.getElem?_set_ne hij]

theorem getElem?_mover {w w' : Worker} (hw : s.workers[i]? = some w)
    (hws : s'.workers = s.workers.set i w') : s'.workers[i]? = some w' := by
  rw [hws, List.getElem?_set_self (List.getElem?_eq_some_iff.mp hw).1]

/-- A step of another thread, seen from worker `i`. -/
theorem getElem?_of_not_byWorker (hown : s.Owned) (h : Trans m s a s') (hno : ¬ a.byWorker i) :
    s'.workers[i]? = s.workers[i]? := by
  rcases pool_step hown h with ⟨j, w, call, rfl, hw, hj⟩ | ⟨-, hws, -⟩
  · have hij : j ≠ i := hno
    rcases hj with ⟨-, ⟨k, -, -, -, hws⟩ | ⟨-, hws⟩⟩ | ⟨-, w', hw'⟩
    · exact getElem?_of_set hws hij
    · exact getElem?_of_set hws hij
    · exact getElem?_of_set hw'.workers hij
  · rw [hws]

theorem PoolOk.left_step (hp : PoolOk n s) (h : Trans m s a s') (hl : s.WorkerLeft i) :
    s'.WorkerLeft i := by
  by_cases hby : a.byWorker i
  · rcases pool_step hp.custodial.owned h with ⟨j, w, call, rfl, hw, hj⟩ | ⟨hno, -⟩
    · obtain rfl : j = i := hby
      exact absurd (by simpa [State.WorkerLeft, hw] using hl) (hp.mover_stays hw hj)
    · exact absurd hby (hno i)
  · rwa [State.WorkerLeft, getElem?_of_not_byWorker hp.custodial.owned h hby]

end pool

/-! ## The packet goes round -/

/-- Worker `i` has the packet. -/
def State.Holds (s : State) (i : ℕ) : Prop := ∃ w, s.workers[i]? = some w ∧ w.HoldsToken

/-- The work of worker `i`. -/
def State.workOf (s : State) (i : ℕ) : ℕ := ((s.workers[i]?).map Worker.work).getD 0

theorem workOf_of_getElem? {s : State} {i : ℕ} {w : Worker} (hw : s.workers[i]? = some w) :
    s.workOf i = w.work := by
  rw [State.workOf, hw]
  rfl

theorem exists_holds_iff {s : State} :
    (∃ i, s.Holds i) ↔ ∃ w ∈ s.workers, w.HoldsToken := by
  constructor
  · rintro ⟨i, w, hw, ht⟩
    exact ⟨w, List.mem_of_getElem? hw, ht⟩
  · rintro ⟨w, hw, ht⟩
    obtain ⟨i, hi⟩ := List.mem_iff_getElem?.mp hw
    exact ⟨i, w, hi, ht⟩

/-- The packet is on the port if no worker has it. -/
theorem State.HasToken.mem_svIocp {s : State} (h : s.HasToken) (hno : ¬ ∃ i, s.Holds i) :
    .shutDown ∈ s.svIocp := by
  rw [exists_holds_iff] at hno
  rcases h with h | ⟨w, hw, h⟩ | ⟨w, hw, h⟩
  · exact h
  · exact absurd ⟨w, hw, Or.inl h⟩ hno
  · exact absurd ⟨w, hw, Or.inr h⟩ hno

theorem PoolOk.not_left {n : ℕ} {s : State} (hp : PoolOk n s) {i : ℕ} {w : Worker}
    (hw : s.workers[i]? = some w) (ht : w.HoldsToken) : w.pc ≠ .left ∧ w.pc ≠ .dequeue := by
  have hmem := List.mem_of_getElem? hw
  constructor
  · intro hpc
    simp [Worker.HoldsToken, hpc, hp.leaver w hmem (Or.inr hpc)] at ht
  · intro hpc
    simp [Worker.HoldsToken, hpc, hp.custodial.batches w hmem hpc] at ht

/-- A worker that has the packet keeps it, with less work after each step of its own, until
it leaves. -/
theorem PoolOk.holds_step {m : ℤ} {n : ℕ} {s s' : State} {a : Action} {i : ℕ} (hp : PoolOk n s)
    (h : Trans m s a s') (hh : s.Holds i) : s'.WorkerLeft i ∨ s'.Holds i ∧
      (s'.workOf i < s.workOf i ∨ s'.workOf i = s.workOf i ∧ ¬ a.byWorker i) := by
  obtain ⟨w, hw, ht⟩ := hh
  by_cases hby : a.byWorker i
  · rcases pool_step hp.custodial.owned h with ⟨l, v, call, rfl, hv, hmove⟩ | ⟨hno, -⟩
    · obtain rfl : l = i := hby
      obtain rfl : w = v := by simpa [hw] using hv
      rcases hmove with ⟨hpc, -⟩ | ⟨-, w', hw'⟩
      · exact absurd hpc (hp.not_left hw ht).2
      · have hget := getElem?_mover hw hw'.workers
        rcases hw'.token ht with ht' | hleft
        · refine Or.inr ⟨⟨w', hget, ht'⟩, Or.inl ?_⟩
          rw [workOf_of_getElem? hw, workOf_of_getElem? hget]
          exact hw'.work
        · exact Or.inl (by rw [State.WorkerLeft, hget, Option.map_some, hleft])
    · exact absurd hby (hno i)
  · have hget := getElem?_of_not_byWorker hp.custodial.owned h hby
    exact Or.inr ⟨⟨w, hget.trans hw, ht⟩, Or.inr ⟨by rw [State.workOf, hget, State.workOf], hby⟩⟩

/-- Some worker has the packet `p` in its batch. -/
def State.Taken (s : State) (p : Packet) : Prop := ∃ w ∈ s.workers, p ∈ w.batch

/-- While no worker takes the packet `p`, worker `i` brings it nearer to the front of the port, or
has less work; the others do not push it back. -/
theorem PoolOk.waits_step {m : ℤ} {n : ℕ} {s s' : State} {a : Action} {i : ℕ} {p : Packet}
    (hp : PoolOk n s) (h : Trans m s a s') (hq : p ∈ s.svIocp) (hno : ¬ s'.Taken p)
    (hleft : ¬ s'.WorkerLeft i) :
    p ∈ s'.svIocp ∧ (s'.svIocp.idxOf p < s.svIocp.idxOf p ∨
      s'.svIocp.idxOf p = s.svIocp.idxOf p ∧
        (s'.workOf i < s.workOf i ∨ s'.workOf i = s.workOf i ∧ ¬ a.byWorker i)) := by
  have happend : ∀ X, s'.svIocp = s.svIocp ++ X →
      p ∈ s'.svIocp ∧ s'.svIocp.idxOf p = s.svIocp.idxOf p := by
    intro X hX
    rw [hX]
    exact ⟨List.mem_append_left _ hq, List.idxOf_append_of_mem hq⟩
  rcases pool_step hp.custodial.owned h with ⟨j, w, call, rfl, hw, hmove⟩ | ⟨hby, hws, X, hX⟩
  · rcases hmove with ⟨hpc, ⟨k, h0, hk, hport, hws⟩ | ⟨hport, hws⟩⟩ | ⟨-, w', hw'⟩
    · -- the packets taken do not contain the one we follow
      have hget := getElem?_mover hw hws
      have hnot : p ∉ s.svIocp.take k := fun hmem => hno ⟨_, List.mem_of_getElem? hget, hmem⟩
      have hmem : p ∈ s.svIocp.drop k := by
        rw [← List.take_append_drop k s.svIocp, List.mem_append] at hq
        exact hq.resolve_left hnot
      have hidx : s.svIocp.idxOf p = k + (s.svIocp.drop k).idxOf p := by
        conv_lhs => rw [← List.take_append_drop k s.svIocp]
        rw [List.idxOf_append_of_notMem hnot, List.length_take, min_eq_left hk]
      rw [hport]
      exact ⟨hmem, Or.inl (by omega)⟩
    · -- the call failed, so it is another worker that has left
      have hji : j ≠ i := by
        rintro rfl
        exact hleft (by rw [State.WorkerLeft, getElem?_mover hw hws]; rfl)
      rw [hport]
      refine ⟨hq, Or.inr ⟨rfl, Or.inr ⟨?_, hji⟩⟩⟩
      rw [State.workOf, State.workOf, getElem?_of_set hws hji]
    · obtain ⟨X, hX⟩ := hw'.port
      refine ⟨(happend X hX).1, Or.inr ⟨(happend X hX).2, ?_⟩⟩
      by_cases hji : j = i
      · subst hji
        left
        rw [workOf_of_getElem? hw, workOf_of_getElem? (getElem?_mover hw hw'.workers)]
        exact hw'.work
      · refine Or.inr ⟨?_, hji⟩
        rw [State.workOf, State.workOf, getElem?_of_set hw'.workers hji]
  · refine ⟨(happend X hX).1, Or.inr ⟨(happend X hX).2, Or.inr ⟨?_, hby i⟩⟩⟩
    rw [State.workOf, State.workOf, hws]

/-! ## All workers leave -/

/-- The workers that have not left. -/
def State.staying (s : State) (n : ℕ) : Finset ℕ :=
  (Finset.range n).filter fun i => (s.workers[i]?).map Worker.pc ≠ some .left

section execution

variable {m : ℤ} {svSock : Socket} {n : ℕ} {e : Execution (step m) (State.init svSock n)}

theorem poolOk_state (k : ℕ) : PoolOk n (e.state k) :=
  (e.run k).invariant (poolOk_init svSock n) fun _ _ _ h hs => h.trans (trans_of_step hs).2

theorem trans_next {k : ℕ} {a : Action} (hl : e.label k = some a) :
    Trans m (e.state k) a (e.state (k + 1)) := (trans_of_step (e.next k a hl)).2

theorem left_stable {i j k : ℕ} (h : (e.state k).WorkerLeft i) (hj : k ≤ j) :
    (e.state j).WorkerLeft i :=
  e.stable (K := fun s => s.WorkerLeft i) h
    (fun j _ _ hl hi => (poolOk_state j).left_step (trans_next hl) hi) hj

/-- A worker that has the packet leaves. -/
theorem eventually_left {i k : ℕ} (hfair : e.Fair (State.WorkerReady · i) (Action.byWorker i))
    (h : (e.state k).Holds i) : ∃ j, k ≤ j ∧ (e.state j).WorkerLeft i := by
  refine hfair.eventually_until (fun s => s.workOf i) (fun s => s.Holds i)
    (fun s => s.WorkerLeft i) h ?_ ?_
  · rintro j ⟨w, hw, ht⟩ -
    obtain ⟨hne, hd⟩ := (poolOk_state j).not_left hw ht
    exact ⟨w, hw, hne, fun hpc => absurd hpc hd⟩
  · intro j a hl hh _ hno'
    exact ((poolOk_state j).holds_step (trans_next hl) hh).resolve_left hno'

/-- A packet on the port gets to a worker while worker `i` has not left. -/
theorem eventually_taken {i k : ℕ} {p : Packet}
    (hfair : e.Fair (State.WorkerReady · i) (Action.byWorker i)) (hi : i < n)
    (hq : p ∈ (e.state k).svIocp) :
    ∃ j, k ≤ j ∧ ((e.state j).Taken p ∨ (e.state j).WorkerLeft i) := by
  refine hfair.eventually_until (fun s => toLex (s.svIocp.idxOf p, s.workOf i))
    (fun s => p ∈ s.svIocp) (fun s => s.Taken p ∨ s.WorkerLeft i) hq ?_ ?_
  · intro j hmem hno
    rw [not_or] at hno
    obtain ⟨w, hw⟩ : ∃ w, (e.state j).workers[i]? = some w := by
      rw [← (poolOk_state (e := e) j).length] at hi
      exact ⟨_, List.getElem?_eq_getElem hi⟩
    refine ⟨w, hw, fun hpc => hno.2 ?_, fun _ => List.ne_nil_of_mem hmem⟩
    rw [State.WorkerLeft, hw, Option.map_some, hpc]
  · intro j a hl hmem _ hno'
    rw [not_or] at hno'
    refine ((poolOk_state j).waits_step (trans_next hl) hmem hno'.1 hno'.2).imp_right ?_
    rintro (hlt | ⟨heq, hlt | ⟨hwork, hby⟩⟩)
    · exact Or.inl (Prod.Lex.left _ _ hlt)
    · exact Or.inl (Prod.Lex.toLex_lt_toLex.mpr (Or.inr ⟨heq, hlt⟩))
    · exact Or.inr ⟨by rw [heq, hwork], hby⟩

/-- The packet gets to a worker while worker `i` has not left. -/
theorem eventually_held {i k : ℕ} (hfair : e.Fair (State.WorkerReady · i) (Action.byWorker i))
    (hi : i < n) (htoken : (e.state k).HasToken) :
    ∃ j, k ≤ j ∧ ((∃ l, (e.state j).Holds l) ∨ (e.state j).WorkerLeft i) := by
  by_cases hheld : ∃ l, (e.state k).Holds l
  · exact ⟨k, Nat.le_refl k, Or.inl hheld⟩
  · obtain ⟨j, hj, ⟨w, hw, hmem⟩ | hleft⟩ := eventually_taken hfair hi (htoken.mem_svIocp hheld)
    · exact ⟨j, hj, Or.inl (exists_holds_iff.mpr ⟨w, hw, Or.inl hmem⟩)⟩
    · exact ⟨j, hj, Or.inr hleft⟩

theorem staying_drops {i k : ℕ} (hi : i < n) (hno : ¬ (e.state k).WorkerLeft i) {j : ℕ}
    (hj : k ≤ j) (h : (e.state j).WorkerLeft i) :
    ((e.state j).staying n).card < ((e.state k).staying n).card := by
  refine Finset.card_lt_card (Finset.ssubset_iff_of_subset ?_ |>.mpr ⟨i, ?_, ?_⟩)
  · intro l hl
    rw [State.staying, Finset.mem_filter] at hl ⊢
    exact ⟨hl.1, fun hleft => hl.2 (left_stable hleft hj)⟩
  · exact Finset.mem_filter.mpr ⟨Finset.mem_range.mpr hi, hno⟩
  · exact fun hmem => (Finset.mem_filter.mp hmem).2 h

/-- While the packet is somewhere, the workers leave one after the other. -/
theorem eventually_all_left {k : ℕ}
    (hfair : ∀ i, e.Fair (State.WorkerReady · i) (Action.byWorker i))
    (htoken : ∀ j, k ≤ j → (e.state j).HasToken) :
    ∃ j, k ≤ j ∧ ∀ i < n, (e.state j).WorkerLeft i := by
  refine Execution.eventually_of_drops (e := e) (fun s => (s.staying n).card)
    (fun s => ∀ i < n, s.WorkerLeft i) fun k' hk hno => ?_
  obtain ⟨i, hi, hstay⟩ : ∃ i < n, ¬ (e.state k').WorkerLeft i := by simpa using hno
  obtain ⟨j, hj, ⟨l, hl⟩ | hleft⟩ := eventually_held (hfair i) hi (htoken k' hk)
  · obtain ⟨j', hj', hleft⟩ := eventually_left (hfair l) hl
    have hln : l < n := by
      obtain ⟨w, hw, -⟩ := hl
      rw [← (poolOk_state (e := e) j).length]
      exact (List.getElem?_eq_some_iff.mp hw).1
    by_cases hlk : (e.state k').WorkerLeft l
    · -- then it does not have the packet
      obtain ⟨w, hw, ht⟩ := hl
      have hleft' := left_stable hlk hj
      rw [State.WorkerLeft, hw] at hleft'
      exact absurd (by simpa using hleft') ((poolOk_state j).not_left hw ht).1
    · exact ⟨j', hj.trans hj', Or.inr (staying_drops hln hlk (hj.trans hj') hleft)⟩
  · exact ⟨j, hj, Or.inr (staying_drops hi hstay hj hleft)⟩

end execution

/-! ## The accept thread leaves -/

/-- A call of the accept thread that makes it try again, or that is no success. -/
def Action.mainFails : Action → Bool
  | .main (.getQueuedCompletionStatus ok) => !ok
  | .main (.acceptEx r) => r ≠ .success
  | _ => false

/-- How many steps are left, at most, until the thread waits or has raised the counter. -/
def MainPc.work : MainPc → ℕ
  | .guard .. => 9
  | .removeFromList .. => 8
  | .destroy .. | .reinit .. | .create _ => 7
  | .addToList .. | .retry .. => 6
  | .postAcceptEx .. => 5
  | .countAccept _ => 4
  | .start => 1
  | .wait | .left => 0

/-- The messages before the one that stops the thread, the operations that it may still post,
and the work on one of them. -/
def State.mainRank (m : ℤ) (s : State) : ℕ ×ₗ ℕ ×ₗ ℕ :=
  toLex (s.svIocpAccept.idxOf .shutDown, toLex ((m - s.svOutstandingAccepts).toNat, s.main.work))

theorem mainRank_lt_of_work {m : ℤ} {s s' : State}
    (hq : s'.svIocpAccept.idxOf .shutDown = s.svIocpAccept.idxOf .shutDown)
    (hc : s'.svOutstandingAccepts = s.svOutstandingAccepts) (hw : s'.main.work < s.main.work) :
    s'.mainRank m < s.mainRank m := by
  refine Prod.Lex.toLex_lt_toLex.mpr (Or.inr ⟨hq, ?_⟩)
  exact Prod.Lex.toLex_lt_toLex.mpr (Or.inr ⟨by rw [hc], hw⟩)

/-- The message of the accept thread stays on its port until the thread has it. -/
theorem accept_step {m : ℤ} {s s' : State} {a : Action} (h : Trans m s a s')
    (hq : .shutDown ∈ s.svIocpAccept) : s'.main = .left ∨ .shutDown ∈ s'.svIocpAccept := by
  cases h with
  | main hm =>
    cases hm with
    | start ok hpc =>
      right
      cases ok
      · exact hq
      · exact List.mem_append_left _ hq
    | takeShutDown rest hpc heq => exact Or.inl rfl
    | takePostAccept cli opts rest hpc heq =>
      rw [heq] at hq
      exact Or.inr ((List.mem_cons.mp hq).resolve_left (by simp))
    | _ => exact Or.inr hq
  | worker hw ht =>
    right
    cases ht with
    | repost ok hpc => cases ok <;> exact hq
    | acceptMoreClients site cl reuseSocket ok hpc =>
      cases ok
      · exact hq
      · exact List.mem_append_left _ hq
    | _ => exact hq
  | complete bytes hp => exact Or.inr hq
  | ctrlShutDownIocp ok => cases ok <;> exact Or.inr hq
  | ctrlShutDownAccept ok hh =>
    right
    cases ok
    · exact hq
    · exact List.mem_append_left _ hq

/-- Every step of the accept thread brings it nearer to its message. -/
theorem mainRank_step {m : ℤ} {s s' : State} {call : MainCall} (h : MainTrans m s call s')
    (hlimit : LimitOk m s) (hq : .shutDown ∈ s.svIocpAccept)
    (hno : (Action.main call).mainFails = false) :
    s' = s.crash ∨ s'.main = .left ∨ s'.mainRank m < s.mainRank m := by
  cases h with
  | start ok hpc =>
    refine Or.inr (Or.inr (mainRank_lt_of_work ?_ ?_ (by simp [State.setMain, hpc, MainPc.work])))
    · cases ok
      · rfl
      · exact List.idxOf_append_of_mem hq
    · cases ok <;> rfl
  | takeShutDown rest hpc heq => exact Or.inr (Or.inl rfl)
  | takePostAccept cli opts rest hpc heq =>
    have hne : AcceptMessage.postAccept cli opts ≠ .shutDown := by simp
    refine Or.inr (Or.inr ?_)
    refine Prod.Lex.toLex_lt_toLex.mpr (Or.inl ?_)
    rw [heq, List.idxOf_cons_ne _ hne]
    exact Nat.lt_succ_self _
  | countAccept opts hpc =>
    have hroom : s.svOutstandingAccepts < m := hlimit.room (by rw [hpc]; rfl)
    refine Or.inr (Or.inr (Prod.Lex.toLex_lt_toLex.mpr (Or.inr ⟨rfl, ?_⟩)))
    refine Prod.Lex.toLex_lt_toLex.mpr (Or.inl ?_)
    simp only [State.setMain]
    omega
  | crash call c hdead hc => exact Or.inl rfl
  | dequeueFails hpc => simp [Action.mainFails] at hno
  | acceptExReset c opts cl hpc hc => simp [Action.mainFails] at hno
  | acceptExFails c opts cl hpc hc => simp [Action.mainFails] at hno
  | _ =>
    have hpc := ‹s.main = _›
    exact Or.inr (Or.inr
      (mainRank_lt_of_work rfl rfl (by simp [State.setMain, hpc, MainPc.work])))

section execution

variable {m : ℤ} {svSock : Socket} {n : ℕ} {e : Execution (step m) (State.init svSock n)}

/-- When no worker moves any more, the accept thread comes nearer to its message with each of
its steps, unless it crashes, and no other step takes it away. -/
theorem mainRank_next {k : ℕ} {a : Action} (hl : e.label k = some a)
    (hleft : ∀ i < n, (e.state k).WorkerLeft i) (hq : .shutDown ∈ (e.state k).svIocpAccept)
    (hno : a.mainFails = false) :
    e.state (k + 1) = (e.state k).crash ∨ (e.state (k + 1)).main = .left ∨
      (e.state (k + 1)).mainRank m < (e.state k).mainRank m ∨
        (e.state (k + 1)).mainRank m = (e.state k).mainRank m ∧ ¬ a.byMain := by
  have h := trans_next hl
  have hp : PoolOk n (e.state k) := poolOk_state k
  have hlimit : LimitOk m (e.state k) := ServerRun.limitOk (e.run k)
  generalize e.state (k + 1) = s' at h ⊢
  cases h with
  | main hm => exact (mainRank_step hm hlimit hq hno).imp_right (Or.imp_right Or.inl)
  | @worker i w call s' hw ht =>
    have hi : i < n := hp.length ▸ (List.getElem?_eq_some_iff.mp hw).1
    have hpc : w.pc = .left := by simpa [State.WorkerLeft, hw] using hleft i hi
    exact absurd hpc (hp.mover_stays hw (worker_progress hp.custodial.owned hw ht))
  | complete bytes hp => exact Or.inr (Or.inr (Or.inr ⟨rfl, id⟩))
  | ctrlShutDownIocp ok => cases ok <;> exact Or.inr (Or.inr (Or.inr ⟨rfl, id⟩))
  | ctrlShutDownAccept ok hh =>
    refine Or.inr (Or.inr (Or.inr ⟨?_, id⟩))
    cases ok with
    | false => rfl
    | true => simp only [State.mainRank, if_true, List.idxOf_append_of_mem hq]

theorem main_left_stable {k j : ℕ} (h : (e.state k).main = .left) (hj : k ≤ j) :
    (e.state j).main = .left := by
  refine e.stable (K := fun s => s.main = .left) h (fun j a _ hl hi => ?_) hj
  have ht := trans_next hl
  generalize e.state (j + 1) = s' at ht ⊢
  cases ht with
  | main hm =>
    cases hm with
    | crash call c hdead hc => exact hi
    | _ => simp_all
  | worker hw ht => rw [(workerTrans_frame ht).main, hi]
  | ctrlShutDownIocp ok => cases ok <;> exact hi
  | _ => exact hi

theorem accept_stable {k j : ℕ}
    (h : (e.state k).main = .left ∨ .shutDown ∈ (e.state k).svIocpAccept) (hj : k ≤ j) :
    (e.state j).main = .left ∨ .shutDown ∈ (e.state j).svIocpAccept := by
  refine e.stable (K := fun s => s.main = .left ∨ .shutDown ∈ s.svIocpAccept) h ?_ hj
  rintro j a - hl (hleft | hmem)
  · exact Or.inl (main_left_stable hleft (Nat.le_succ j))
  · exact accept_step (trans_next hl) hmem

/-- When all workers have left, the accept thread finds its message. -/
theorem eventually_main_left {k : ℕ} (hfair : e.Fair State.MainReady Action.byMain)
    (hleft : ∀ i < n, (e.state k).WorkerLeft i) (hq : .shutDown ∈ (e.state k).svIocpAccept)
    (hno : ∀ j a, k ≤ j → e.label j = some a → a.mainFails = false) :
    ∃ j, k ≤ j ∧ (e.state j).main = .left := by
  have hleft' : ∀ j, k ≤ j → ∀ i < n, (e.state j).WorkerLeft i := fun j hj i hi =>
    left_stable (hleft i hi) hj
  -- a fair execution does not crash while a thread is ready
  have hcrash : ∀ j, .shutDown ∈ (e.state j).svIocpAccept → (e.state j).main ≠ .left →
      e.state (j + 1) ≠ (e.state j).crash := by
    intro j hj hnot hs
    have hready : (e.state (j + 1)).MainReady := by
      rw [hs]
      exact ⟨hnot, fun _ => List.ne_nil_of_mem hj⟩
    obtain ⟨a, s', hstep⟩ := hfair.exists_step hready
    have hfalse := (trans_of_step hstep).1
    rw [hs] at hfalse
    simp [State.crash] at hfalse
  have hkeep : ∀ j, k ≤ j → (e.state j).main = .left ∨ .shutDown ∈ (e.state j).svIocpAccept :=
    fun j hj => accept_stable (Or.inr hq) hj
  refine hfair.eventually_of_rank (State.mainRank m) (fun s => s.main = .left) ?_ ?_
  · intro j hj hnot
    exact ⟨hnot, fun _ => List.ne_nil_of_mem ((hkeep j hj).resolve_left hnot)⟩
  · intro j a hj hl hnot hnot'
    have hmem := (hkeep j hj).resolve_left hnot
    have hnext := (mainRank_next hl (hleft' j hj) hmem (hno j a hj hl)).resolve_left
      (hcrash j hmem hnot)
    exact hnext.resolve_left hnot'

/-! ## The shutdown -/

/-- Every thread that is ready for ever moves again. -/
structure FairThreads (e : Execution (step m) (State.init svSock n)) : Prop where
  worker : ∀ i, e.Fair (State.WorkerReady · i) (Action.byWorker i)
  main : e.Fair State.MainReady Action.byMain

/-- A run of `server_control_handler` ends the server: the workers leave one after the other,
then the accept thread finds its message, and all stay where they are. If no list node was
refused, cleaning up then destroys every client once. -/
theorem shutDown_ends (hfair : FairThreads e)
    (hpost : ∀ k a, e.label k = some a → a.postFails = false)
    (hiocp : ∃ k, e.label k = some (.ctrlShutDownIocp true))
    (haccept : ∃ k, e.label k = some (.ctrlShutDownAccept true))
    (hfails : ∃ K, ∀ k a, K ≤ k → e.label k = some a → a.mainFails = false) :
    ∃ k, ∀ j, k ≤ j → (e.state j).main = .left ∧ (∀ w ∈ (e.state j).workers, w.pc = .left) ∧
      ((∀ i a, e.label i = some a → a.pushFails = false) → CleansUp (e.state j)) := by
  obtain ⟨k₁, hiocp⟩ := hiocp
  obtain ⟨k₂, haccept⟩ := haccept
  obtain ⟨k₃, hfails⟩ := hfails
  -- from `k₁` on the packet is in the pool
  have htoken : ∀ j, k₁ + 1 ≤ j → (e.state j).HasToken := fun j hj =>
    e.stable (K := State.HasToken) (hasToken_of_postsShutDown (trans_next hiocp) rfl)
      (fun i a _ hl hi => hasToken_step (poolOk_state i).custodial.batches (trans_next hl)
        (hpost i a hl) hi) hj
  obtain ⟨k₄, -, hleft⟩ := eventually_all_left hfair.worker htoken
  -- from `k₂` on the message is on its port, or has arrived
  have hmessage : .shutDown ∈ (e.state (k₂ + 1)).svIocpAccept := by
    have h := trans_next haccept
    generalize e.state (k₂ + 1) = s' at h ⊢
    cases h with
    | ctrlShutDownAccept ok hh => simp
  obtain ⟨k₅, hk₂, hk₃, hk₄⟩ : ∃ k, k₂ + 1 ≤ k ∧ k₃ ≤ k ∧ k₄ ≤ k :=
    ⟨max (k₂ + 1) (max k₃ k₄), by simp, by simp, by simp⟩
  obtain ⟨k₆, hk₆, hmain⟩ : ∃ k, k₄ ≤ k ∧ (e.state k).main = .left := by
    rcases accept_stable (Or.inr hmessage) hk₂ with hmain | hq
    · exact ⟨k₅, hk₄, hmain⟩
    · obtain ⟨j, hj, hmain⟩ := eventually_main_left hfair.main
        (fun i hi => left_stable (hleft i hi) hk₄) hq
        (fun j a hj hl => hfails j a (hk₃.trans hj) hl)
      exact ⟨j, hk₄.trans hj, hmain⟩
  refine ⟨k₆, fun j hj => ?_⟩
  have hmain' : (e.state j).main = .left := main_left_stable hmain hj
  have hws : ∀ w ∈ (e.state j).workers, w.pc = .left := by
    intro w hw
    obtain ⟨i, hi⟩ := List.mem_iff_getElem?.mp hw
    have hin : i < n := by
      rw [← (poolOk_state (e := e) j).length]
      exact (List.getElem?_eq_some_iff.mp hi).1
    have hl := left_stable (hleft i hin) (hk₆.trans hj)
    simpa [State.WorkerLeft, hi] using hl
  refine ⟨hmain', hws, fun hpush => ?_⟩
  have hok : ListOk (e.state j) := ServerRun.listOk (e.run j) fun x hx => by
    obtain ⟨i, -, -, hl⟩ := e.mem_trace.mp hx
    exact hpush i x.2 hl
  exact (hok.exact (by rw [hmain']; rfl)).cleansUp hmain' hws

end execution

/-- A client is posted, the handler runs, and both threads leave. -/
def postedAndShutDown : List Action :=
  acceptedClient.take 7 ++ [.main .atomicLoad, .ctrlShutDownIocp true, .ctrlShutDownAccept true,
    .main (.getQueuedCompletionStatus true), .worker 0 (.getQueuedCompletionStatusEx (some 1)),
    .worker 0 .tau, .worker 0 (.postQueuedCompletionStatus true)]

theorem shutDown_ends_one : ∃ e : Execution (step 1) (State.init 1 1),
    e.label 8 = some (.ctrlShutDownIocp true) ∧ ∃ k, ∀ j, k ≤ j → (e.state j).main = .left ∧
      (∀ w ∈ (e.state j).workers, w.pc = .left) ∧
      ((∀ i a, e.label i = some a → a.pushFails = false) → CleansUp (e.state j)) := by
  obtain ⟨tr, t, hexec, hmain, hws⟩ : ∃ tr t, exec (step 1) (State.init 1 1) postedAndShutDown
      = some (tr, t) ∧ t.main = .left ∧ ∀ w ∈ t.workers, w.pc = .left :=
    ⟨_, _, rfl, rfl, by decide⟩
  obtain ⟨e, hlabel, hstate, -⟩ := exists_execution hexec
  have hmem : ∀ k a, e.label k = some a → a ∈ postedAndShutDown := fun k a hl =>
    List.mem_of_getElem? ((hlabel k).symm.trans hl)
  -- in the end no thread is ready
  have hfair : FairThreads e := by
    refine ⟨fun i => Execution.fair_of_rest (k := postedAndShutDown.length) fun j hj hready => ?_,
      Execution.fair_of_rest (k := postedAndShutDown.length) fun j hj hready => ?_⟩
    · rw [hstate j hj] at hready
      obtain ⟨w, hw, hne, -⟩ := hready
      exact hne (hws w (List.mem_of_getElem? hw))
    · rw [hstate j hj] at hready
      exact hready.1 hmain
  refine ⟨e, (hlabel 8).trans rfl, shutDown_ends hfair ?_ ⟨8, (hlabel 8).trans rfl⟩
    ⟨9, (hlabel 9).trans rfl⟩ ⟨0, fun k a _ hl => ?_⟩⟩
  · intro k a hl
    exact (show ∀ a ∈ postedAndShutDown, a.postFails = false by decide) a (hmem k a hl)
  · exact (show ∀ a ∈ postedAndShutDown, a.mainFails = false by decide) a (hmem k a hl)

end AioServer.Windows
