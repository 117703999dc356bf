import AioServer.Windows.Accounting
import Mathlib.Data.List.Induction
import Mathlib.Order.Bounds.Basic

/-!
# The Windows server: statistics of live connections

`server_accept_new_connection` counts a connection that it has set up. A connection ends when
its client is handed back through `server_accept_more_clients`, after the request, after the
write completion or after an empty transfer; `STATS_DECREMENT_CONNECTION_COUNT` is used at
none of these places. So `ss_concurrent_connections` and `ss_peak_connections` both are the
number of all connections set up so far (`ServerRun.recorded`, `ServerRun.statsSound`), which
are the live ones as long as no connection has ended (`ServerRun.liveStats_iff`).
-/

namespace AioServer.Windows

open Lib

/-! ## Connections -/

/-- The client whose connection a step sets up: its receive of 0 bytes is posted. -/
def setsUp (x : State × Action) : Option ClientPtr :=
  match x.2 with
  | .worker i (.wsaRecv0Bytes true) =>
    x.1.workers[i]?.bind fun w =>
      match w.pc with
      | .readFromClient c => some c
      | _ => none
  | _ => none

/-- The client that a step hands back, after a connection that was set up. -/
def handsBack (x : State × Action) : Option ClientPtr :=
  match x.2 with
  | .worker i (.postQueuedCompletionStatus true) =>
    x.1.workers[i]?.bind fun w =>
      match w.pc with
      | .acceptMoreClients .newConnection _ _ => none
      | .acceptMoreClients _ cl _ => cl
      | _ => none
  | _ => none

/-- The clients whose connection was set up and has not ended, after one more step. -/
def connectionsStep (cs : List ClientPtr) (x : State × Action) : List ClientPtr :=
  match setsUp x, handsBack x with
  | some c, _ => c :: cs
  | none, some c => cs.erase c
  | none, none => cs

/-- The clients whose connection was set up and has not ended. -/
def connections (tr : List (State × Action)) : List ClientPtr := tr.foldl connectionsStep []

/-- No connection that was set up has ended. -/
def NoneEnded (tr : List (State × Action)) : Prop :=
  ∀ tr' x, tr' ++ [x] <+: tr → ∀ c, handsBack x = some c → c ∉ connections tr'

/-- The worker is in the handler of a completion. -/
def WorkerPc.inHandler : WorkerPc → Bool
  | .dequeue | .examine | .dispatch _ | .stopReceived | .left => false
  | _ => true

section connections

variable {tr : List (State × Action)} {x : State × Action}

@[simp] theorem connections_snoc :
    connections (tr ++ [x]) = connectionsStep (connections tr) x := by
  simp [connections]

theorem handsBack_of_setsUp {c : ClientPtr} (h : setsUp x = some c) : handsBack x = none := by
  unfold setsUp at h
  split at h
  case h_1 ha => simp [handsBack, ha]
  case h_2 => cases h

theorem noneEnded_snoc : NoneEnded (tr ++ [x]) ↔
    NoneEnded tr ∧ ∀ c, handsBack x = some c → c ∉ connections tr := by
  constructor
  · intro h
    exact ⟨fun tr' y hpre => h tr' y (hpre.trans (List.prefix_append _ _)),
      h tr x (List.prefix_refl _)⟩
  · rintro ⟨h, hx⟩ tr' y hpre
    obtain heq | hpre := List.prefix_concat_iff.mp hpre
    · obtain ⟨rfl, hy⟩ := List.append_inj' heq rfl
      obtain rfl : y = x := by simpa using hy
      exact hx
    · exact h tr' y hpre

/-- There are at most as many connections as were set up, and fewer once one has ended. -/
theorem length_connections (tr : List (State × Action)) :
    (connections tr).length ≤ tr.countP (fun x => (setsUp x).isSome) ∧
      ((connections tr).length = tr.countP (fun x => (setsUp x).isSome) ↔ NoneEnded tr) := by
  induction tr using List.reverseRecOn with
  | nil => simp [connections, NoneEnded]
  | append_singleton tr x ih =>
    obtain ⟨hle, hiff⟩ := ih
    rw [connections_snoc, noneEnded_snoc, List.countP_append, ← hiff]
    unfold connectionsStep
    cases hset : setsUp x with
    | some c => simp [hset, handsBack_of_setsUp hset, hle]
    | none =>
      cases hback : handsBack x with
      | none => simp [hset, hle]
      | some c =>
        by_cases hc : c ∈ connections tr
        -- the connection ends
        · have hpos := List.length_pos_of_mem hc
          have hlen := List.length_erase_of_mem hc
          simp only [hlen, hset, Option.isSome_none, List.countP_cons, List.countP_nil,
            Bool.false_eq_true, if_false, Option.some.injEq, forall_eq', hc, not_true_eq_false,
            and_false, iff_false]
          omega
        · simp [hset, hc, List.erase_of_not_mem hc, hle]

theorem countP_le_of_prefix {tr' : List (State × Action)} (h : tr' <+: tr) :
    tr'.countP (fun x => (setsUp x).isSome) ≤ tr.countP fun x => (setsUp x).isSome :=
  h.sublist.countP_le

end connections

/-! ## The counters -/

/-- The worker has set up a connection and not counted it yet. -/
def WorkerPc.owesCount : WorkerPc → Bool
  | .countConnection => true
  | _ => false

/-- The connections that workers still have to count. -/
def State.uncounted (s : State) : ℤ := (s.workers.map fun w => (w.pc.owesCount.toNat : ℤ)).sum

/-- The counter when the workers have counted their connections. -/
def State.recorded (s : State) : ℤ := s.svStats.ssConcurrentConnections + s.uncounted

/-- The counter only grows, so that it is its own maximum. -/
def StatsSound (ss : ServerStats) : Prop :=
  0 ≤ ss.ssConcurrentConnections ∧ ss.ssPeakConnections = ss.ssConcurrentConnections

theorem statsSound_update {ss : ServerStats} (h : StatsSound ss) {t : StatsType}
    (ht : t ≠ .delConnection) : StatsSound (serverUpdateStats ss t) := by
  obtain ⟨hpos, hpeak⟩ := h
  cases t with
  | addConnection =>
    simp only [StatsSound, serverUpdateStats, hpeak]
    rw [if_pos (by omega)]
    exact ⟨by omega, rfl⟩
  | delConnection => exact absurd rfl ht
  | transferSuccess bytes => exact ⟨hpos, hpeak⟩

theorem recorded_setWorker {s t : State} {i : ℕ} {w w' : Worker} {k : ℤ}
    (hw : s.workers[i]? = some w) (ht : t.workers = s.workers)
    (h : t.svStats.ssConcurrentConnections + w'.pc.owesCount.toNat
      = s.svStats.ssConcurrentConnections + w.pc.owesCount.toNat + k) :
    (t.setWorker i w').recorded = s.recorded + k := by
  have hset := sum_map_set (fun w => (w.pc.owesCount.toNat : ℤ)) hw w'
  simp only [State.recorded, State.uncounted, State.setWorker, ht]
  omega

/-- A worker's step counts a connection, or sets one up that it then has to count. -/
theorem recorded_worker {s s' : State} {i : ℕ} {w : Worker} {call : WorkerCall}
    (hw : s.workers[i]? = some w) (h : WorkerTrans s i w call s')
    (hlive : ∀ c, w.pc.client = some c → s.heap c ≠ none) :
    s'.recorded = s.recorded + (setsUp (s, .worker i call)).isSome.toNat := by
  cases h with
  | repost ok hpc =>
    refine recorded_setWorker hw (by cases ok <;> rfl) ?_
    cases ok <;> simp [setsUp, hpc, WorkerPc.owesCount, serverPostShutDown]
  | acceptMoreClients site cl reuseSocket ok hpc =>
    refine recorded_setWorker hw (by cases ok <;> rfl) ?_
    cases ok <;> simp [setsUp, hpc, WorkerPc.owesCount, serverAcceptMoreClients]
  | setsockopt c cl ok hpc hc =>
    refine recorded_setWorker hw rfl ?_
    cases ok <;> simp [setsUp, hpc, WorkerPc.owesCount]
  | dispatch n cl hpc hc =>
    refine recorded_setWorker hw rfl ?_
    have hno : (serverProcessCompletion n cl.aioOpcode).owesCount = false :=
      serverProcessCompletion_of (P := fun pc => pc.owesCount = false) _ rfl rfl rfl rfl rfl
    simpa [setsUp, hpc, WorkerPc.owesCount] using hno
  | openFile c cl path hd hpc hc =>
    refine recorded_setWorker hw rfl ?_
    have hno : (if hd = invalidHandleValue then WorkerPc.transmit c else .querySize c).owesCount
        = false := by
      split <;> rfl
    simpa [setsUp, hpc, WorkerPc.owesCount, State.setClient] using hno
  | crash call c hdead hc => exact absurd hdead (hlive c hc)
  | _ =>
    have hpc := ‹w.pc = _›
    refine recorded_setWorker hw rfl ?_
    simp [setsUp, hw, hpc, WorkerPc.owesCount, State.setClient, State.issue, serverUpdateStats]

theorem svStats_mainTrans {m : ℤ} {s s' : State} {call : MainCall} (h : MainTrans m s call s') :
    s'.svStats = s.svStats := by
  cases h with
  | start ok => cases ok <;> rfl
  | _ => rfl

/-- What a step does to the recorded connections. -/
theorem recorded_step {m : ℤ} {s s' : State} {a : Action} (hown : s.Owned) (h : Trans m s a s') :
    s'.recorded = s.recorded + (setsUp (s, a)).isSome.toNat := by
  cases h with
  | main hm =>
    simp [State.recorded, State.uncounted, svStats_mainTrans hm, workers_mainTrans hm, setsUp]
  | worker hw ht =>
    exact recorded_worker hw ht fun c hc => hown.worker_live (List.mem_of_getElem? hw) hc
  | ctrlShutDownIocp ok =>
    cases ok <;> simp [State.recorded, State.uncounted, serverPostShutDown, setsUp]
  | _ => simp [State.recorded, State.uncounted, setsUp]

/-- A step counts a connection or a transfer, or leaves the statistics alone. -/
theorem svStats_step {m : ℤ} {s s' : State} {a : Action} (h : Trans m s a s') :
    s'.svStats = s.svStats ∨
      ∃ t, t ≠ .delConnection ∧ s'.svStats = serverUpdateStats s.svStats t := by
  cases h with
  | main hm => exact Or.inl (svStats_mainTrans hm)
  | worker hw ht =>
    cases ht with
    | countConnection hpc => exact Or.inr ⟨.addConnection, by simp, rfl⟩
    | countTransfer c bytes hpc => exact Or.inr ⟨.transferSuccess bytes, by simp, rfl⟩
    | repost ok hpc => cases ok <;> exact Or.inl rfl
    | acceptMoreClients site cl reuseSocket ok hpc => cases ok <;> exact Or.inl rfl
    | _ => exact Or.inl rfl
  | ctrlShutDownIocp ok => cases ok <;> exact Or.inl rfl
  | _ => exact Or.inl rfl

section run

variable {m : ℤ} {svSock : Socket} {n : ℕ} {tr : List (State × Action)} {s : State}

/-- The counter is the number of connections that were set up. -/
theorem ServerRun.recorded (hrun : ServerRun m svSock n tr s) :
    s.recorded = tr.countP fun x => (setsUp x).isSome := by
  have h := Run.ledger State.recorded (fun x => (setsUp x).isSome.toNat) (fun _ => 0) hrun
    (fun _ _ hr => ServerRun.owned hr) fun s a s' hown hs => by
      simpa using recorded_step hown (trans_of_step hs).2
  rw [sum_map_toNat] at h
  simpa [State.recorded, State.uncounted, State.init, ServerStats.zero, WorkerPc.owesCount]
    using h

theorem ServerRun.statsSound (hrun : ServerRun m svSock n tr s) : StatsSound s.svStats := by
  refine hrun.invariant (I := fun s => StatsSound s.svStats) ⟨le_refl _, rfl⟩ ?_
  intro s a s' h hs
  obtain heq | ⟨t, ht, heq⟩ := svStats_step (trans_of_step hs).2
  · rwa [heq]
  · rw [heq]
    exact statsSound_update h ht

/-- Where no worker is in the handler of a completion, `ss_concurrent_connections` is the
number of live connections and `ss_peak_connections` the greatest such number so far if and
only if no connection that was set up has ended. -/
theorem ServerRun.liveStats_iff (hrun : ServerRun m svSock n tr s)
    (hidle : ∀ w ∈ s.workers, w.pc.inHandler = false) :
    s.svStats.ssConcurrentConnections = (connections tr).length ∧
      IsGreatest {k : ℤ | ∃ tr', tr' <+: tr ∧ k = (connections tr').length}
        s.svStats.ssPeakConnections ↔ NoneEnded tr := by
  have hrec := hrun.recorded
  have hunc : s.uncounted = 0 := by
    refine List.sum_eq_zero fun y hy => ?_
    obtain ⟨w, hw, rfl⟩ := List.mem_map.mp hy
    have hidle := hidle w hw
    cases hpc : w.pc <;> simp_all [WorkerPc.inHandler, WorkerPc.owesCount]
  rw [State.recorded, hunc, add_zero] at hrec
  obtain ⟨hle, hiff⟩ := length_connections tr
  constructor
  · rintro ⟨hlive, -⟩
    refine hiff.mp ?_
    omega
  · intro hnone
    have heq := hiff.mpr hnone
    refine ⟨by omega, ⟨tr, List.prefix_refl tr, ?_⟩, ?_⟩
    · rw [hrun.statsSound.2]
      omega
    · rintro k ⟨tr', hpre, rfl⟩
      have hle' := (length_connections tr').1
      have hmono := countP_le_of_prefix hpre
      rw [hrun.statsSound.2]
      omega

end run

/-- One connection is live. -/
theorem liveStats_request : ∃ tr s, ServerRun 1 1 1 tr s ∧ connections tr = [5] ∧
    s.svStats.ssConcurrentConnections = 1 ∧ NoneEnded tr := by
  have hrun : ∃ tr s, ServerRun 1 1 1 tr s ∧ (∀ w ∈ s.workers, w.pc.inHandler = false) ∧
      connections tr = [5] ∧ s.svStats.ssConcurrentConnections = 1 ∧
      s.svStats.ssPeakConnections = 1 ∧ tr.countP (fun x => (setsUp x).isSome) = 1 :=
    ⟨_, _, run_of_exec (show exec (step 1) (State.init 1 1) requestArrives = some (_, _) from rfl),
      by decide, rfl, rfl, rfl, rfl⟩
  obtain ⟨tr, s, hrun, hidle, hconn, hconc, hpeak, hset⟩ := hrun
  refine ⟨tr, s, hrun, hconn, hconc,
    (hrun.liveStats_iff hidle).mp ⟨?_, ⟨tr, List.prefix_refl tr, ?_⟩, ?_⟩⟩
  · rw [hconn, hconc]
    rfl
  · rw [hconn, hpeak]
    rfl
  · rintro k ⟨tr', hpre, rfl⟩
    have hle := (length_connections tr').1
    have hmono := countP_le_of_prefix hpre
    omega

/-- The peer closes the connection before its request: the client is handed back, and the
connection still counts. -/
theorem closed_connection_counted : ¬ ∀ (m : ℤ) (svSock : Socket) (n : ℕ)
    (tr : List (State × Action)) (s : State), ServerRun m svSock n tr s →
    (∀ w ∈ s.workers, w.pc.inHandler = false) →
    s.svStats.ssConcurrentConnections = (connections tr).length ∧
      IsGreatest {k : ℤ | ∃ tr', tr' <+: tr ∧ k = (connections tr').length}
        s.svStats.ssPeakConnections := by
  intro h
  have hrun : ∃ tr s, ServerRun 1 1 1 tr s ∧ (∀ w ∈ s.workers, w.pc.inHandler = false) ∧
      connections tr = [] ∧ s.svStats.ssConcurrentConnections = 1 :=
    ⟨_, _, run_of_exec (show exec (step 1) (State.init 1 1) (requestArrives ++
      [.worker 0 .tau, .worker 0 .tau, .worker 0 (.wsaRecv none),
        .worker 0 (.postQueuedCompletionStatus true)]) = some (_, _) from rfl),
      by decide, rfl, rfl⟩
  obtain ⟨tr, s, hrun, hidle, hconn, hconc⟩ := hrun
  have hlive := (h 1 1 1 tr s hrun hidle).1
  rw [hconn, hconc] at hlive
  cases hlive

end AioServer.Windows
