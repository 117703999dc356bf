import AioServer.Linux.Handshake
import Mathlib.Algebra.Order.Group.Multiset

/-!
# The Linux server: releasing what was acquired

* `State.held`: what the server and its live workers hold, by their counters;
* `settled_of_run`: the ledger of every run without clients is at just that;
* `rollback_releases_all`: so the ledger is balanced at the end, and the end is reached from
  every state in which `server_cleanup` is entered with all workers told to quit.

A `close` that is interrupted is repeated, and counts as one release. Nobody opens a descriptor
in between while no client connects, so the second call finds the number free and releases
nothing; what it may hit with traffic is in `Linux/Close`.
-/

namespace AioServer.Linux

open Lib

variable {s s' : State}

/-- No client connects and no message arrives. -/
def Action.noTraffic : Action → Bool
  | .main (.accept4 (.socket _)) => false
  | .thread _ (.epollWait (some events)) => .other ∉ events
  | _ => true

/-! ## What is held -/

/-- What the workers `live` hold. -/
def workersHeld (workers : Addr → Option WorkerThread) (live : List Addr) : Multiset Resource :=
  (live.map fun a => (workers a).elim 0 (WorkerThread.resources a)).sum

/-- What the server itself holds. -/
def State.serverHeld (s : State) : Multiset Resource :=
  match s.main with
  | .init | .exited => 0
  | _ => s.sv.resources

/-- What is held, by the counters. -/
def State.held (s : State) : Multiset Resource := s.serverHeld + workersHeld s.workers s.live

section held

/-- The flags of a worker do not count. -/
theorem resources_flags (a : Addr) (w : WorkerThread) (e : Fd) (q : Bool) :
    ({ w with wkReadyevent := e, wkQuitflag := q } : WorkerThread).resources a
      = w.resources a := by
  have hup : ∀ n, ({ w with wkReadyevent := e, wkQuitflag := q } : WorkerThread).upTo a n
      = w.upTo a n := by
    intro n
    induction n with
    | zero => rfl
    | succ n ih =>
      rw [WorkerThread.upTo, WorkerThread.upTo, ih]
      rcases n with _ | _ | _ | _ | _ | _ | n <;> rfl
  exact congrArg Multiset.ofList (hup w.wkRollback)

/-- Neither do the list of the workers and the quit flag. -/
theorem resources_server (sv : ServerData) (ws : List Addr) (q : Bool) :
    ({ sv with svWorkers := ws, svQuitflag := q } : ServerData).resources = sv.resources := by
  have hup : ∀ n, ({ sv with svWorkers := ws, svQuitflag := q } : ServerData).upTo n
      = sv.upTo n := by
    intro n
    induction n with
    | zero => rfl
    | succ n ih =>
      rw [ServerData.upTo, ServerData.upTo, ih]
      rcases n with _ | _ | _ | _ | _ | n <;> rfl
  exact congrArg Multiset.ofList (hup sv.svRollback)

variable {workers : Addr → Option WorkerThread} {live : List Addr} {a : Addr}
  {w w' : WorkerThread}

theorem workersHeld_cons (hw : workers a = some w) :
    workersHeld workers (a :: live) = w.resources a + workersHeld workers live := by
  rw [workersHeld, List.map_cons, List.sum_cons, hw]
  rfl

theorem workersHeld_perm {live' : List Addr} (h : live.Perm live') :
    workersHeld workers live = workersHeld workers live' :=
  (h.map fun a => (workers a).elim 0 (WorkerThread.resources a)).sum_eq

/-- A worker that is not live does not count. -/
theorem workersHeld_update (h : a ∉ live) (v : Option WorkerThread) :
    workersHeld (Function.update workers a v) live = workersHeld workers live := by
  rw [workersHeld, workersHeld]
  refine congrArg List.sum (List.map_congr_left fun b hb => ?_)
  have hba : b ≠ a := fun hba => h (hba ▸ hb)
  rw [Function.update_of_ne hba]

/-- A change of a worker that leaves its resources as they are. -/
theorem workersHeld_update_same (hw : workers a = some w) (hr : w'.resources a = w.resources a) :
    workersHeld (Function.update workers a (some w')) live = workersHeld workers live := by
  rw [workersHeld, workersHeld]
  refine congrArg List.sum (List.map_congr_left fun b _ => ?_)
  by_cases hb : b = a
  · subst hb
    rw [Function.update_self, hw]
    exact hr
  · rw [Function.update_of_ne hb]

/-- A live worker has its share of what is held. -/
theorem workersHeld_eq_add_erase (ha : a ∈ live) (hw : workers a = some w) :
    workersHeld workers live = w.resources a + workersHeld workers (live.erase a) := by
  rw [workersHeld_perm (List.perm_cons_erase ha), workersHeld_cons hw]

theorem block_mem_workersHeld (ha : a ∈ live) (hw : workers a = some w) :
    .block a ∈ workersHeld workers live := by
  rw [workersHeld_eq_add_erase ha hw]
  exact Multiset.mem_add.mpr (Or.inl block_mem_resources)

end held

theorem serverHeld_eq (hi : s.main ≠ .init) (he : s.main ≠ .exited) :
    s.serverHeld = s.sv.resources := by
  rw [State.serverHeld]
  split
  · next hpc => exact absurd hpc hi
  · next hpc => exact absurd hpc he
  · rfl

/-- The array is held from level 5 on. -/
theorem array_mem_held (hi : s.main ≠ .init) (he : s.main ≠ .exited) (h : s.sv.svRollback = 5) :
    .block s.sv.svWorkersArray ∈ s.held := by
  rw [State.held, serverHeld_eq hi he, ServerData.resources, h]
  exact Multiset.mem_add.mpr (Or.inl List.mem_cons_self)

theorem Alive.block_mem_held (h : Alive s) {a : Addr} {w : WorkerThread}
    (hw : s.workers a = some w) : .block a ∈ s.held := by
  have hlive : a ∈ s.live := (h.live_iff a).mp (by simp [hw])
  exact Multiset.mem_add.mpr (Or.inr (block_mem_workersHeld hlive hw))

/-! ## Steps -/

/-- The ledger of a step leads from what is held before it to what is held after it. -/
def Settles (s s' : State) : Prop :=
  ∃ es, s'.log = s.log ++ es ∧ settle s.held es = some s'.held

theorem settles_nil (hlog : s'.log = s.log) (hheld : s'.held = s.held) : Settles s s' :=
  ⟨[], by rw [hlog, List.append_nil], by rw [settle_nil, hheld]⟩

/-- A step that touches a live worker. -/
theorem settles_use (h : Alive s) {a : Addr} {w : WorkerThread} (hw : s.workers a = some w)
    (hlog : s'.log = s.log ++ [.use (.block a)]) (hheld : s'.held = s.held) : Settles s s' :=
  ⟨_, hlog, by rw [settle_use (h.block_mem_held hw), settle_nil, hheld]⟩

/-- `worker_thread_destroy` gives back what the worker holds. -/
theorem settle_destroy (h : Alive s) {a : Addr} {w : WorkerThread} {rest : List Addr}
    (hw : s.workers a = some w) (hlive : s.live = a :: rest) :
    settle s.held (.use (.block a) :: workerThreadDestroy a w)
      = some (s.serverHeld + workersHeld (Function.update s.workers a none) rest) := by
  have hnodup := h.nodup
  rw [hlive, List.nodup_cons] at hnodup
  have hle : w.wkRollback ≤ 6 := by
    rcases h.rollback a w hw with hr | hr <;> omega
  rw [settle_use (h.block_mem_held hw), workersHeld_update hnodup.1]
  refine settle_part (settle_workerThreadDestroy hle) ?_ (zero_add _).symm
  rw [State.held, hlive, workersHeld_cons hw]
  exact add_left_comm _ _ _

/-- The rest of `server_cleanup` gives back what the server holds, which is all there is. -/
theorem settle_cleanup (h : Alive s) (hlive : s.live = []) (hi : s.main ≠ .init)
    (he : s.main ≠ .exited) : settle s.held (serverCleanupRest s.sv) = some 0 := by
  have hle : s.sv.svRollback ≤ 5 := by
    rcases h.level with hlevel | ⟨hlevel, -⟩ <;> omega
  have hheld : s.held = s.sv.resources := by
    rw [State.held, hlive, serverHeld_eq hi he]
    exact add_zero _
  rw [hheld]
  exact settle_serverCleanupRest hle

theorem held_of_same (hmain : s'.main = s.main) (hsv : s'.sv = s.sv)
    (hw : s'.workers = s.workers) : s'.held = s.held := by
  rw [State.held, State.held, State.serverHeld, State.live, hmain, hsv, hw]
  rfl

theorem settles_thread {t : ThreadId} {th : Thread} {call : ThreadCall} (h : Alive s)
    (ht : s.threads[t]? = some th) (hs : ThreadTrans s t th call s') : Settles s s' := by
  cases hs with
  | eintr => exact settles_nil rfl rfl
  | epollWait w events hpc hw hq =>
    refine settles_use h hw rfl ?_
    exact congrArg (s.serverHeld + ·) (workersHeld_update_same hw (resources_flags ..))
  | crash _ _ hpc hdead =>
    obtain ⟨w, hw, -⟩ := h.threads t th ht hpc
    rw [hdead] at hw
    cases hw
  | _ =>
    have hw := ‹s.workers th.arg = some _›
    exact settles_use h hw rfl (held_of_same rfl rfl rfl)

theorem settles_main {call : MainCall} (h : Alive s)
    (hquiet : (Action.main call).noTraffic = true) (hs : MainTrans s call s') :
    Settles s s' := by
  cases hs with
  | eintr => exact settles_nil rfl rfl
  | initFails o sv es hpc hset =>
    refine ⟨es, rfl, ?_⟩
    have hbefore : s.held = 0 := by
      rw [State.held, State.serverHeld, State.live, hpc]
      rfl
    have hafter : (({ s with sv := sv }.record es).setMain .cleanup).held = sv.resources := by
      show sv.resources + workersHeld s.workers sv.svWorkers = sv.resources
      rw [hset.workers]
      exact add_zero _
    rw [hbefore, hafter]
    exact hset.settled
  | init o sv es n hpc hset =>
    refine ⟨es, rfl, ?_⟩
    have hbefore : s.held = 0 := by
      rw [State.held, State.serverHeld, State.live, hpc]
      rfl
    have hafter : ((({ s with sv := sv, nrProcs := n }.record es).setEventfd
        sv.svThreadrdyEventfds 0).setMain (.create 0)).held = sv.resources := by
      show sv.resources + workersHeld s.workers sv.svWorkers = sv.resources
      rw [hset.workers]
      exact add_zero _
    rw [hbefore, hafter]
    exact hset.settled
  | createFails l o es hpc hl hc =>
    refine ⟨es, rfl, ?_⟩
    have hsame : ((s.record es).setMain (.create (l + 1))).held = s.held := by
      rw [State.held, State.held, State.serverHeld, State.serverHeld, State.live, State.live, hpc]
      rfl
    rw [hsame]
    exact settle_part (settle_create_null hc) (zero_add _).symm (zero_add _).symm
  | create l o a w es hpc hl hc ha =>
    refine ⟨es, rfl, ?_⟩
    have hnew : a ∉ s.sv.svWorkers := by
      have hlive := (h.live_iff a).not.mp (by simp [ha])
      rw [State.live, hpc] at hlive
      exact hlive
    refine settle_part (settle_create hc).1 (zero_add s.held).symm ?_
    show s.sv.resources + workersHeld (Function.update s.workers a (some w))
      (a :: s.sv.svWorkers) = w.resources a + s.held
    rw [workersHeld_cons (Function.update_self ..), workersHeld_update hnew, State.held,
      State.serverHeld, State.live, hpc]
    exact add_left_comm _ _ _
  | loopDone l hpc hl =>
    refine settles_nil rfl ?_
    rw [State.held, State.held, State.serverHeld, State.serverHeld, State.live, State.live, hpc]
    simp only [State.setMain]
    split_ifs <;> rfl
  | start l a w hpc hw =>
    have hlive : s.live = a :: s.sv.svWorkers := by rw [State.live, hpc]; rfl
    have hnew : a ∉ s.sv.svWorkers := by
      have hnodup := h.nodup
      rw [hlive, List.nodup_cons] at hnodup
      exact hnodup.1
    refine ⟨[.use (.block a), .acquire (.thread s.threads.length)],
      List.append_assoc .., ?_⟩
    rw [settle_use (h.block_mem_held hw), settle_acquire, settle_nil]
    have hbefore : s.held = s.sv.resources
        + (w.resources a + workersHeld s.workers s.sv.svWorkers) := by
      rw [State.held, hlive, workersHeld_cons hw, State.serverHeld, hpc]
    have hafter : (s.started l a w).held = s.sv.resources
        + (.thread s.threads.length ::ₘ w.resources a + workersHeld s.workers s.sv.svWorkers) := by
      show s.sv.resources + workersHeld (Function.update s.workers a (some _))
        (a :: s.sv.svWorkers) = _
      rw [workersHeld_cons (Function.update_self ..), workersHeld_update hnew, h.fresh l a w hpc hw,
        resources_started (h.fresh l a w hpc hw)]
    rw [hbefore, hafter, Multiset.cons_add, Multiset.add_cons]
  | startFails l a w hpc hw =>
    refine settles_use h hw rfl ?_
    have hsame : workersHeld (Function.update s.workers a (some _)) (a :: s.sv.svWorkers)
        = workersHeld s.workers (a :: s.sv.svWorkers) := workersHeld_update_same hw
      (resources_flags a w s.sv.svThreadrdyEventfds w.wkQuitflag)
    rw [State.held, State.held, State.serverHeld, State.serverHeld, State.live, State.live, hpc]
    exact congrArg (s.sv.resources + ·) hsame
  | readOk l a hpc hready =>
    have hr := h.level_eq (by simp [hpc])
    refine ⟨[.use (.block s.sv.svWorkersArray)], rfl, ?_⟩
    have hsame : (s.enlisted l a).held = s.held := by
      rw [State.held, State.held, State.serverHeld, State.serverHeld, State.live, State.live, hpc]
      exact congrArg₂ (· + ·) (resources_server s.sv (s.sv.svWorkers ++ [a]) s.sv.svQuitflag)
        (workersHeld_perm (List.perm_append_singleton a s.sv.svWorkers))
    rw [settle_use (array_mem_held (by simp [hpc]) (by simp [hpc]) hr), settle_nil, hsame]
  | destroy l a w hpc hw hj =>
    have hlive : s.live = a :: s.sv.svWorkers := by rw [State.live, hpc]; rfl
    refine ⟨.use (.block a) :: workerThreadDestroy a w, List.append_assoc .., ?_⟩
    rw [settle_destroy h hw hlive, serverHeld_eq (by simp [hpc]) (by simp [hpc])]
    rfl
  | dispatch fd events pc hpc hq hto =>
    refine settles_nil rfl ?_
    rw [State.held, State.held, State.serverHeld, State.serverHeld, State.live, State.live, hpc]
    rcases hto with rfl | rfl | rfl <;> rfl
  | accept events fd hpc => cases hquiet
  | notify i events a w hpc hi hw =>
    have hr := h.level_eq (by simp [hpc])
    have hsame : (s.notified a w (.notify (i + 1) events)).held = s.held := by
      simp only [State.held, State.serverHeld, State.live, hpc, notified_main, notified_sv,
        notified_workers]
      rfl
    refine ⟨_, notified_log, ?_⟩
    rw [settle_use (array_mem_held (by simp [hpc]) (by simp [hpc]) hr),
      settle_use (h.block_mem_held hw), settle_nil, hsame]
  | notifyDone i events hpc hi =>
    refine settles_nil rfl ?_
    rw [State.held, State.held, State.serverHeld, State.serverHeld, State.live, State.live, hpc]
    exact congrArg (· + _) (resources_server s.sv s.sv.svWorkers true)
  | cleanupNone hpc hr =>
    have hlive : s.live = [] := by
      rw [State.live, hpc]
      rcases h.level with hlevel | ⟨-, hnone, -⟩
      · exact absurd hlevel hr
      · exact hnone
    refine ⟨_, rfl, ?_⟩
    rw [settle_cleanup h hlive (by simp [hpc]) (by simp [hpc])]
    rfl
  | cleanupWorker i a w hpc hi hw hj =>
    have hr := h.level_eq (by simp [hpc])
    have hlive : s.live = a :: s.sv.svWorkers.drop (i + 1) := by
      rw [State.live, hpc]
      exact List.drop_eq_getElem?_toList_append.trans (by rw [hi]; rfl)
    refine ⟨.use (.block s.sv.svWorkersArray) :: .use (.block a) :: workerThreadDestroy a w, ?_, ?_⟩
    · show ((s.log ++ _) ++ _) ++ _ = _
      rw [List.append_assoc, List.append_assoc]
      rfl
    · rw [settle_use (array_mem_held (by simp [hpc]) (by simp [hpc]) hr), settle_destroy h hw hlive,
        serverHeld_eq (by simp [hpc]) (by simp [hpc])]
      rfl
  | cleanupDone i hpc hi =>
    have hlive : s.live = [] := by
      rw [State.live, hpc]
      exact List.drop_eq_nil_of_le (by omega)
    refine ⟨_, rfl, ?_⟩
    rw [settle_cleanup h hlive (by simp [hpc]) (by simp [hpc])]
    rfl
  | crash _ a _ ha hdead =>
    exact absurd hdead (h.touches_ne_none ha)
  | acceptFails events hpc => exact settles_nil rfl rfl
  | _ =>
    have hpc := ‹s.main = _›
    refine settles_nil rfl ?_
    rw [State.held, State.held, State.serverHeld, State.serverHeld, State.live, State.live, hpc]
    rfl

theorem settles_step {a : Action} (h : Alive s) (hquiet : a.noTraffic = true)
    (hs : step s a = some s') : Settles s s' := by
  cases trans_of_step hs with
  | main hm => exact settles_main h hquiet hm
  | thread ht hth => exact settles_thread h ht hth

/-- The ledger is at what the counters say. -/
def State.Settled (s : State) : Prop := settle 0 s.log = some s.held

theorem settled_init : State.init.Settled := rfl

theorem State.Settled.step {a : Action} (h : s.Settled) (ha : Alive s)
    (hquiet : a.noTraffic = true) (hs : step s a = some s') : s'.Settled := by
  obtain ⟨es, hlog, hes⟩ := settles_step ha hquiet hs
  rw [State.Settled, hlog]
  exact settle_trans h hes

theorem settled_of_run {tr : List (State × Action)} (hrun : ServerRun tr s)
    (hquiet : ∀ x ∈ tr, x.2.noTraffic = true) : s.Settled := by
  have hboth : Alive s ∧ s.Settled := by
    refine hrun.invariant_of (I := fun s => Alive s ∧ s.Settled) hquiet
      ⟨alive_init, settled_init⟩ ?_
    intro s a s' h hok hs
    exact ⟨h.1.step hs, h.2.step h.1 hok hs⟩
  exact hboth.2

/-- At the end nothing is held. -/
theorem State.Settled.balanced (h : s.Settled) (hpc : s.main = .exited) : Balanced s.log := by
  rw [State.Settled, State.held, State.serverHeld, State.live, hpc] at h
  exact h

/-! ## Joins during the start -/

/-- `worker_thread_destroy` does not wait after a thread has reported a failure. -/
theorem destroy_returned (ha : Alive s) (h : Handshake s) {l : ℕ} {a : Addr} {w : WorkerThread}
    (hpc : s.main = .destroy l a) (hw : s.workers a = some w) (hr : w.wkRollback = 6) :
    s.Returned w := by
  have hphase := h.phase
  rw [State.Phase, hpc] at hphase
  obtain ⟨th, hth, rfl⟩ := ha.joinable a w hw hr
  have hreport := reports_getElem? hth
  have hnotin : th.arg ∉ s.sv.svWorkers := by
    have hnodup := ha.nodup
    rw [State.live, hpc] at hnodup
    exact (List.nodup_cons.mp hnodup).1
  -- a thread that reported success would have its worker in `sv_workers`
  have hnotok : th.reported ≠ some .ok := by
    intro hok
    refine hnotin ?_
    rw [hphase.1.2]
    refine List.mem_map.mpr ⟨_, List.mem_filter.mpr ⟨List.mem_of_getElem? hreport, ?_⟩, rfl⟩
    simpa using hok
  have hsome := hphase.1.1 _ (List.mem_of_getElem? hreport)
  have hcons := h.consistent th (List.mem_of_getElem? hth)
  rw [State.Returned, hth]
  refine congrArg some ?_
  rw [Thread.Consistent] at hcons
  split at hcons
  · exact absurd hcons hnotok
  · assumption
  · rw [hcons] at hsome
    cases hsome

theorem step_destroyWorker {a : Addr} {w : WorkerThread} {pc : MainPc}
    (hw : s.workers a = some w) (hj : w.wkRollback = 6 → s.Returned w) :
    s.destroyWorker a pc = some (s.destroyed a w pc) := by
  have hfree : ¬ (w.wkRollback = 6 ∧ ¬ s.Returned w) := fun h => h.2 (hj h.1)
  rw [State.destroyWorker, withWorker_eq_some]
  exact Or.inr ⟨w, hw, if_neg hfree⟩

/-! ## The way out -/

/-- What holds on the way through `server_cleanup`. -/
structure Leaving (s : State) : Prop where
  alive : Alive s
  handshake : Handshake s
  quit : QuitInv s
  settled : s.Settled

theorem Leaving.step {a : Action} (h : Leaving s) (hio : a.statusOk = true)
    (hquiet : a.noTraffic = true) (hstop : ¬ StopsUntold (s, a)) (hs : step s a = some s') :
    Leaving s' :=
  ⟨h.alive.step hs, h.handshake.step h.alive hio hs, quitInv_step h.alive h.quit hstop hs,
    h.settled.step h.alive hquiet hs⟩

/-- The server can get from `s` to a state with the property `P`. -/
def CanReach (s : State) (P : State → Prop) : Prop :=
  ∃ tr s', Run step s tr s' ∧ Leaving s' ∧ P s'

theorem canReach_step {a : Action} {P : State → Prop} (hs : step s a = some s')
    (h : CanReach s' P) : CanReach s P := by
  obtain ⟨tr, t, hrun, hleave, hP⟩ := h
  exact ⟨_, t, Run.cons hs hrun, hleave, hP⟩

theorem CanReach.trans {P Q : State → Prop} (h : CanReach s P)
    (hPQ : ∀ t, Leaving t → P t → CanReach t Q) : CanReach s Q := by
  obtain ⟨tr, t, hrun, hleave, hP⟩ := h
  obtain ⟨tr', u, hrun', hleave', hQ⟩ := hPQ t hleave hP
  exact ⟨tr ++ tr', u, hrun.append hrun', hleave', hQ⟩

/-- The next worker is joined. -/
def Joins (s : State) (i : ℕ) : Prop :=
  CanReach s fun t => t.main = .cleanupWorker (i + 1) ∧ t.sv.svWorkers = s.sv.svWorkers

section joins

variable {i : ℕ} {a : Addr} {w : WorkerThread}

theorem joins_of_returned (h : Leaving s) (hpc : s.main = .cleanupWorker i)
    (hi : s.sv.svWorkers[i]? = some a) (hw : s.workers a = some w)
    (hj : w.wkRollback = 6 → s.Returned w) : Joins s i := by
  have hs : step s (.main .workerThreadDestroy)
      = some ((s.record [.use (.block s.sv.svWorkersArray)]).destroyed a w
          (.cleanupWorker (i + 1))) := by
    simp only [step, h.alive.crashed, mainStep, hpc, hi]
    exact step_destroyWorker hw hj
  refine canReach_step hs ⟨[], _, .nil, ?_, rfl, rfl⟩
  exact h.step rfl rfl (fun hstop => by cases hstop.1) hs

/-- The thread of `a` sees its quit flag. -/
theorem joins_of_quitflag (h : Leaving s) (hpc : s.main = .cleanupWorker i)
    (hi : s.sv.svWorkers[i]? = some a) (hw : s.workers a = some w) {th : Thread}
    (hth : s.threads[w.wkThreadid]? = some th) (harg : th.arg = a) (hloop : th.pc = .loop)
    (hq : w.wkQuitflag = true) : Joins s i := by
  subst harg
  have hs : step s (.thread w.wkThreadid .tau) = some ((s.record [.use (.block th.arg)]).setThread
      w.wkThreadid { th with pc := .returned }) := by
    simp only [step, h.alive.crashed, hth, threadStep, hloop, Bool.false_eq_true, if_false]
    rw [withWorker_eq_some]
    exact Or.inr ⟨w, hw, if_pos hq⟩
  have hlt : w.wkThreadid < s.threads.length := (List.getElem?_eq_some_iff.mp hth).1
  have hleave := h.step rfl rfl (fun hstop => by cases hstop.1) hs
  refine canReach_step hs (joins_of_returned hleave hpc hi hw fun _ => ?_)
  show ((s.threads.set w.wkThreadid _)[w.wkThreadid]?).map Thread.pc = _
  rw [List.getElem?_set_self hlt]
  rfl

/-- The thread of `a` gets the event of `wk_termsig`. -/
theorem joins_of_told (h : Leaving s) (hpc : s.main = .cleanupWorker i)
    (hi : s.sv.svWorkers[i]? = some a) (hw : s.workers a = some w) {th : Thread}
    (hth : s.threads[w.wkThreadid]? = some th) (harg : th.arg = a) (hloop : th.pc = .loop)
    (htold : s.Told w) : Joins s i := by
  subst harg
  by_cases hq : w.wkQuitflag = true
  · exact joins_of_quitflag h hpc hi hw hth rfl hloop hq
  · have hs : step s (.thread w.wkThreadid (.epollWait (some [.signal])))
        = some ((s.record [.use (.block th.arg)]).setWorker th.arg
          { w with wkQuitflag := true }) := by
      simp only [step, h.alive.crashed, hth, threadStep, hloop, Bool.false_eq_true, if_false]
      rw [withWorker_eq_some]
      refine Or.inr ⟨w, hw, ?_⟩
      have hsig : ¬ (WorkerEvent.signal ∈ [WorkerEvent.signal] ∧ s.eventfds w.wkTermsig = 0) :=
        fun hzero => htold.ne' hzero.2
      rw [if_neg hq]
      exact if_neg hsig
    have hleave := h.step rfl rfl (fun hstop => by cases hstop.1) hs
    have hw' : (s.setWorker th.arg { w with wkQuitflag := true }).workers th.arg
        = some { w with wkQuitflag := true } := Function.update_self ..
    exact canReach_step hs (joins_of_quitflag hleave hpc hi hw' hth rfl hloop rfl)

/-- Every worker that is finishing is joined. -/
theorem joins_of_finishing (h : Leaving s) (hpc : s.main = .cleanupWorker i)
    (hi : s.sv.svWorkers[i]? = some a) : Joins s i := by
  have hlive : (s.workers a).isSome := h.alive.touches_isSome (by rw [hpc]; exact hi)
  obtain ⟨w, hw⟩ := Option.isSome_iff_exists.mp hlive
  by_cases hr : w.wkRollback = 6
  · obtain ⟨th, hth, harg⟩ := h.alive.joinable a w hw hr
    have hquit := h.quit
    rw [QuitInv, hpc] at hquit
    rcases hquit a (List.mem_of_getElem? hi) w hw with hret | htold
    · exact joins_of_returned h hpc hi hw fun _ => hret
    · -- the thread has reported, so it is in its loop or has returned
      have hphase := h.handshake.phase
      rw [State.Phase, hpc] at hphase
      have hsome := hphase.1 _ (List.mem_of_getElem? (reports_getElem? hth))
      have hcons := h.handshake.consistent th (List.mem_of_getElem? hth)
      rw [Thread.Consistent] at hcons
      split at hcons
      · next hloop => exact joins_of_told h hpc hi hw hth harg hloop htold
      · next hret =>
        refine joins_of_returned h hpc hi hw fun _ => ?_
        rw [State.Returned, hth]
        exact congrArg some hret
      · rw [hcons] at hsome
        cases hsome
  · exact joins_of_returned h hpc hi hw fun h6 => absurd h6 hr

end joins

theorem canReach_exit_of_workers (n : ℕ) {i : ℕ} (h : Leaving s)
    (hpc : s.main = .cleanupWorker i) (hn : s.sv.svWorkers.length - i = n) :
    CanReach s fun t => t.main = .exited := by
  induction n generalizing s i with
  | zero =>
    have hdone : ¬ i < s.sv.svWorkers.length := by omega
    have hs : step s (.main .tau)
        = some ((s.record (serverCleanupRest s.sv)).setMain .exited) := by
      simp only [step, h.alive.crashed, mainStep, hpc, if_neg hdone, Bool.false_eq_true, if_false]
    have hleave := h.step rfl rfl (fun hstop => by cases hstop.1) hs
    exact canReach_step hs ⟨[], _, .nil, hleave, rfl⟩
  | succ n ih =>
    have hlt : i < s.sv.svWorkers.length := by omega
    have hjoin := joins_of_finishing h hpc (List.getElem?_eq_getElem hlt)
    refine CanReach.trans hjoin fun t ht hP => ?_
    exact ih ht hP.1 (by rw [hP.2]; omega)

/-- `server_cleanup` gets to its end. -/
theorem canReach_exit (h : Leaving s) (hpc : s.main = .cleanup) :
    CanReach s fun t => t.main = .exited := by
  by_cases hr : s.sv.svRollback = 5
  · have hs : step s (.main .tau) = some (s.setMain (.cleanupWorker 0)) := by
      simp only [step, h.alive.crashed, mainStep, hpc, if_pos hr, Bool.false_eq_true, if_false]
    have hleave := h.step rfl rfl (fun hstop => by cases hstop.1) hs
    exact canReach_step hs (canReach_exit_of_workers _ hleave rfl rfl)
  · have hs : step s (.main .tau)
        = some ((s.record (serverCleanupRest s.sv)).setMain .exited) := by
      simp only [step, h.alive.crashed, mainStep, hpc, if_neg hr, Bool.false_eq_true, if_false]
    have hleave := h.step rfl rfl (fun hstop => by cases hstop.1) hs
    exact canReach_step hs ⟨[], _, .nil, hleave, rfl⟩

/-! ## Result -/

/-- A thread that has not returned has a live worker, which is its own. -/
def State.OwnWorkers (s : State) : Prop :=
  ∀ t th, s.threads[t]? = some th → th.pc ≠ .returned →
    ∃ w, s.workers th.arg = some w ∧ w.wkThreadid = t

/-- `server_init` and `server_cleanup` without clients. At every moment what was used and
released was held, and no worker is used after its release. At the end each resource was
released as often as it was acquired. `worker_thread_destroy` does not block in `server_init`,
and when all workers were told to quit `server_cleanup` gets to its end. -/
theorem rollback_releases_all {tr : List (State × Action)} (hrun : ServerRun tr s)
    (hio : ∀ x ∈ tr, x.2.statusOk = true) (hquiet : ∀ x ∈ tr, x.2.noTraffic = true) :
    (settle 0 s.log).isSome ∧ s.crashed = false ∧ s.OwnWorkers ∧
      (s.main = .exited → Balanced s.log ∧
        ∀ r, s.log.count (.release r) = s.log.count (.acquire r)) ∧
      (∀ l a, s.main = .destroy l a → ∃ s', step s (.main .workerThreadDestroy) = some s') ∧
      (s.main = .cleanup → (∀ a ∈ s.sv.svWorkers, s.Finishing a) →
        ∃ tr' s', Run step s tr' s' ∧ s'.main = .exited ∧ Balanced s'.log) := by
  have halive := alive_of_run hrun
  have hhand := handshake_of_run hrun hio
  have hsettled := settled_of_run hrun hquiet
  refine ⟨Option.isSome_iff_exists.mpr ⟨_, hsettled⟩, halive.crashed, ?_, ?_, ?_, ?_⟩
  · intro t th hth hpc
    obtain ⟨w, hw, hid, -⟩ := halive.threads t th hth hpc
    exact ⟨w, hw, hid⟩
  · intro hpc
    have hbal := hsettled.balanced hpc
    exact ⟨hbal, hbal.count_eq⟩
  · intro l a hpc
    have hlive : (s.workers a).isSome := halive.touches_isSome (by rw [hpc]; rfl)
    obtain ⟨w, hw⟩ := Option.isSome_iff_exists.mp hlive
    refine ⟨s.destroyed a w (.create (l + 1)), ?_⟩
    simp only [step, halive.crashed, mainStep, hpc]
    exact step_destroyWorker hw fun hr => destroy_returned halive hhand hpc hw hr
  · intro hpc hfin
    have hquit : QuitInv s := by
      rw [QuitInv, hpc]
      exact hfin
    obtain ⟨tr', s', hrun', hleave, hexit⟩ :=
      canReach_exit ⟨halive, hhand, hquit, hsettled⟩ hpc
    exact ⟨tr', s', hrun', hexit, hleave.settled.balanced hexit⟩

/-- Of two workers one cannot be started; SIGINT stops the other one. -/
theorem rollback_releases_two : ∃ tr s, ServerRun tr s ∧ s.main = .exited ∧ Balanced s.log := by
  have hrun : ∃ tr s, ServerRun tr s ∧ s.main = .exited ∧
      (∀ x ∈ tr, x.2.statusOk = true) ∧ (∀ x ∈ tr, x.2.noTraffic = true) :=
    ⟨_, _, run_of_exec (show exec step State.init
      [.main (.serverInit ⟨⟨some 1, some 3, true, true⟩, some 4, true, true, some 5, true, true,
         some 6, some 2, some 2⟩),
       .main (.workerThreadCreate ⟨some 10, some 7, some 11, some 12, some 8, some 9⟩),
       .main (.pthreadCreate false), .main .workerThreadDestroy,
       .main (.workerThreadCreate ⟨some 20, some 7, some 11, some 12, some 8, some 9⟩),
       .main (.pthreadCreate true), .thread 0 (.epollCtl true), .thread 0 (.epollCtl true),
       .thread 0 (.write true), .main (.read true), .main .tau, .main (.epollWait (some [5])),
       .main .tau, .main .write, .main .tau, .main .tau, .main .tau,
       .thread 0 (.epollWait (some [.signal])), .thread 0 .tau, .main .workerThreadDestroy,
       .main .tau] = some (_, _) from rfl), rfl, by decide, by decide⟩
  obtain ⟨tr, s, hrun, hpc, hio, hquiet⟩ := hrun
  exact ⟨tr, s, hrun, hpc, ((rollback_releases_all hrun hio hquiet).2.2.2.1 hpc).1⟩

end AioServer.Linux
