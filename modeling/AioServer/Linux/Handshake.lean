import AioServer.Linux.Quit

/-!
# The Linux server: the start-up handshake

All threads report through one event descriptor, where two failures add up to a success. What
keeps the reports apart is the order: the starting thread reads each report before it starts
the next thread.

* `Thread.Consistent`: what a thread has reported, by its position;
* `Handshake`: at most the latest thread has a report that is not read yet, and the counter is
  that report;
* `handshake_of_run`: so each start returns the status of its own thread, and `sv_workers` is
  the list of those that succeeded.
-/

namespace AioServer.Linux

open Lib

variable {s s' : State}

/-! ## Statements -/

/-- The status is written and read without a failure; an interrupted call is repeated. -/
def Action.statusOk : Action → Bool
  | .main (.read ok) => ok
  | .thread _ (.write ok) => ok
  | _ => true

/-- The worker of a thread that reported success, in the order of creation. -/
def enlist (reports : List (Addr × Option ThreadInitStatus)) : List Addr :=
  (reports.filter fun r => r.2 = some .ok).map Prod.fst

/-- For each thread its worker and what it has reported. -/
def State.reports (s : State) : List (Addr × Option ThreadInitStatus) :=
  s.threads.map fun th => (th.arg, th.reported)

/-- `worker_thread_start` for the worker `a` waits until the thread it started, the latest one,
has reported, and then returns the status of that report: 0 for `kThreadInitOk`. -/
def StartsByOwnStatus (s : State) : Prop :=
  ∀ l a, s.main = .readStatus l a → ∃ w th, s.workers a = some w ∧
    w.wkThreadid + 1 = s.threads.length ∧ s.threads[w.wkThreadid]? = some th ∧ th.arg = a ∧
    match th.reported with
    | none => step s (.main (.read true)) = none
    | some st => s.ready = st.value ∧ (workerThreadStartResult (some s.ready) = 0 ↔ st = .ok) ∧
      ∃ s', step s (.main (.read true)) = some s' ∧
        s'.sv.svWorkers = s.sv.svWorkers ++ (if st = .ok then [a] else [])

/-- Between two workers `sv_workers` holds those whose thread reported success, and no other
worker is left. -/
def EnlistsSuccessful (s : State) : Prop :=
  ∀ l, s.main = .create l → s.sv.svWorkers = enlist s.reports ∧ s.sv.svWorkers.Nodup ∧
    ∀ a, (s.workers a).isSome ↔ a ∈ s.sv.svWorkers

/-! ## Threads -/

/-- What a thread has reported, by its position. -/
def Thread.Consistent (th : Thread) : Prop :=
  match th.pc with
  | .loop => th.reported = some .ok
  | .returned => th.reported.isSome
  | _ => th.reported = none

theorem consistent_set {t : ThreadId} {th' : Thread} (h : ∀ th ∈ s.threads, th.Consistent)
    (hth' : th'.Consistent) : ∀ th ∈ s.threads.set t th', th.Consistent := by
  intro th hth
  rcases List.mem_or_eq_of_mem_set hth with hmem | rfl
  · exact h th hmem
  · exact hth'

theorem consistent_thread {t : ThreadId} {th : Thread} {call : ThreadCall} (ha : Alive s)
    (h : ∀ th ∈ s.threads, th.Consistent) (ht : s.threads[t]? = some th)
    (hio : (Action.thread t call).statusOk = true) (hs : ThreadTrans s t th call s') :
    ∀ th ∈ s'.threads, th.Consistent := by
  have hth : th.Consistent := h th (List.mem_of_getElem? ht)
  rw [Thread.Consistent] at hth
  cases hs with
  | eintr => exact h
  | addTermsig ok w hpc hw =>
    rw [hpc] at hth
    exact consistent_set h hth
  | addMessagequeue result ok w hpc hw =>
    rw [hpc] at hth
    exact consistent_set h hth
  | report result w counter hpc hw hc =>
    refine consistent_set h ?_
    by_cases hr : result = 2
    · simp [Thread.Consistent, initStatus, hr]
    · simp [Thread.Consistent, hr]
  | reportFails result w hpc hw => cases hio
  | quit w hpc hw hq =>
    rw [hpc] at hth
    exact consistent_set h (by simp [Thread.Consistent, hth])
  | epollFails w hpc hw hq =>
    rw [hpc] at hth
    exact consistent_set h (by simp [Thread.Consistent, hth])
  | epollWait w events hpc hw hq => exact h
  | crash _ _ hpc hdead =>
    obtain ⟨w, hw, -⟩ := ha.threads t th ht hpc
    rw [hdead] at hw
    cases hw

theorem length_reports : s.reports.length = s.threads.length := List.length_map _

theorem reports_getElem? {t : ThreadId} {th : Thread} (ht : s.threads[t]? = some th) :
    s.reports[t]? = some (th.arg, th.reported) := by
  rw [State.reports, List.getElem?_map, ht]
  rfl

theorem reports_set (t : ThreadId) (th' : Thread) :
    (s.threads.set t th').map (fun th => (th.arg, th.reported))
      = s.reports.set t (th'.arg, th'.reported) := List.map_set

theorem reports_set_self {t : ThreadId} {th th' : Thread} (ht : s.threads[t]? = some th)
    (harg : th'.arg = th.arg) (hr : th'.reported = th.reported) :
    (s.threads.set t th').map (fun th => (th.arg, th.reported)) = s.reports := by
  obtain ⟨hlt, hget⟩ := List.getElem?_eq_some_iff.mp (reports_getElem? ht)
  rw [reports_set, harg, hr, ← hget, List.set_getElem_self]

/-! ## The invariant -/

/-- Every report has been read. -/
def State.AllRead (s : State) : Prop :=
  (∀ r ∈ s.reports, r.2.isSome) ∧ s.sv.svWorkers = enlist s.reports

/-- The report of the latest thread is in the counter until it is read. -/
def State.Unread (s : State) (a : Addr) : Prop :=
  ∃ old st w, s.reports = old ++ [(a, st)] ∧ (∀ r ∈ old, r.2.isSome) ∧
    s.sv.svWorkers = enlist old ∧ s.ready = st.elim 0 ThreadInitStatus.value ∧
    s.workers a = some w ∧ w.wkReadyevent = s.sv.svThreadrdyEventfds ∧
    w.wkThreadid + 1 = s.threads.length

/-- What is in the counter, by the position of the starting thread. -/
def State.Phase (s : State) : Prop :=
  match s.main with
  | .init => s.threads = []
  | .readStatus _ a => s.Unread a
  | .create _ | .pthreadCreate _ _ | .destroy _ _ => s.AllRead ∧ s.ready = 0
  | _ => s.AllRead

/-- Threads and counter fit together. -/
structure Handshake (s : State) : Prop where
  consistent : ∀ th ∈ s.threads, th.Consistent
  phase : s.Phase

theorem handshake_init : Handshake State.init := ⟨by simp [State.init], rfl⟩

theorem phase_readStatus {l : ℕ} {a : Addr} (hpc : s.main = .readStatus l a) :
    s.Phase ↔ s.Unread a := by
  rw [State.Phase, hpc]

theorem allRead_of_same (h : s.AllRead) (hr : s'.reports = s.reports)
    (hws : s'.sv.svWorkers = s.sv.svWorkers) : s'.AllRead := by
  rw [State.AllRead, hr, hws]
  exact h

/-- A thread moves without a report. -/
theorem phase_of_quiet (h : s.Phase) (hr : s'.reports = s.reports) (hmain : s'.main = s.main)
    (hsv : s'.sv = s.sv) (he : s'.eventfds = s.eventfds)
    (hw : ∀ a w, s.workers a = some w → ∃ w', s'.workers a = some w' ∧
      w'.wkReadyevent = w.wkReadyevent ∧ w'.wkThreadid = w.wkThreadid) : s'.Phase := by
  have hready : s'.ready = s.ready := by rw [State.ready, he, hsv]; rfl
  have hlen : s'.threads.length = s.threads.length := by
    rw [← length_reports, hr, length_reports]
  have hall : s.AllRead → s'.AllRead := fun h => allRead_of_same h hr (by rw [hsv])
  rw [State.Phase, hmain]
  rw [State.Phase] at h
  split at h
  · rw [← List.length_eq_zero_iff, hlen, h]
    rfl
  · obtain ⟨old, st, w, hold, hread, hws, hcount, hwa, hev, hid⟩ := h
    obtain ⟨w', hw', hev', hid'⟩ := hw _ w hwa
    refine ⟨old, st, w', hr.trans hold, hread, ?_, ?_, hw', ?_, ?_⟩
    · rw [hsv]
      exact hws
    · rw [hready]
      exact hcount
    · rw [hev', hsv]
      exact hev
    · rw [hid', hlen]
      exact hid
  · exact ⟨hall h.1, hready.trans h.2⟩
  · exact ⟨hall h.1, hready.trans h.2⟩
  · exact ⟨hall h.1, hready.trans h.2⟩
  · exact hall h

/-- The only thread that can still report is the latest one, while it is waited for. -/
theorem unread_of_report {t : ThreadId} {th : Thread} (h : Handshake s)
    (ht : s.threads[t]? = some th) (hr : th.reported = none) :
    ∃ l, s.main = .readStatus l th.arg ∧ ∃ old w, s.reports = old ++ [(th.arg, none)] ∧
      t = old.length ∧ (∀ r ∈ old, r.2.isSome) ∧ s.sv.svWorkers = enlist old ∧ s.ready = 0 ∧
      s.workers th.arg = some w ∧ w.wkReadyevent = s.sv.svThreadrdyEventfds ∧
      w.wkThreadid + 1 = s.threads.length := by
  have hget := reports_getElem? ht
  rw [hr] at hget
  have hphase := h.phase
  have hnone : ¬ s.AllRead := by
    intro hall
    have hsome := hall.1 _ (List.mem_of_getElem? hget)
    cases hsome
  rw [State.Phase] at hphase
  split at hphase
  · rw [hphase] at ht
    cases ht
  · next l a hpc =>
    obtain ⟨old, st, w, hold, hread, hws, hcount, hwa, hev, hid⟩ := hphase
    rw [hold, List.getElem?_append] at hget
    split_ifs at hget with hlt
    · have hsome := hread _ (List.mem_of_getElem? hget)
      cases hsome
    · rw [List.getElem?_singleton] at hget
      split_ifs at hget with hidx
      obtain ⟨rfl, rfl⟩ : a = th.arg ∧ st = none := by simpa using hget
      exact ⟨l, hpc, old, w, hold,
        Nat.le_antisymm (Nat.le_of_sub_eq_zero hidx) (Nat.le_of_not_lt hlt), hread, hws, hcount,
        hwa, hev, hid⟩
  · exact absurd hphase.1 hnone
  · exact absurd hphase.1 hnone
  · exact absurd hphase.1 hnone
  · exact absurd hphase hnone

theorem phase_thread {t : ThreadId} {th : Thread} {call : ThreadCall} (ha : Alive s)
    (h : Handshake s) (ht : s.threads[t]? = some th)
    (hio : (Action.thread t call).statusOk = true) (hs : ThreadTrans s t th call s') :
    s'.Phase := by
  -- a move of the thread alone leaves the workers as they are
  have hquiet : ∀ {s' : State} (th' : Thread), s'.threads = s.threads.set t th' →
      th'.arg = th.arg → th'.reported = th.reported → s'.main = s.main → s'.sv = s.sv →
      s'.eventfds = s.eventfds → s'.workers = s.workers → s'.Phase := by
    intro s' th' hths harg hr hmain hsv he hw
    refine phase_of_quiet h.phase ?_ hmain hsv he fun a w hwa => ⟨w, hw ▸ hwa, rfl, rfl⟩
    rw [State.reports, hths]
    exact reports_set_self ht harg hr
  cases hs with
  | eintr => exact h.phase
  | addTermsig ok w hpc hw => exact hquiet _ rfl rfl rfl rfl rfl rfl rfl
  | addMessagequeue result ok w hpc hw => exact hquiet _ rfl rfl rfl rfl rfl rfl rfl
  | report result w counter hpc hw hc =>
    have hnone : th.reported = none := by
      have hth := h.consistent th (List.mem_of_getElem? ht)
      rw [Thread.Consistent, hpc] at hth
      exact hth
    obtain ⟨l, hmain, old, v, hold, hlast, hread, hws, hzero, hv, hev, hid⟩ :=
      unread_of_report h ht hnone
    obtain rfl : w = v := Option.some.inj (hw.symm.trans hv)
    -- the counter was 0, so it is now the report of this thread alone
    have hcount : counter = (initStatus result).value := by
      have hsum := le_of_eventfdWrite hc
      have hempty : s.eventfds w.wkReadyevent = 0 := by
        rw [hev]
        exact hzero
      omega
    have hreports : s.reports.set t (th.arg, some (initStatus result))
        = old ++ [(th.arg, some (initStatus result))] := by
      rw [hold, hlast, List.set_append_right _ _ (Nat.le_refl _), Nat.sub_self]
      rfl
    refine (phase_readStatus (by exact hmain)).mpr ⟨old, some (initStatus result), w,
      (reports_set t _).trans hreports, hread, hws, ?_, hw, hev, ?_⟩
    · show Function.update s.eventfds w.wkReadyevent counter s.sv.svThreadrdyEventfds = _
      rw [← hev, Function.update_self]
      exact hcount
    · show w.wkThreadid + 1 = (s.threads.set t _).length
      rw [List.length_set]
      exact hid
  | reportFails result w hpc hw => cases hio
  | quit w hpc hw hq => exact hquiet _ rfl rfl rfl rfl rfl rfl rfl
  | epollFails w hpc hw hq => exact hquiet _ rfl rfl rfl rfl rfl rfl rfl
  | epollWait w events hpc hw hq =>
    refine phase_of_quiet h.phase rfl rfl rfl rfl ?_
    intro b v hv
    show ∃ w', Function.update s.workers th.arg _ b = some w' ∧ _
    by_cases hb : b = th.arg
    · subst hb
      obtain rfl : w = v := Option.some.inj (hw.symm.trans hv)
      exact ⟨_, Function.update_self .., rfl, rfl⟩
    · exact ⟨v, by rw [Function.update_of_ne hb]; exact hv, rfl, rfl⟩
  | crash _ _ hpc hdead =>
    obtain ⟨w, hw, -⟩ := ha.threads t th ht hpc
    rw [hdead] at hw
    cases hw

/-! ## The starting thread -/

theorem enlist_append (rs : List (Addr × Option ThreadInitStatus)) (a : Addr)
    (st : ThreadInitStatus) :
    enlist (rs ++ [(a, some st)]) = enlist rs ++ (if st = .ok then [a] else []) := by
  rw [enlist, List.filter_append, List.map_append]
  cases st <;> rfl

/-- The counter tells the report. -/
theorem reported_of_value {st : ThreadInitStatus} {r : Option ThreadInitStatus}
    (h : st.value = r.elim 0 ThreadInitStatus.value) : some st = r := by
  cases r with
  | none => exact absurd h st.value_pos.ne'
  | some st' => cases st <;> cases st' <;> first | rfl | cases h

/-- Once the report is read there is none left. -/
theorem allRead_of_unread {a : Addr} {st : ThreadInitStatus} (h : s.Unread a)
    (hready : s.ready = st.value) (hr : s'.reports = s.reports)
    (hws : s'.sv.svWorkers = s.sv.svWorkers ++ (if st = .ok then [a] else [])) : s'.AllRead := by
  obtain ⟨old, st', w, hold, hread, henl, hcount, -⟩ := h
  rw [hready] at hcount
  obtain rfl := reported_of_value hcount
  constructor
  · rw [hr, hold]
    intro r hmem
    rcases List.mem_append.mp hmem with hmem | hmem
    · exact hread r hmem
    · obtain rfl := List.mem_singleton.mp hmem
      rfl
  · rw [hws, hr, hold, henl, enlist_append]

/-- A counter that is neither 0 nor a success is a failure. -/
theorem ready_eq_fail {a : Addr} (h : s.Unread a) (h0 : s.ready ≠ 0)
    (hok : s.ready ≠ ThreadInitStatus.ok.value) : s.ready = ThreadInitStatus.fail.value := by
  obtain ⟨old, st, w, -, -, -, hcount, -⟩ := h
  cases st with
  | none => exact absurd hcount h0
  | some st =>
    cases st with
    | fail => exact hcount
    | ok => exact absurd hcount hok

theorem ready_setEventfd_zero {fd : Fd} (h : s.ready = 0) : (s.setEventfd fd 0).ready = 0 := by
  show Function.update s.eventfds fd 0 s.sv.svThreadrdyEventfds = 0
  by_cases hfd : s.sv.svThreadrdyEventfds = fd
  · rw [hfd, Function.update_self]
  · rw [Function.update_of_ne hfd]
    exact h

theorem phase_main {call : MainCall} (ha : Alive s) (h : s.Phase)
    (hio : (Action.main call).statusOk = true) (hs : MainTrans s call s') : s'.Phase := by
  cases hs with
  | eintr => exact h
  | initFails o sv es hpc hset =>
    rw [State.Phase, hpc] at h
    have hreports : s.reports = [] := by rw [State.reports, h]; rfl
    refine ⟨?_, ?_⟩
    · show ∀ r ∈ s.reports, _
      simp [hreports]
    · show sv.svWorkers = enlist s.reports
      rw [hreports, hset.workers]
      rfl
  | init o sv es n hpc hset =>
    rw [State.Phase, hpc] at h
    have hreports : s.reports = [] := by rw [State.reports, h]; rfl
    refine ⟨⟨?_, ?_⟩, ?_⟩
    · show ∀ r ∈ s.reports, _
      simp [hreports]
    · show sv.svWorkers = enlist s.reports
      rw [hreports, hset.workers]
      rfl
    · exact Function.update_self ..
  | createFails l o es hpc hl hc =>
    rw [State.Phase, hpc] at h
    exact h
  | create l o a w es hpc hl hc hnew =>
    rw [State.Phase, hpc] at h
    exact ⟨h.1, ready_setEventfd_zero (s := (s.setWorker a w).record es) h.2⟩
  | loopDone l hpc hl =>
    rw [State.Phase, hpc] at h
    rw [State.Phase]
    simp only [State.setMain]
    split_ifs
    · exact h.1
    · exact h.1
  | start l a w hpc hw =>
    rw [State.Phase, hpc] at h
    refine ⟨s.reports, none, _, ?_, h.1.1, h.1.2, h.2, Function.update_self .., rfl, ?_⟩
    · show (s.threads ++ [_]).map _ = _
      rw [List.map_append]
      rfl
    · show s.threads.length + 1 = (s.threads ++ [_]).length
      rw [List.length_append]
      rfl
  | startFails l a w hpc hw =>
    rw [State.Phase, hpc] at h
    exact h
  | readOk l a hpc hready =>
    rw [phase_readStatus hpc] at h
    exact ⟨allRead_of_unread h hready rfl rfl, Function.update_self ..⟩
  | readFail l a hpc h0 hready =>
    rw [phase_readStatus hpc] at h
    refine ⟨allRead_of_unread h (ready_eq_fail h h0 hready) rfl ?_,
      Function.update_self ..⟩
    exact (List.append_nil _).symm
  | readFails l a hpc => cases hio
  | destroy l a w hpc hw hj =>
    rw [State.Phase, hpc] at h
    exact h
  | dispatch fd events pc hpc hq hto =>
    rw [State.Phase, hpc] at h
    rcases hto with rfl | rfl | rfl <;> exact h
  | acceptFails events hpc => exact h
  | accept events fd hpc =>
    rw [State.Phase, hpc] at h
    rw [State.Phase, record_main, hpc]
    exact h
  | notify i events a w hpc hi hw =>
    rw [State.Phase, hpc] at h
    rw [State.notified]
    split <;> exact h
  | crash _ a _ htouch hdead =>
    exact absurd hdead (ha.touches_ne_none htouch)
  | _ =>
    have hpc := ‹s.main = _›
    rw [State.Phase, hpc] at h
    exact h

theorem consistent_main {call : MainCall} (ha : Alive s) (h : ∀ th ∈ s.threads, th.Consistent)
    (hs : MainTrans s call s') : ∀ th ∈ s'.threads, th.Consistent := by
  cases hs with
  | start l a w hpc hw =>
    intro th hth
    rcases List.mem_append.mp hth with hmem | hmem
    · exact h th hmem
    · obtain rfl := List.mem_singleton.mp hmem
      rfl
  | notify i events a w hpc hi hw =>
    rw [notified_threads]
    exact h
  | crash _ a _ htouch hdead =>
    exact absurd hdead (ha.touches_ne_none htouch)
  | _ => exact h

theorem Handshake.step {a : Action} (h : Handshake s) (ha : Alive s) (hio : a.statusOk = true)
    (hs : step s a = some s') : Handshake s' := by
  cases trans_of_step hs with
  | main hm => exact ⟨consistent_main ha h.consistent hm, phase_main ha h.phase hio hm⟩
  | thread ht hth =>
    exact ⟨consistent_thread ha h.consistent ht hio hth, phase_thread ha h ht hio hth⟩

theorem handshake_of_run {tr : List (State × Action)} (hrun : ServerRun tr s)
    (hio : ∀ x ∈ tr, x.2.statusOk = true) : Handshake s := by
  have hboth : Alive s ∧ Handshake s := by
    refine hrun.invariant_of (I := fun s => Alive s ∧ Handshake s) hio
      ⟨alive_init, handshake_init⟩ ?_
    intro s a s' h hok hs
    exact ⟨h.1.step hs, h.2.step h.1 hok hs⟩
  exact hboth.2

/-! ## Results of the handshake -/

/-- The read that `worker_thread_start` waits for. -/
theorem step_read {l : ℕ} {a : Addr} (hc : s.crashed = false) (hpc : s.main = .readStatus l a) :
    step s (.main (.read true)) =
      if s.ready = 0 then none
      else if s.ready = ThreadInitStatus.ok.value then some (s.enlisted l a)
      else some ((s.setEventfd s.sv.svThreadrdyEventfds 0).setMain (.destroy l a)) := by
  by_cases h0 : s.ready = 0
  · simp [step, mainStep, hc, hpc, h0]
  · by_cases hok : s.ready = ThreadInitStatus.ok.value
    · have hpos : ThreadInitStatus.ok.value ≠ 0 := by decide
      simp only [step, mainStep, hc, hpc, hok, hpos, workerThreadStartResult]
      rfl
    · simp [step, mainStep, hc, hpc, hok, h0, workerThreadStartResult]

theorem startsByOwnStatus_of_run {tr : List (State × Action)} (hrun : ServerRun tr s)
    (hio : ∀ x ∈ tr, x.2.statusOk = true) : StartsByOwnStatus s := by
  intro l a hpc
  obtain ⟨old, st, w, hold, -, -, hcount, hw, -, hid⟩ :=
    (phase_readStatus hpc).mp (handshake_of_run hrun hio).phase
  -- the latest thread is the one of the worker `a`
  have hlen : s.threads.length = old.length + 1 := by
    rw [← length_reports, hold, List.length_append]
    rfl
  have hlast : w.wkThreadid = old.length := Nat.succ.inj (hid.trans hlen)
  have hlt : w.wkThreadid < s.threads.length := by rw [← hid]; exact Nat.lt_succ_self _
  obtain ⟨th, hth⟩ : ∃ th, s.threads[w.wkThreadid]? = some th :=
    ⟨_, List.getElem?_eq_getElem hlt⟩
  have hreport := reports_getElem? hth
  rw [hold, hlast, List.getElem?_append_right (Nat.le_refl _), Nat.sub_self] at hreport
  obtain ⟨rfl, rfl⟩ : a = th.arg ∧ st = th.reported := by simpa using hreport
  refine ⟨w, th, hw, hid, hth, rfl, ?_⟩
  have hread := step_read (alive_of_run hrun).crashed hpc
  cases hr : th.reported with
  | none =>
    rw [hr] at hcount
    exact hread.trans (if_pos hcount)
  | some st =>
    have hready : s.ready = st.value := by rw [hcount, hr]; rfl
    rw [hready, if_neg st.value_pos.ne'] at hread
    rw [hready]
    cases st with
    | ok => exact ⟨rfl, by decide, _, hread, rfl⟩
    | fail => exact ⟨rfl, by decide, _, hread, (List.append_nil _).symm⟩

theorem enlistsSuccessful_of_run {tr : List (State × Action)} (hrun : ServerRun tr s)
    (hio : ∀ x ∈ tr, x.2.statusOk = true) : EnlistsSuccessful s := by
  intro l hpc
  have halive := alive_of_run hrun
  have hphase := (handshake_of_run hrun hio).phase
  rw [State.Phase, hpc] at hphase
  have hlive : s.live = s.sv.svWorkers := by rw [State.live, hpc]; rfl
  exact ⟨hphase.1.2, hlive ▸ halive.nodup, hlive ▸ halive.live_iff⟩

/-- The start-up handshake, in every run in which the statuses are written and read. -/
theorem startup_handshake {tr : List (State × Action)} (hrun : ServerRun tr s)
    (hio : ∀ x ∈ tr, x.2.statusOk = true) : StartsByOwnStatus s ∧ EnlistsSuccessful s :=
  ⟨startsByOwnStatus_of_run hrun hio, enlistsSuccessful_of_run hrun hio⟩

/-- Two threads fail and the third one succeeds: the third one is enlisted. -/
theorem startup_handshake_three : ∃ tr s, ServerRun tr s ∧ s.main = .create 3 ∧
    s.sv.svWorkers = [30] ∧ StartsByOwnStatus s ∧ EnlistsSuccessful s := by
  have hrun : ∃ tr s, ServerRun tr s ∧ s.main = .create 3 ∧ s.sv.svWorkers = [30] ∧
      (∀ x ∈ tr, x.2.statusOk = true) :=
    ⟨_, _, run_of_exec (show exec step State.init
      [.main (.serverInit ⟨⟨some 1, some 3, true, true⟩, some 4, true, true, some 5, true, true,
         some 6, some 3, some 2⟩),
       .main (.workerThreadCreate ⟨some 10, some 7, some 11, some 12, some 8, some 9⟩),
       .main (.pthreadCreate true), .thread 0 (.epollCtl false), .thread 0 (.epollCtl true),
       .thread 0 (.write true), .main (.read true), .main .workerThreadDestroy,
       .main (.workerThreadCreate ⟨some 20, some 7, some 11, some 12, some 8, some 9⟩),
       .main (.pthreadCreate true), .thread 1 (.epollCtl true), .thread 1 (.epollCtl false),
       .thread 1 (.write true), .main (.read true), .main .workerThreadDestroy,
       .main (.workerThreadCreate ⟨some 30, some 7, some 11, some 12, some 8, some 9⟩),
       .main (.pthreadCreate true), .thread 2 (.epollCtl true), .thread 2 (.epollCtl true),
       .thread 2 (.write true), .main (.read true)] = some (_, _) from rfl), rfl, rfl, by decide⟩
  obtain ⟨tr, s, hrun, hpc, hws, hio⟩ := hrun
  exact ⟨tr, s, hrun, hpc, hws, startup_handshake hrun hio⟩

end AioServer.Linux
