import AioServer.Linux.Eintr
import AioServer.Linux.Step

/-!
# The Linux server: the accept loop

The branch of `server_dispatch_event` for `sv_acceptfd` calls `accept4` until there is nobody
to accept. Any other error is logged, and the call is made again at once.

* `serverDispatchEvent`, `dispatchEvents`: the events of one `epoll_wait`, with the results of
  `accept4` as a stream;
* `acceptLoop_returns_iff`: the loop ends just when the stream has an `EAGAIN`;
* `acceptLoop_run`: it is the `accept` part of `AioServer.Linux.Step`;
* `givesControlBack_iff`: which errors may persist.
-/

namespace AioServer.Linux

open Lib

/-! ## The code -/

/-- The server, the sockets that `accept4` has returned, the workers that were told to stop,
and how many times `accept4` was called. -/
structure Accepting where
  sv : ServerData
  sockets : List Fd
  signalled : List Addr
  calls : ℕ

/-- `epoll_wait` has returned. -/
def Accepting.start (sv : ServerData) : Accepting := ⟨sv, [], [], 0⟩

/-- The loop over `accept4` in `server_dispatch_event`. -/
def acceptLoop (accept4 : ℕ → SysResult Fd) : ℕ → Accepting → Option Accepting
  | 0, _ => none
  | fuel + 1, s =>
    match handleEintrOnSyscall accept4 (fuel + 1) s.calls with
    | none => none
    | some (.error errno, calls) =>
      if errno = eagain ∨ errno = ewouldblock then some { s with calls := calls }
      -- Continue or abort ???
      else acceptLoop accept4 fuel { s with calls := calls }
    | some (.ok clientSocket, calls) =>
      acceptLoop accept4 fuel { s with calls := calls, sockets := s.sockets ++ [clientSocket] }

/-- `server_dispatch_event`. -/
def serverDispatchEvent (accept4 : ℕ → SysResult Fd) (fuel : ℕ) (s : Accepting) (fd : Fd) :
    Option Accepting :=
  if fd = s.sv.svAcceptfd then acceptLoop accept4 fuel s
  else if fd = s.sv.svSigfds then
    some { s with
      sv := { s.sv with svQuitflag := true }, signalled := s.signalled ++ s.sv.svWorkers }
  else some s

/-- The loop over the events in `server_start_accepting_clients`. -/
def dispatchEvents (accept4 : ℕ → SysResult Fd) (fuel : ℕ) :
    Accepting → List Fd → Option Accepting
  | s, [] => some s
  | s, fd :: events =>
    if s.sv.svQuitflag then some s
    else (serverDispatchEvent accept4 fuel s fd).bind fun s =>
      dispatchEvents accept4 fuel s events

/-! ## When the loop ends -/

/-- `errno == EAGAIN || errno == EWOULDBLOCK` -/
def WouldBlock (r : SysResult Fd) : Prop :=
  ∃ errno, r = .error errno ∧ (errno = eagain ∨ errno = ewouldblock)

variable {accept4 : ℕ → SysResult Fd} {fuel : ℕ} {s s' : Accepting}

theorem not_interrupted_of_wouldBlock {r : SysResult Fd} (h : WouldBlock r) :
    interrupted r = false := by
  obtain ⟨errno, rfl, rfl | rfl⟩ := h <;> rfl

/-- The loop ends with the first `EAGAIN`, and leaves the server alone. -/
theorem acceptLoop_spec (h : acceptLoop accept4 fuel s = some s') : s'.sv = s.sv ∧
    ∃ j, s.calls ≤ j ∧ s'.calls = j + 1 ∧ WouldBlock (accept4 j) ∧
      ∀ i, s.calls ≤ i → i < j → ¬ WouldBlock (accept4 i) := by
  induction fuel generalizing s with
  | zero => cases h
  | succ fuel ih =>
    unfold acceptLoop at h
    cases hcall : handleEintrOnSyscall accept4 (fuel + 1) s.calls with
    | none => simp [hcall] at h
    | some result =>
      obtain ⟨r, next⟩ := result
      obtain ⟨j, rfl, rfl, hle, -, -, hall⟩ := retry_spec hcall
      have hbefore : ∀ i, s.calls ≤ i → i < j → ¬ WouldBlock (accept4 i) := by
        intro i hi hij hblock
        have hinter := hall i hi hij
        rw [not_interrupted_of_wouldBlock hblock] at hinter
        cases hinter
      rw [hcall] at h
      -- one more round, from the call `j + 1` on
      have hnext : ∀ t : Accepting, acceptLoop accept4 fuel t = some s' → t.sv = s.sv →
          t.calls = j + 1 → ¬ WouldBlock (accept4 j) → s'.sv = s.sv ∧
            ∃ j, s.calls ≤ j ∧ s'.calls = j + 1 ∧ WouldBlock (accept4 j) ∧
              ∀ i, s.calls ≤ i → i < j → ¬ WouldBlock (accept4 i) := by
        intro t ht hsv hcalls hj
        obtain ⟨hsv', l, hl, hend, hblock, hrest⟩ := ih ht
        refine ⟨hsv'.trans hsv, l, by omega, hend, hblock, fun i hi hil => ?_⟩
        obtain hlt | rfl | hgt := Nat.lt_trichotomy i j
        · exact hbefore i hi hlt
        · exact hj
        · exact hrest i (by omega) hil
      cases hr : accept4 j with
      | ok fd =>
        simp only [hr] at h
        exact hnext _ h rfl rfl (by simp [hr, WouldBlock])
      | error errno =>
        simp only [hr] at h
        split_ifs at h with hblock
        · cases h
          exact ⟨rfl, j, hle, rfl, ⟨errno, hr, hblock⟩, hbefore⟩
        · exact hnext _ h rfl rfl (by simpa [hr, WouldBlock] using hblock)

/-- An `EAGAIN` among the results ends the loop. -/
theorem acceptLoop_of_wouldBlock {j : ℕ} (hj : s.calls ≤ j) (hblock : WouldBlock (accept4 j))
    (hfuel : j < s.calls + fuel) : ∃ s', acceptLoop accept4 fuel s = some s' := by
  induction fuel generalizing s with
  | zero => omega
  | succ fuel ih =>
    obtain ⟨i, hki, hij, hi, hall⟩ := exists_first hj (not_interrupted_of_wouldBlock hblock)
    have hcall : handleEintrOnSyscall accept4 (fuel + 1) s.calls = some (accept4 i, i + 1) :=
      retry_eq_some hki (by omega) hall hi
    unfold acceptLoop
    rw [hcall]
    by_cases hbi : WouldBlock (accept4 i)
    · obtain ⟨errno, hr, herrno⟩ := hbi
      simp [hr, herrno]
    · -- the loop goes on before `j`
      have hlt : i < j := by
        obtain rfl | hlt := Nat.eq_or_lt_of_le hij
        · exact absurd hblock hbi
        · exact hlt
      have hfuel' : j < i + 1 + fuel := by omega
      cases hr : accept4 i with
      | ok fd =>
        exact ih (s := { s with calls := i + 1, sockets := s.sockets ++ [fd] }) hlt hfuel'
      | error errno =>
        have herrno : ¬ (errno = eagain ∨ errno = ewouldblock) := fun h => hbi ⟨errno, hr, h⟩
        simp only [herrno, if_false]
        exact ih (s := { s with calls := i + 1 }) hlt hfuel'

/-- For every stream of results. -/
theorem acceptLoop_returns_iff :
    (∃ fuel s', acceptLoop accept4 fuel s = some s') ↔
      ∃ j, s.calls ≤ j ∧ WouldBlock (accept4 j) := by
  constructor
  · rintro ⟨fuel, s', h⟩
    obtain ⟨-, j, hj, -, hblock, -⟩ := acceptLoop_spec h
    exact ⟨j, hj, hblock⟩
  · rintro ⟨j, hj, hblock⟩
    have hfuel : j < s.calls + (j + 1) := by omega
    obtain ⟨s', h⟩ := acceptLoop_of_wouldBlock hj hblock hfuel
    exact ⟨j + 1, s', h⟩

/-! ## The loop among the steps of the server -/

/-- The label of a call of `accept4`. -/
def acceptCall : SysResult Fd → MainCall
  | .ok fd => .accept4 (.socket fd)
  | .error errno =>
    if errno = eintr then .eintr
    else if errno = eagain ∨ errno = ewouldblock then .accept4 .again else .accept4 .error

section steps

variable {t : State} {events : List Fd}

theorem step_acceptCall (hc : t.crashed = false) (hm : t.main = .accept events)
    {r : SysResult Fd} (hr : ¬ WouldBlock r) :
    ∃ t', step t (.main (acceptCall r)) = some t' ∧ t'.crashed = false ∧
      t'.main = .accept events := by
  cases r with
  | ok fd =>
    exact ⟨t.record [.acquire (.fd fd)], by simp [step, mainStep, acceptCall, hc, hm], hc, hm⟩
  | error errno =>
    have herrno : ¬ (errno = eagain ∨ errno = ewouldblock) := by simpa [WouldBlock] using hr
    refine ⟨t, ?_, hc, hm⟩
    by_cases hi : errno = eintr
    · simp [step, mainStep, acceptCall, hc, hi]
    · simp [step, mainStep, acceptCall, hc, hm, hi, herrno]

theorem step_acceptCall_again (hc : t.crashed = false) (hm : t.main = .accept events)
    {r : SysResult Fd} (hr : WouldBlock r) :
    step t (.main (acceptCall r)) = some (t.setMain (.dispatch events)) := by
  obtain ⟨errno, rfl, rfl | rfl⟩ := hr <;>
    simp [step, mainStep, acceptCall, hc, hm, eagain, ewouldblock, eintr]

/-- The steps of the server with these results leave the branch with the call number `k + d`,
the first that would block. -/
theorem run_acceptCalls {k d : ℕ} (hc : t.crashed = false) (hm : t.main = .accept events)
    (hall : ∀ i, k ≤ i → i < k + d → ¬ WouldBlock (accept4 i))
    (hblock : WouldBlock (accept4 (k + d))) :
    ∃ tr t', Run step t tr t' ∧ t'.main = .dispatch events ∧
      tr.map Prod.snd = (List.range' k (d + 1)).map fun i => .main (acceptCall (accept4 i)) := by
  induction d generalizing t k with
  | zero =>
    refine ⟨_, _, Run.cons (step_acceptCall_again hc hm hblock) Run.nil, rfl, ?_⟩
    simp [List.range']
  | succ d ih =>
    obtain ⟨t₁, hstep, hc₁, hm₁⟩ := step_acceptCall hc hm (hall k (Nat.le_refl k) (by omega))
    have hshift : k + 1 + d = k + (d + 1) := by omega
    obtain ⟨tr, t', hrun, hend, hlabels⟩ := ih (k := k + 1) hc₁ hm₁
      (fun i hi hid => hall i (by omega) (by omega)) (hshift ▸ hblock)
    refine ⟨_, t', Run.cons hstep hrun, hend, ?_⟩
    rw [List.map_cons, hlabels]
    rfl

/-- What `acceptLoop` computes is a run of the starting thread out of the branch. -/
theorem acceptLoop_run (hc : t.crashed = false) (hm : t.main = .accept events)
    (h : acceptLoop accept4 fuel s = some s') :
    ∃ tr t', Run step t tr t' ∧ t'.main = .dispatch events ∧ tr.map Prod.snd =
      (List.range' s.calls (s'.calls - s.calls)).map fun i => .main (acceptCall (accept4 i)) := by
  obtain ⟨-, j, hj, hend, hblock, hall⟩ := acceptLoop_spec h
  obtain ⟨d, rfl⟩ := Nat.exists_eq_add_of_le hj
  have hcount : s'.calls - s.calls = d + 1 := by omega
  rw [hcount]
  exact run_acceptCalls hc hm hall hblock

end steps

/-! ## Errors that persist -/

/-- These results, and then this error for ever. -/
def answers (first : List (SysResult Fd)) (errno : Errno) (k : ℕ) : SysResult Fd :=
  (first[k]?).getD (.error errno)

/-- The accept event is dispatched after finitely many calls, and so are the events behind it,
with that of the descriptor for SIGINT. -/
def GivesControlBack (accept4 : ℕ → SysResult Fd) (sv : ServerData) : Prop :=
  ∀ events, sv.svAcceptfd ∉ events → ∃ fuel s',
    dispatchEvents accept4 fuel (Accepting.start sv) (sv.svAcceptfd :: events) = some s' ∧
      (sv.svSigfds ∈ events → s'.sv.svQuitflag = true)

/-- Other events are dispatched in any case. -/
theorem dispatchEvents_others (accept4 : ℕ → SysResult Fd) (fuel : ℕ) {s : Accepting}
    {events : List Fd} (h : s.sv.svAcceptfd ∉ events) :
    ∃ s', dispatchEvents accept4 fuel s events = some s' ∧
      (s.sv.svQuitflag = true ∨ s.sv.svSigfds ∈ events → s'.sv.svQuitflag = true) := by
  induction events generalizing s with
  | nil => exact ⟨s, rfl, by simp⟩
  | cons fd events ih =>
    obtain ⟨hfd, hevents⟩ : s.sv.svAcceptfd ≠ fd ∧ s.sv.svAcceptfd ∉ events := by simpa using h
    by_cases hq : s.sv.svQuitflag = true
    · exact ⟨s, by simp [dispatchEvents, hq], fun _ => hq⟩
    by_cases hsig : fd = s.sv.svSigfds
    · obtain ⟨s', hs', hquit⟩ := ih (s := { s with
        sv := { s.sv with svQuitflag := true }, signalled := s.signalled ++ s.sv.svWorkers })
        hevents
      refine ⟨s', ?_, fun _ => hquit (Or.inl rfl)⟩
      simpa [dispatchEvents, serverDispatchEvent, hq, hfd.symm, hsig.symm] using hs'
    · obtain ⟨s', hs', hquit⟩ := ih hevents
      refine ⟨s', ?_, fun hor => hquit (hor.imp_right fun hmem => ?_)⟩
      · simpa [dispatchEvents, serverDispatchEvent, hq, hfd.symm, hsig] using hs'
      · exact (List.mem_cons.mp hmem).resolve_left (Ne.symm hsig)

theorem wouldBlock_answers_iff {first : List (SysResult Fd)} {errno : Errno} :
    (∃ j, WouldBlock (answers first errno j)) ↔
      (∃ r ∈ first, WouldBlock r) ∨ WouldBlock (.error errno) := by
  constructor
  · rintro ⟨j, hj⟩
    unfold answers at hj
    cases hget : first[j]? with
    | none => exact Or.inr (by simpa [hget] using hj)
    | some r => exact Or.inl ⟨r, List.mem_of_getElem? hget, by simpa [hget] using hj⟩
  · rintro (⟨r, hr, hblock⟩ | hblock)
    · obtain ⟨j, hj⟩ := List.mem_iff_getElem?.mp hr
      exact ⟨j, by simpa [answers, hj] using hblock⟩
    · exact ⟨first.length, by simpa [answers] using hblock⟩

theorem dispatchEvents_accept {sv : ServerData} (hquit : sv.svQuitflag = false)
    (events : List Fd) :
    dispatchEvents accept4 fuel (Accepting.start sv) (sv.svAcceptfd :: events) =
      (acceptLoop accept4 fuel (Accepting.start sv)).bind fun s =>
        dispatchEvents accept4 fuel s events := by
  simp [dispatchEvents, serverDispatchEvent, Accepting.start, hquit]

/-- Whoever gives control back has met an `EAGAIN`. -/
theorem exists_wouldBlock {sv : ServerData} (hquit : sv.svQuitflag = false)
    (h : GivesControlBack accept4 sv) : ∃ j, WouldBlock (accept4 j) := by
  obtain ⟨fuel, s', hs', -⟩ := h [] (by simp)
  rw [dispatchEvents_accept hquit] at hs'
  obtain ⟨s₁, hs₁, -⟩ := Option.bind_eq_some_iff.mp hs'
  obtain ⟨j, -, hblock⟩ := acceptLoop_returns_iff.mp ⟨fuel, s₁, hs₁⟩
  exact ⟨j, hblock⟩

/-- After any results, the branch gives control back if and only if the error that persists is
`EAGAIN` or `EWOULDBLOCK`, or one of these came before. -/
theorem givesControlBack_iff {sv : ServerData} (hquit : sv.svQuitflag = false)
    (first : List (SysResult Fd)) (errno : Errno) :
    GivesControlBack (answers first errno) sv ↔
      (∃ r ∈ first, WouldBlock r) ∨ WouldBlock (.error errno) := by
  rw [← wouldBlock_answers_iff]
  constructor
  · exact exists_wouldBlock hquit
  · rintro ⟨j, hblock⟩ events hevents
    obtain ⟨fuel, s₁, hs₁⟩ := acceptLoop_returns_iff.mpr
      (⟨j, Nat.zero_le j, hblock⟩ : ∃ j, (Accepting.start sv).calls ≤ j ∧
        WouldBlock (answers first errno j))
    have hsv : s₁.sv = sv := (acceptLoop_spec hs₁).1
    have hevents₁ : s₁.sv.svAcceptfd ∉ events := hsv.symm ▸ hevents
    obtain ⟨s', hs', hquit'⟩ := dispatchEvents_others (answers first errno) fuel hevents₁
    refine ⟨fuel, s', ?_, fun hmem => hquit' (Or.inr (hsv.symm ▸ hmem))⟩
    rw [dispatchEvents_accept hquit, hs₁]
    exact hs'

/-- A server with its descriptors. -/
def openServer : ServerData :=
  { ServerData.zero with svAcceptfd := 3, svEpollfd := 4, svSigfds := 5, svThreadrdyEventfds := 6 }

/-- One client, and then nobody: a SIGINT behind the accept event is dispatched. -/
theorem givesControlBack_eagain : GivesControlBack (answers [.ok 7] eagain) openServer ∧
    ∃ fuel s', dispatchEvents (answers [.ok 7] eagain) fuel (Accepting.start openServer) [3, 5]
      = some s' ∧ s'.sv.svQuitflag = true := by
  have hback : GivesControlBack (answers [.ok 7] eagain) openServer :=
    (givesControlBack_iff rfl [.ok 7] eagain).mpr (Or.inr ⟨eagain, rfl, Or.inl rfl⟩)
  obtain ⟨fuel, s', hs', hquit⟩ := hback [5] (by decide)
  exact ⟨hback, fuel, s', hs', hquit (by decide)⟩

/-- A full descriptor table keeps the starting thread in the loop. -/
theorem accept_never_returns : ¬ ∀ (sv : ServerData) (first : List (SysResult Fd))
    (errno : Errno), sv.svQuitflag = false → errno ≠ eintr →
    GivesControlBack (answers first errno) sv := by
  intro h
  have hback := h openServer [.ok 7] emfile rfl (by decide)
  have hcases := wouldBlock_answers_iff.mp (exists_wouldBlock rfl hback)
  simp [WouldBlock, emfile, eagain, ewouldblock] at hcases

end AioServer.Linux
