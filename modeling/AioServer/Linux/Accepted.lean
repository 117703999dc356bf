import AioServer.Linux.Rollback

/-!
# The Linux server: the connections it accepts

`server_dispatch_event` takes connections with `accept4` and leaves it at that: the socket is
neither handed to a worker nor stored, so nothing can close it later.

* `accepted`: the sockets that `accept4` has returned in a run;
* `accepted_stay_open`: next to what the counters say these are held, and at the end they are
  all that is held.
-/

namespace AioServer.Linux

open Lib

variable {s s' : State}

/-- The socket that a step accepts. -/
def acceptedBy (x : State × Action) : Multiset Resource :=
  match x.1.main, x.2 with
  | .accept _, .main (.accept4 (.socket fd)) => {.fd fd}
  | _, _ => 0

/-- The sockets that a run has accepted. -/
def accepted (tr : List (State × Action)) : Multiset Resource := (tr.map acceptedBy).sum

/-- Clients may connect, but no message arrives. -/
def Action.onlyConnects : Action → Bool
  | .main (.accept4 (.socket _)) => true
  | a => a.noTraffic

theorem onlyConnects_cases {a : Action} (h : a.onlyConnects = true) :
    a.noTraffic = true ∨ ∃ fd, a = .main (.accept4 (.socket fd)) := by
  unfold Action.onlyConnects at h
  split at h
  · next fd => exact Or.inr ⟨fd, rfl⟩
  · exact Or.inl h

theorem acceptedBy_of_noTraffic {a : Action} (h : a.noTraffic = true) : acceptedBy (s, a) = 0 := by
  unfold acceptedBy
  split
  · next heq =>
    dsimp only at heq
    rw [heq] at h
    cases h
  · rfl

/-- What a step adds to the ledger, in a run with connections. -/
theorem settles_accepted {a : Action} (h : Alive s) (ha : a.onlyConnects = true)
    (hs : step s a = some s') :
    ∃ es, s'.log = s.log ++ es ∧ settle s.held es = some (s'.held + acceptedBy (s, a)) := by
  rcases onlyConnects_cases ha with hquiet | ⟨fd, rfl⟩
  · obtain ⟨es, hlog, hes⟩ := settles_step h hquiet hs
    exact ⟨es, hlog, by rw [hes, acceptedBy_of_noTraffic hquiet, add_zero]⟩
  · cases trans_of_step hs with
    | main hm =>
      cases hm with
      | accept events fd hpc =>
        refine ⟨[.acquire (.fd fd)], rfl, ?_⟩
        have hheld : (s.record [.acquire (.fd fd)]).held = s.held := held_of_same rfl rfl rfl
        rw [hheld, acceptedBy, hpc, settle_acquire, settle_nil, add_comm]
        rfl
      | crash _ a _ htouch hdead => exact absurd hdead (h.touches_ne_none htouch)

/-- The accepted sockets are held besides the resources of the counters. -/
theorem settled_accepted {tr : List (State × Action)} (hrun : ServerRun tr s)
    (htr : ∀ x ∈ tr, x.2.onlyConnects = true) : settle 0 s.log = some (s.held + accepted tr) := by
  induction hrun with
  | nil => rfl
  | @snoc tr s a s' hr hs ih =>
    have hbefore := ih fun x hx => htr x (List.mem_append_left _ hx)
    obtain ⟨es, hlog, hes⟩ := settles_accepted (alive_of_run hr) (htr (s, a) (by simp)) hs
    have hall : accepted (tr ++ [(s, a)]) = accepted tr + acceptedBy (s, a) := by
      simp [accepted]
    rw [hlog, hall]
    refine settle_trans hbefore ?_
    rw [settle_add hes (accepted tr), add_assoc, add_comm (acceptedBy _)]

theorem held_exited (hpc : s.main = .exited) : s.held = 0 := by
  rw [State.held, State.serverHeld, State.live, hpc]
  rfl

/-- No accepted socket is ever closed. Everything else is released by the end, each resource as
often as it was acquired. -/
theorem accepted_stay_open {tr : List (State × Action)} (hrun : ServerRun tr s)
    (htr : ∀ x ∈ tr, x.2.onlyConnects = true) :
    settle 0 s.log = some (s.held + accepted tr) ∧
      (s.main = .exited → settle 0 s.log = some (accepted tr) ∧
        ∀ r, s.log.count (.acquire r) = (accepted tr).count r + s.log.count (.release r)) := by
  have hsettled := settled_accepted hrun htr
  refine ⟨hsettled, fun hpc => ?_⟩
  rw [held_exited hpc, zero_add] at hsettled
  refine ⟨hsettled, fun r => ?_⟩
  have hcount := settle_count hsettled r
  simpa using hcount

/-- Two clients connect before SIGINT arrives: their sockets 20 and 21 are left open. -/
theorem accepted_stay_open_two : ∃ tr s, ServerRun tr s ∧ s.main = .exited ∧
    settle 0 s.log = some {.fd 20, .fd 21} := by
  have hrun : ∃ tr s, ServerRun tr s ∧ s.main = .exited ∧
      accepted tr = {.fd 20, .fd 21} ∧ ∀ x ∈ tr, x.2.onlyConnects = true :=
    ⟨_, _, run_of_exec (show exec step State.init (startOne ++
      [.main (.epollWait (some [3, 5])), .main .tau, .main (.accept4 (.socket 20)),
       .main (.accept4 (.socket 21)), .main (.accept4 .again), .main .tau, .main .write,
       .main .tau, .main .tau, .main .tau, .thread 0 (.epollWait (some [.signal])),
       .thread 0 .tau, .main .workerThreadDestroy, .main .tau]) = some (_, _) from rfl),
      rfl, by decide, by decide⟩
  obtain ⟨tr, s, hrun, hpc, hsockets, htr⟩ := hrun
  refine ⟨tr, s, hrun, hpc, ?_⟩
  rw [← hsockets]
  exact ((accepted_stay_open hrun htr).2 hpc).1

end AioServer.Linux
