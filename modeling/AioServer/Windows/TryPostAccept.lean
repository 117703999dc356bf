import AioServer.Windows.Trans

/-!
# The Windows server: `server_try_post_accept`

The function calls `AcceptEx` for one client until a call succeeds. After `WSAECONNRESET` it
gives the client a new socket and goes on; after any other error it cleans the client up, and
goes on as well, with a pointer to a client that does not exist any more.

* `serverTryPostAccept`: the loop, with the outcomes of its calls as a list;
* `Attempt.Ok`: what its caller relies on;
* `serverTryPostAccept_ok_iff`: that holds as long as the first outcome other than
  `WSAECONNRESET` is not a failure;
* `run_of_returned`: a loop that returns is a run of the accept thread.
-/

namespace AioServer.Windows

open Lib

/-! ## The code -/

/-- `WSAECONNRESET`. -/
def wsaeconnreset : ℕ := 10054

/-- The calls of one round: `AcceptEx`, with `none` for TRUE and otherwise the error code, and
`create_overlapped_socket`, which is called after `WSAECONNRESET`. -/
structure AcceptRound where
  acceptEx : Option ℕ
  sock : Socket
deriving DecidableEq

/-- What `server_post_acceptex_with_client` returns. -/
def AcceptRound.result (o : AcceptRound) : AcceptExResult :=
  match o.acceptEx with
  | none => .success
  | some errCode =>
    if errCode = errorIoPending then .success
    else if errCode = wsaeconnreset then .connReset
    else .failed

/-- `server_cleanup_client_data`. It sets its own copy of the pointer to NULL. -/
def serverCleanupClientData (s : State) (c : ClientPtr) (cl : Client) : State :=
  clientDestroy (serverRemoveClientFromList s c cl) c { cl with clIsTracked := false }

/-- How far the function has come: it has passed a destroyed client on, it is in `AcceptEx`, or
it has returned, with the outcomes that it did not need. -/
inductive Attempt
  | useAfterDestroy (s : State)
  | calling (s : State)
  | returned (s : State) (rest : List AcceptRound)

/-- `server_try_post_accept`, until it returns or the outcomes are used up; `none` if
`create_overlapped_socket` cannot return this socket. -/
def serverTryPostAccept (s : State) (cli : ClientPtr) : List AcceptRound → Option Attempt
  | [] =>
    match s.heap cli with
    | none => some (.useAfterDestroy s)
    | some _ => some (.calling s)
  | o :: rounds =>
    match s.heap cli with
    | none => some (.useAfterDestroy s)
    | some cl =>
      match o.result with
      | .success =>
        let s := s.issue cli .acceptEx
        some (.returned { s with svOutstandingAccepts := s.svOutstandingAccepts + 1 } rounds)
      | .connReset =>
        (clientReinit cli cl s.sockets false o.sock).bind fun r =>
          let s := { s.setClient cli r.client with sockets := r.sockets }
          match r.clnt with
          | none => some (.returned s rounds)
          | some cli => serverTryPostAccept s cli rounds
      -- neither `break` nor `return`
      | .failed => serverTryPostAccept (serverCleanupClientData s cli cl) cli rounds

/-! ## What the caller relies on -/

/-- The client has an `AcceptEx` and is still in the list. -/
structure Posted (s s' : State) (cli : ClientPtr) : Prop where
  pending : s'.pending = s.pending ++ [(cli, .acceptEx)]
  outstanding : s'.svOutstandingAccepts = s.svOutstandingAccepts + 1
  listed : cli ∈ s'.svClients
  live : s'.Live cli

/-- The client is gone. -/
structure Discarded (s s' : State) (cli : ClientPtr) : Prop where
  unlisted : cli ∉ s'.svClients
  destroyed : ¬ s'.Live cli
  outstanding : s'.svOutstandingAccepts = s.svOutstandingAccepts
  pending : s'.pending = s.pending

/-- A destroyed client is never passed on, and the first outcome other than `WSAECONNRESET` ends
the function, with the client posted or discarded. -/
structure Attempt.Ok (s : State) (cli : ClientPtr) (rounds : List AcceptRound)
    (a : Attempt) : Prop where
  alive : ∀ s', a ≠ .useAfterDestroy s'
  prompt : ∀ resets o rest, rounds = resets ++ o :: rest →
    (∀ x ∈ resets, x.result = .connReset) → o.result ≠ .connReset →
    ∃ s', a = .returned s' rest ∧ (Posted s s' cli ∨ Discarded s s' cli)

/-- The first outcome other than `WSAECONNRESET` is a failure. -/
def FirstFails (rounds : List AcceptRound) : Prop :=
  ∃ resets o rest, rounds = resets ++ o :: rest ∧
    (∀ x ∈ resets, x.result = .connReset) ∧ o.result = .failed

/-- A client that is live, tracked and in the list. -/
structure Tracked (s : State) (cli : ClientPtr) : Prop where
  record : ∃ cl, s.heap cli = some cl ∧ cl.clIsTracked = true
  listed : cli ∈ s.svClients

/-! ## The rounds -/

section rounds

variable {s : State} {cli : ClientPtr} {o : AcceptRound} {rounds : List AcceptRound}

theorem serverTryPostAccept_of_dead (h : s.heap cli = none) (rounds : List AcceptRound) :
    serverTryPostAccept s cli rounds = some (.useAfterDestroy s) := by
  cases rounds <;> simp [serverTryPostAccept, h]

/-- A new socket, for the same client in the same list. -/
structure Reset (s s' : State) (cli : ClientPtr) (sock : Socket) : Prop where
  reinit : ∃ cl r, s.heap cli = some cl ∧ clientReinit cli cl s.sockets false sock = some r ∧
    r.clnt = some cli ∧ s' = { s.setClient cli r.client with sockets := r.sockets }
  tracked : Tracked s' cli
  svClients : s'.svClients = s.svClients
  pending : s'.pending = s.pending
  outstanding : s'.svOutstandingAccepts = s.svOutstandingAccepts

theorem Reset.posted {s' s'' : State} {sock : Socket} (h : Reset s s' cli sock)
    (hp : Posted s' s'' cli) : Posted s s'' cli :=
  ⟨hp.pending.trans (by rw [h.pending]), hp.outstanding.trans (by rw [h.outstanding]),
    hp.listed, hp.live⟩

/-- After `WSAECONNRESET` the loop goes on. -/
theorem serverTryPostAccept_reset {a : Attempt} (ht : Tracked s cli)
    (ho : o.result = .connReset) (h : serverTryPostAccept s cli (o :: rounds) = some a) :
    ∃ s', Reset s s' cli o.sock ∧ serverTryPostAccept s' cli rounds = some a := by
  obtain ⟨cl, hc, htracked⟩ := ht.record
  simp only [serverTryPostAccept, hc, ho] at h
  obtain ⟨r, hr, h⟩ := Option.bind_eq_some_iff.mp h
  have hreinit := reinit_of_clientReinit hr
  rw [hreinit.clnt] at h
  refine ⟨{ s.setClient cli r.client with sockets := r.sockets },
    ⟨⟨cl, r, hc, hr, hreinit.clnt, rfl⟩, ⟨⟨r.client, ?_, ?_⟩, ?_⟩, rfl, rfl, rfl⟩, h⟩
  · simp [State.setClient]
  · exact hreinit.tracked.trans htracked
  · exact ht.listed

theorem serverTryPostAccept_success (ht : Tracked s cli) (ho : o.result = .success)
    (rounds : List AcceptRound) :
    ∃ s', serverTryPostAccept s cli (o :: rounds) = some (.returned s' rounds) ∧
      Posted s s' cli := by
  obtain ⟨cl, hc, -⟩ := ht.record
  refine ⟨{ s.issue cli .acceptEx with svOutstandingAccepts := s.svOutstandingAccepts + 1 },
    ?_, rfl, rfl, ht.listed, ?_⟩
  · simp only [serverTryPostAccept, hc, ho]
    rfl
  · show (s.heap cli).isSome = true
    rw [hc]
    rfl

/-- After another error the destroyed client is passed to `AcceptEx`. -/
theorem serverTryPostAccept_failed (ht : Tracked s cli) (ho : o.result = .failed)
    (rounds : List AcceptRound) :
    ∃ s', serverTryPostAccept s cli (o :: rounds) = some (.useAfterDestroy s') := by
  obtain ⟨cl, hc, -⟩ := ht.record
  refine ⟨serverCleanupClientData s cli cl, ?_⟩
  simp only [serverTryPostAccept, hc, ho]
  exact serverTryPostAccept_of_dead (by simp [serverCleanupClientData, clientDestroy]) rounds

/-- The first outcome other than `WSAECONNRESET` decides. -/
theorem serverTryPostAccept_split {a : Attempt} {resets rest : List AcceptRound}
    (ht : Tracked s cli) (hall : ∀ x ∈ resets, x.result = .connReset)
    (ho : o.result ≠ .connReset)
    (h : serverTryPostAccept s cli (resets ++ o :: rest) = some a) :
    o.result = .success ∧ (∃ s', a = .returned s' rest ∧ Posted s s' cli) ∨
      o.result = .failed ∧ ∃ s', a = .useAfterDestroy s' := by
  induction resets generalizing s with
  | nil =>
    cases hres : o.result with
    | connReset => exact absurd hres ho
    | success =>
      obtain ⟨s', hs', hposted⟩ := serverTryPostAccept_success ht hres rest
      obtain rfl := Option.some.inj (hs'.symm.trans h)
      exact Or.inl ⟨rfl, s', rfl, hposted⟩
    | failed =>
      obtain ⟨s', hs'⟩ := serverTryPostAccept_failed ht hres rest
      obtain rfl := Option.some.inj (hs'.symm.trans h)
      exact Or.inr ⟨rfl, s', rfl⟩
  | cons x resets ih =>
    obtain ⟨s₁, hreset, h⟩ := serverTryPostAccept_reset ht (hall x List.mem_cons_self) h
    obtain ⟨hres, s', rfl, hposted⟩ | hfailed :=
      ih hreset.tracked (fun y hy => hall y (List.mem_cons_of_mem x hy)) h
    · exact Or.inl ⟨hres, s', rfl, hreset.posted hposted⟩
    · exact Or.inr hfailed

/-- As long as only `WSAECONNRESET` is met, the function is in `AcceptEx`. -/
theorem serverTryPostAccept_resets {a : Attempt} (ht : Tracked s cli)
    (hall : ∀ x ∈ rounds, x.result = .connReset) (h : serverTryPostAccept s cli rounds = some a) :
    ∃ s', a = .calling s' := by
  induction rounds generalizing s with
  | nil =>
    obtain ⟨cl, hc, -⟩ := ht.record
    simp only [serverTryPostAccept, hc] at h
    exact ⟨s, (Option.some.inj h).symm⟩
  | cons x rounds ih =>
    obtain ⟨s₁, hreset, h⟩ := serverTryPostAccept_reset ht (hall x List.mem_cons_self) h
    exact ih hreset.tracked (fun y hy => hall y (List.mem_cons_of_mem x hy)) h

/-- Only resets, or a first outcome of another kind. -/
theorem resets_or_split (rounds : List AcceptRound) : (∀ x ∈ rounds, x.result = .connReset) ∨
    ∃ resets o rest, rounds = resets ++ o :: rest ∧ (∀ x ∈ resets, x.result = .connReset) ∧
      o.result ≠ .connReset := by
  induction rounds with
  | nil => exact Or.inl (by simp)
  | cons x rounds ih =>
    by_cases hx : x.result = .connReset
    · obtain hall | ⟨resets, o, rest, rfl, hall, ho⟩ := ih
      · exact Or.inl (List.forall_mem_cons.mpr ⟨hx, hall⟩)
      · exact Or.inr ⟨x :: resets, o, rest, rfl, List.forall_mem_cons.mpr ⟨hx, hall⟩, ho⟩
    · exact Or.inr ⟨[], x, rounds, rfl, by simp, hx⟩

/-- For the outcomes up to some point. -/
theorem attempt_ok_iff {a : Attempt} (ht : Tracked s cli)
    (h : serverTryPostAccept s cli rounds = some a) :
    a.Ok s cli rounds ↔ ¬ FirstFails rounds := by
  constructor
  · rintro hok ⟨resets, o, rest, rfl, hall, ho⟩
    obtain ⟨hsucc, -⟩ | ⟨-, s', rfl⟩ := serverTryPostAccept_split ht hall (by simp [ho]) h
    · rw [ho] at hsucc
      cases hsucc
    · exact hok.alive s' rfl
  · intro hfails
    constructor
    · intro s' heq
      obtain hall | ⟨resets, o, rest, rfl, hall, ho⟩ := resets_or_split rounds
      · obtain ⟨s'', hcalling⟩ := serverTryPostAccept_resets ht hall h
        rw [heq] at hcalling
        cases hcalling
      · obtain ⟨-, s'', hret, -⟩ | ⟨hfail, -⟩ := serverTryPostAccept_split ht hall ho h
        · rw [heq] at hret
          cases hret
        · exact hfails ⟨resets, o, rest, rfl, hall, hfail⟩
    · rintro resets o rest rfl hall ho
      obtain ⟨-, s', hret, hposted⟩ | ⟨hfail, -⟩ := serverTryPostAccept_split ht hall ho h
      · exact ⟨s', hret, Or.inl hposted⟩
      · exact absurd ⟨resets, o, rest, rfl, hall, hfail⟩ hfails

end rounds

/-! ## Sequences of outcomes -/

/-- The first outcomes of a finite or infinite sequence. -/
def firstRounds (outcomes : ℕ → Option AcceptRound) (n : ℕ) : List AcceptRound :=
  (List.range n).filterMap outcomes

/-- A finite sequence. -/
theorem firstRounds_list (rounds : List AcceptRound) (n : ℕ) :
    firstRounds (fun k => rounds[k]?) n = rounds.take n := by
  induction n with
  | zero => rfl
  | succ n ih =>
    unfold firstRounds at ih ⊢
    have hlast : [n].filterMap (fun k => rounds[k]?) = rounds[n]?.toList := by
      cases hn : rounds[n]? <;> simp [hn]
    rw [List.range_succ, List.filterMap_append, ih, hlast, List.take_add_one]

/-- What the function has done after any number of these outcomes is what its caller relies on. -/
def AttemptsOk (s : State) (cli : ClientPtr) (outcomes : ℕ → Option AcceptRound) : Prop :=
  ∀ n a, serverTryPostAccept s cli (firstRounds outcomes n) = some a →
    a.Ok s cli (firstRounds outcomes n)

/-- Called for a tracked live client, the function does what its caller relies on if and only if
the first outcome other than `WSAECONNRESET` is not a failure. -/
theorem serverTryPostAccept_ok_iff {s : State} {cli : ClientPtr} (ht : Tracked s cli)
    {outcomes : ℕ → Option AcceptRound}
    (hpossible : ∀ n, (serverTryPostAccept s cli (firstRounds outcomes n)).isSome) :
    AttemptsOk s cli outcomes ↔ ∀ n, ¬ FirstFails (firstRounds outcomes n) := by
  constructor
  · intro hok n
    obtain ⟨a, ha⟩ := Option.isSome_iff_exists.mp (hpossible n)
    exact (attempt_ok_iff ht ha).mp (hok n a ha)
  · intro hfails n a ha
    exact (attempt_ok_iff ht ha).mpr (hfails n)

/-- A server with one client, 5. -/
def oneClient : State :=
  { State.init 1 0 with
    heap := Function.update (fun _ => none) 5 (some { newClient 2 with clIsTracked := true })
    sockets := Function.update (fun _ => none) 2 (some false)
    svClients := [5] }

theorem tracked_oneClient : Tracked oneClient 5 :=
  ⟨⟨{ newClient 2 with clIsTracked := true }, rfl, rfl⟩, List.mem_singleton_self 5⟩

/-- One reset connection, and a pending `AcceptEx`. -/
theorem ok_after_reset : AttemptsOk oneClient 5
    (fun k => [⟨some wsaeconnreset, 3⟩, ⟨some errorIoPending, 0⟩][k]?) := by
  refine (serverTryPostAccept_ok_iff tracked_oneClient ?_).mpr ?_
  · intro n
    rw [firstRounds_list]
    match n with
    | 0 => rfl
    | 1 => rfl
    | n + 2 => rfl
  · rintro n ⟨resets, o, rest, heq, -, ho⟩
    rw [firstRounds_list] at heq
    have hmem : o ∈ [⟨some wsaeconnreset, 3⟩, ⟨some errorIoPending, 0⟩] :=
      List.mem_of_mem_take (heq ▸ List.mem_append_right resets List.mem_cons_self)
    have hall : ∀ x ∈ [(⟨some wsaeconnreset, 3⟩ : AcceptRound), ⟨some errorIoPending, 0⟩],
        x.result ≠ .failed := by decide
    exact hall o hmem ho

/-- After an error such as `WSAENOBUFS` the destroyed client is posted again. -/
theorem posts_destroyed_client : ¬ ∀ (s : State) (cli : ClientPtr)
    (outcomes : ℕ → Option AcceptRound), Tracked s cli → AttemptsOk s cli outcomes := by
  intro h
  have hok := h oneClient 5 (fun k => [⟨some 10055, 0⟩][k]?) tracked_oneClient 1 _ rfl
  exact hok.alive _ rfl

/-! ## The function among the steps of the server -/

section steps

variable {m : ℤ} {s s' : State} {cli : ClientPtr} {opts : Bool} {rounds rest : List AcceptRound}

theorem run_success {cl : Client} (hcrash : s.crashed = false) (hc : s.heap cli = some cl)
    (hopen : s.sockets cl.clSock ≠ none) :
    ∃ tr, Run (step m) (s.setMain (.postAcceptEx cli opts)) tr
      ({ s.issue cli .acceptEx with svOutstandingAccepts := s.svOutstandingAccepts + 1 }.setMain
        (.guard none opts)) := by
  have hpost : step m (s.setMain (.postAcceptEx cli opts)) (.main (.acceptEx .success))
      = some ((s.issue cli .acceptEx).setMain (.countAccept opts)) := by
    simp [step, mainStep, State.setMain, State.withClient, State.issue, hc, hcrash, hopen]
  have hcount : step m ((s.issue cli .acceptEx).setMain (.countAccept opts))
      (.main .atomicIncrement) = some ({ s.issue cli .acceptEx with
        svOutstandingAccepts := s.svOutstandingAccepts + 1 }.setMain (.guard none opts)) := by
    simp [step, mainStep, State.setMain, State.issue, hcrash]
  exact ⟨_, Run.cons hpost (Run.cons hcount Run.nil)⟩

theorem run_reset {s₁ : State} {sock : Socket} (hcrash : s.crashed = false)
    (h : Reset s s₁ cli sock) :
    ∃ tr, Run (step m) (s.setMain (.postAcceptEx cli opts)) tr
      (s₁.setMain (.postAcceptEx cli opts)) := by
  obtain ⟨cl, r, hc, hr, hclnt, rfl⟩ := h.reinit
  have hpost : step m (s.setMain (.postAcceptEx cli opts)) (.main (.acceptEx .connReset))
      = some (s.setMain (.retry cli opts)) := by
    simp [step, mainStep, State.setMain, State.withClient, hc, hcrash]
  have hreinit : step m (s.setMain (.retry cli opts)) (.main (.clientReinit sock))
      = some ({ s.setClient cli r.client with sockets := r.sockets }.setMain
        (.postAcceptEx cli opts)) := by
    simp [step, mainStep, State.setMain, State.withClient, State.setClient, hc, hr, hclnt, hcrash]
  exact ⟨_, Run.cons hpost (Run.cons hreinit Run.nil)⟩

/-- A loop that returns is a run of the accept thread through `server_try_post_accept`, where
the system accepts the operation on an open socket. -/
theorem run_of_returned (hcrash : s.crashed = false) (ht : Tracked s cli)
    (h : serverTryPostAccept s cli rounds = some (.returned s' rest))
    (hopen : ∀ cl, s'.heap cli = some cl → s'.sockets cl.clSock ≠ none) :
    ∃ tr, Run (step m) (s.setMain (.postAcceptEx cli opts)) tr
      (s'.setMain (.guard none opts)) := by
  induction rounds generalizing s with
  | nil =>
    obtain ⟨cl, hc, -⟩ := ht.record
    simp [serverTryPostAccept, hc] at h
  | cons o rounds ih =>
    cases ho : o.result with
    | success =>
      obtain ⟨cl, hc, -⟩ := ht.record
      simp only [serverTryPostAccept, hc, ho, Option.some.injEq, Attempt.returned.injEq] at h
      obtain ⟨rfl, -⟩ := h
      exact run_success hcrash hc (hopen cl hc)
    | connReset =>
      obtain ⟨s₁, hreset, h₁⟩ := serverTryPostAccept_reset ht ho h
      have hcrash₁ : s₁.crashed = false := by
        obtain ⟨cl, r, -, -, -, rfl⟩ := hreset.reinit
        exact hcrash
      obtain ⟨tr, htr⟩ := run_reset (m := m) hcrash hreset
      obtain ⟨tr', htr'⟩ := ih hcrash₁ hreset.tracked h₁
      exact ⟨tr ++ tr', htr.append htr'⟩
    | failed =>
      obtain ⟨s₁, hs₁⟩ := serverTryPostAccept_failed ht ho rounds
      rw [h] at hs₁
      cases hs₁

end steps

end AioServer.Windows
