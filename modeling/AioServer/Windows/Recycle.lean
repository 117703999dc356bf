import AioServer.Windows.Accounting

/-!
# The Windows server: recycling a client

`client_reinit` reports a failure by returning FALSE; both callers test the pointer that
they passed by address, which `client_reinit` never writes. So a client whose new socket
could not be created is posted with `INVALID_SOCKET`. `recyclingOk_iff` says that this is
the only way: a run handles every failed recycling as it should exactly if none fails.
-/

namespace AioServer.Windows

open Lib

/-- `create_overlapped_socket` returns `INVALID_SOCKET` to `client_reinit`. -/
def reinitSocketFails (x : State × Action) : Bool :=
  match x.1.main, x.2 with
  | .reinit c false, .main (.clientReinit sock) | .retry c _, .main (.clientReinit sock) =>
    decide (x.1.Live c) && decide (sock = invalidSocket)
  | _, _ => false

/-- The call of `client_reinit` at a program point: the client and `reuse_socket`. -/
def MainPc.reinitCall : MainPc → Option (ClientPtr × Bool)
  | .reinit c opts => some (c, opts)
  | .retry c _ => some (c, false)
  | _ => none

/-- What a step should do about clients without a socket: `AcceptEx` is not called for one,
and when `client_reinit` returns FALSE the caller is given NULL, the client is off the list
and destroyed. -/
structure RecyclingOk (m : ℤ) (x : State × Action) : Prop where
  posted : ∀ c opts r cl, x.1.main = .postAcceptEx c opts → x.2 = .main (.acceptEx r) →
    x.1.heap c = some cl → cl.clSock ≠ invalidSocket
  reported : ∀ c cl reuseSocket sock r s', x.1.main.reinitCall = some (c, reuseSocket) →
    x.2 = .main (.clientReinit sock) → x.1.heap c = some cl →
    clientReinit c cl x.1.sockets reuseSocket sock = some r → r.ret = false →
    step m x.1 x.2 = some s' →
    r.clnt = none ∧ s'.main.client = none ∧ c ∉ s'.svClients ∧ ¬ s'.Live c

/-- The client that is going to be posted has a socket. -/
def State.HandHasSocket (s : State) : Prop :=
  ∀ c opts cl, s.main = .addToList c opts ∨ s.main = .postAcceptEx c opts →
    s.heap c = some cl → cl.clSock ≠ invalidSocket

theorem handHasSocket_main {m : ℤ} {s s' : State} {call : MainCall} (hcus : Custodial s)
    (h : MainTrans m s call s') (hno : reinitSocketFails (s, .main call) = false)
    (hs : s.HandHasSocket) : s'.HandHasSocket := by
  -- a client whose socket is open has one
  have hopen : ∀ cl : Client, s.sockets cl.clSock ≠ none → cl.clSock ≠ invalidSocket := by
    intro cl ho hk
    exact ho (by rw [hk, hcus.sockets.invalid])
  cases h with
  | reinit c opts cl sock r hpc hc hr =>
    have hk : r.client.clSock ≠ invalidSocket := by
      cases opts with
      | true =>
        have hok := hcus.owned.main_ok hpc rfl hc
        rw [(hr.reuse rfl).1]
        exact hopen cl hok.1
      | false =>
        rw [(hr.replace rfl).1]
        simpa [reinitSocketFails, hpc, State.Live, hc] using hno
    intro x opts' clx hx hclx
    obtain ⟨rfl, -⟩ : c = x ∧ opts = opts' := by simpa [State.setMain] using hx
    obtain rfl : r.client = clx := by simpa [State.setMain, State.setClient] using hclx
    exact hk
  | retry c opts cl sock r hpc hc hr =>
    have hk : r.client.clSock ≠ invalidSocket := by
      rw [(hr.replace rfl).1]
      simpa [reinitSocketFails, hpc, State.Live, hc] using hno
    intro x opts' clx hx hclx
    obtain ⟨rfl, -⟩ : c = x ∧ opts = opts' := by simpa [State.setMain] using hx
    obtain rfl : r.client = clx := by simpa [State.setMain, State.setClient] using hclx
    exact hk
  | create opts c sock sockets hpc hc hsock ht =>
    intro x opts' clx hx hclx
    obtain ⟨rfl, -⟩ : c = x ∧ opts = opts' := by simpa [State.setMain] using hx
    obtain rfl : newClient sock = clx := by simpa [State.setMain, State.setClient] using hclx
    exact hsock
  | addToList c opts cl node hpc hc =>
    intro x opts' clx hx hclx
    obtain ⟨rfl, -⟩ : c = x ∧ opts = opts' := by simpa [State.setMain] using hx
    obtain rfl : { cl with clIsTracked := true } = clx := by
      simpa [State.setMain, State.setClient, serverAddClientToList] using hclx
    exact hs c opts cl (Or.inl hpc) hc
  | destroyFailed c opts cl hpc hc =>
    intro x opts' clx hx hclx
    obtain ⟨rfl, -⟩ : c = x ∧ opts = opts' := by simpa [State.setMain] using hx
    simp [State.setMain, clientDestroy] at hclx
  | dequeueFails hpc => exact hs
  | crash call c hdead hc => exact hs
  | _ =>
    intro x opts' clx hx
    simp [State.setMain] at hx

theorem handHasSocket_step {m : ℤ} {s s' : State} {a : Action} (hcus : Custodial s)
    (h : Trans m s a s') (hno : reinitSocketFails (s, a) = false) (hs : s.HandHasSocket) :
    s'.HandHasSocket := by
  cases h with
  | main hm => exact handHasSocket_main hcus hm hno hs
  | worker hw ht =>
    have hf := workerTrans_frame ht
    intro c opts cl' hpc hcl'
    rw [hf.main] at hpc
    have hk : s.sockOf c = some cl'.clSock := by rw [← hf.sockOf c, State.sockOf, hcl']; rfl
    obtain ⟨cl, hcl, hk⟩ := Option.map_eq_some_iff.mp hk
    exact hk ▸ hs c opts cl hpc hcl
  | ctrlShutDownIocp ok => cases ok <;> exact hs
  | _ => exact hs

/-- `client_reinit` returns FALSE when its socket could not be created. -/
theorem reinit_ret_eq_false {c : ClientPtr} {cl : Client} {sockets : SocketTable}
    {reuseSocket : Bool} {sock : Socket} {r : ReinitResult}
    (hr : Reinit c cl sockets reuseSocket sock r) :
    r.ret = false ↔ reuseSocket = false ∧ sock = invalidSocket := by
  cases reuseSocket with
  | true => simp [(hr.reuse rfl).2.2.2]
  | false => simp [(hr.replace rfl).2.1]

theorem reinitSocketFails_iff {x : State × Action} :
    reinitSocketFails x = true ↔ ∃ c, x.1.main.reinitCall = some (c, false) ∧ x.1.Live c ∧
      x.2 = .main (.clientReinit invalidSocket) := by
  obtain ⟨s, a⟩ := x
  constructor
  · intro h
    unfold reinitSocketFails at h
    split at h
    case h_1 c sock hpc ha =>
      obtain ⟨hl, rfl⟩ : s.Live c ∧ sock = invalidSocket := by simpa using h
      exact ⟨c, by rw [hpc]; rfl, hl, ha⟩
    case h_2 c opts sock hpc ha =>
      obtain ⟨hl, rfl⟩ : s.Live c ∧ sock = invalidSocket := by simpa using h
      exact ⟨c, by rw [hpc]; rfl, hl, ha⟩
    case h_3 => simp at h
  · rintro ⟨c, hcall, hl, ha⟩
    cases hpc : s.main <;> simp_all [MainPc.reinitCall, reinitSocketFails]

section run

variable {m : ℤ} {svSock : Socket} {n : ℕ} {tr : List (State × Action)} {s : State}

theorem ServerRun.handHasSocket (hrun : ServerRun m svSock n tr s)
    (htr : ∀ x ∈ tr, reinitSocketFails x = false) : s.HandHasSocket := by
  have h : Custodial s ∧ s.HandHasSocket := by
    refine hrun.invariant_of (I := fun s => Custodial s ∧ s.HandHasSocket) htr
      ⟨custodial_init svSock n, ?_⟩ fun s a s' hI ha hs => ?_
    · intro c opts cl hpc
      simp [State.init] at hpc
    · have ht := (trans_of_step hs).2
      exact ⟨hI.1.trans ht, handHasSocket_step hI.1 ht ha hI.2⟩
  exact h.2

/-- A run treats every failed recycling as it should if and only if no socket that
`client_reinit` asks for is refused. -/
theorem ServerRun.recyclingOk_iff (hrun : ServerRun m svSock n tr s) :
    (∀ x ∈ tr, RecyclingOk m x) ↔ ∀ x ∈ tr, reinitSocketFails x = false := by
  constructor
  · intro hok x hx
    by_contra hfail
    obtain ⟨c, hcall, hl, ha⟩ := reinitSocketFails_iff.mp (by simpa using hfail)
    obtain ⟨tr', s', -, -, hstep⟩ := hrun.prefix_of_mem hx
    obtain ⟨cl, hcl⟩ := Option.isSome_iff_exists.mp hl
    -- the pointer of the caller is not NULL although FALSE is returned
    obtain ⟨r, hr⟩ : ∃ r, clientReinit c cl x.1.sockets false invalidSocket = some r := by
      simp [clientReinit, createOverlappedSocket]
    have hr' := reinit_of_clientReinit hr
    have hret : r.ret = false := (reinit_ret_eq_false hr').mpr ⟨rfl, rfl⟩
    have hnull := ((hok x hx).reported c cl false invalidSocket r s' hcall ha hcl hr hret hstep).1
    simp [hr'.clnt] at hnull
  · intro htr x hx
    obtain ⟨tr', s', hpre, hrun', -⟩ := hrun.prefix_of_mem hx
    have hhand := ServerRun.handHasSocket hrun' fun y hy => htr y (hpre.subset hy)
    refine ⟨fun c opts r cl hpc ha hcl => hhand c opts cl (Or.inr hpc) hcl, ?_⟩
    intro c cl reuseSocket sock r s' hcall ha hcl hr hret
    obtain ⟨rfl, rfl⟩ := (reinit_ret_eq_false (reinit_of_clientReinit hr)).mp hret
    have hfail := reinitSocketFails_iff.mpr ⟨c, hcall, by simp [State.Live, hcl], ha⟩
    simp [htr x hx] at hfail

end run

/-- `AcceptEx` reports a reset connection, and the socket for the second attempt is there. -/
theorem recyclingOk_after_reset : ∃ tr s, ServerRun 1 1 1 tr s ∧
    s.main = .postAcceptEx 5 false ∧ ∀ x ∈ tr, RecyclingOk 1 x := by
  have hrun : ∃ tr s, ServerRun 1 1 1 tr s ∧ s.main = .postAcceptEx 5 false ∧
      ∀ x ∈ tr, reinitSocketFails x = false :=
    ⟨_, _, run_of_exec (show exec (step 1) (State.init 1 1) (acceptedClient.take 5 ++
      [.main (.acceptEx .connReset), .main (.clientReinit 8)]) = some (_, _) from rfl),
      rfl, by decide⟩
  obtain ⟨tr, s, hrun, hpc, htr⟩ := hrun
  exact ⟨tr, s, hrun, hpc, hrun.recyclingOk_iff.mpr htr⟩

/-- The second attempt is made with `INVALID_SOCKET` when that socket is refused. -/
theorem posted_without_socket : ¬ ∀ (m : ℤ) (svSock : Socket) (n : ℕ)
    (tr : List (State × Action)) (s : State), ServerRun m svSock n tr s →
    ∀ x ∈ tr, RecyclingOk m x := by
  intro h
  have hrun : ∃ tr s, ServerRun 1 1 1 tr s ∧ s.main = .postAcceptEx 5 false ∧
      (s.heap 5).map Client.clSock = some invalidSocket ∧
      ∃ s', step 1 s (.main (.acceptEx .failed)) = some s' :=
    ⟨_, _, run_of_exec (show exec (step 1) (State.init 1 1) (acceptedClient.take 5 ++
      [.main (.acceptEx .connReset), .main (.clientReinit invalidSocket)]) = some (_, _) from rfl),
      rfl, rfl, _, rfl⟩
  obtain ⟨tr, s, hrun, hpc, hk, s', hs⟩ := hrun
  obtain ⟨cl, hcl, hk⟩ := Option.map_eq_some_iff.mp hk
  have hok := h 1 1 1 _ s' (hrun.snoc hs) (s, .main (.acceptEx .failed)) (by simp)
  exact hok.posted 5 false .failed cl hpc rfl hcl hk

end AioServer.Windows
