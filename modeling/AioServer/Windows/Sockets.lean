import AioServer.Windows.Trans

/-!
# The Windows server: client sockets

`SocketsOk`: the socket of a live client is open unless it is `INVALID_SOCKET`, and no two
live clients share an open one. `INVALID_SOCKET` itself is never open. Only the accept
thread gives a client another socket; `workerTrans_frame` says what a worker leaves alone.
-/

namespace AioServer.Windows

/-! ## What a worker leaves alone -/

/-- The fields of a client that the client list depends on. -/
def State.listing (s : State) (c : ClientPtr) : Option (Socket × Bool) :=
  (s.heap c).map fun cl => (cl.clSock, cl.clIsTracked)

/-- `s'` differs from `s` in nothing that the client list depends on. -/
structure SameListing (s s' : State) : Prop where
  main : s'.main = s.main
  svClients : s'.svClients = s.svClients
  listing : ∀ c, s'.listing c = s.listing c
  opened : ∀ k, (s'.sockets k).isSome = (s.sockets k).isSome

theorem State.live_iff_listing (s : State) (c : ClientPtr) : s.Live c ↔ (s.listing c).isSome := by
  simp [State.Live, State.listing]

theorem listing_eq_some {s : State} {c : ClientPtr} {k : Socket} {t : Bool} :
    s.listing c = some (k, t) ↔
      ∃ cl, s.heap c = some cl ∧ cl.clSock = k ∧ cl.clIsTracked = t := by
  simp [State.listing]

theorem SameListing.live_iff {s s' : State} (h : SameListing s s') (c : ClientPtr) :
    s'.Live c ↔ s.Live c := by
  rw [State.live_iff_listing, State.live_iff_listing, h.listing]

theorem setClient_heap_of_ne {s : State} {c x : ClientPtr} {cl : Client} (h : x ≠ c) :
    (s.setClient c cl).heap x = s.heap x := Function.update_of_ne h _ _

@[simp] theorem setClient_heap_self (s : State) (c : ClientPtr) (cl : Client) :
    (s.setClient c cl).heap c = some cl := Function.update_self _ _ _

/-- A record found after a write is the one written, or another client's. -/
theorem setClient_heap_cases {s : State} {c x : ClientPtr} {cl clx : Client}
    (hx : (s.setClient c cl).heap x = some clx) :
    x = c ∧ clx = cl ∨ x ≠ c ∧ s.heap x = some clx := by
  by_cases hxc : x = c
  · subst hxc
    exact Or.inl ⟨rfl, by simpa using hx.symm⟩
  · exact Or.inr ⟨hxc, by rwa [setClient_heap_of_ne hxc] at hx⟩

theorem clientDestroy_heap_of_ne {s : State} {c x : ClientPtr} {cl : Client} (h : x ≠ c) :
    (clientDestroy s c cl).heap x = s.heap x := Function.update_of_ne h _ _

theorem clientDestroy_heap_eq_some {s : State} {c x : ClientPtr} {cl clx : Client}
    (hx : (clientDestroy s c cl).heap x = some clx) : x ≠ c ∧ s.heap x = some clx := by
  by_cases hxc : x = c
  · subst hxc
    simp [clientDestroy] at hx
  · exact ⟨hxc, by rwa [clientDestroy_heap_of_ne hxc] at hx⟩

theorem listing_setClient {s : State} {c : ClientPtr} {cl cl' : Client} (hc : s.heap c = some cl)
    (hsock : cl'.clSock = cl.clSock) (htr : cl'.clIsTracked = cl.clIsTracked) (x : ClientPtr) :
    (s.setClient c cl').listing x = s.listing x := by
  by_cases hx : x = c
  · subst hx
    simp [State.listing, hc, hsock, htr]
  · simp [State.listing, setClient_heap_of_ne hx]

theorem workerTrans_frame {s s' : State} {i : ℕ} {w : Worker} {call : WorkerCall}
    (h : WorkerTrans s i w call s') : SameListing s s' := by
  cases h with
  | associate c cl hpc hc hr ho =>
    refine ⟨rfl, rfl, fun _ => rfl, fun k => ?_⟩
    by_cases hk : k = cl.clSock
    · subst hk
      simp [State.setWorker, ho]
    · simp [State.setWorker, Function.update_of_ne hk]
  | read c cl hpc hc => exact ⟨rfl, rfl, listing_setClient hc rfl rfl, fun _ => rfl⟩
  | readFails c cl hpc hc => exact ⟨rfl, rfl, listing_setClient hc rfl rfl, fun _ => rfl⟩
  | badRequest c cl hpc hc => exact ⟨rfl, rfl, listing_setClient hc rfl rfl, fun _ => rfl⟩
  | openFile c cl path hd hpc hc => exact ⟨rfl, rfl, listing_setClient hc rfl rfl, fun _ => rfl⟩
  | querySizeFails c cl hpc hc => exact ⟨rfl, rfl, listing_setClient hc rfl rfl, fun _ => rfl⟩
  | markReused c cl hpc hc => exact ⟨rfl, rfl, listing_setClient hc rfl rfl, fun _ => rfl⟩
  | repost ok hpc => cases ok <;> exact ⟨rfl, rfl, fun _ => rfl, fun _ => rfl⟩
  | acceptMoreClients site cl reuseSocket ok hpc =>
    cases ok <;> exact ⟨rfl, rfl, fun _ => rfl, fun _ => rfl⟩
  | _ => exact ⟨rfl, rfl, fun _ => rfl, fun _ => rfl⟩

/-! ## The invariant -/

/-- The sockets of the live clients. -/
structure SocketsOk (s : State) : Prop where
  invalid : s.sockets invalidSocket = none
  opened : ∀ c cl, s.heap c = some cl → cl.clSock ≠ invalidSocket → s.sockets cl.clSock ≠ none
  distinct : ∀ c c' cl cl', s.heap c = some cl → s.heap c' = some cl' →
    cl.clSock = cl'.clSock → cl.clSock ≠ invalidSocket → c = c'

/-- The socket of a live client. -/
def State.sockOf (s : State) (c : ClientPtr) : Option Socket := (s.heap c).map Client.clSock

theorem SameListing.sockOf {s s' : State} (h : SameListing s s') (c : ClientPtr) :
    s'.sockOf c = s.sockOf c := by
  have := congrArg (Option.map Prod.fst) (h.listing c)
  simpa [State.listing, State.sockOf, Option.map_map, Function.comp_def] using this

/-- `SocketsOk` reads the clients' sockets and which handles are open. -/
theorem SocketsOk.of_sockOf {s s' : State} (h : SocketsOk s) (hs : ∀ c, s'.sockOf c = s.sockOf c)
    (ho : ∀ k, (s'.sockets k).isSome = (s.sockets k).isSome) : SocketsOk s' := by
  have hlook : ∀ c cl', s'.heap c = some cl' →
      ∃ cl, s.heap c = some cl ∧ cl.clSock = cl'.clSock := by
    intro c cl' hc
    have hl : s.sockOf c = some cl'.clSock := by rw [← hs c, State.sockOf, hc, Option.map_some]
    exact Option.map_eq_some_iff.mp hl
  have hopen : ∀ k, s'.sockets k = none ↔ s.sockets k = none := by
    intro k
    rw [← Option.not_isSome_iff_eq_none, ho k, Option.not_isSome_iff_eq_none]
  constructor
  · exact (hopen _).mpr h.invalid
  · intro c cl' hc hk hnone
    obtain ⟨cl, hcl, hsock⟩ := hlook c cl' hc
    exact h.opened c cl hcl (hsock ▸ hk) (hsock ▸ (hopen _).mp hnone)
  · intro c c' cl cl' hc hc' heq hk
    obtain ⟨a, ha, hak⟩ := hlook c cl hc
    obtain ⟨b, hb, hbk⟩ := hlook c' cl' hc'
    exact h.distinct c c' a b ha hb (by rw [hak, hbk, heq]) (by rw [hak]; exact hk)

theorem sockOf_setClient {s : State} {c : ClientPtr} {cl cl' : Client} (hc : s.heap c = some cl)
    (hsock : cl'.clSock = cl.clSock) (x : ClientPtr) :
    (s.setClient c cl').sockOf x = s.sockOf x := by
  by_cases hx : x = c
  · subst hx
    simp [State.sockOf, hc, hsock]
  · simp [State.sockOf, setClient_heap_of_ne hx]

theorem createOverlappedSocket_eq_some {t t' : SocketTable} {k : Socket}
    (h : createOverlappedSocket t k = some t') :
    (k = invalidSocket ∧ t' = t) ∨
      (k ≠ invalidSocket ∧ t k = none ∧ t' = Function.update t k (some false)) := by
  unfold createOverlappedSocket at h
  split_ifs at h with h1 h2
  · exact Or.inl ⟨h1, by simpa using h.symm⟩
  · exact Or.inr ⟨h1, h2, by simpa using h.symm⟩

/-- `shutdown` and `closesocket` on the socket of a client, if it has one. -/
theorem closed_of_ne {t : SocketTable} {k j : Socket} (h : j ≠ k) :
    (if k ≠ invalidSocket then closesocket t k else t) j = t j := by
  split_ifs
  · exact Function.update_of_ne h _ _
  · rfl

/-- Another client does not see that the socket of `c` was closed. -/
theorem SocketsOk.closed_other {s : State} (h : SocketsOk s) {c x : ClientPtr} {cl clx : Client}
    (hc : s.heap c = some cl) (hx : s.heap x = some clx) (hne : x ≠ c) :
    (if cl.clSock ≠ invalidSocket then closesocket s.sockets cl.clSock else s.sockets) clx.clSock
      = s.sockets clx.clSock := by
  by_cases heq : clx.clSock = cl.clSock
  · by_cases hk : clx.clSock = invalidSocket
    · rw [if_neg (by simp [← heq, hk])]
    · exact absurd (h.distinct x c clx cl hx hc heq hk) hne
  · exact closed_of_ne heq

theorem SocketsOk.closed_invalid {s : State} (h : SocketsOk s) (k : Socket) :
    (if k ≠ invalidSocket then closesocket s.sockets k else s.sockets) invalidSocket = none := by
  split_ifs with hk
  · rw [closesocket, Function.update_of_ne (Ne.symm hk), h.invalid]
  · exact h.invalid

/-- What a client's change of socket leaves to the other clients: their sockets are as they
were, and the new socket, if it is one, is open and not theirs. -/
structure SocketChange (s : State) (c : ClientPtr) (k : Socket) (t : SocketTable) : Prop where
  invalid : t invalidSocket = none
  other : ∀ x clx, x ≠ c → s.heap x = some clx → t clx.clSock = s.sockets clx.clSock
  opened : k ≠ invalidSocket → t k ≠ none
  distinct : ∀ x clx, x ≠ c → s.heap x = some clx → clx.clSock = k → k = invalidSocket

theorem SocketsOk.change {s : State} (h : SocketsOk s) {c : ClientPtr} {cl : Client}
    {t : SocketTable} (hch : SocketChange s c cl.clSock t) :
    SocketsOk { s.setClient c cl with sockets := t } := by
  constructor
  · exact hch.invalid
  · intro x clx hx hk
    rcases setClient_heap_cases hx with ⟨-, rfl⟩ | ⟨hxc, hx⟩
    · exact hch.opened hk
    · exact (hch.other x clx hxc hx).trans_ne (h.opened x clx hx hk)
  · intro x y clx cly hx hy heq hk
    rcases setClient_heap_cases hx with ⟨rfl, rfl⟩ | ⟨hxc, hx'⟩ <;>
      rcases setClient_heap_cases hy with ⟨rfl, rfl⟩ | ⟨hyc, hy'⟩
    · rfl
    -- one of the two has the new socket, which nobody else has
    · exact absurd (hch.distinct y cly hyc hy' heq.symm) hk
    · exact absurd (heq.trans (hch.distinct x clx hxc hx' heq)) hk
    · exact h.distinct x y clx cly hx' hy' heq hk

/-- `create_overlapped_socket` on the sockets `t` left after closing the old one. -/
theorem SocketsOk.create {s : State} (h : SocketsOk s) {c : ClientPtr} {k : Socket}
    {t t' : SocketTable} (hinv : t invalidSocket = none)
    (hother : ∀ x clx, x ≠ c → s.heap x = some clx → t clx.clSock = s.sockets clx.clSock)
    (ht : createOverlappedSocket t k = some t') : SocketChange s c k t' := by
  rcases createOverlappedSocket_eq_some ht with ⟨rfl, rfl⟩ | ⟨hk, hfree, rfl⟩
  · exact ⟨hinv, hother, fun hne => absurd rfl hne, fun _ _ _ _ _ => rfl⟩
  · -- the new handle was free, and the sockets of the others are open
    have hne : ∀ x clx, x ≠ c → s.heap x = some clx → clx.clSock ≠ k := by
      rintro x clx hxc hx rfl
      exact h.opened x clx hx hk ((hother x clx hxc hx).symm.trans hfree)
    refine ⟨?_, fun x clx hxc hx => ?_, by simp, fun x clx hxc hx heq => ?_⟩
    · rw [Function.update_of_ne (Ne.symm hk), hinv]
    · rw [Function.update_of_ne (hne x clx hxc hx), hother x clx hxc hx]
    · exact absurd heq (hne x clx hxc hx)

theorem Reinit.socketChange {s : State} (h : SocketsOk s) {c : ClientPtr} {cl : Client}
    {reuseSocket : Bool} {sock : Socket} {r : ReinitResult} (hc : s.heap c = some cl)
    (hr : Reinit c cl s.sockets reuseSocket sock r) :
    SocketChange s c r.client.clSock r.sockets := by
  cases reuseSocket with
  | true =>
    obtain ⟨hk, -, ht, -⟩ := hr.reuse rfl
    rw [hk, ht]
    refine ⟨h.invalid, fun _ _ _ _ => rfl, h.opened c cl hc, fun x clx hxc hx heq => ?_⟩
    by_contra hne
    exact hxc (h.distinct x c clx cl hx hc heq (by rwa [heq]))
  | false =>
    obtain ⟨hk, -, -, ht⟩ := hr.replace rfl
    rw [hk]
    exact h.create (h.closed_invalid _) (fun x clx hxc hx => h.closed_other hc hx hxc) ht

theorem SocketsOk.destroy {s : State} (h : SocketsOk s) {c : ClientPtr} {cl : Client}
    (hc : s.heap c = some cl) : SocketsOk (clientDestroy s c cl) := by
  constructor
  · exact h.closed_invalid _
  · intro x clx hx hk
    obtain ⟨hxc, hx⟩ := clientDestroy_heap_eq_some hx
    exact (h.closed_other hc hx hxc).trans_ne (h.opened x clx hx hk)
  · intro x y clx cly hx hy
    exact h.distinct x y clx cly (clientDestroy_heap_eq_some hx).2 (clientDestroy_heap_eq_some hy).2

/-! ## Every reachable state -/

theorem socketsOk_init (svSock : Socket) (n : ℕ) : SocketsOk (State.init svSock n) := by
  refine ⟨?_, by simp [State.init], by simp [State.init]⟩
  simp only [State.init]
  split_ifs with hk
  · exact absurd hk.1.symm hk.2
  · rfl

theorem SocketsOk.mainTrans {m : ℤ} {s s' : State} {call : MainCall} (h : SocketsOk s)
    (ht : MainTrans m s call s') : SocketsOk s' := by
  cases ht with
  | start ok => cases ok <;> exact ⟨h.invalid, h.opened, h.distinct⟩
  | reinit c opts cl sock r hpc hc hr =>
    have hs := h.change (hr.socketChange h hc)
    exact ⟨hs.invalid, hs.opened, hs.distinct⟩
  | retry c opts cl sock r hpc hc hr =>
    have hs := h.change (hr.socketChange h hc)
    exact ⟨hs.invalid, hs.opened, hs.distinct⟩
  | create opts c sock sockets hpc hc hsock hcr =>
    have hch : SocketChange s c (newClient sock).clSock sockets :=
      h.create h.invalid (fun _ _ _ _ => rfl) hcr
    have hs := h.change hch
    exact ⟨hs.invalid, hs.opened, hs.distinct⟩
  | addToList c opts cl node hpc hc =>
    exact h.of_sockOf (sockOf_setClient hc rfl) fun _ => rfl
  | removeFromList site c opts cl hpc hc hv =>
    exact h.of_sockOf (sockOf_setClient hc rfl) fun _ => rfl
  | destroyEnough c opts cl hpc hc =>
    have hs := h.destroy hc
    exact ⟨hs.invalid, hs.opened, hs.distinct⟩
  | destroyFailed c opts cl hpc hc =>
    have hs := h.destroy hc
    exact ⟨hs.invalid, hs.opened, hs.distinct⟩
  | _ => exact ⟨h.invalid, h.opened, h.distinct⟩

theorem SocketsOk.trans {m : ℤ} {s s' : State} {a : Action} (h : SocketsOk s)
    (ht : Trans m s a s') : SocketsOk s' := by
  cases ht with
  | main hm => exact h.mainTrans hm
  | worker hw ht =>
    have hf := workerTrans_frame ht
    exact h.of_sockOf hf.sockOf hf.opened
  | ctrlShutDownIocp ok => cases ok <;> exact ⟨h.invalid, h.opened, h.distinct⟩
  | _ => exact ⟨h.invalid, h.opened, h.distinct⟩

theorem ServerRun.socketsOk {m : ℤ} {svSock : Socket} {n : ℕ} {tr : List (State × Action)}
    {s : State} (hrun : ServerRun m svSock n tr s) : SocketsOk s :=
  hrun.invariant (socketsOk_init svSock n) fun _ _ _ h hs => h.trans (trans_of_step hs).2

end AioServer.Windows
