import AioServer.Windows.ClientList

/-!
# The Windows server: who owns an open socket

`SocketsOk` says that the sockets of the live clients are open. `SocketsOwned` is the other
direction: an open socket belongs to a live client, unless it is one of the sockets `K` that the
server keeps for itself, which no client has. These are the listening socket in a run, and none
once `server_cleanup_and_shutdown` has closed it.
-/

namespace AioServer.Windows

open Lib

/-- The open sockets are those with `K`, which no client has, and those of the live clients. -/
structure SocketsOwned (K : Socket → Prop) (s : State) : Prop where
  opened : ∀ k, K k → s.sockets k ≠ none
  apart : ∀ c k, s.sockOf c = some k → ¬ K k
  owner : ∀ k, s.sockets k ≠ none → K k ∨ ∃ c, s.sockOf c = some k

section owned

variable {m : ℤ} {K : Socket → Prop} {s s' : State} {a : Action} {c x : ClientPtr} {cl : Client}
  {k sock : Socket} {t t' : SocketTable}

theorem sockOf_eq (hc : s.heap c = some cl) : s.sockOf c = some cl.clSock := by
  rw [State.sockOf, hc, Option.map_some]

theorem sockOf_setClient_self : (s.setClient c cl).sockOf c = some cl.clSock :=
  sockOf_eq (setClient_heap_self s c cl)

theorem sockOf_setClient_of_ne (h : x ≠ c) : (s.setClient c cl).sockOf x = s.sockOf x := by
  rw [State.sockOf, State.sockOf, setClient_heap_of_ne h]

/-- `SocketsOwned` reads the clients' sockets and which handles are open. -/
theorem SocketsOwned.of_sockOf (h : SocketsOwned K s) (hs : ∀ c, s'.sockOf c = s.sockOf c)
    (ho : ∀ k, (s'.sockets k).isSome = (s.sockets k).isSome) : SocketsOwned K s' := by
  have hopen : ∀ k, s'.sockets k ≠ none ↔ s.sockets k ≠ none := by
    intro k
    rw [← Option.isSome_iff_ne_none, ho k, Option.isSome_iff_ne_none]
  refine ⟨fun k hk => (hopen k).mpr (h.opened k hk), fun c k hc => ?_, fun k hk => ?_⟩
  · exact h.apart c k (hs c ▸ hc)
  · simpa only [hs] using h.owner k ((hopen k).mp hk)

theorem SocketsOwned.not_invalid (h : SocketsOwned K s) (hok : SocketsOk s) :
    ¬ K invalidSocket := fun hk => h.opened _ hk hok.invalid

/-- The socket table `t` after the socket of `c`, if it has one, is closed. -/
structure SocketClosed (K : Socket → Prop) (s : State) (c : ClientPtr) (t : SocketTable) :
    Prop where
  kept : ∀ k, K k → t k ≠ none
  opened : ∀ k, t k ≠ none → s.sockets k ≠ none ∧ s.sockOf c ≠ some k

/-- `shutdown` and `closesocket` on the socket of a client, if it has one. -/
theorem SocketsOwned.closed (h : SocketsOwned K s) (hok : SocketsOk s) (hc : s.heap c = some cl) :
    SocketClosed K s c
      (if cl.clSock ≠ invalidSocket then closesocket s.sockets cl.clSock else s.sockets) := by
  have hsock := sockOf_eq hc
  refine ⟨fun k hk => ?_, fun k hk => ?_⟩
  · have hne : k ≠ cl.clSock := fun heq => h.apart c k (by rw [hsock, heq]) hk
    rw [closed_of_ne hne]
    exact h.opened k hk
  · by_cases hne : k = cl.clSock
    · -- its own socket is closed, or was no socket
      refine absurd ?_ hk
      subst hne
      split_ifs with hk'
      · exact Function.update_self _ _ _
      · rw [not_not.mp hk']
        exact hok.invalid
    · rw [closed_of_ne hne] at hk
      exact ⟨hk, by simpa [hsock] using Ne.symm hne⟩

/-- A client that does not exist has no socket to close. -/
theorem SocketsOwned.closed_dead (h : SocketsOwned K s) (hc : s.heap c = none) :
    SocketClosed K s c s.sockets :=
  ⟨h.opened, fun k hk => ⟨hk, by simp [State.sockOf, hc]⟩⟩

/-- An open socket that is not that of `c` has an owner, and it is another client. -/
theorem SocketClosed.owner (ht : SocketClosed K s c t) (h : SocketsOwned K s) (hk : t k ≠ none) :
    K k ∨ ∃ x, x ≠ c ∧ s.sockOf x = some k := by
  obtain ⟨hopen, hne⟩ := ht.opened k hk
  obtain hK | ⟨x, hx⟩ := h.owner k hopen
  · exact Or.inl hK
  · exact Or.inr ⟨x, fun hxc => hne (hxc ▸ hx), hx⟩

/-- `create_overlapped_socket` gives client `c` a socket of its own. -/
theorem SocketsOwned.create (h : SocketsOwned K s) (hok : SocketsOk s) (ht : SocketClosed K s c t)
    (hcr : createOverlappedSocket t sock = some t') (hsock : cl.clSock = sock) :
    SocketsOwned K { s.setClient c cl with sockets := t' } := by
  -- the other clients keep theirs
  have hothers : ∀ k, t k ≠ none → K k ∨ ∃ x, (s.setClient c cl).sockOf x = some k := by
    intro k hk
    rcases ht.owner h hk with hK | ⟨x, hxc, hx⟩
    · exact Or.inl hK
    · exact Or.inr ⟨x, (sockOf_setClient_of_ne hxc).trans hx⟩
  have hapart : ¬ K sock →
      ∀ x k, (s.setClient c cl).sockOf x = some k → ¬ K k := by
    intro hK x k hx
    by_cases hxc : x = c
    · subst hxc
      obtain rfl : cl.clSock = k := Option.some.inj (sockOf_setClient_self.symm.trans hx)
      rwa [hsock]
    · exact h.apart x k ((sockOf_setClient_of_ne hxc).symm.trans hx)
  rcases createOverlappedSocket_eq_some hcr with ⟨rfl, rfl⟩ | ⟨-, hfree, rfl⟩
  · exact ⟨ht.kept, hapart (h.not_invalid hok), hothers⟩
  · have hK : ¬ K sock := fun hk => ht.kept sock hk hfree
    have hother : ∀ k, k ≠ sock → Function.update t sock (some false) k = t k := fun k hk =>
      Function.update_of_ne hk _ _
    refine ⟨fun k hk => ?_, hapart hK, fun k hk => ?_⟩
    · have hne : k ≠ sock := by
        rintro rfl
        exact hK hk
      exact (hother k hne).trans_ne (ht.kept k hk)
    · by_cases heq : k = sock
      · subst heq hsock
        exact Or.inr ⟨c, sockOf_setClient_self⟩
      · exact hothers k ((hother k heq).symm.trans_ne hk)

theorem SocketsOwned.reinit {reuseSocket : Bool} {r : ReinitResult} (h : SocketsOwned K s)
    (hok : SocketsOk s) (hc : s.heap c = some cl)
    (hr : Reinit c cl s.sockets reuseSocket sock r) :
    SocketsOwned K { s.setClient c r.client with sockets := r.sockets } := by
  cases reuseSocket with
  | true =>
    obtain ⟨hk, -, ht, -⟩ := hr.reuse rfl
    rw [ht]
    exact h.of_sockOf (sockOf_setClient hc hk) fun _ => rfl
  | false =>
    obtain ⟨hk, -, -, ht⟩ := hr.replace rfl
    exact h.create hok (h.closed hok hc) ht hk

theorem SocketsOwned.destroy (h : SocketsOwned K s) (hok : SocketsOk s)
    (hc : s.heap c = some cl) : SocketsOwned K (clientDestroy s c cl) := by
  have ht := h.closed hok hc
  have hsock : ∀ x, x ≠ c → (clientDestroy s c cl).sockOf x = s.sockOf x := fun x hx => by
    rw [State.sockOf, State.sockOf, clientDestroy_heap_of_ne hx]
  refine ⟨ht.kept, fun x k hx => ?_, fun k hk => ?_⟩
  · by_cases hxc : x = c
    · subst hxc
      simp [State.sockOf, clientDestroy] at hx
    · exact h.apart x k ((hsock x hxc).symm.trans hx)
  · rcases ht.owner h hk with hK | ⟨x, hxc, hx⟩
    · exact Or.inl hK
    · exact Or.inr ⟨x, (hsock x hxc).trans hx⟩

/-! ## Every reachable state -/

theorem SocketsOwned.mainTrans {call : MainCall} (h : SocketsOwned K s) (hok : SocketsOk s)
    (ht : MainTrans m s call s') : SocketsOwned K s' := by
  cases ht with
  | start ok => cases ok <;> exact ⟨h.opened, h.apart, h.owner⟩
  | reinit c opts cl sock r hpc hc hr =>
    have hs := h.reinit hok hc hr
    exact ⟨hs.opened, hs.apart, hs.owner⟩
  | retry c opts cl sock r hpc hc hr =>
    have hs := h.reinit hok hc hr
    exact ⟨hs.opened, hs.apart, hs.owner⟩
  | create opts c sock sockets hpc hc hsock hcr =>
    have hnew : (newClient sock).clSock = sock := rfl
    have hs := h.create hok (h.closed_dead hc) hcr hnew
    exact ⟨hs.opened, hs.apart, hs.owner⟩
  | addToList c opts cl node hpc hc => exact h.of_sockOf (sockOf_setClient hc rfl) fun _ => rfl
  | removeFromList site c opts cl hpc hc hv =>
    exact h.of_sockOf (sockOf_setClient hc rfl) fun _ => rfl
  | destroyEnough c opts cl hpc hc =>
    have hs := h.destroy hok hc
    exact ⟨hs.opened, hs.apart, hs.owner⟩
  | destroyFailed c opts cl hpc hc =>
    have hs := h.destroy hok hc
    exact ⟨hs.opened, hs.apart, hs.owner⟩
  | _ => exact ⟨h.opened, h.apart, h.owner⟩

theorem SocketsOwned.trans (h : SocketsOwned K s) (hok : SocketsOk s) (ht : Trans m s a s') :
    SocketsOwned K s' := by
  cases ht with
  | main hm => exact h.mainTrans hok hm
  | worker hw ht =>
    have hf := workerTrans_frame ht
    exact h.of_sockOf hf.sockOf hf.opened
  | ctrlShutDownIocp ok => cases ok <;> exact ⟨h.opened, h.apart, h.owner⟩
  | _ => exact ⟨h.opened, h.apart, h.owner⟩

/-- The socket that the server listens on, if it is one. -/
def Listening (svSock k : Socket) : Prop := k = svSock ∧ k ≠ invalidSocket

theorem socketsOwned_init (svSock : Socket) (n : ℕ) :
    SocketsOwned (Listening svSock) (State.init svSock n) := by
  refine ⟨?_, by simp [State.sockOf, State.init], fun k hk => Or.inl ?_⟩
  · rintro k ⟨rfl, hk⟩
    simp [State.init, hk]
  · obtain ⟨rfl, hne⟩ : k = svSock ∧ svSock ≠ invalidSocket := by
      by_contra hno
      exact hk (if_neg hno)
    exact ⟨rfl, hne⟩

theorem ServerRun.socketsOwned {svSock : Socket} {n : ℕ} {tr : List (State × Action)}
    (hrun : ServerRun m svSock n tr s) : SocketsOk s ∧ SocketsOwned (Listening svSock) s :=
  hrun.invariant (I := fun s => SocketsOk s ∧ SocketsOwned (Listening svSock) s)
    ⟨socketsOk_init svSock n, socketsOwned_init svSock n⟩ fun _ _ _ h hs =>
      ⟨h.1.trans (trans_of_step hs).2, h.2.trans h.1 (trans_of_step hs).2⟩

/-! ## Cleaning up -/

/-- Once the listening socket is closed, the open sockets are those of the clients. -/
theorem SocketsOwned.stopListening {svSock : Socket} (h : SocketsOwned (Listening svSock) s)
    (hok : SocketsOk s) :
    SocketsOk { s with sockets := closesocket s.sockets svSock } ∧
      SocketsOwned (fun _ => False) { s with sockets := closesocket s.sockets svSock } := by
  have hne : ∀ k, closesocket s.sockets svSock k ≠ none → k ≠ svSock := by
    rintro k hk rfl
    exact hk (Function.update_self _ _ _)
  have hclosed : ∀ k, k ≠ svSock → closesocket s.sockets svSock k = s.sockets k := fun k hk =>
    Function.update_of_ne hk _ _
  refine ⟨⟨?_, fun c cl hc hk => ?_, hok.distinct⟩, fun _ => False.elim, by simp, fun k hk => ?_⟩
  · by_contra hinv
    exact hinv ((hclosed _ (hne _ hinv)).trans hok.invalid)
  · have hsv : cl.clSock ≠ svSock := fun heq => h.apart c _ (sockOf_eq hc) ⟨heq, hk⟩
    exact (hclosed _ hsv).trans_ne (hok.opened c cl hc hk)
  · have hsv := hne k hk
    obtain hK | howner := h.owner k ((hclosed k hsv).symm.trans_ne hk)
    · exact absurd hK.1 hsv
    · exact Or.inr howner

/-- `dlist_for_each` with `client_destructor` closes the sockets of the clients on the list. -/
theorem SocketsOwned.destructorAll {cs : List ClientPtr} (h : SocketsOwned K s)
    (hok : SocketsOk s) (hs : clientDestructorAll s cs = some s') :
    SocketsOk s' ∧ SocketsOwned K s' ∧ ∀ c, s'.Live c → s'.heap c = s.heap c := by
  induction cs generalizing s with
  | nil =>
    obtain rfl := Option.some.inj hs
    exact ⟨hok, h, fun _ _ => rfl⟩
  | cons c cs ih =>
    rw [clientDestructorAll] at hs
    split at hs
    · simp at hs
    · next cl hc =>
      obtain ⟨hok', h', hheap⟩ := ih (h.destroy hok hc) (hok.destroy hc) hs
      refine ⟨hok', h', fun x hx => ?_⟩
      have hrec := hheap x hx
      have hxc : x ≠ c := by
        rintro rfl
        have hdead : s'.heap x = none := hrec.trans (Function.update_self _ _ _)
        simp [State.Live, hdead] at hx
      exact hrec.trans (clientDestroy_heap_of_ne hxc)

end owned

end AioServer.Windows
