import AioServer.Windows.Stations

/-!
# The Windows server: removing a client from the list

`dlist_remove_item` looks for a client by its socket, and `client_reinit` changes the sockets
of clients that are on the list.

* `ListSound`: the list names live clients, each once, and a client without a socket is the
  one that the accept thread is working on;
* `compare_eq_zero_iff`: so only the client itself compares equal to the client to be removed;
* `ServerRun.removes_own_node`: every removal of every run takes this client off the list and
  no other, whether or not `dlist_push_head` had put it there.
-/

namespace AioServer.Windows

open Lib

/-! ## The invariant -/

/-- The client that is live and not, or no longer, on the list. -/
def MainPc.unlisted : MainPc → Option ClientPtr
  | .addToList c _ | .destroy _ c _ => some c
  | _ => none

/-- The list against the live clients. -/
structure ListSound (s : State) : Prop where
  nodup : s.svClients.Nodup
  listed : ∀ c ∈ s.svClients, s.Live c ∧ s.main.unlisted ≠ some c
  /-- A client without a socket is in the hand of the accept thread. -/
  invalid : ∀ c cl, s.heap c = some cl → cl.clSock = invalidSocket → s.main.client = some c

theorem listSound_init (svSock : Socket) (n : ℕ) : ListSound (State.init svSock n) := by
  constructor <;> simp [State.init]

/-- Among the other clients none lacks a socket while the accept thread has `c` or nothing. -/
theorem ListSound.invalid_other {s : State} (h : ListSound s) {c x : ClientPtr} {clx : Client}
    (hmain : ∀ y, s.main.client = some y → y = c) (hx : s.heap x = some clx)
    (hk : clx.clSock = invalidSocket) : x = c :=
  hmain x (h.invalid x clx hx hk)

/-- What a worker leaves alone is all that `ListSound` reads. -/
theorem ListSound.frame {s s' : State} (h : ListSound s) (hf : SameListing s s') :
    ListSound s' := by
  constructor
  · rw [hf.svClients]
    exact h.nodup
  · intro c hc
    rw [hf.svClients] at hc
    rw [hf.main, hf.live_iff]
    exact h.listed c hc
  · intro c cl' hc hk
    have hlisting : s.listing c = some (cl'.clSock, cl'.clIsTracked) := by
      rw [← hf.listing c, State.listing, hc]
      rfl
    obtain ⟨cl, hcl, hs, -⟩ := listing_eq_some.mp hlisting
    rw [hf.main]
    exact h.invalid c cl hcl (hs.trans hk)

/-! ## The accept thread -/

/-- The accept thread moves; heap and list stay. -/
theorem ListSound.move {s s' : State} (h : ListSound s) (hheap : s'.heap = s.heap)
    (hlist : s'.svClients = s.svClients) (hu : s'.main.unlisted = s.main.unlisted)
    (hkeep : ∀ c cl, s.heap c = some cl → cl.clSock = invalidSocket → s.main.client = some c →
      s'.main.client = some c) : ListSound s' := by
  constructor
  · rw [hlist]
    exact h.nodup
  · intro c hc
    rw [hlist] at hc
    rw [hu, State.Live, hheap]
    exact h.listed c hc
  · intro c cl hc hk
    rw [hheap] at hc
    exact hkeep c cl hc hk (h.invalid c cl hc hk)

/-- The accept thread writes a field of its client. -/
theorem ListSound.write {s s' : State} {c : ClientPtr} {cl' : Client} (h : ListSound s)
    (hheap : s'.heap = Function.update s.heap c (some cl'))
    (hlist : s'.svClients = s.svClients) (hmain : s.main.client = some c)
    (hmain' : s'.main.client = some c) (hu : s'.main.unlisted = s.main.unlisted) :
    ListSound s' := by
  constructor
  · rw [hlist]
    exact h.nodup
  · intro x hx
    rw [hlist] at hx
    obtain ⟨hlive, hne⟩ := h.listed x hx
    refine ⟨?_, hu ▸ hne⟩
    rw [State.Live, hheap]
    by_cases hxc : x = c
    · rw [hxc, Function.update_self]
      rfl
    · rw [Function.update_of_ne hxc]
      exact hlive
  · intro x clx hx hk
    by_cases hxc : x = c
    · rw [hxc, hmain']
    · rw [hheap, Function.update_of_ne hxc] at hx
      exact absurd (h.invalid_other (by simp [hmain]) hx hk) hxc

/-- Only the client itself compares equal to the client that is removed. -/
theorem compare_eq_zero_iff {s : State} (h : ListSound s) (hsock : SocketsOk s) {c x : ClientPtr}
    (hc : s.Live c) (hx : s.Live x) : s.compare x c = 0 ↔ x = c := by
  obtain ⟨cl, hcl⟩ := Option.isSome_iff_exists.mp hc
  obtain ⟨clx, hclx⟩ := Option.isSome_iff_exists.mp hx
  have hcmp : s.compare x c = clientCompareFn clx cl := by simp [State.compare, hcl, hclx]
  rw [hcmp, clientCompareFn_eq_zero]
  constructor
  · intro heq
    -- two clients without a socket would compare equal, but only one is in the hand
    by_cases hk : clx.clSock = invalidSocket
    · have hmx := h.invalid x clx hclx hk
      rw [h.invalid c cl hcl (heq ▸ hk)] at hmx
      exact (Option.some.inj hmx).symm
    · exact hsock.distinct x c clx cl hclx hcl heq hk
  · rintro rfl
    obtain rfl : cl = clx := by simpa [hcl] using hclx
    rfl

/-- Looking for `c` by its socket takes `c` off the list. -/
theorem ListSound.removeItem_eq_erase {s : State} (h : ListSound s) (hsock : SocketsOk s)
    {c : ClientPtr} (hc : s.Live c) :
    (Sequence.removeItem s.compare c s.svClients).2 = s.svClients.erase c :=
  Sequence.removeItem_snd_of_unique fun x hx => compare_eq_zero_iff h hsock hc (h.listed x hx).1

theorem ListSound.remove {s : State} (h : ListSound s) (hsock : SocketsOk s) {c : ClientPtr}
    {cl : Client} {site : CleanupSite} {opts : Bool} (hpc : s.main = .removeFromList site c opts)
    (hc : s.heap c = some cl) :
    ListSound ((serverRemoveClientFromList s c cl).setMain (.destroy site c opts)) := by
  have herase := h.removeItem_eq_erase hsock (show s.Live c by simp [State.Live, hc])
  constructor
  · show (Sequence.removeItem s.compare c s.svClients).2.Nodup
    rw [herase]
    exact h.nodup.erase c
  · intro x hx
    change x ∈ (Sequence.removeItem s.compare c s.svClients).2 at hx
    rw [herase, h.nodup.mem_erase_iff] at hx
    exact ⟨(live_setClient hc x).mpr (h.listed x hx.2).1,
      fun heq => hx.1 (Option.some.inj heq).symm⟩
  · intro x clx hx hk
    show some c = some x
    rcases setClient_heap_cases hx with ⟨rfl, -⟩ | ⟨hxc, hx⟩
    · rfl
    · exact absurd (h.invalid_other (by simp [hpc, MainPc.client]) hx hk) hxc

theorem ListSound.add {s : State} (h : ListSound s) {c : ClientPtr} {cl : Client} {opts node : Bool}
    (hpc : s.main = .addToList c opts) (hc : s.heap c = some cl) :
    ListSound ((serverAddClientToList s c cl node).setMain (.postAcceptEx c opts)) := by
  have hnot : c ∉ s.svClients := fun hmem => (h.listed c hmem).2 (by rw [hpc]; rfl)
  constructor
  · cases node with
    | false => exact h.nodup
    | true => exact List.nodup_cons.mpr ⟨hnot, h.nodup⟩
  · intro x hx
    have hlive : s.Live x := by
      cases node with
      | false => exact (h.listed x hx).1
      | true =>
        rcases List.mem_cons.mp hx with rfl | hx
        · simp [State.Live, hc]
        · exact (h.listed x hx).1
    exact ⟨(live_setClient hc x).mpr hlive, by simp [State.setMain, MainPc.unlisted]⟩
  · intro x clx hx hk
    show some c = some x
    rcases setClient_heap_cases hx with ⟨rfl, -⟩ | ⟨hxc, hx⟩
    · rfl
    · exact absurd (h.invalid_other (by simp [hpc, MainPc.client]) hx hk) hxc

theorem ListSound.enter {s : State} (h : ListSound s) {c : ClientPtr} {sock : Socket}
    {sockets : SocketTable} {opts : Bool} (hpc : s.main = .create opts) (hc : s.heap c = none) :
    ListSound ({ s.setClient c (newClient sock) with sockets := sockets }.setMain
      (.addToList c opts)) := by
  constructor
  · exact h.nodup
  · intro x hx
    have hlive := (h.listed x hx).1
    have hxc : x ≠ c := by
      rintro rfl
      simp [State.Live, hc] at hlive
    refine ⟨?_, fun heq => hxc (Option.some.inj heq).symm⟩
    show ((s.setClient c _).heap x).isSome
    rw [setClient_heap_of_ne hxc]
    exact hlive
  · intro x clx hx hk
    show some c = some x
    rcases setClient_heap_cases hx with ⟨rfl, -⟩ | ⟨hxc, hx⟩
    · rfl
    · exact absurd (h.invalid_other (by simp [hpc, MainPc.client]) hx hk) hxc

theorem ListSound.leave {s : State} (h : ListSound s) {c : ClientPtr} {cl : Client}
    {site : CleanupSite} {opts : Bool} {pc : MainPc} (hpc : s.main = .destroy site c opts)
    (hpc' : pc.unlisted = none) : ListSound ((clientDestroy s c cl).setMain pc) := by
  constructor
  · exact h.nodup
  · intro x hx
    obtain ⟨hlive, hne⟩ := h.listed x hx
    have hxc : x ≠ c := by
      rintro rfl
      exact hne (by rw [hpc]; rfl)
    refine ⟨?_, by simp [State.setMain, hpc']⟩
    show ((clientDestroy s c cl).heap x).isSome
    rw [clientDestroy_heap_of_ne hxc]
    exact hlive
  · intro x clx (hx : (clientDestroy s c cl).heap x = some clx) hk
    obtain ⟨hxc, hx⟩ := clientDestroy_heap_eq_some hx
    exact absurd (h.invalid_other (by simp [hpc, MainPc.client]) hx hk) hxc

theorem ListSound.mainTrans {m : ℤ} {s s' : State} {call : MainCall} (h : ListSound s)
    (hsock : SocketsOk s) (ht : MainTrans m s call s') : ListSound s' := by
  cases ht with
  | start ok hpc =>
    refine h.move (by cases ok <;> rfl) (by cases ok <;> rfl) (by rw [hpc]; rfl) ?_
    intro x clx hx hk hmx
    simp [hpc, MainPc.client] at hmx
  | dequeueFails hpc => exact h
  | reinit c opts cl sock r hpc hc hr =>
    exact h.write rfl rfl (by rw [hpc]; rfl) rfl (by rw [hpc]; rfl)
  | retry c opts cl sock r hpc hc hr =>
    exact h.write rfl rfl (by rw [hpc]; rfl) rfl (by rw [hpc]; rfl)
  | create opts c sock sockets hpc hc hk ht => exact h.enter hpc hc
  | addToList c opts cl node hpc hc => exact h.add hpc hc
  | acceptEx c opts cl hpc hc ho =>
    refine h.move rfl rfl (by rw [hpc]; rfl) fun x clx hx hk hmx => ?_
    -- the kernel has accepted an operation on the client's socket
    obtain rfl : c = x := by simpa [hpc, MainPc.client] using hmx
    obtain rfl : cl = clx := by simpa [hc] using hx
    exact absurd (by rw [hk]; exact hsock.invalid) ho
  | removeFromList site c opts cl hpc hc hv => exact h.remove hsock hpc hc
  | destroyEnough c opts cl hpc hc => exact h.leave hpc rfl
  | destroyFailed c opts cl hpc hc => exact h.leave hpc rfl
  | crash call c hdead hc => exact ⟨h.nodup, h.listed, h.invalid⟩
  | _ =>
    have hpc := ‹s.main = _›
    refine h.move rfl rfl (by rw [hpc]; rfl) fun x clx hx hk hmx => ?_
    rw [hpc] at hmx
    first
      | exact hmx
      | simp [MainPc.client] at hmx

theorem ListSound.trans {m : ℤ} {s s' : State} {a : Action} (h : ListSound s)
    (hsock : SocketsOk s) (ht : Trans m s a s') : ListSound s' := by
  cases ht with
  | main hm => exact h.mainTrans hsock hm
  | worker hw ht => exact h.frame (workerTrans_frame ht)
  | ctrlShutDownIocp ok => cases ok <;> exact ⟨h.nodup, h.listed, h.invalid⟩
  | _ => exact ⟨h.nodup, h.listed, h.invalid⟩

/-! ## Every run -/

section run

variable {m : ℤ} {svSock : Socket} {n : ℕ} {tr : List (State × Action)} {s s' : State}

theorem ServerRun.listSound (hrun : ServerRun m svSock n tr s) : ListSound s := by
  have h : SocketsOk s ∧ ListSound s := by
    refine hrun.invariant (I := fun s => SocketsOk s ∧ ListSound s)
      ⟨socketsOk_init svSock n, listSound_init svSock n⟩ fun s a s' hI hs => ?_
    have ht := (trans_of_step hs).2
    exact ⟨hI.1.trans ht, hI.2.trans hI.1 ht⟩
  exact h.2

/-- Every removal takes the node of its own client off the list, if there is one, and no
other. Once `server_cleanup_client_data` was performed for `kAcceptExResultFailed` the accept
thread touches the released client next, so a run has no removals after that one. -/
theorem ServerRun.removes_own_node (hrun : ServerRun m svSock n tr s) {site : CleanupSite}
    {c : ClientPtr} {opts : Bool} (hpc : s.main = .removeFromList site c opts)
    (hs : step m s (.main .dlistRemoveItem) = some s') :
    s.svClients.Nodup ∧ s'.svClients = s.svClients.erase c := by
  have hsound := hrun.listSound
  refine ⟨hsound.nodup, ?_⟩
  cases (trans_of_step hs).2 with
  | main hm =>
    cases hm with
    | removeFromList site' x opts' cl hpc' hc hv =>
      obtain ⟨-, rfl, -⟩ := MainPc.removeFromList.inj (hpc.symm.trans hpc')
      exact hsound.removeItem_eq_erase hrun.socketsOk (by simp [State.Live, hc])
    | crash call x hdead hx =>
      have hdeadnot : ∀ y, s.heap y = none → y ∉ s.svClients := by
        intro y hy hmem
        have hlive := (hsound.listed y hmem).1
        simp [State.Live, hy] at hlive
      rcases hx with hx | ⟨site', y, opts', -, hx⟩
      · rw [hpc] at hx
        obtain rfl : c = x := Option.some.inj hx
        exact (List.erase_of_not_mem (hdeadnot c hdead)).symm
      · have hmem := (Sequence.compared_prefix s.compare y s.svClients).subset hx
        exact absurd hmem (hdeadnot x hdead)

end run

/-- Two clients exist, and `AcceptEx` fails for the second one. -/
theorem removes_second_client : ∃ tr s s', ServerRun 2 1 1 tr s ∧ s.svClients = [6, 5] ∧
    step 2 s (.main .dlistRemoveItem) = some s' ∧ s'.svClients = [5] := by
  have hrun : ∃ tr s, ServerRun 2 1 1 tr s ∧ s.svClients = [6, 5] ∧
      s.main = .removeFromList .acceptExFailed 6 false ∧
      ∃ s', step 2 s (.main .dlistRemoveItem) = some s' :=
    ⟨_, _, run_of_exec (show exec (step 2) (State.init 1 1)
      [.main (.postQueuedCompletionStatus true), .main (.getQueuedCompletionStatus true),
       .main .atomicLoad, .main (.clientCreate (some 5) true 10), .main (.dlistPushHead true),
       .main (.acceptEx .success), .main .atomicIncrement, .main .atomicLoad,
       .main (.clientCreate (some 6) true 11), .main (.dlistPushHead true),
       .main (.acceptEx .failed)] = some (_, _) from rfl), rfl, rfl, _, rfl⟩
  obtain ⟨tr, s, hrun, hlist, hpc, s', hs⟩ := hrun
  have herase := (hrun.removes_own_node hpc hs).2
  rw [hlist] at herase
  exact ⟨tr, s, s', hrun, hlist, hs, herase⟩

end AioServer.Windows
