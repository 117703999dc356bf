import AioServer.Windows.Accounting
import AioServer.Windows.Removal

/-!
# The Windows server: the client list

`sv_clients` and the flag `cl_is_tracked` both say which clients exist.
`server_add_client_to_list` sets the flag whether or not `dlist_push_head` could allocate a
node, so the list misses a client from the first failed allocation on. In a run without one
the list is exact at every quiet point of the accept thread (`ServerRun.listExact`), and
`server_cleanup_and_shutdown` destroys every client once.
-/

namespace AioServer.Windows

open Lib

/-! ## Shutdown -/

/-- `dlist_for_each` with `client_destructor`; `none` if it is given a released client. -/
def clientDestructorAll (s : State) : List ClientPtr → Option State
  | [] => some s
  | c :: cs =>
    match s.heap c with
    | none => none
    | some cl => clientDestructorAll (clientDestroy s c cl) cs

/-- `server_cleanup_and_shutdown`, up to the lists and the clients. It waits for the workers,
and the accept thread calls it after its loop. -/
def serverCleanupAndShutdown (s : State) : Option State :=
  if s.main = .left ∧ ∀ w ∈ s.workers, w.pc = .left then
    (clientDestructorAll { s with sockets := closesocket s.sockets s.svSock } s.svClients).map
      fun s => { s with svClients := [] }
  else none

theorem clientDestructorAll_of_nodup {s : State} {cs : List ClientPtr} (hnd : cs.Nodup)
    (hlive : ∀ c ∈ cs, s.Live c) :
    ∃ s', clientDestructorAll s cs = some s' ∧ ∀ c, s'.Live c ↔ s.Live c ∧ c ∉ cs := by
  -- destroying the head leaves the rest of the list live, as it does not occur there
  induction cs generalizing s with
  | nil => exact ⟨s, rfl, by simp⟩
  | cons c cs ih =>
    obtain ⟨cl, hcl⟩ := Option.isSome_iff_exists.mp (hlive c (by simp))
    rw [List.nodup_cons] at hnd
    have hother : ∀ x, x ≠ c → ((clientDestroy s c cl).Live x ↔ s.Live x) := by
      intro x hx
      rw [State.Live, State.Live, clientDestroy_heap_of_ne hx]
    have hne : ∀ x ∈ cs, x ≠ c := fun x hx h => hnd.1 (h ▸ hx)
    obtain ⟨s', hs', hl⟩ := ih hnd.2 fun x hx =>
      (hother x (hne x hx)).mpr (hlive x (List.mem_cons_of_mem c hx))
    refine ⟨s', by rw [clientDestructorAll, hcl]; exact hs', fun x => ?_⟩
    rw [hl x]
    by_cases hx : x = c
    · subst hx
      simp [not_live_clientDestroy]
    · simp [hother x hx, hx]

/-! ## The invariant -/

/-- `dlist_push_head` returns NULL to `server_add_client_to_list`. -/
def Action.pushFails : Action → Bool
  | .main (.dlistPushHead node) => !node
  | _ => false

/-- The list against the live clients and their flags. -/
structure ListOk (s : State) : Prop where
  nodup : s.svClients.Nodup
  mem_iff : ∀ c, c ∈ s.svClients ↔ s.Live c ∧ s.main.unlisted ≠ some c
  tracked : ∀ c cl, s.heap c = some cl → (cl.clIsTracked = true ↔ c ∈ s.svClients)
  /-- A client without a socket is in the hand of the accept thread. -/
  invalid : ∀ c cl, s.heap c = some cl → cl.clSock = invalidSocket → s.main.client = some c

theorem listOk_init (svSock : Socket) (n : ℕ) : ListOk (State.init svSock n) := by
  constructor <;> simp [State.init, State.Live]

theorem ListOk.sound {s : State} (h : ListOk s) : ListSound s :=
  ⟨h.nodup, fun c => (h.mem_iff c).mp, h.invalid⟩

/-- A list that is sound is exact if it has every live client and the flags say so. -/
theorem ListSound.listOk {s : State} (h : ListSound s)
    (hfull : ∀ c, s.Live c → s.main.unlisted ≠ some c → c ∈ s.svClients)
    (htracked : ∀ c cl, s.heap c = some cl → (cl.clIsTracked = true ↔ c ∈ s.svClients)) :
    ListOk s :=
  ⟨h.nodup, fun c => ⟨h.listed c, fun hc => hfull c hc.1 hc.2⟩, htracked, h.invalid⟩

/-- What a worker leaves alone is all that `ListOk` reads. -/
theorem ListOk.frame {s s' : State} (h : ListOk s) (hf : SameListing s s') : ListOk s' := by
  refine (h.sound.frame hf).listOk ?_ ?_
  · intro c hlive hne
    rw [hf.svClients]
    exact (h.mem_iff c).mpr ⟨(hf.live_iff c).mp hlive, hf.main ▸ hne⟩
  · intro c cl' hc
    have hlisting : s.listing c = some (cl'.clSock, cl'.clIsTracked) := by
      rw [← hf.listing c, State.listing, hc]
      rfl
    obtain ⟨cl, hcl, -, ht⟩ := listing_eq_some.mp hlisting
    rw [hf.svClients, ← ht]
    exact h.tracked c cl hcl

/-! ## The accept thread -/

/-- The accept thread moves; heap and list stay. -/
theorem ListOk.move {s s' : State} (h : ListOk s) (hs' : ListSound s') (hheap : s'.heap = s.heap)
    (hlist : s'.svClients = s.svClients) (hu : s'.main.unlisted = s.main.unlisted) :
    ListOk s' := by
  refine hs'.listOk ?_ ?_
  · intro c hlive hne
    rw [State.Live, hheap] at hlive
    rw [hlist]
    exact (h.mem_iff c).mpr ⟨hlive, hu ▸ hne⟩
  · intro c cl hc
    rw [hlist]
    exact h.tracked c cl (hheap ▸ hc)

/-- The accept thread writes a field of its client other than `cl_is_tracked`. -/
theorem ListOk.write {s s' : State} {c : ClientPtr} {cl cl' : Client} (h : ListOk s)
    (hs' : ListSound s') (hc : s.heap c = some cl)
    (hheap : s'.heap = Function.update s.heap c (some cl'))
    (hlist : s'.svClients = s.svClients) (htr : cl'.clIsTracked = cl.clIsTracked)
    (hu : s'.main.unlisted = s.main.unlisted) : ListOk s' := by
  refine hs'.listOk ?_ ?_
  · intro x hlive hne
    rw [hlist]
    refine (h.mem_iff x).mpr ⟨?_, hu ▸ hne⟩
    rw [State.Live, hheap] at hlive
    by_cases hxc : x = c
    · simp [hxc, State.Live, hc]
    · rwa [Function.update_of_ne hxc] at hlive
  · intro x clx hx
    rw [hlist]
    rw [hheap] at hx
    by_cases hxc : x = c
    · subst hxc
      obtain rfl : cl' = clx := by simpa using hx
      rw [htr]
      exact h.tracked x cl hc
    · rw [Function.update_of_ne hxc] at hx
      exact h.tracked x clx hx

theorem ListOk.remove {s : State} (h : ListOk s) (hsock : SocketsOk s) {c : ClientPtr}
    {cl : Client} {site : CleanupSite} {opts : Bool} (hpc : s.main = .removeFromList site c opts)
    (hc : s.heap c = some cl) :
    ListOk ((serverRemoveClientFromList s c cl).setMain (.destroy site c opts)) := by
  have herase := h.sound.removeItem_eq_erase hsock (show s.Live c by simp [State.Live, hc])
  refine (h.sound.remove hsock hpc hc).listOk ?_ ?_
  · intro x hlive hne
    show x ∈ (Sequence.removeItem s.compare c s.svClients).2
    rw [herase, h.nodup.mem_erase_iff]
    refine ⟨fun hxc => hne (by rw [hxc]; rfl),
      (h.mem_iff x).mpr ⟨?_, by simp [hpc, MainPc.unlisted]⟩⟩
    exact (live_setClient hc x).mp hlive
  · intro x clx hx
    show clx.clIsTracked = true ↔ x ∈ (Sequence.removeItem s.compare c s.svClients).2
    rw [herase, h.nodup.mem_erase_iff]
    rcases setClient_heap_cases hx with ⟨rfl, rfl⟩ | ⟨hxc, hx⟩
    · simp
    · simp [hxc, h.tracked x clx hx]

theorem ListOk.add {s : State} (h : ListOk s) {c : ClientPtr} {cl : Client} {opts : Bool}
    (hpc : s.main = .addToList c opts) (hc : s.heap c = some cl) :
    ListOk ((serverAddClientToList s c cl true).setMain (.postAcceptEx c opts)) := by
  refine (h.sound.add hpc hc).listOk ?_ ?_
  · intro x hlive _
    show x ∈ c :: s.svClients
    by_cases hxc : x = c
    · rw [hxc]
      exact List.mem_cons_self
    · have hlive := (live_setClient hc x).mp hlive
      have hmem := (h.mem_iff x).mpr ⟨hlive, by simp [hpc, MainPc.unlisted, Ne.symm hxc]⟩
      exact List.mem_cons_of_mem c hmem
  · intro x clx hx
    show clx.clIsTracked = true ↔ x ∈ c :: s.svClients
    rcases setClient_heap_cases hx with ⟨rfl, rfl⟩ | ⟨hxc, hx⟩
    · simp
    · simp [hxc, h.tracked x clx hx]

theorem ListOk.enter {s : State} (h : ListOk s) {c : ClientPtr} {sock : Socket}
    {sockets : SocketTable} {opts : Bool} (hpc : s.main = .create opts) (hc : s.heap c = none) :
    ListOk ({ s.setClient c (newClient sock) with sockets := sockets }.setMain
      (.addToList c opts)) := by
  have hnot : c ∉ s.svClients := by
    intro hmem
    have hl := ((h.mem_iff c).mp hmem).1
    simp [State.Live, hc] at hl
  refine (h.sound.enter hpc hc).listOk ?_ ?_
  · intro x hlive hne
    have hxc : x ≠ c := fun hxc => hne (by rw [hxc]; rfl)
    change ((s.setClient c _).heap x).isSome at hlive
    rw [setClient_heap_of_ne hxc] at hlive
    exact (h.mem_iff x).mpr ⟨hlive, by simp [hpc, MainPc.unlisted]⟩
  · intro x clx hx
    show clx.clIsTracked = true ↔ x ∈ s.svClients
    rcases setClient_heap_cases hx with ⟨rfl, rfl⟩ | ⟨hxc, hx⟩
    · simp [hnot, newClient]
    · exact h.tracked x clx hx

theorem ListOk.leave {s : State} (h : ListOk s) {c : ClientPtr} {cl : Client}
    {site : CleanupSite} {opts : Bool} {pc : MainPc} (hpc : s.main = .destroy site c opts)
    (hpc' : pc.unlisted = none) : ListOk ((clientDestroy s c cl).setMain pc) := by
  refine (h.sound.leave hpc hpc').listOk ?_ ?_
  · intro x hlive _
    have hxc : x ≠ c := fun hxc => not_live_clientDestroy s c cl (hxc ▸ hlive)
    change ((clientDestroy s c cl).heap x).isSome at hlive
    rw [clientDestroy_heap_of_ne hxc] at hlive
    exact (h.mem_iff x).mpr ⟨hlive, by simp [hpc, MainPc.unlisted, Ne.symm hxc]⟩
  · intro x clx (hx : (clientDestroy s c cl).heap x = some clx)
    exact h.tracked x clx (clientDestroy_heap_eq_some hx).2

theorem ListOk.mainTrans {m : ℤ} {s s' : State} {call : MainCall} (h : ListOk s)
    (hsock : SocketsOk s) (ht : MainTrans m s call s')
    (hpush : (Action.main call).pushFails = false) : ListOk s' := by
  have hs' := h.sound.mainTrans hsock ht
  cases ht with
  | start ok hpc =>
    exact h.move hs' (by cases ok <;> rfl) (by cases ok <;> rfl) (by rw [hpc]; rfl)
  | dequeueFails hpc => exact h
  | reinit c opts cl sock r hpc hc hr =>
    exact h.write hs' hc rfl rfl hr.tracked (by rw [hpc]; rfl)
  | retry c opts cl sock r hpc hc hr =>
    exact h.write hs' hc rfl rfl hr.tracked (by rw [hpc]; rfl)
  | create opts c sock sockets hpc hc hk ht => exact h.enter hpc hc
  | addToList c opts cl node hpc hc =>
    obtain rfl : node = true := by simpa [Action.pushFails] using hpush
    exact h.add hpc hc
  | removeFromList site c opts cl hpc hc hv => exact h.remove hsock hpc hc
  | destroyEnough c opts cl hpc hc => exact h.leave hpc rfl
  | destroyFailed c opts cl hpc hc => exact h.leave hpc rfl
  | crash call c hdead hc => exact ⟨h.nodup, h.mem_iff, h.tracked, h.invalid⟩
  | _ =>
    have hpc := ‹s.main = _›
    exact h.move hs' rfl rfl (by rw [hpc]; rfl)

theorem ListOk.trans {m : ℤ} {s s' : State} {a : Action} (h : ListOk s) (hsock : SocketsOk s)
    (ht : Trans m s a s') (hpush : a.pushFails = false) : ListOk s' := by
  cases ht with
  | main hm => exact h.mainTrans hsock hm hpush
  | worker hw ht => exact h.frame (workerTrans_frame ht)
  | ctrlShutDownIocp ok => cases ok <;> exact ⟨h.nodup, h.mem_iff, h.tracked, h.invalid⟩
  | _ => exact ⟨h.nodup, h.mem_iff, h.tracked, h.invalid⟩

/-! ## Every run -/

/-- The accept thread is neither between `client_create` and the end of
`server_add_client_to_list` nor inside `server_cleanup_client_data`. -/
def MainPc.quiet : MainPc → Bool
  | .addToList .. | .removeFromList .. | .destroy .. => false
  | _ => true

/-- The list and the flags say exactly which clients are live. -/
structure ListExact (s : State) : Prop where
  nodup : s.svClients.Nodup
  listed : ∀ c, c ∈ s.svClients ↔ s.Live c
  tracked : ∀ c cl, s.heap c = some cl → cl.clIsTracked = true

/-- Cleaning up takes every live client off the list and destroys it: `clientDestructorAll`
fails if it meets one that is already destroyed. -/
def CleansUp (s : State) : Prop :=
  ∃ s', serverCleanupAndShutdown s = some s' ∧ s'.svClients = [] ∧ ∀ c, ¬ s'.Live c

theorem ListOk.exact {s : State} (h : ListOk s) (hq : s.main.quiet = true) : ListExact s := by
  have hu : s.main.unlisted = none := by
    cases hpc : s.main <;> simp_all [MainPc.quiet, MainPc.unlisted]
  have hmem : ∀ c, c ∈ s.svClients ↔ s.Live c := by
    intro c
    rw [h.mem_iff, hu]
    simp
  exact ⟨h.nodup, hmem, fun c cl hc =>
    (h.tracked c cl hc).mpr ((hmem c).mpr (by simp [State.Live, hc]))⟩

theorem ListExact.cleansUp {s : State} (h : ListExact s) (hmain : s.main = .left)
    (hws : ∀ w ∈ s.workers, w.pc = .left) : CleansUp s := by
  obtain ⟨s', hs', hl⟩ := clientDestructorAll_of_nodup
    (s := { s with sockets := closesocket s.sockets s.svSock }) h.nodup
    fun c hc => (h.listed c).mp hc
  refine ⟨{ s' with svClients := [] }, ?_, rfl, fun c hc => ?_⟩
  · rw [serverCleanupAndShutdown, if_pos ⟨hmain, hws⟩, hs']
    rfl
  · obtain ⟨hc1, hc2⟩ := (hl c).mp hc
    exact hc2 ((h.listed c).mpr hc1)

section run

variable {m : ℤ} {svSock : Socket} {n : ℕ} {tr : List (State × Action)} {s : State}

theorem ServerRun.listOk (hrun : ServerRun m svSock n tr s)
    (htr : ∀ x ∈ tr, x.2.pushFails = false) : ListOk s := by
  have h : SocketsOk s ∧ ListOk s := by
    refine hrun.invariant_of (I := fun s => SocketsOk s ∧ ListOk s) htr
      ⟨socketsOk_init svSock n, listOk_init svSock n⟩ fun s a s' hI ha hs => ?_
    have ht := (trans_of_step hs).2
    exact ⟨hI.1.trans ht, hI.2.trans hI.1 ht ha⟩
  exact h.2

/-- While no node allocation has failed, the list is exact at the quiet points of the accept
thread, and cleaning up destroys every client once. -/
theorem ServerRun.listExact (hrun : ServerRun m svSock n tr s)
    (htr : ∀ x ∈ tr, x.2.pushFails = false) (hq : s.main.quiet = true) :
    ListExact s ∧ (s.main = .left → (∀ w ∈ s.workers, w.pc = .left) → CleansUp s) := by
  have hexact := (hrun.listOk htr).exact hq
  exact ⟨hexact, hexact.cleansUp⟩

end run

/-- One client is created and posted, and the server is shut down. -/
theorem listExact_at_shutdown : ∃ tr s, ServerRun 1 1 1 tr s ∧ s.Live 5 ∧ ListExact s ∧
    CleansUp s := by
  have hrun : ∃ tr s, ServerRun 1 1 1 tr s ∧ s.Live 5 ∧ s.main = .left ∧
      (∀ w ∈ s.workers, w.pc = .left) ∧ ∀ x ∈ tr, x.2.pushFails = false :=
    ⟨_, _, run_of_exec (show exec (step 1) (State.init 1 1) (acceptedClient.take 7 ++
      [.main .atomicLoad, .ctrlShutDownIocp true, .ctrlShutDownAccept true,
        .main (.getQueuedCompletionStatus true),
        .worker 0 (.getQueuedCompletionStatusEx (some 1)), .worker 0 .tau,
        .worker 0 (.postQueuedCompletionStatus true)]) = some (_, _) from rfl),
      rfl, rfl, by decide, by decide⟩
  obtain ⟨tr, s, hrun, hl, hmain, hws, htr⟩ := hrun
  have hexact := hrun.listExact htr (by rw [hmain]; rfl)
  exact ⟨tr, s, hrun, hl, hexact.1, hexact.2 hmain hws⟩

/-- A client is created, posted and flagged as tracked, and is on no list. -/
theorem untracked_after_failed_push : ¬ ∀ (m : ℤ) (svSock : Socket) (n : ℕ)
    (tr : List (State × Action)) (s : State), ServerRun m svSock n tr s →
    s.main.quiet = true →
    ListExact s ∧ (s.main = .left → (∀ w ∈ s.workers, w.pc = .left) → CleansUp s) := by
  intro h
  have hrun : ∃ tr s, ServerRun 1 1 1 tr s ∧ s.main.quiet = true ∧ s.svClients = [] ∧ s.Live 5 :=
    ⟨_, _, run_of_exec (show exec (step 1) (State.init 1 1) (acceptedClient.take 4 ++
      [.main (.dlistPushHead false), .main (.acceptEx .success), .main .atomicIncrement])
      = some (_, _) from rfl), rfl, rfl, rfl⟩
  obtain ⟨tr, s, hrun, hq, hempty, hl⟩ := hrun
  have hmem := ((h 1 1 1 tr s hrun hq).1.listed 5).mpr hl
  simp [hempty] at hmem

end AioServer.Windows
