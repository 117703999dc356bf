import AioServer.Windows.Stations

/-!
# The Windows server: records that a step leaves alone

A thread works on the record of the client in its hand. `step_setClient` says so of `step`
itself: with another record in the place of any other client a step takes the same course, and
it leaves that record there. The exception is `dlist_remove_item`, which looks at `cl_sock` of
the clients that it passes (`ComparesSocket`).
-/

namespace AioServer.Windows

/-- The client in the hand of the thread that moves. -/
def State.hand (s : State) : Action → Option ClientPtr
  | .main _ => s.main.client
  | .worker i _ => s.workers[i]?.bind fun w => w.pc.client
  | _ => none

/-- `server_remove_client_from_list` compares the socket of this client with that of its own. -/
def ComparesSocket (s : State) (a : Action) (c : ClientPtr) : Prop :=
  ∃ site x opts, s.main = .removeFromList site x opts ∧ a = .main .dlistRemoveItem ∧
    c ∈ Sequence.compared s.compare x s.svClients

section step

variable {m : ℤ} {s s' : State} {a : Action} {c x : ClientPtr} {cl old : Client}

/-! ## Lookups in the heap -/

/-- `client_compare_fn` looks at the sockets only. -/
theorem clientCompareFn_congr {left left' right : Client} (h : left.clSock = left'.clSock) :
    clientCompareFn left right = clientCompareFn left' right := by
  simp only [clientCompareFn, h]

theorem compare_setClient (hc : s.heap c = some old) {y : ClientPtr} (hx : x ≠ c)
    (hy : y = c → cl.clSock = old.clSock) : (s.setClient c cl).compare y x = s.compare y x := by
  rw [State.compare, State.compare, setClient_heap_of_ne hx]
  by_cases hyc : y = c
  · subst hyc
    rw [setClient_heap_self, hc]
    cases s.heap x with
    | none => rfl
    | some r => exact clientCompareFn_congr (hy rfl)
  · rw [setClient_heap_of_ne hyc]

theorem withClient_setClient (hx : x ≠ c) {k k' : Client → Option State}
    (hk : ∀ r, k' r = (k r).map fun t => t.setClient c cl) :
    (s.setClient c cl).withClient x k' = (s.withClient x k).map fun t => t.setClient c cl := by
  rw [State.withClient, State.withClient, setClient_heap_of_ne hx]
  cases s.heap x with
  | none => rfl
  | some r => exact hk r

/-! ## The accept thread -/

theorem clientCreate_setClient (hc : s.heap c = some old) (block : Option ClientPtr) (buffer : Bool)
    (sock : Socket) :
    clientCreate (s.setClient c cl) block buffer sock
      = (clientCreate s block buffer sock).map fun r => (r.1, r.2.setClient c cl) := by
  cases block with
  | none => rfl
  | some x =>
    by_cases hx : x = c
    · -- the allocator does not hand out a block that is in use
      subst hx
      simp [clientCreate, hc]
    · simp only [clientCreate, setClient_heap_of_ne hx]
      split_ifs with hfree hbuf hk
      · rfl
      · rfl
      · rw [Option.map_map]
        rfl
      · rw [Option.map_map]
        refine congrArg (Option.map · _) (funext fun t => ?_)
        simp [State.setClient, Function.update_comm hx]

/-- After `client_reinit` the accept thread goes on with its own client. -/
theorem map_clientReinit_setClient (hx : x ≠ c) (r : Option ReinitResult) {failed : MainPc}
    {next : ClientPtr → MainPc} :
    (r.map fun r => match r.clnt with
      | none => { (s.setClient c cl).setClient x r.client with sockets := r.sockets }.setMain failed
      | some y =>
        { (s.setClient c cl).setClient x r.client with sockets := r.sockets }.setMain (next y))
      = (r.map fun r => match r.clnt with
        | none => { s.setClient x r.client with sockets := r.sockets }.setMain failed
        | some y => { s.setClient x r.client with sockets := r.sockets }.setMain (next y)).map
          fun t => t.setClient c cl := by
  rw [Option.map_map]
  refine congrArg (Option.map · _) (funext fun r => ?_)
  cases hclnt : r.clnt <;> simp [hclnt, State.setClient, State.setMain, Function.update_comm hx]

theorem mainStep_setClient {call : MainCall} (hc : s.heap c = some old)
    (hhand : s.main.client ≠ some c)
    (hcmp : ComparesSocket s (.main call) c → cl.clSock = old.clSock) :
    mainStep m (s.setClient c cl) call = (mainStep m s call).map fun t => t.setClient c cl := by
  have hne : ∀ {x : ClientPtr}, s.main.client = some x → x ≠ c := fun hx h => hhand (h ▸ hx)
  have hmain : (s.setClient c cl).main = s.main := rfl
  have hport : (s.setClient c cl).svIocpAccept = s.svIocpAccept := rfl
  have hcount : (s.setClient c cl).svOutstandingAccepts = s.svOutstandingAccepts := rfl
  have hsockets : (s.setClient c cl).sockets = s.sockets := rfl
  have hlist : (s.setClient c cl).svClients = s.svClients := rfl
  unfold mainStep
  rw [hmain]
  split
  case h_1 ok hpc => cases ok <;> rfl
  case h_2 hpc => rfl
  case h_3 hpc =>
    rw [hport]
    split <;> rfl
  case h_4 cli opts hpc =>
    rw [hcount]
    split <;> rfl
  case h_5 x opts sock hpc =>
    have hx := hne (x := x) (by rw [hpc]; rfl)
    exact withClient_setClient hx fun r => map_clientReinit_setClient hx _
  case h_6 opts block buffer sock hpc =>
    rw [clientCreate_setClient hc, Option.map_map, Option.map_map]
    refine congrArg (Option.map · _) (funext fun r => ?_)
    obtain ⟨x, t⟩ := r
    cases x <;> rfl
  case h_7 x opts node hpc =>
    have hx := hne (x := x) (by rw [hpc]; rfl)
    refine withClient_setClient hx fun r => ?_
    simp [serverAddClientToList, State.setClient, State.setMain, Function.update_comm hx]
  case h_8 x opts hpc =>
    refine withClient_setClient (hne (by rw [hpc]; rfl)) fun r => ?_
    rw [hsockets]
    split_ifs <;> rfl
  case h_9 x opts hpc => exact withClient_setClient (hne (by rw [hpc]; rfl)) fun r => rfl
  case h_10 x opts hpc => exact withClient_setClient (hne (by rw [hpc]; rfl)) fun r => rfl
  case h_11 opts hpc => rfl
  case h_12 x opts sock hpc =>
    have hx := hne (x := x) (by rw [hpc]; rfl)
    exact withClient_setClient hx fun r => map_clientReinit_setClient hx _
  case h_13 site x opts hpc =>
    have hx := hne (x := x) (by rw [hpc]; rfl)
    -- the search goes the same way
    have hsame : ∀ y ∈ Sequence.compared s.compare x s.svClients,
        s.compare y x = (s.setClient c cl).compare y x := fun y hy =>
      (compare_setClient hc hx fun hyc => hcmp ⟨site, x, opts, hpc, rfl, hyc ▸ hy⟩).symm
    obtain ⟨hremove, hcompared⟩ := Sequence.removeItem_congr hsame
    have hlive : ∀ y, ((s.setClient c cl).heap y).isSome = (s.heap y).isSome := fun y =>
      Bool.eq_iff_iff.mpr (live_setClient hc y)
    refine withClient_setClient hx fun r => ?_
    simp only [hlist, ← hcompared, hlive]
    split_ifs
    · simpa [serverRemoveClientFromList, State.setClient, State.setMain, Function.update_comm hx]
        using congrArg Prod.snd hremove.symm
    · rfl
  case h_14 site x opts hpc =>
    have hx := hne (x := x) (by rw [hpc]; rfl)
    refine withClient_setClient hx fun r => ?_
    cases site <;> simp [clientDestroy, State.setClient, State.setMain, Function.update_comm hx]
  case h_15 => rfl

/-! ## The workers -/

theorem workerStep_setClient {i : ℕ} {w : Worker} {call : WorkerCall}
    (hhand : w.pc.client ≠ some c) :
    workerStep (s.setClient c cl) i w call
      = (workerStep s i w call).map fun t => t.setClient c cl := by
  -- a step that looks at the client in the hand
  have hwith : ∀ {x : ClientPtr} {k k' : Client → Option State}, w.pc.client = some x →
      (∀ r, x ≠ c → k' r = (k r).map fun t => t.setClient c cl) →
      (s.setClient c cl).withClient x k' = (s.withClient x k).map fun t => t.setClient c cl := by
    intro x k k' hx hk
    have hne : x ≠ c := fun h => hhand (h ▸ hx)
    exact withClient_setClient hne fun r => hk r hne
  have hsockets : (s.setClient c cl).sockets = s.sockets := rfl
  have hiocp : (s.setClient c cl).svIocp = s.svIocp := rfl
  unfold workerStep
  split
  case h_1 hpc => rfl
  case h_2 k hpc =>
    rw [hiocp]
    split_ifs <;> rfl
  case h_3 ok hpc => cases ok <;> rfl
  case h_4 hpc => split <;> rfl
  case h_5 n hpc => exact hwith (by rw [hpc]; rfl) fun r _ => rfl
  case h_6 x ok hpc => exact hwith (by rw [hpc]; rfl) fun r _ => rfl
  case h_7 x hpc =>
    refine hwith (by rw [hpc]; rfl) fun r _ => ?_
    split_ifs <;> rfl
  case h_8 x ok hpc =>
    refine hwith (by rw [hpc]; rfl) fun r _ => ?_
    rw [hsockets]
    split_ifs <;> rfl
  case h_9 x ok hpc =>
    refine hwith (by rw [hpc]; rfl) fun r hx => ?_
    cases ok <;> simp [State.setClient, State.setWorker, State.issue, Function.update_comm hx]
  case h_10 hpc => rfl
  case h_11 hpc => rfl
  case h_12 x hpc => exact hwith (by rw [hpc]; rfl) fun r _ => rfl
  case h_13 x path hpc => exact hwith (by rw [hpc]; rfl) fun r _ => rfl
  case h_14 x hpc =>
    refine hwith (by rw [hpc]; rfl) fun r hx => ?_
    simp [State.setClient, State.setWorker, Function.update_comm hx]
  case h_15 x path h hpc =>
    refine hwith (by rw [hpc]; rfl) fun r hx => ?_
    simp [State.setClient, State.setWorker, Function.update_comm hx]
  case h_16 x ok hpc =>
    refine hwith (by rw [hpc]; rfl) fun r hx => ?_
    cases ok <;> simp [State.setClient, State.setWorker, Function.update_comm hx]
  case h_17 x ok hpc =>
    refine hwith (by rw [hpc]; rfl) fun r _ => ?_
    cases ok <;> rfl
  case h_18 x bytes hpc => rfl
  case h_19 x hpc =>
    refine hwith (by rw [hpc]; rfl) fun r hx => ?_
    simp [State.setClient, State.setWorker, Function.update_comm hx]
  case h_20 site x opts ok hpc => cases ok <;> rfl
  case h_21 => rfl

/-! ## The system -/

/-- A step does not depend on the records of the clients that its thread does not work on, up to
the sockets that it compares, and it leaves them as they are. -/
theorem step_setClient (hc : s.heap c = some old) (hhand : s.hand a ≠ some c)
    (hcmp : ComparesSocket s a c → cl.clSock = old.clSock) :
    step m (s.setClient c cl) a = (step m s a).map fun t => t.setClient c cl := by
  have hcrashed : (s.setClient c cl).crashed = s.crashed := rfl
  have hworkers : (s.setClient c cl).workers = s.workers := rfl
  have hpending : (s.setClient c cl).pending = s.pending := rfl
  have hhandlers : (s.setClient c cl).handlers = s.handlers := rfl
  rw [step.eq_def, step.eq_def, hcrashed]
  by_cases hcr : s.crashed = true
  · rw [if_pos hcr, if_pos hcr]
    rfl
  rw [if_neg hcr, if_neg hcr]
  cases a with
  | main call => exact mainStep_setClient hc hhand hcmp
  | worker i call =>
    dsimp only
    rw [hworkers]
    cases hw : s.workers[i]? with
    | none => rfl
    | some w => exact workerStep_setClient (by simpa [State.hand, hw] using hhand)
  | complete i bytes =>
    dsimp only
    rw [hpending]
    split <;> rfl
  | ctrlShutDownIocp ok => cases ok <;> rfl
  | ctrlShutDownAccept ok =>
    dsimp only
    rw [hhandlers]
    split_ifs <;> rfl

/-- So a step does not change them. -/
theorem heap_of_not_hand (hs : step m s a = some s') (hl : s.Live c) (hhand : s.hand a ≠ some c) :
    s'.heap c = s.heap c := by
  obtain ⟨cl, hcl⟩ := Option.isSome_iff_exists.mp hl
  have hself : s.setClient c cl = s := by
    simp only [State.setClient, ← hcl, Function.update_eq_self]
  have h : step m (s.setClient c cl) a = _ := step_setClient hcl hhand fun _ => rfl
  rw [hself, hs, Option.map_some, Option.some.injEq] at h
  rw [h, setClient_heap_self, hcl]

end step

end AioServer.Windows
