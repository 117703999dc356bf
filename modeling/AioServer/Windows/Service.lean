import AioServer.Windows.LiveStats
import AioServer.Windows.Termination

/-!
# The Windows server: every connection is served

A peer that has connected waits behind the packets of all others, for a worker and for the system,
once for each operation of its connection. Here nobody waits for ever: if the workers go on and
the system completes the operations of the connection, its client comes back to the accept thread.

* `Worker.Has`, `State.HasAt`: the worker that handles a completion, or is going to;
* `has_step`: it gets on with it, until the client is handed back or the next operation is posted;
* `eventually_dispatched`, `eventually_attended`: each completion is handled, first in first out;
* `eventually_handedBack`: by induction on the operations that are left.
-/

namespace AioServer.Windows

open Lib

/-! ## Who has the client -/

/-- The operations that may still follow in a connection. -/
def KernelOp.left : KernelOp → ℕ
  | .acceptEx => 2
  | .wsaRecv => 1
  | .transmitFile => 0

/-- The operation after which the client is handed back here. -/
def PostSite.op : PostSite → KernelOp
  | .newConnection => .acceptEx
  | .request => .wsaRecv
  | .emptyTransfer | .writeCompletion => .transmitFile

/-- The client of the handler, and the operation that has completed. -/
def WorkerPc.handling : WorkerPc → Option (ClientPtr × KernelOp)
  | .dispatch n => some (n.cl, n.op)
  | .setsockopt c | .associate c | .readFromClient c => some (c, .acceptEx)
  | .recvRequest c | .openResource c _ | .querySize c | .transmit c => some (c, .wsaRecv)
  | .countTransfer c _ | .markReused c => some (c, .transmitFile)
  | .acceptMoreClients site (some c) _ => some (c, site.op)
  | _ => none

/-- The worker handles the completion of `op`, or has it in its batch. -/
def Worker.Has (w : Worker) (c : ClientPtr) (op : KernelOp) : Prop :=
  w.pc.handling = some (c, op) ∨ ∃ bytes, .completion ⟨c, op, bytes⟩ ∈ w.batch

def State.HasAt (s : State) (i : ℕ) (c : ClientPtr) (op : KernelOp) : Prop :=
  ∃ w, s.workers[i]? = some w ∧ w.Has c op

/-- The client is on its way back to the accept thread. -/
def State.HandedBack (s : State) (c : ClientPtr) : Prop :=
  ∃ reuseSocket, .postAccept (some c) reuseSocket ∈ s.svIocpAccept

/-- A later operation of the connection is pending. -/
def State.PostedAfter (s : State) (c : ClientPtr) (op : KernelOp) : Prop :=
  ∃ op' : KernelOp, op'.left < op.left ∧ (c, op') ∈ s.pending

/-- A peer has connected to the client, which is not yet back. -/
def State.Connected (s : State) (c : ClientPtr) : Prop :=
  ∃ op, op ≠ .acceptEx ∧ (c, op) ∈ s.pending ∨
    (∃ bytes, .completion ⟨c, op, bytes⟩ ∈ s.svIocp) ∨ ∃ i, s.HasAt i c op

/-! ## One step -/

theorem serverProcessCompletion_handling {n : Completion} {cl : Client} {assoc : Option Bool}
    (h : OpOk n.op cl assoc) :
    (serverProcessCompletion n cl.aioOpcode).handling = some (n.cl, n.op) := by
  unfold serverProcessCompletion
  cases hop : n.op with
  | acceptEx =>
    rw [hop] at h
    simp [h.1, WorkerPc.handling]
  | wsaRecv =>
    rw [hop] at h
    simp [h.1, WorkerPc.handling]
  | transmitFile =>
    rw [hop] at h
    by_cases hb : n.bytes = 0 <;> simp [h.1, hb, WorkerPc.handling, PostSite.op]

section step

variable {m : ℤ} {s s' : State} {i : ℕ} {c : ClientPtr} {op : KernelOp}

/-- The worker hands the client back, posts the next operation, or still has the completion. -/
theorem has_worker {w : Worker} {call : WorkerCall} (hcus : Custodial s)
    (hw : s.workers[i]? = some w) (h : WorkerTrans s i w call s')
    (hpost : (Action.worker i call).postFails = false)
    (hstop : takesShutDown (s, .worker i call) = false) (hhas : w.Has c op) :
    s'.HandedBack c ∨ s'.PostedAfter c op ∨ s'.HasAt i c op := by
  have hmem := List.mem_of_getElem? hw
  -- a worker that goes on with the completion
  have hat : ∀ {t : State} {w' : Worker}, t.workers = s.workers → w'.Has c op →
      (t.setWorker i w').HasAt i c op := by
    intro t w' ht hhas'
    refine ⟨w', ?_, hhas'⟩
    apply getElem?_mover hw
    rw [← ht]
    rfl
  have hmove : ∀ {t : State} {pc : WorkerPc}, t.workers = s.workers →
      (w.pc.handling = some (c, op) → pc.handling = some (c, op)) →
      s'.HandedBack c ∨ s'.PostedAfter c op ∨ (t.setWorker i { w with pc := pc }).HasAt i c op :=
    fun ht hpc => Or.inr (Or.inr (hat ht (hhas.imp_left hpc)))
  cases h with
  | dequeue k hpc h0 hmax hk =>
    simp [Worker.Has, hpc, hcus.batches w hmem hpc, WorkerPc.handling] at hhas
  | batchDone hpc hb => simp [Worker.Has, hpc, hb, WorkerPc.handling] at hhas
  | stop rest hpc hb => simp [takesShutDown, hw, hpc, hb] at hstop
  | take n rest hpc hb =>
    refine Or.inr (Or.inr (hat rfl ?_))
    rcases hhas with hhas | ⟨bytes, hin⟩
    · simp [hpc, WorkerPc.handling] at hhas
    · rw [hb, List.mem_cons] at hin
      rcases hin with heq | hin
      · obtain rfl := Packet.completion.inj heq
        exact Or.inl rfl
      · exact Or.inr ⟨bytes, hin⟩
  | repost ok hpc => exact hmove (by cases ok <;> rfl) (by simp [hpc, WorkerPc.handling])
  | dispatch n cl hpc hc =>
    have hok := hcus.owned.worker_ok hmem hpc rfl hc
    refine hmove rfl fun hh => ?_
    rw [serverProcessCompletion_handling hok, ← hh, hpc]
    rfl
  | setsockopt c cl ok hpc hc =>
    refine hmove rfl fun hh => ?_
    rw [← hh, hpc]
    cases ok <;> rfl
  | read c₀ cl hpc hc =>
    rcases hhas with hhas | hin
    · obtain ⟨rfl, rfl⟩ : c₀ = c ∧ .acceptEx = op := by simpa [hpc, WorkerPc.handling] using hhas
      exact Or.inr (Or.inl ⟨.wsaRecv, by decide, List.mem_append_right _ (by simp)⟩)
    · exact Or.inr (Or.inr (hat rfl (Or.inr hin)))
  | openFile c₀ cl path hd hpc hc =>
    refine hmove rfl fun hh => ?_
    rw [← hh, hpc]
    split <;> rfl
  | transmit c₀ cl hpc hc =>
    rcases hhas with hhas | hin
    · obtain ⟨rfl, rfl⟩ : c₀ = c ∧ .wsaRecv = op := by simpa [hpc, WorkerPc.handling] using hhas
      exact Or.inr (Or.inl ⟨.transmitFile, by decide, List.mem_append_right _ (by simp)⟩)
    · exact Or.inr (Or.inr (hat rfl (Or.inr hin)))
  | acceptMoreClients site cl reuseSocket ok hpc =>
    obtain rfl : ok = true := by simpa [Action.postFails] using hpost
    rcases hhas with hhas | hin
    · cases cl with
      | none => simp [hpc, WorkerPc.handling] at hhas
      | some c₀ =>
        obtain ⟨rfl, -⟩ : c₀ = c ∧ site.op = op := by simpa [hpc, WorkerPc.handling] using hhas
        exact Or.inl ⟨reuseSocket, List.mem_append_right _ (by simp)⟩
    · exact Or.inr (Or.inr (hat rfl (Or.inr hin)))
  | crash call c hdead hc => exact absurd hdead (hcus.owned.worker_live hmem hc)
  | _ =>
    have hpc := ‹w.pc = _›
    exact hmove rfl (by simp [hpc, WorkerPc.handling, PostSite.op])

/-- With each step of its own the worker has less work; the others leave it alone. -/
theorem has_step {n : ℕ} {a : Action} (hp : PoolOk n s) (h : Trans m s a s')
    (hpost : a.postFails = false) (hstop : takesShutDown (s, a) = false) (hhas : s.HasAt i c op) :
    s'.HandedBack c ∨ s'.PostedAfter c op ∨ s'.HasAt i c op ∧
      (s'.workOf i < s.workOf i ∨ s'.workOf i = s.workOf i ∧ ¬ a.byWorker i) := by
  obtain ⟨w, hw, hc⟩ := hhas
  by_cases hby : a.byWorker i
  · cases h with
    | @worker j w₀ call s' hw₀ ht =>
      obtain rfl : j = i := hby
      obtain rfl : w = w₀ := by simpa [hw] using hw₀
      refine (has_worker hp.custodial hw ht hpost hstop hc).imp_right (Or.imp_right fun hat => ?_)
      refine ⟨hat, Or.inl ?_⟩
      rcases worker_progress hp.custodial.owned hw ht with ⟨hpc, -⟩ | ⟨-, w', hw'⟩
      · simp [Worker.Has, hpc, hp.custodial.batches w (List.mem_of_getElem? hw) hpc,
          WorkerPc.handling] at hc
      · rw [workOf_of_getElem? hw, workOf_of_getElem? (getElem?_mover hw hw'.workers)]
        exact hw'.work
    | _ => exact absurd hby id
  · have hget := getElem?_of_not_byWorker hp.custodial.owned h hby
    refine Or.inr (Or.inr ⟨⟨w, hget.trans hw, hc⟩, Or.inr ⟨?_, hby⟩⟩)
    rw [State.workOf, hget, State.workOf]

/-- A pending operation stays pending until the system completes it. -/
theorem pending_step {a : Action} (h : Trans m s a s') (hp : (c, op) ∈ s.pending) :
    (c, op) ∈ s'.pending ∨ ∃ bytes, .completion ⟨c, op, bytes⟩ ∈ s'.svIocp := by
  cases h with
  | main hm =>
    left
    cases hm with
    | start ok hpc => cases ok <;> exact hp
    | acceptEx c₀ opts cl hpc hc ho => exact List.mem_append_left _ hp
    | _ => exact hp
  | worker hw ht =>
    left
    cases ht with
    | repost ok hpc => cases ok <;> exact hp
    | read c₀ cl hpc hc => exact List.mem_append_left _ hp
    | transmit c₀ cl hpc hc => exact List.mem_append_left _ hp
    | acceptMoreClients site cl reuseSocket ok hpc => cases ok <;> exact hp
    | _ => exact hp
  | @complete j c₀ op₀ bytes hj =>
    obtain ⟨k, hk⟩ := List.mem_iff_getElem?.mp hp
    by_cases hkj : k = j
    · subst hkj
      obtain ⟨rfl, rfl⟩ : c = c₀ ∧ op = op₀ := by simpa [hk] using hj
      exact Or.inr ⟨bytes, List.mem_append_right _ (by simp)⟩
    · exact Or.inl (List.mem_eraseIdx_iff_getElem?.mpr ⟨k, hkj, hk⟩)
  | ctrlShutDownIocp ok => cases ok <;> exact Or.inl hp
  | ctrlShutDownAccept ok hh => exact Or.inl hp

end step

/-! ## One operation -/

section execution

variable {m : ℤ} {svSock : Socket} {n : ℕ} {e : Execution (step m) (State.init svSock n)}
  {c : ClientPtr} {op : KernelOp} {k : ℕ}

/-- A completion that a worker has is handled to the end. -/
theorem eventually_dispatched {i : ℕ} (hfair : e.Fair (State.WorkerReady · i) (Action.byWorker i))
    (hlabel : ∀ j a, e.label j = some a → a.postFails = false ∧
      takesShutDown (e.state j, a) = false) (h : (e.state k).HasAt i c op) :
    ∃ j, k ≤ j ∧ ((e.state j).HandedBack c ∨ (e.state j).PostedAfter c op) := by
  refine hfair.eventually_until (fun s => s.workOf i) (fun s => s.HasAt i c op)
    (fun s => s.HandedBack c ∨ s.PostedAfter c op) h ?_ ?_
  · rintro j ⟨w, hw, hhas⟩ -
    have hp : PoolOk n (e.state j) := poolOk_state j
    have hmem := List.mem_of_getElem? hw
    refine ⟨w, hw, fun hpc => ?_, fun hpc => ?_⟩
    · simp [Worker.Has, hpc, hp.leaver w hmem (Or.inr hpc), WorkerPc.handling] at hhas
    · simp [Worker.Has, hpc, hp.custodial.batches w hmem hpc, WorkerPc.handling] at hhas
  · intro j a hl hhas _ hno
    obtain ⟨hpost, hstop⟩ := hlabel j a hl
    have hstep := has_step (poolOk_state j) (trans_next hl) hpost hstop hhas
    rwa [← or_assoc, or_iff_right hno] at hstep

/-- A completion on the port gets to a worker, while worker `i` stays. -/
theorem eventually_attended {i : ℕ} {bytes : ℕ}
    (hfair : e.Fair (State.WorkerReady · i) (Action.byWorker i)) (hi : i < n)
    (hstay : ∀ j, ¬ (e.state j).WorkerLeft i)
    (h : .completion ⟨c, op, bytes⟩ ∈ (e.state k).svIocp) :
    ∃ j l, k ≤ j ∧ (e.state j).HasAt l c op := by
  obtain ⟨j, hj, htaken⟩ := eventually_taken hfair hi h
  obtain ⟨w, hw, hin⟩ := htaken.resolve_right (hstay j)
  obtain ⟨l, hl⟩ := List.mem_iff_getElem?.mp hw
  exact ⟨j, l, hj, w, hl, Or.inr ⟨bytes, hin⟩⟩

/-- An operation that the system completes gets to the port. -/
theorem eventually_completed (h : (c, op) ∈ (e.state k).pending)
    (hkernel : ∃ j, k ≤ j ∧ (c, op) ∉ (e.state j).pending) :
    ∃ j bytes, k ≤ j ∧ .completion ⟨c, op, bytes⟩ ∈ (e.state j).svIocp := by
  by_contra hno
  push Not at hno
  obtain ⟨j, hj, hgone⟩ := hkernel
  refine hgone (e.stable (K := fun s => (c, op) ∈ s.pending) h (fun l a hl hla hp => ?_) hj)
  refine (pending_step (trans_next hla) hp).resolve_right ?_
  rintro ⟨bytes, hin⟩
  exact hno (l + 1) bytes (Nat.le_succ_of_le hl) hin

/-! ## The connection -/

/-- Every worker that is ready for ever moves again and one of them stays, no post fails and no
thread stops, and the system completes what follows in the connection of `c`. Nothing is said
about the other clients. -/
structure FairService (e : Execution (step m) (State.init svSock n)) (c : ClientPtr) : Prop where
  worker : ∀ i, e.Fair (State.WorkerReady · i) (Action.byWorker i)
  stays : ∃ i < n, ∀ j, ¬ (e.state j).WorkerLeft i
  label : ∀ j a, e.label j = some a → a.postFails = false ∧ takesShutDown (e.state j, a) = false
  kernel : ∀ j op, op ≠ .acceptEx → (c, op) ∈ (e.state j).pending →
    ∃ l, j ≤ l ∧ (c, op) ∉ (e.state l).pending

/-- A worker has a completion of the connection: by induction on the operations that may
follow. -/
theorem handedBack_of_hasAt (hfair : FairService e c) {d i : ℕ} (hd : op.left ≤ d)
    (h : (e.state k).HasAt i c op) : ∃ j, k ≤ j ∧ (e.state j).HandedBack c := by
  obtain ⟨i₀, hi₀, hstay⟩ := hfair.stays
  induction d generalizing op k i with
  | zero =>
    obtain ⟨j, hj, hback | ⟨op', hlt, -⟩⟩ := eventually_dispatched (hfair.worker i) hfair.label h
    · exact ⟨j, hj, hback⟩
    · omega
  | succ d ih =>
    obtain ⟨j₁, hj₁, hback | ⟨op', hlt, hp⟩⟩ :=
      eventually_dispatched (hfair.worker i) hfair.label h
    · exact ⟨j₁, hj₁, hback⟩
    · have hne : op' ≠ .acceptEx := by
        rintro rfl
        cases op <;> simp [KernelOp.left] at hlt
      obtain ⟨j₂, bytes, hj₂, hport⟩ := eventually_completed hp (hfair.kernel j₁ op' hne hp)
      obtain ⟨j₃, l, hj₃, hnext⟩ := eventually_attended (hfair.worker i₀) hi₀ hstay hport
      obtain ⟨j, hj, hback⟩ := ih (by omega) hnext
      exact ⟨j, hj₁.trans (hj₂.trans (hj₃.trans hj)), hback⟩

/-- A completion of the connection is on the port. -/
theorem handedBack_of_port (hfair : FairService e c) {bytes : ℕ}
    (h : .completion ⟨c, op, bytes⟩ ∈ (e.state k).svIocp) :
    ∃ j, k ≤ j ∧ (e.state j).HandedBack c := by
  obtain ⟨i, hi, hstay⟩ := hfair.stays
  obtain ⟨j₁, l, hj₁, hat⟩ := eventually_attended (hfair.worker i) hi hstay h
  obtain ⟨j, hj, hback⟩ := handedBack_of_hasAt hfair (Nat.le_refl _) hat
  exact ⟨j, hj₁.trans hj, hback⟩

/-- A client to which a peer has connected comes back to the accept thread. A run in which a
thread touches a released client is not such an execution, since nobody goes on behind that. -/
theorem eventually_handedBack (hfair : FairService e c) (h : (e.state k).Connected c) :
    ∃ j, k ≤ j ∧ (e.state j).HandedBack c := by
  obtain ⟨op, ⟨hne, hp⟩ | ⟨bytes, hin⟩ | ⟨i, hat⟩⟩ := h
  · obtain ⟨j₁, bytes, hj₁, hin⟩ := eventually_completed hp (hfair.kernel k op hne hp)
    obtain ⟨j, hj, hback⟩ := handedBack_of_port hfair hin
    exact ⟨j, hj₁.trans hj, hback⟩
  · exact handedBack_of_port hfair hin
  · exact handedBack_of_hasAt hfair (Nat.le_refl _) hat

end execution

/-- A request is served from the connection on. -/
theorem eventually_handedBack_one : ∃ e : Execution (step 1) (State.init 1 1),
    (∃ k, (5, .wsaRecv) ∈ (e.state k).pending) ∧ ∃ j, (e.state j).HandedBack 5 := by
  obtain ⟨tr, t, hexec, hws, hport, hpending, hleft, hstop, hconn⟩ : ∃ tr t,
      exec (step 1) (State.init 1 1) servedRequest = some (tr, t) ∧
      (∀ w ∈ t.workers, w.pc = .dequeue) ∧ t.svIocp = [] ∧ t.pending = [] ∧
      (∀ x ∈ tr, ∀ w ∈ x.1.workers, w.pc ≠ .left) ∧
      (∀ x ∈ tr, x.2.postFails = false ∧ takesShutDown x = false) ∧
      ∃ x ∈ tr, (5, .wsaRecv) ∈ x.1.pending :=
    ⟨_, _, rfl, by decide, rfl, rfl, by decide, by decide, by decide⟩
  obtain ⟨e, hlabel, hstate, htrace⟩ := exists_execution hexec
  have hmem : ∀ j a, e.label j = some a → (e.state j, a) ∈ tr := by
    intro j a hl
    rw [← htrace, e.mem_trace]
    exact ⟨j, (List.getElem?_eq_some_iff.mp ((hlabel j).symm.trans hl)).1, rfl, hl⟩
  have hfair : FairService e 5 := by
    refine ⟨fun i => Execution.fair_of_rest (k := servedRequest.length) fun j hj hready => ?_,
      ⟨0, by decide, fun j hleft' => ?_⟩, fun j a hl => hstop _ (hmem j a hl), fun j op _ _ =>
      ⟨max j servedRequest.length, by simp, by simp [hstate, hpending]⟩⟩
    · rw [hstate j hj] at hready
      obtain ⟨w, hw, -, hq⟩ := hready
      exact hq (hws w (List.mem_of_getElem? hw)) hport
    · obtain ⟨w, hw, hpc⟩ := Option.map_eq_some_iff.mp hleft'
      by_cases hj : servedRequest.length ≤ j
      · rw [hstate j hj] at hw
        simp [hws w (List.mem_of_getElem? hw)] at hpc
      · have hl := (hlabel j).trans (List.getElem?_eq_getElem (by omega))
        exact hleft _ (hmem j _ hl) w (List.mem_of_getElem? hw) hpc
  obtain ⟨x, hx, hp⟩ := hconn
  rw [← htrace, e.mem_trace] at hx
  obtain ⟨k, -, hk, -⟩ := hx
  rw [← hk] at hp
  obtain ⟨j, -, hback⟩ := eventually_handedBack hfair ⟨.wsaRecv, Or.inl ⟨by decide, hp⟩⟩
  exact ⟨e, ⟨k, hp⟩, j, hback⟩

end AioServer.Windows
