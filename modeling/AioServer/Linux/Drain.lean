import AioServer.Lib.Lts
import AioServer.Linux.Clients
import AioServer.Linux.Eintr

/-!
# The Linux server: draining the message queue

`worker_thread_handle_msgqueue_event` receives messages until `mq_receive` fails with
`EAGAIN`, which it does on an empty queue only if the descriptor does not block. That is
decided by the flags of `mq_open` in `worker_thread_create`; `mq_attr.mq_flags` is ignored.

* `mqOpen`, `mqReceive`: the queue, with the messages in the order in which they arrive;
* `step`: the handler, while messages are sent, signals interrupt it and `wk_termsig` is
  written;
* `DrainsQueue`: what the event loop relies on, and `drainsQueue_iff` on which queues it holds;
* `never_returns`: on the queue of a worker the handler never gets back to the event loop.
-/

namespace AioServer.Linux.Drain

open Lib

/-! ## The message queue -/

/-- Flags of `mq_open`, or of an event. -/
abbrev Flags := BitVec 32

def oRdwr : Flags := 0x2
def oCreat : Flags := 0x40
def oExcl : Flags := 0x80
def oNonblock : Flags := 0x800

def epollin : Flags := 0x1
def epollerr : Flags := 0x8

/-- `struct mq_attr`. -/
structure MqAttr where
  mqFlags : Flags
  mqMaxmsg : ℕ
  mqMsgsize : ℕ
deriving DecidableEq

/-- An open message queue. A message is the descriptor that it carries; all have the same
priority. -/
structure Mqueue where
  nonblocking : Bool
  maxmsg : ℕ
  msgsize : ℕ
  messages : List Fd
deriving DecidableEq

/-- `mq_open` of a new queue. -/
def mqOpen (oflag : Flags) (attr : MqAttr) : Mqueue where
  nonblocking := oflag &&& oNonblock ≠ 0
  maxmsg := attr.mqMaxmsg
  msgsize := attr.mqMsgsize
  messages := []

/-- `mq_receive` into a buffer of `msgLen` bytes; `none` when it waits for a message. -/
def mqReceive (q : Mqueue) (msgLen : ℕ) : Option (SysResult Fd × Mqueue) :=
  if msgLen < q.msgsize then some (.error emsgsize, q)
  else
    match q.messages with
    | fd :: messages => some (.ok fd, { q with messages := messages })
    | [] => if q.nonblocking then some (.error eagain, q) else none

/-- `sizeof(struct message)`: the code and 8 bytes of data, which are aligned to 4 in the 32-bit
build. -/
def sizeofMessage : ℕ := 12

def kMessageQueueMaxMsgCount : ℕ := 10

def kMessageQueueMaxMsgSize : ℕ := sizeofMessage

/-- `queue_attributes` of `worker_thread_create`. -/
def queueAttributes : MqAttr where
  mqFlags := oNonblock
  mqMaxmsg := kMessageQueueMaxMsgCount
  mqMsgsize := kMessageQueueMaxMsgSize

/-- `wk_messagequeue.mq_queuefds`, as `worker_thread_create` opens it. -/
def workerQueue : Mqueue := mqOpen (oRdwr ||| oExcl ||| oCreat) queueAttributes

/-! ## The handler -/

/-- A worker with an event of its queue: `inHandler` until the handler returns to
`worker_thread_proc`; `received` is the history of `mq_receive`, and `termsig` the counter of
`wk_termsig`. -/
structure State where
  queue : Mqueue
  serving : Serving
  inHandler : Bool
  received : List Fd
  termsig : ℕ

/-- What happens next: a call of `mq_receive` with the outcomes of the calls that are made for
its message, a signal, a message of another thread, a write to `wk_termsig`. -/
inductive Action
  | mqReceive (client buffer : Option Addr) (epollCtl : Bool) (node : Option Addr)
  | interrupt
  | mqSend (fd : Fd)
  | writeTermsig
deriving DecidableEq

/-- A step of the handler. -/
def Action.isReceive : Action → Bool
  | .mqReceive .. => true
  | _ => false

/-- `worker_thread_handle_msgqueue_event` is called with these flags. -/
def delivered (queue : Mqueue) (serving : Serving) (eventFlags : Flags) : State where
  queue := queue
  serving := serving
  inHandler := eventFlags &&& epollerr = 0
  received := []
  termsig := 0

/-- One step; `none` if it cannot happen. -/
def step (s : State) : Action → Option State
  | .mqReceive client buffer epollCtl node =>
    if s.inHandler then
      match mqReceive s.queue sizeofMessage with
      | none => none
      -- `EAGAIN` and any other error
      | some (.error _, _) => some { s with inHandler := false }
      | some (.ok fd, queue) =>
        (handleMessage s.serving ⟨fd, client, buffer, epollCtl, node⟩).map fun serving =>
          { s with queue := queue, serving := serving, received := s.received ++ [fd] }
    else none
  -- `HANDLE_EINTR_ON_SYSCALL` calls `mq_receive` again
  | .interrupt => if s.inHandler then some s else none
  | .mqSend fd =>
    if s.queue.messages.length < s.queue.maxmsg then
      some { s with queue := { s.queue with messages := s.queue.messages ++ [fd] } }
    else none
  | .writeTermsig => some { s with termsig := s.termsig + 1 }

/-- The handler is in an `mq_receive` that waits on an empty queue. -/
def State.Waits (s : State) : Prop := s.inHandler = true ∧ mqReceive s.queue sizeofMessage = none

/-- The handler never waits, and from wherever it is it goes on to receive all messages that
were queued, in order, and returns. -/
structure DrainsQueue (s₀ : State) : Prop where
  neverWaits : ∀ tr s, Run step s₀ tr s → ¬ s.Waits
  returns : ∀ tr s, Run step s₀ tr s → ∃ tr' s', Run step s tr' s' ∧
    (∀ x ∈ tr', x.2.isReceive = true) ∧ s'.inHandler = false ∧
      s₀.queue.messages <+: s'.received

/-! ## What a step does -/

/-- The messages that have arrived since the event. -/
def State.arrived (s : State) : List Fd := s.received ++ s.queue.messages

/-- What every step keeps: how the queue was opened, the order of the messages, and that the
handler is not entered again. -/
structure Kept (s s' : State) : Prop where
  nonblocking : s'.queue.nonblocking = s.queue.nonblocking
  msgsize : s'.queue.msgsize = s.queue.msgsize
  arrived : s.arrived <+: s'.arrived
  returned : s.inHandler = false → s'.inHandler = false ∧ s'.received = s.received

/-- An error of `mq_receive`: the message would not fit, or there is none. -/
theorem mqReceive_error {q q' : Mqueue} {msgLen : ℕ} {errno : Errno}
    (h : mqReceive q msgLen = some (.error errno, q')) :
    msgLen < q.msgsize ∨ q.messages = [] ∧ q.nonblocking = true := by
  unfold mqReceive at h
  by_cases hlen : msgLen < q.msgsize
  · exact Or.inl hlen
  · rw [if_neg hlen] at h
    cases hm : q.messages with
    | cons fd messages => simp [hm] at h
    | nil =>
      cases hnb : q.nonblocking with
      | true => exact Or.inr ⟨rfl, rfl⟩
      | false => simp [hm, hnb] at h

theorem mqReceive_ok {q q' : Mqueue} {msgLen : ℕ} {fd : Fd}
    (h : mqReceive q msgLen = some (.ok fd, q')) :
    ∃ messages, q.messages = fd :: messages ∧ q' = { q with messages := messages } := by
  unfold mqReceive at h
  by_cases hlen : msgLen < q.msgsize
  · simp [hlen] at h
  · rw [if_neg hlen] at h
    cases hm : q.messages with
    | cons x messages =>
      obtain ⟨rfl, rfl⟩ : x = fd ∧ { q with messages := messages } = q' := by simpa [hm] using h
      exact ⟨messages, rfl, rfl⟩
    | nil => cases hnb : q.nonblocking <;> simp [hm, hnb] at h

theorem mqReceive_eq_none {q : Mqueue} {msgLen : ℕ} : mqReceive q msgLen = none ↔
    q.msgsize ≤ msgLen ∧ q.messages = [] ∧ q.nonblocking = false := by
  unfold mqReceive
  by_cases hlen : msgLen < q.msgsize
  · simp [hlen]
  · cases hm : q.messages <;> cases hnb : q.nonblocking <;> simp [hlen, Nat.not_lt.mp hlen]

/-- What a step of the handler does: it returns, or goes on with the next message. -/
theorem step_receive {s s' : State} {client buffer node : Option Addr} {epollCtl : Bool}
    (h : step s (.mqReceive client buffer epollCtl node) = some s') : s.inHandler = true ∧
      ((sizeofMessage < s.queue.msgsize ∨ s.queue.messages = [] ∧ s.queue.nonblocking = true) ∧
          s' = { s with inHandler := false } ∨
        ∃ fd messages serving, s.queue.messages = fd :: messages ∧
          s' = { s with
            queue := { s.queue with messages := messages }, serving := serving,
            received := s.received ++ [fd] }) := by
  simp only [step] at h
  split_ifs at h with hin
  refine ⟨hin, ?_⟩
  split at h
  case h_1 => cases h
  case h_2 hr => exact Or.inl ⟨mqReceive_error hr, (Option.some.inj h).symm⟩
  case h_3 fd queue hr =>
    obtain ⟨messages, hm, rfl⟩ := mqReceive_ok hr
    obtain ⟨serving, -, rfl⟩ := Option.map_eq_some_iff.mp h
    exact Or.inr ⟨fd, messages, serving, hm, rfl⟩

theorem Kept.step {s s' : State} {a : Action} (h : Drain.step s a = some s') : Kept s s' := by
  cases a with
  | mqReceive client buffer epollCtl node =>
    obtain ⟨hin, ⟨-, rfl⟩ | ⟨fd, messages, serving, hm, rfl⟩⟩ := step_receive h
    · exact ⟨rfl, rfl, List.prefix_refl _, by simp [hin]⟩
    · exact ⟨rfl, rfl, by simp [State.arrived, hm], by simp [hin]⟩
  | interrupt =>
    simp only [Drain.step] at h
    split_ifs at h
    obtain rfl := Option.some.inj h
    exact ⟨rfl, rfl, List.prefix_refl _, fun hout => ⟨hout, rfl⟩⟩
  | mqSend fd =>
    simp only [Drain.step] at h
    split_ifs at h
    obtain rfl := Option.some.inj h
    refine ⟨rfl, rfl, ⟨[fd], ?_⟩, fun hout => ⟨hout, rfl⟩⟩
    simp [State.arrived]
  | writeTermsig =>
    obtain rfl := Option.some.inj h
    exact ⟨rfl, rfl, List.prefix_refl _, fun hout => ⟨hout, rfl⟩⟩

theorem Kept.refl (s : State) : Kept s s :=
  ⟨rfl, rfl, List.prefix_refl _, fun h => ⟨h, rfl⟩⟩

theorem Kept.trans {s s' s'' : State} (h : Kept s s') (h' : Kept s' s'') : Kept s s'' := by
  refine ⟨h'.nonblocking.trans h.nonblocking, h'.msgsize.trans h.msgsize,
    h.arrived.trans h'.arrived, fun hout => ?_⟩
  obtain ⟨hout', hrec⟩ := h.returned hout
  obtain ⟨hout'', hrec'⟩ := h'.returned hout'
  exact ⟨hout'', hrec'.trans hrec⟩

theorem Kept.run {tr : List (State × Action)} {s s' : State} (h : Run Drain.step s tr s') :
    Kept s s' :=
  h.invariant (Kept.refl s) fun _ _ _ hk hs => hk.trans (Kept.step hs)

/-! ## Draining -/

section drain

variable {s : State} {tr : List (State × Action)}

/-- A message is received, whatever the allocator says. -/
theorem step_message {fd : Fd} {messages : List Fd} (hin : s.inHandler = true)
    (hsize : s.queue.msgsize ≤ sizeofMessage) (hm : s.queue.messages = fd :: messages) :
    ∃ a s', a.isReceive = true ∧ step s a = some s' ∧ s'.inHandler = true ∧
      s'.queue = { s.queue with messages := messages } ∧ s'.received = s.received ++ [fd] := by
  have hrecv : mqReceive s.queue sizeofMessage
      = some (.ok fd, { s.queue with messages := messages }) := by
    simp [mqReceive, Nat.not_lt.mpr hsize, hm]
  -- without memory for a client its descriptor is closed
  have hhandle : handleMessage s.serving ⟨fd, none, none, true, none⟩
      = some (s.serving.close fd) := rfl
  refine ⟨.mqReceive none none true none, { s with
    queue := { s.queue with messages := messages }, serving := s.serving.close fd,
    received := s.received ++ [fd] }, rfl, ?_, hin, rfl, rfl⟩
  simp [step, hin, hrecv, hhandle]

/-- The handler alone gets to the end of the queue. -/
theorem run_to_empty (hin : s.inHandler = true) (hsize : s.queue.msgsize ≤ sizeofMessage) :
    ∃ tr s', Run step s tr s' ∧ (∀ x ∈ tr, x.2.isReceive = true) ∧ s'.inHandler = true ∧
      s'.queue = { s.queue with messages := [] } ∧
      s'.received = s.received ++ s.queue.messages := by
  induction hm : s.queue.messages generalizing s with
  | nil => exact ⟨[], s, Run.nil, by simp, hin, by rw [← hm], by simp⟩
  | cons fd messages ih =>
    obtain ⟨a, s₁, ha, hs, hin₁, hq, hrec⟩ := step_message hin hsize hm
    have hsize₁ : s₁.queue.msgsize ≤ sizeofMessage := by
      rw [hq]
      exact hsize
    have hm₁ : s₁.queue.messages = messages := by rw [hq]
    obtain ⟨tr, s', hrun, htr, hin', hq', hrec'⟩ := ih hin₁ hsize₁ hm₁
    refine ⟨(s, a) :: tr, s', Run.cons hs hrun, ?_, hin', ?_, ?_⟩
    · simpa [ha] using htr
    · rw [hq', hq]
    · simp [hrec', hrec]

/-- On a queue that blocks, the handler ends up waiting. -/
theorem exists_waits (hin : s.inHandler = true) (hsize : s.queue.msgsize ≤ sizeofMessage)
    (hblock : s.queue.nonblocking = false) : ∃ tr s', Run step s tr s' ∧ s'.Waits := by
  obtain ⟨tr, s', hrun, -, hin', hq, -⟩ := run_to_empty hin hsize
  refine ⟨tr, s', hrun, hin', mqReceive_eq_none.mpr ?_⟩
  rw [hq]
  exact ⟨hsize, rfl, hblock⟩

/-- On a queue that does not block, the handler returns behind the last message. -/
theorem exists_returns (hin : s.inHandler = true) (hsize : s.queue.msgsize ≤ sizeofMessage)
    (hnb : s.queue.nonblocking = true) : ∃ tr s', Run step s tr s' ∧
      (∀ x ∈ tr, x.2.isReceive = true) ∧ s'.inHandler = false ∧ s'.received = s.arrived := by
  obtain ⟨tr, s₁, hrun, htr, hin₁, hq, hrec⟩ := run_to_empty hin hsize
  have hrecv : mqReceive s₁.queue sizeofMessage = some (.error eagain, s₁.queue) := by
    simp [mqReceive, hq, Nat.not_lt.mpr hsize, hnb]
  have hlast : step s₁ (.mqReceive none none true none) = some { s₁ with inHandler := false } := by
    simp [step, hin₁, hrecv]
  refine ⟨_, _, hrun.snoc hlast, fun x hx => ?_, rfl, hrec⟩
  rcases List.mem_append.mp hx with h | h
  · exact htr x h
  · obtain rfl := List.mem_singleton.mp h
    rfl

/-- The handler is left when there is nothing to receive. -/
theorem leaves_handler {s' : State} {a : Action} (hsize : s.queue.msgsize ≤ sizeofMessage)
    (hs : step s a = some s') (hin : s.inHandler = true) (hout : s'.inHandler = false) :
    s.queue.messages = [] ∧ s.queue.nonblocking = true ∧ s'.received = s.received := by
  have hstay : s'.inHandler ≠ true := by simp [hout]
  cases a with
  | mqReceive client buffer epollCtl node =>
    obtain ⟨-, ⟨hlen | ⟨hm, hnb⟩, rfl⟩ | ⟨fd, messages, serving, -, rfl⟩⟩ := step_receive hs
    · exact absurd hlen (Nat.not_lt.mpr hsize)
    · exact ⟨hm, hnb, rfl⟩
    · exact absurd hin hstay
  | interrupt =>
    simp only [step, hin, if_true] at hs
    obtain rfl := Option.some.inj hs
    exact absurd hin hstay
  | mqSend fd =>
    simp only [step] at hs
    split_ifs at hs
    obtain rfl := Option.some.inj hs
    exact absurd hin hstay
  | writeTermsig =>
    obtain rfl := Option.some.inj hs
    exact absurd hin hstay

/-- On a queue that blocks, the handler is never left: `worker_thread_proc` does not see what is
written to `wk_termsig`. -/
theorem never_returns {s₀ : State} (hin : s₀.inHandler = true)
    (hsize : s₀.queue.msgsize ≤ sizeofMessage) (hblock : s₀.queue.nonblocking = false)
    (h : Run step s₀ tr s) : s.inHandler = true := by
  induction h with
  | nil => exact hin
  | @snoc tr s a s' hrun hs ih =>
    have hkept := Kept.run hrun
    by_contra hout
    obtain ⟨-, hnb, -⟩ := leaves_handler (hkept.msgsize.symm ▸ hsize) hs ih
      (Bool.eq_false_iff.mpr hout)
    rw [hkept.nonblocking, hblock] at hnb
    cases hnb

/-- Whoever has returned has received what was queued. -/
theorem received_of_returned {s₀ : State} (hin : s₀.inHandler = true)
    (hsize : s₀.queue.msgsize ≤ sizeofMessage) (h : Run step s₀ tr s)
    (hout : s.inHandler = false) : s₀.arrived <+: s.received := by
  induction h with
  | nil =>
    rw [hin] at hout
    cases hout
  | @snoc tr s a s' hrun hs ih =>
    have hkept := Kept.run hrun
    cases hprev : s.inHandler with
    | false =>
      rw [((Kept.step hs).returned hprev).2]
      exact ih hprev
    | true =>
      obtain ⟨hm, -, hrec⟩ := leaves_handler (hkept.msgsize.symm ▸ hsize) hs hprev hout
      have harrived := hkept.arrived
      rw [State.arrived, State.arrived, hm, List.append_nil] at harrived
      rw [hrec]
      exact harrived

end drain

/-- The handler drains a queue if and only if its descriptor does not block, or it is called for
an error and there is nothing to receive. -/
theorem drainsQueue_iff (queue : Mqueue) (hsize : queue.msgsize ≤ sizeofMessage)
    (serving : Serving) (eventFlags : Flags) :
    DrainsQueue (delivered queue serving eventFlags) ↔
      if eventFlags &&& epollerr = 0 then queue.nonblocking = true else queue.messages = [] := by
  split_ifs with herr
  · have hin : (delivered queue serving eventFlags).inHandler = true := by simp [delivered, herr]
    constructor
    · intro h
      by_contra hblock
      obtain ⟨tr, s, hrun, hwaits⟩ := exists_waits hin hsize (Bool.eq_false_iff.mpr hblock)
      exact h.neverWaits tr s hrun hwaits
    · intro hnb
      refine ⟨fun tr s hrun hwaits => ?_, fun tr s hrun => ?_⟩
      · obtain ⟨-, -, hblock⟩ := mqReceive_eq_none.mp hwaits.2
        rw [(Kept.run hrun).nonblocking] at hblock
        exact absurd hblock (by simp [delivered, hnb])
      · have hkept := Kept.run hrun
        have hqueued : ∀ l, (delivered queue serving eventFlags).arrived <+: l →
            queue.messages <+: l := fun l hl => hl
        cases hs : s.inHandler with
        | false =>
          exact ⟨[], s, Run.nil, by simp, hs, hqueued _ (received_of_returned hin hsize hrun hs)⟩
        | true =>
          obtain ⟨tr', s', hrun', htr', hout, hrec⟩ := exists_returns hs
            (hkept.msgsize.symm ▸ hsize) (hkept.nonblocking.trans hnb)
          exact ⟨tr', s', hrun', htr', hout, hqueued _ (hrec.symm ▸ hkept.arrived)⟩
  · -- the handler returns at once
    have hin : (delivered queue serving eventFlags).inHandler = false := decide_eq_false herr
    have hout : ∀ {tr s}, Run step (delivered queue serving eventFlags) tr s →
        s.inHandler = false ∧ s.received = [] := fun hrun => (Kept.run hrun).returned hin
    constructor
    · intro h
      obtain ⟨tr, s, hrun, -, -, hqueued⟩ := h.returns [] _ Run.nil
      rw [(hout hrun).2] at hqueued
      exact List.prefix_nil.mp hqueued
    · intro hempty
      refine ⟨fun tr s hrun hwaits => ?_, fun tr s hrun => ?_⟩
      · rw [State.Waits, (hout hrun).1] at hwaits
        exact Bool.false_ne_true hwaits.1
      · refine ⟨[], s, Run.nil, by simp, (hout hrun).1, ?_⟩
        show queue.messages <+: s.received
        rw [hempty]
        exact List.nil_prefix

/-! ## The queue of a worker -/

/-- A worker never drains its queue, unless it is called for an error and the queue is empty. -/
theorem workerQueue_drains_iff (messages : List Fd) (serving : Serving) (eventFlags : Flags) :
    DrainsQueue (delivered { workerQueue with messages := messages } serving eventFlags) ↔
      eventFlags &&& epollerr ≠ 0 ∧ messages = [] := by
  have hblock : workerQueue.nonblocking = false := by decide
  refine (drainsQueue_iff _ (Nat.le_refl _) serving eventFlags).trans ?_
  split_ifs with herr
  · simp [hblock, herr]
  · exact (and_iff_right herr).symm

/-- A worker that is told of one message waits for a second one. -/
theorem worker_waits : ¬ ∀ (messages : List Fd) (serving : Serving) (eventFlags : Flags),
    eventFlags &&& epollin ≠ 0 →
    DrainsQueue (delivered { workerQueue with messages := messages } serving eventFlags) := by
  intro h
  obtain ⟨tr, s, hrun, hwaits⟩ := exists_waits (s := delivered
    { workerQueue with messages := [7] } Serving.init epollin) rfl (Nat.le_refl _) rfl
  exact (h [7] Serving.init epollin (by decide)).neverWaits tr s hrun hwaits

end AioServer.Linux.Drain
