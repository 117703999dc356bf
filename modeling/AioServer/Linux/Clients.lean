import Mathlib.Data.List.Count
import Mathlib.Data.Nat.Notation
import Mathlib.Logic.Function.Basic

/-!
# The Linux server: clients of a worker

`worker_thread_handle_msgqueue_event` in `server_impl_linux.c` drains the message queue of a
worker. Each message carries a socket descriptor, for which a client is created, registered
with the worker's epoll instance and put into the worker's list.

* `Serving` is what a worker has to do with clients: their records, the blocks in use, the
  epoll registrations, the list, and (as a record of the past) the calls of `close`;
* `Delivery` is a message with the outcomes of the calls made for it;
* `Fate` says what becomes of a descriptor, and `workerThreadHandleMsgqueueEvent_fate` that
  it does;
* `descriptors_owned_iff` says when every received descriptor ends up served or closed.

`close` is not interrupted here. The list is the sequence of its items, as
`AioServer.LinkedList.Refinement` justifies.
-/

namespace AioServer.Linux

/-- A file descriptor. A call that returns -1 returns `none`. -/
abbrev Fd := ℕ

/-- Address of a block handed out by the allocator. -/
abbrev Addr := ℕ

/-! ## The data -/

/-- `kObjectType`. -/
inductive ObjectType
  | server
  | client
  | signal
  | messageQueue
deriving DecidableEq, Repr

/-- `struct client`; `none` is -1. -/
structure Client where
  objidType : ObjectType
  clSockfd : Option Fd
  clFilefd : Option Fd
  clBuffer : Addr
deriving DecidableEq, Repr

/-- The clients of a worker. `blocks` are the blocks in use, with the descriptor whose
message each was allocated for; `wkEpollFds` are the registered descriptors with their
`data.ptr`; `closed` is the history of `close`. -/
structure Serving where
  clients : Addr → Option Client
  blocks : Addr → Option Fd
  wkEpollFds : Fd → Option Addr
  wkClients : List Addr
  closed : List Fd

/-- A message `kITTMessageAddClient`, with the outcomes of the two allocations of
`client_create`, of `epoll_ctl` and of the allocation of the list node. -/
structure Delivery where
  msgFd : Fd
  client : Option Addr
  buffer : Option Addr
  epollCtl : Bool
  node : Option Addr
deriving DecidableEq, Repr

/-- A worker that has not served anybody. -/
def Serving.init : Serving where
  clients := fun _ => none
  blocks := fun _ => none
  wkEpollFds := fun _ => none
  wkClients := []
  closed := []

/-! ## The code -/

namespace Serving

/-- `al_mem_alloc` on behalf of `fd`. An allocator does not hand out a block in use. -/
def alMemAlloc (w : Serving) (fd : Fd) : Option Addr → Option Serving
  | none => some w
  | some a =>
    if w.blocks a = none then some { w with blocks := Function.update w.blocks a (some fd) }
    else none

/-- `al_mem_release`. -/
def alMemRelease (w : Serving) (a : Addr) : Serving :=
  { w with
    clients := Function.update w.clients a none
    blocks := Function.update w.blocks a none }

/-- `close`; a closed descriptor leaves the epoll instance. -/
def close (w : Serving) (fd : Fd) : Serving :=
  { w with
    wkEpollFds := Function.update w.wkEpollFds fd none
    closed := fd :: w.closed }

/-- `if (fd != -1) close(fd)` -/
def closeIfValid (w : Serving) : Option Fd → Serving
  | none => w
  | some fd => w.close fd

end Serving

/-- `client_create`. -/
def clientCreate (w : Serving) (sockFds : Fd) (block buffer : Option Addr) :
    Option (Option Addr × Serving) := do
  let w ← w.alMemAlloc sockFds block
  match block with
  | none => some (none, w)
  | some cl =>
    let w ← w.alMemAlloc sockFds buffer
    match buffer with
    | none =>
      -- ERR_CLEANUP: the descriptor is closed here
      some (none, (w.close sockFds).alMemRelease cl)
    | some buf =>
      let record : Client :=
        { objidType := .client, clSockfd := some sockFds, clFilefd := none, clBuffer := buf }
      some (some cl, { w with clients := Function.update w.clients cl (some record) })

/-- `client_destroy`. -/
def clientDestroy (w : Serving) (clnt : Addr) (cl : Client) : Serving :=
  let w := w.closeIfValid cl.clFilefd
  let w := w.closeIfValid cl.clSockfd
  (w.alMemRelease cl.clBuffer).alMemRelease clnt

/-- `add_fd_to_epoll` with `kDataTypePTR`. -/
def addFdToEpoll (w : Serving) (fd : Fd) (ptr : Addr) : Serving :=
  { w with wkEpollFds := Function.update w.wkEpollFds fd (some ptr) }

/-- `dlist_push_tail` on `wk_clients`, whose node is allocated on behalf of `fd`. -/
def dlistPushTail (w : Serving) (fd : Fd) (clnt : Addr) (node : Option Addr) :
    Option Serving := do
  let w ← w.alMemAlloc fd node
  match node with
  | none => some w
  | some _ => some { w with wkClients := w.wkClients ++ [clnt] }

/-- One round of `worker_thread_handle_msgqueue_event`, after `mq_receive`. -/
def handleMessage (w : Serving) (d : Delivery) : Option Serving := do
  let (clnt, w) ← clientCreate w d.msgFd d.client d.buffer
  match clnt with
  | none => some (w.close d.msgFd)
  | some clnt =>
    let cl ← w.clients clnt
    if !d.epollCtl then some (clientDestroy w clnt cl)
    else
      -- the result of dlist_push_tail is not looked at
      dlistPushTail (addFdToEpoll w d.msgFd clnt) d.msgFd clnt d.node

/-- The loop of `worker_thread_handle_msgqueue_event`: `msgs` are received before
`mq_receive` fails, with `EAGAIN` or another error. -/
def drain (w : Serving) : List Delivery → Option Serving
  | [] => some w
  | d :: msgs => do drain (← handleMessage w d) msgs

/-- `worker_thread_handle_msgqueue_event`; `epollerr` is `event_flags & EPOLLERR`. -/
def workerThreadHandleMsgqueueEvent (w : Serving) (epollerr : Bool) (msgs : List Delivery) :
    Option Serving :=
  if epollerr then some w else drain w msgs

/-- The messages that the handler takes off the queue. -/
def received (epollerr : Bool) (msgs : List Delivery) : List Delivery :=
  if epollerr then [] else msgs

/-! ## What a message does -/

/-- What becomes of a descriptor. -/
inductive Fate
  | served
  | closed
  | closedTwice
  | unlisted
deriving DecidableEq, Repr

/-- The failures that the calls for a message meet decide the fate of its descriptor. -/
def Delivery.fate (d : Delivery) : Fate :=
  match d.client, d.buffer, d.epollCtl, d.node with
  | none, _, _, _ => .closed
  | some _, none, _, _ => .closedTwice
  | some _, some _, false, _ => .closed
  | some _, some _, true, none => .unlisted
  | some _, some _, true, some _ => .served

/-- The client is gone again; its descriptor was closed `n` times. -/
structure Dropped (w w' : Serving) (fd : Fd) (n : ℕ) : Prop where
  clients : w'.clients = w.clients
  blocks : w'.blocks = w.blocks
  wkEpollFds : w'.wkEpollFds = Function.update w.wkEpollFds fd none
  wkClients : w'.wkClients = w.wkClients
  closed : w'.closed = List.replicate n fd ++ w.closed

/-- The client `c` is registered; `listed` are the new entries of the list. -/
structure Entered (w w' : Serving) (fd : Fd) (c : Addr) (listed : List Addr) : Prop where
  record : ∃ cl, cl.clSockfd = some fd ∧ w'.clients = Function.update w.clients c (some cl)
  fresh : w.blocks c = none
  inUse : w'.blocks c = some fd
  blocks : ∀ a, w'.blocks a = w.blocks a ∨ w.blocks a = none ∧ w'.blocks a = some fd
  wkEpollFds : w'.wkEpollFds = Function.update w.wkEpollFds fd (some c)
  wkClients : w'.wkClients = w.wkClients ++ listed
  closed : w'.closed = w.closed

/-- The steps that a fate stands for. -/
def Fate.Step (w w' : Serving) (fd : Fd) : Fate → Prop
  | .served => ∃ c, Entered w w' fd c [c]
  | .closed => Dropped w w' fd 1
  | .closedTwice => Dropped w w' fd 2
  | .unlisted => ∃ c, Entered w w' fd c []

/-- Clients and list entries are blocks in use. -/
structure Tidy (w : Serving) : Prop where
  clients : ∀ c cl, w.clients c = some cl → w.blocks c ≠ none
  listed : ∀ c ∈ w.wkClients, w.blocks c ≠ none

theorem tidy_init : Tidy Serving.init := by
  constructor <;> simp [Serving.init]

section steps

variable {w w' : Serving} {fd fd' : Fd} {c a : Addr} {d : Delivery} {f : Fate} {n : ℕ}
  {listed : List Addr}

theorem alMemAlloc_some (h : w.alMemAlloc fd (some a) = some w') :
    w.blocks a = none ∧ w' = { w with blocks := Function.update w.blocks a (some fd) } := by
  simp only [Serving.alMemAlloc] at h
  split_ifs at h with ha
  exact ⟨ha, (Option.some.inj h).symm⟩

/-- A block that is allocated and released again leaves no trace. -/
theorem update_released {β : Type} {blocks : Addr → Option β} (x : Option β)
    (h : blocks a = none) : Function.update (Function.update blocks a x) a none = blocks := by
  rw [Function.update_idem, Function.update_eq_self_iff, h]

theorem Tidy.clients_none (hw : Tidy w) (h : w.blocks c = none) : w.clients c = none := by
  by_contra hc
  obtain ⟨cl, hcl⟩ := Option.ne_none_iff_exists'.mp hc
  exact hw.clients c cl hcl h

theorem clientCreate_buffer_none {block : Addr} {r : Option Addr} (hw : Tidy w)
    (h : clientCreate w fd (some block) none = some (r, w')) :
    r = none ∧ Dropped w w' fd 1 := by
  rw [clientCreate] at h
  obtain ⟨w₁, hblock, h⟩ := Option.bind_eq_some_iff.mp h
  obtain ⟨hfree, rfl⟩ := alMemAlloc_some hblock
  simp only [Serving.alMemAlloc, Option.bind_eq_bind, Option.bind_some, Option.some.injEq,
    Prod.mk.injEq] at h
  obtain ⟨rfl, rfl⟩ := h
  refine ⟨rfl, ?_, update_released _ hfree, rfl, rfl, rfl⟩
  exact Function.update_eq_self_iff.mpr (hw.clients_none hfree).symm

/-- The record that `client_create` fills in. -/
def newClient (fd : Fd) (buf : Addr) : Client where
  objidType := .client
  clSockfd := some fd
  clFilefd := none
  clBuffer := buf

/-- What `client_create` leaves behind on success. -/
def Serving.created (w : Serving) (fd : Fd) (c buf : Addr) : Serving :=
  { w with
    clients := Function.update w.clients c (some (newClient fd buf))
    blocks := Function.update (Function.update w.blocks c (some fd)) buf (some fd) }

theorem clientCreate_some {buf : Addr} {r : Option Addr}
    (h : clientCreate w fd (some c) (some buf) = some (r, w')) :
    r = some c ∧ w.blocks c = none ∧ w.blocks buf = none ∧ buf ≠ c ∧ w' = w.created fd c buf := by
  rw [clientCreate] at h
  obtain ⟨w₁, hblock, h⟩ := Option.bind_eq_some_iff.mp h
  obtain ⟨hfree, rfl⟩ := alMemAlloc_some hblock
  obtain ⟨w₂, hbuf, h⟩ := Option.bind_eq_some_iff.mp h
  obtain ⟨hfree', rfl⟩ := alMemAlloc_some hbuf
  simp only [Option.some.injEq, Prod.mk.injEq] at h
  change Function.update w.blocks c (some fd) buf = none at hfree'
  have hne : buf ≠ c := by
    rintro rfl
    simp at hfree'
  rw [Function.update_of_ne hne] at hfree'
  exact ⟨h.1.symm, hfree, hfree', hne, h.2.symm⟩

theorem clientDestroy_created {buf : Addr} (hw : Tidy w) (hc : w.blocks c = none)
    (hbuf : w.blocks buf = none) (hne : buf ≠ c) :
    Dropped w (clientDestroy (w.created fd c buf) c (newClient fd buf)) fd 1 := by
  refine ⟨?_, ?_, rfl, rfl, rfl⟩
  · have hbuf_self : Function.update w.clients buf none = w.clients :=
      Function.update_eq_self_iff.mpr (hw.clients_none hbuf).symm
    have hc_self : Function.update w.clients c none = w.clients :=
      Function.update_eq_self_iff.mpr (hw.clients_none hc).symm
    have hclear : Function.update (Function.update (Function.update w.clients c
        (some (newClient fd buf))) buf none) c none = w.clients := by
      rw [Function.update_comm hne.symm, Function.update_idem, hbuf_self, hc_self]
    exact hclear
  · have hclear : Function.update (Function.update (Function.update (Function.update w.blocks c
        (some fd)) buf (some fd)) buf none) c none = w.blocks := by
      rw [update_released _ (by rwa [Function.update_of_ne hne]), update_released _ hc]
    exact hclear

theorem entered_created {buf : Addr} (hc : w.blocks c = none) (hbuf : w.blocks buf = none)
    (hne : buf ≠ c) : Entered w (addFdToEpoll (w.created fd c buf) fd c) fd c [] := by
  refine ⟨⟨_, rfl, rfl⟩, hc, ?_, fun x => ?_, rfl, (List.append_nil _).symm, rfl⟩
  · simp [addFdToEpoll, Serving.created, Function.update_of_ne hne.symm]
  · by_cases hxb : x = buf
    · exact Or.inr ⟨hxb ▸ hbuf, by simp [addFdToEpoll, Serving.created, hxb]⟩
    · by_cases hxc : x = c
      · exact Or.inr ⟨hxc ▸ hc, by
          simp [addFdToEpoll, Serving.created, hxc, Function.update_of_ne hne.symm]⟩
      · exact Or.inl (by
          simp [addFdToEpoll, Serving.created, Function.update_of_ne hxb,
            Function.update_of_ne hxc])

/-- The node of the list is one more block for the descriptor. -/
theorem Entered.push {w₁ : Serving} {node : Addr} (h : Entered w w₁ fd c [])
    (hpush : dlistPushTail w₁ fd c (some node) = some w') : Entered w w' fd c [c] := by
  obtain ⟨w₂, halloc, hpush⟩ := Option.bind_eq_some_iff.mp hpush
  obtain ⟨hnode, rfl⟩ := alMemAlloc_some halloc
  obtain rfl := Option.some.inj hpush
  have hcn : c ≠ node := by
    rintro rfl
    rw [h.inUse] at hnode
    cases hnode
  refine ⟨h.record, h.fresh, ?_, fun x => ?_, h.wkEpollFds, ?_, h.closed⟩
  · exact (Function.update_of_ne hcn _ _).trans h.inUse
  · show Function.update w₁.blocks node (some fd) x = w.blocks x ∨
      w.blocks x = none ∧ Function.update w₁.blocks node (some fd) x = some fd
    by_cases hx : x = node
    · subst hx
      refine Or.inr ⟨?_, Function.update_self _ _ _⟩
      rcases h.blocks x with heq | ⟨hnone, -⟩
      · exact heq.symm.trans hnode
      · exact hnone
    · rw [Function.update_of_ne hx]
      exact h.blocks x
  · simp [h.wkClients]

theorem handleMessage_step (hw : Tidy w) (h : handleMessage w d = some w') :
    d.fate.Step w w' d.msgFd := by
  obtain ⟨fd, block, buffer, epollCtl, node⟩ := d
  obtain ⟨⟨r, w₁⟩, hcreate, h⟩ := Option.bind_eq_some_iff.mp h
  cases block with
  | none =>
    obtain ⟨rfl, rfl⟩ : none = r ∧ w = w₁ := by
      simpa [clientCreate, Serving.alMemAlloc] using hcreate
    obtain rfl := Option.some.inj h
    exact ⟨rfl, rfl, rfl, rfl, rfl⟩
  | some c =>
    cases buffer with
    | none =>
      obtain ⟨rfl, hd⟩ := clientCreate_buffer_none hw hcreate
      obtain rfl := Option.some.inj h
      -- client_create has closed the descriptor already
      refine ⟨hd.clients, hd.blocks, ?_, hd.wkClients, ?_⟩
      · simp [Serving.close, hd.wkEpollFds]
      · simp [Serving.close, hd.closed]
    | some buf =>
      obtain ⟨rfl, hc, hbuf, hne, rfl⟩ := clientCreate_some hcreate
      obtain ⟨cl, hcl, h⟩ := Option.bind_eq_some_iff.mp h
      obtain rfl : newClient fd buf = cl := by simpa [Serving.created] using hcl
      cases epollCtl with
      | false =>
        obtain rfl := Option.some.inj h
        exact clientDestroy_created hw hc hbuf hne
      | true =>
        have hent : Entered w (addFdToEpoll (w.created fd c buf) fd c) fd c [] :=
          entered_created hc hbuf hne
        cases node with
        | none =>
          obtain rfl := Option.some.inj h
          exact ⟨c, hent⟩
        | some node => exact ⟨c, hent.push h⟩

/-! ## What becomes of a descriptor -/

/-- `fd` belongs to one live client, which is registered and once in the list. -/
def Served (w : Serving) (fd : Fd) : Prop :=
  ∃ c cl, w.clients c = some cl ∧ cl.clSockfd = some fd ∧
    (∀ c' cl', w.clients c' = some cl' → cl'.clSockfd = some fd → c' = c) ∧
    w.wkEpollFds fd = some c ∧ w.wkClients.count c = 1 ∧ w.closed.count fd = 0

/-- `fd` was closed once, is not registered, and its blocks are released. -/
def Disposed (w : Serving) (fd : Fd) : Prop :=
  w.closed.count fd = 1 ∧ w.wkEpollFds fd = none ∧ ∀ a, w.blocks a ≠ some fd

/-- The worker has not heard of `fd`. -/
structure New (w : Serving) (fd : Fd) : Prop where
  closed : fd ∉ w.closed
  epoll : w.wkEpollFds fd = none
  clients : ∀ c cl, w.clients c = some cl → cl.clSockfd ≠ some fd
  blocks : ∀ a, w.blocks a ≠ some fd

/-- The state of a descriptor with the given fate. -/
def Fate.State (w : Serving) (fd : Fd) : Fate → Prop
  | .served => Served w fd
  | .closed => Disposed w fd
  | .closedTwice => w.closed.count fd = 2
  | .unlisted => ∃ c, w.wkEpollFds fd = some c ∧ w.blocks c ≠ none ∧ c ∉ w.wkClients

theorem Tidy.step (hw : Tidy w) (h : f.Step w w' fd) : Tidy w' := by
  have hdrop : ∀ {n}, Dropped w w' fd n → Tidy w' := by
    intro n hd
    constructor
    · rw [hd.clients, hd.blocks]
      exact hw.clients
    · rw [hd.wkClients, hd.blocks]
      exact hw.listed
  have henter : ∀ {c listed}, listed ⊆ [c] → Entered w w' fd c listed → Tidy w' := by
    intro c listed hl he
    have hkeep : ∀ x, w.blocks x ≠ none → w'.blocks x ≠ none := by
      intro x hx
      rcases he.blocks x with heq | ⟨hnone, -⟩
      · rwa [heq]
      · exact absurd hnone hx
    have hc : w'.blocks c ≠ none := by simp [he.inUse]
    obtain ⟨record, -, hclients⟩ := he.record
    constructor
    · intro x cl hx
      by_cases hxc : x = c
      · exact hxc ▸ hc
      · rw [hclients, Function.update_of_ne hxc] at hx
        exact hkeep x (hw.clients x cl hx)
    · intro x hx
      rw [he.wkClients, List.mem_append] at hx
      rcases hx with hx | hx
      · exact hkeep x (hw.listed x hx)
      · obtain rfl := List.mem_singleton.mp (hl hx)
        exact hc
  cases f with
  | served =>
    obtain ⟨c, he⟩ := h
    exact henter (List.Subset.refl _) he
  | closed => exact hdrop h
  | closedTwice => exact hdrop h
  | unlisted =>
    obtain ⟨c, he⟩ := h
    exact henter (List.nil_subset _) he

theorem Dropped.closed_count (h : Dropped w w' fd n) (hnew : New w fd) :
    w'.closed.count fd = n := by
  rw [h.closed, List.count_append, List.count_replicate_self,
    List.count_eq_zero_of_not_mem hnew.closed, Nat.add_zero]

/-- A message gives its descriptor the state of its fate. -/
theorem Fate.Step.state (hw : Tidy w) (hnew : New w fd) (h : f.Step w w' fd) :
    f.State w' fd := by
  cases f with
  | served =>
    obtain ⟨c, he⟩ := h
    obtain ⟨cl, hcl, hclients⟩ := he.record
    have hnot : c ∉ w.wkClients := fun hmem => hw.listed c hmem he.fresh
    refine ⟨c, cl, by simp [hclients], hcl, fun c' cl' hc' hfd => ?_, by simp [he.wkEpollFds],
      ?_, ?_⟩
    · by_contra hne
      rw [hclients, Function.update_of_ne hne] at hc'
      exact hnew.clients c' cl' hc' hfd
    · rw [he.wkClients, List.count_append, List.count_eq_zero_of_not_mem hnot,
        List.count_singleton_self]
    · rw [he.closed, List.count_eq_zero_of_not_mem hnew.closed]
  | closed =>
    have hd : Dropped w w' fd 1 := h
    exact ⟨hd.closed_count hnew, by simp [hd.wkEpollFds], by rw [hd.blocks]; exact hnew.blocks⟩
  | closedTwice => exact Dropped.closed_count h hnew
  | unlisted =>
    obtain ⟨c, he⟩ := h
    refine ⟨c, by simp [he.wkEpollFds], by simp [he.inUse], fun hmem => ?_⟩
    rw [he.wkClients, List.append_nil] at hmem
    exact hw.listed c hmem he.fresh

/-! ## Other descriptors -/

/-- What a message for `fd` leaves alone. -/
structure Frame (w w' : Serving) (fd : Fd) : Prop where
  closed : ∀ x, x ≠ fd → w'.closed.count x = w.closed.count x
  epoll : ∀ x, x ≠ fd → w'.wkEpollFds x = w.wkEpollFds x
  clients : ∀ c, w.blocks c ≠ none → w'.clients c = w.clients c
  record : ∀ c cl, w'.clients c = some cl → w.clients c = some cl ∨ cl.clSockfd = some fd
  blocks : ∀ a, w'.blocks a = w.blocks a ∨ w.blocks a = none ∧ w'.blocks a = some fd
  listed : ∀ c, w.blocks c ≠ none → w'.wkClients.count c = w.wkClients.count c

theorem Dropped.frame (h : Dropped w w' fd n) : Frame w w' fd := by
  refine ⟨fun x hx => ?_, fun x hx => ?_, fun c _ => by rw [h.clients], fun c cl hc => ?_,
    fun a => Or.inl (by rw [h.blocks]), fun c _ => by rw [h.wkClients]⟩
  · rw [h.closed, List.count_append, List.count_replicate, if_neg (by simpa using hx.symm),
      Nat.zero_add]
  · rw [h.wkEpollFds, Function.update_of_ne hx]
  · rw [h.clients] at hc
    exact Or.inl hc

theorem Entered.frame (h : Entered w w' fd c listed) (hl : listed ⊆ [c]) : Frame w w' fd := by
  obtain ⟨cl, hfd, hclients⟩ := h.record
  have hne : ∀ x, w.blocks x ≠ none → x ≠ c := fun x hx hxc => hx (hxc ▸ h.fresh)
  refine ⟨fun x _ => by rw [h.closed], fun x hx => ?_, fun x hx => ?_, fun x clx hx => ?_,
    h.blocks, fun x hx => ?_⟩
  · rw [h.wkEpollFds, Function.update_of_ne hx]
  · rw [hclients, Function.update_of_ne (hne x hx)]
  · by_cases hxc : x = c
    · subst hxc
      rw [hclients, Function.update_self] at hx
      exact Or.inr (Option.some.inj hx ▸ hfd)
    · rw [hclients, Function.update_of_ne hxc] at hx
      exact Or.inl hx
  · have hnot : x ∉ listed := fun hmem => hne x hx (List.mem_singleton.mp (hl hmem))
    rw [h.wkClients, List.count_append, List.count_eq_zero_of_not_mem hnot, Nat.add_zero]

theorem Fate.Step.frame (h : f.Step w w' fd) : Frame w w' fd := by
  cases f with
  | served =>
    obtain ⟨c, he⟩ := h
    exact he.frame (List.Subset.refl _)
  | closed => exact Dropped.frame h
  | closedTwice => exact Dropped.frame h
  | unlisted =>
    obtain ⟨c, he⟩ := h
    exact he.frame (List.nil_subset _)

theorem Frame.inUse (h : Frame w w' fd) (ha : w.blocks a ≠ none) : w'.blocks a ≠ none := by
  rcases h.blocks a with heq | ⟨hnone, -⟩
  · rwa [heq]
  · exact absurd hnone ha

theorem Frame.new (h : Frame w w' fd) (hne : fd' ≠ fd) (hnew : New w fd') : New w' fd' := by
  refine ⟨?_, ?_, fun c cl hc hfd => ?_, fun a ha => ?_⟩
  · have hzero : w'.closed.count fd' = 0 := by
      rw [h.closed fd' hne, List.count_eq_zero_of_not_mem hnew.closed]
    exact List.count_eq_zero.mp hzero
  · rw [h.epoll fd' hne, hnew.epoll]
  · rcases h.record c cl hc with hold | hother
    · exact hnew.clients c cl hold hfd
    · exact hne (Option.some.inj (hfd.symm.trans hother))
  · rcases h.blocks a with heq | ⟨-, hother⟩
    · exact hnew.blocks a (heq ▸ ha)
    · exact hne (Option.some.inj (ha.symm.trans hother))

/-- The state of another descriptor stays. -/
theorem Frame.state (h : Frame w w' fd) (hw : Tidy w) (hne : fd' ≠ fd) (hs : f.State w fd') :
    f.State w' fd' := by
  cases f with
  | served =>
    obtain ⟨c, cl, hc, hfd, honly, hepoll, hcount, hclosed⟩ := hs
    have hlive := hw.clients c cl hc
    refine ⟨c, cl, (h.clients c hlive).trans hc, hfd, fun c' cl' hc' hfd' => ?_,
      (h.epoll fd' hne).trans hepoll, (h.listed c hlive).trans hcount,
      (h.closed fd' hne).trans hclosed⟩
    rcases h.record c' cl' hc' with hold | hother
    · exact honly c' cl' hold hfd'
    · exact absurd (Option.some.inj (hfd'.symm.trans hother)) hne
  | closed =>
    obtain ⟨hclosed, hepoll, hblocks⟩ := hs
    refine ⟨(h.closed fd' hne).trans hclosed, (h.epoll fd' hne).trans hepoll, fun a ha => ?_⟩
    rcases h.blocks a with heq | ⟨-, hother⟩
    · exact hblocks a (heq ▸ ha)
    · exact hne (Option.some.inj (ha.symm.trans hother))
  | closedTwice => exact (h.closed fd' hne).trans hs
  | unlisted =>
    obtain ⟨c, hepoll, hlive, hnot⟩ := hs
    have hzero : w'.wkClients.count c = 0 := by
      rw [h.listed c hlive, List.count_eq_zero_of_not_mem hnot]
    exact ⟨c, (h.epoll fd' hne).trans hepoll, h.inUse hlive, List.count_eq_zero.mp hzero⟩

end steps

/-! ## The whole queue -/

/-- Every descriptor that is received meets its fate. -/
theorem drain_fate {w w' : Serving} {msgs : List Delivery} (hw : Tidy w)
    (hnew : ∀ d ∈ msgs, New w d.msgFd) (hdistinct : (msgs.map Delivery.msgFd).Nodup)
    (h : drain w msgs = some w') :
    Tidy w' ∧ (∀ d ∈ msgs, d.fate.State w' d.msgFd) ∧
      ∀ fd, fd ∉ msgs.map Delivery.msgFd → ∀ f : Fate, f.State w fd → f.State w' fd := by
  induction msgs generalizing w with
  | nil =>
    obtain rfl := Option.some.inj h
    exact ⟨hw, by simp, fun fd _ f hf => hf⟩
  | cons d msgs ih =>
    obtain ⟨w₁, hd, h⟩ := Option.bind_eq_some_iff.mp h
    rw [List.map_cons, List.nodup_cons] at hdistinct
    have hstep := handleMessage_step hw hd
    have hframe := hstep.frame
    have hne : ∀ d' ∈ msgs, d'.msgFd ≠ d.msgFd := by
      intro d' hd' heq
      exact hdistinct.1 (heq ▸ List.mem_map_of_mem hd')
    obtain ⟨hw', hfate, hrest⟩ := ih (hw.step hstep)
      (fun d' hd' => hframe.new (hne d' hd') (hnew d' (List.mem_cons_of_mem d hd')))
      hdistinct.2 h
    refine ⟨hw', fun d' hd' => ?_, fun fd hfd f hf => ?_⟩
    · rcases List.mem_cons.mp hd' with rfl | hd'
      -- the later messages are for other descriptors
      · exact hrest _ hdistinct.1 _ (hstep.state hw (hnew _ List.mem_cons_self))
      · exact hfate d' hd'
    · rw [List.map_cons, List.mem_cons, not_or] at hfd
      exact hrest fd hfd.2 f (hframe.state hw hfd.1 hf)

/-- No client is registered and not in the list. -/
def Registered (w : Serving) : Prop := ∀ fd c, w.wkEpollFds fd = some c → c ∈ w.wkClients

/-- The I/O buffer of a client cannot be allocated. -/
def Delivery.bufferFails (d : Delivery) : Prop := d.client.isSome ∧ d.buffer = none

/-- The list node of a registered client cannot be allocated. -/
def Delivery.nodeFails (d : Delivery) : Prop :=
  d.client.isSome ∧ d.buffer.isSome ∧ d.epollCtl = true ∧ d.node = none

theorem Delivery.fate_eq_closedTwice {d : Delivery} : d.fate = .closedTwice ↔ d.bufferFails := by
  obtain ⟨fd, client, buffer, epollCtl, node⟩ := d
  cases client <;> cases buffer <;> cases epollCtl <;> cases node <;> simp [fate, bufferFails]

theorem Delivery.fate_eq_unlisted {d : Delivery} : d.fate = .unlisted ↔ d.nodeFails := by
  obtain ⟨fd, client, buffer, epollCtl, node⟩ := d
  cases client <;> cases buffer <;> cases epollCtl <;> cases node <;> simp [fate, nodeFails]

theorem Registered.step {w w' : Serving} {fd : Fd} {f : Fate} (hr : Registered w)
    (h : f.Step w w' fd) (hf : f ≠ .unlisted) : Registered w' := by
  have hdrop : ∀ {n}, Dropped w w' fd n → Registered w' := by
    intro n hd x c hx
    rw [hd.wkEpollFds] at hx
    rw [hd.wkClients]
    by_cases hxf : x = fd
    · simp [hxf] at hx
    · rw [Function.update_of_ne hxf] at hx
      exact hr x c hx
  cases f with
  | served =>
    obtain ⟨c, he⟩ := h
    intro x c' hx
    rw [he.wkEpollFds] at hx
    rw [he.wkClients, List.mem_append]
    by_cases hxf : x = fd
    · subst hxf
      rw [Function.update_self] at hx
      exact Or.inr (by simp [Option.some.inj hx])
    · rw [Function.update_of_ne hxf] at hx
      exact Or.inl (hr x c' hx)
  | closed => exact hdrop h
  | closedTwice => exact hdrop h
  | unlisted => exact absurd rfl hf

theorem Registered.drain {w w' : Serving} {msgs : List Delivery} (hw : Tidy w)
    (hr : Registered w) (hnode : ∀ d ∈ msgs, ¬ d.nodeFails) (h : drain w msgs = some w') :
    Registered w' := by
  induction msgs generalizing w with
  | nil =>
    obtain rfl := Option.some.inj h
    exact hr
  | cons d msgs ih =>
    obtain ⟨w₁, hd, h⟩ := Option.bind_eq_some_iff.mp h
    have hstep := handleMessage_step hw hd
    have hfate : d.fate ≠ .unlisted :=
      fun heq => hnode d List.mem_cons_self (Delivery.fate_eq_unlisted.mp heq)
    exact ih (hw.step hstep) (hr.step hstep hfate)
      (fun d' hd' => hnode d' (List.mem_cons_of_mem d hd')) h

/-- What the worker owes to the descriptors it has received. -/
structure DescriptorsOwned (w : Serving) (fds : List Fd) : Prop where
  owned : ∀ fd ∈ fds, Served w fd ∧ ¬ Disposed w fd ∨ Disposed w fd ∧ ¬ Served w fd
  notTwice : ∀ fd ∈ fds, w.closed.count fd ≤ 1
  registered : Registered w

theorem Served.not_disposed {w : Serving} {fd : Fd} (h : Served w fd) : ¬ Disposed w fd := by
  obtain ⟨c, cl, -, -, -, -, -, hzero⟩ := h
  rintro ⟨hone, -⟩
  omega

/-- Every received descriptor ends up with one served client, or closed once and cleaned up,
if and only if no buffer and no list node that is asked for is refused. -/
theorem descriptors_owned_iff {w w' : Serving} {epollerr : Bool} {msgs : List Delivery}
    (hw : Tidy w) (hr : Registered w) (hnew : ∀ d ∈ msgs, New w d.msgFd)
    (hdistinct : (msgs.map Delivery.msgFd).Nodup)
    (h : workerThreadHandleMsgqueueEvent w epollerr msgs = some w') :
    DescriptorsOwned w' ((received epollerr msgs).map Delivery.msgFd) ↔
      ∀ d ∈ received epollerr msgs, ¬ d.bufferFails ∧ ¬ d.nodeFails := by
  cases epollerr with
  | true =>
    obtain rfl := Option.some.inj h
    exact ⟨fun _ => by simp [received], fun _ => ⟨by simp [received], by simp [received], hr⟩⟩
  | false =>
    obtain ⟨-, hfate, -⟩ := drain_fate hw hnew hdistinct h
    show DescriptorsOwned w' (msgs.map Delivery.msgFd) ↔
      ∀ d ∈ msgs, ¬ d.bufferFails ∧ ¬ d.nodeFails
    constructor
    · intro hown d hd
      have hstate := hfate d hd
      refine ⟨fun hbuf => ?_, fun hnode => ?_⟩
      · rw [Delivery.fate_eq_closedTwice.mpr hbuf] at hstate
        have htwo : w'.closed.count d.msgFd = 2 := hstate
        have hone := hown.notTwice d.msgFd (List.mem_map_of_mem hd)
        omega
      · rw [Delivery.fate_eq_unlisted.mpr hnode] at hstate
        obtain ⟨c, hepoll, -, hnot⟩ := hstate
        exact hnot (hown.registered d.msgFd c hepoll)
    · intro hgood
      -- the two other fates
      have hcases : ∀ fd ∈ msgs.map Delivery.msgFd, Served w' fd ∨ Disposed w' fd := by
        intro fd hfd
        obtain ⟨d, hd, rfl⟩ := List.mem_map.mp hfd
        have hstate := hfate d hd
        cases hf : d.fate with
        | served =>
          rw [hf] at hstate
          exact Or.inl hstate
        | closed =>
          rw [hf] at hstate
          exact Or.inr hstate
        | closedTwice => exact absurd (Delivery.fate_eq_closedTwice.mp hf) (hgood d hd).1
        | unlisted => exact absurd (Delivery.fate_eq_unlisted.mp hf) (hgood d hd).2
      refine ⟨fun fd hfd => ?_, fun fd hfd => ?_,
        hr.drain hw (fun d hd => (hgood d hd).2) h⟩
      · rcases hcases fd hfd with hs | hd
        · exact Or.inl ⟨hs, hs.not_disposed⟩
        · exact Or.inr ⟨hd, fun hs => hs.not_disposed hd⟩
      · rcases hcases fd hfd with ⟨c, cl, -, -, -, -, -, hzero⟩ | ⟨hone, -⟩
        · omega
        · omega

theorem new_init (fd : Fd) : New Serving.init fd := by
  constructor <;> simp [Serving.init]

theorem registered_init : Registered Serving.init := by
  simp [Registered, Serving.init]

/-- One client is served, the registration of a second one fails. -/
theorem descriptors_owned_two : ∃ w', workerThreadHandleMsgqueueEvent Serving.init false
    [⟨7, some 1, some 2, true, some 3⟩, ⟨8, some 4, some 5, false, none⟩] = some w' ∧
    DescriptorsOwned w' [7, 8] := by
  have hrun : ∃ w', workerThreadHandleMsgqueueEvent Serving.init false
      [⟨7, some 1, some 2, true, some 3⟩, ⟨8, some 4, some 5, false, none⟩] = some w' := ⟨_, rfl⟩
  obtain ⟨w', h⟩ := hrun
  refine ⟨w', h, (descriptors_owned_iff tidy_init registered_init (fun d _ => new_init d.msgFd)
    (by decide) h).mpr ?_⟩
  simp [received, Delivery.bufferFails, Delivery.nodeFails]

/-- Without an I/O buffer for its client the descriptor is closed by `client_create` and
again by its caller. -/
theorem descriptor_closed_twice : ¬ ∀ (w w' : Serving) (epollerr : Bool) (msgs : List Delivery),
    Tidy w → Registered w → (∀ d ∈ msgs, New w d.msgFd) → (msgs.map Delivery.msgFd).Nodup →
    workerThreadHandleMsgqueueEvent w epollerr msgs = some w' →
    DescriptorsOwned w' ((received epollerr msgs).map Delivery.msgFd) := by
  intro h
  have hown := h Serving.init _ false [⟨7, some 1, none, true, none⟩] tidy_init registered_init
    (fun d _ => new_init d.msgFd) (by decide) rfl
  have hcount := hown.notTwice 7 (by decide)
  revert hcount
  decide

end AioServer.Linux
