import AioServer.LinkedList.Memory

/-!
# The doubly linked list: its functions

`base/linked_list.c`, function by function. `none` is undefined behaviour or a `BUGSTOP_IF`
that fires. An allocation is given by its outcome: NULL (`none`) or the address of a block.
A loop takes the number of rounds it may make.

`Call` is one call of the list's interface and `Call.exec` makes it.
-/

namespace AioServer.LinkedList

variable {α υ ω σ : Type}

namespace Memory

/-- `dlinked_list_internal_insert_node` -/
def insertNode (m : Memory α υ σ) (list : Addr) (item : α) (refnode : NodePtr)
    (dir : LinkDirection) (alloc : Option Addr) : Option (Option α × Memory α υ σ) := do
  let h ← m.lists list
  match alloc with
  | none => some (none, m)
  | some a =>
    -- an allocator does not hand out a block that is in use
    if (m.owner a).isSome then none
    else
      let newnode := NodePtr.block a
      let next ← m.getLink refnode dir
      let m := m.allocNode h.dlAllocator a
        { nData := some item
          nLink := fun d => if d = dir.not then refnode else next }
      let next ← m.getLink refnode dir
      let m ← m.setLink next dir.not newnode
      let m ← m.setLink refnode dir newnode
      let m := m.setItems list (h.dlItems + 1)
      let item ← m.getData newnode
      some (item, m)

/-- `dlinked_list_internal_remove_node` -/
def removeNode (m : Memory α υ σ) (list : Addr) (node : NodePtr) :
    Option (Option α × Memory α υ σ) := do
  let h ← m.lists list
  -- "Trying to delete sentinel node!"
  if node = h.dlSentinel then none
  -- "Item count mismatch!"
  else if h.dlItems = 0 then none
  else
    let right ← m.getLink node .right
    let left ← m.getLink node .left
    let m ← m.setLink right .left left
    let left ← m.getLink node .left
    let right ← m.getLink node .right
    let m ← m.setLink left .right right
    let nodeData ← m.getData node
    let m ← m.alMemRelease h.dlAllocator node.addr
    some (nodeData, m.setItems list (h.dlItems - 1))

/-- `dlist_create`; `allocatorHandle` is the default allocator. -/
def dlistCreate (m : Memory α υ σ) (allocatorHandle : Allocator)
    (cmp : σ → α → α → υ → ℤ) (al : Option Allocator) (userdata : υ) (alloc : Option Addr) :
    Option (Option Addr × Memory α υ σ) :=
  match alloc with
  | none => some (none, m)
  | some a =>
    if (m.owner a).isSome then none
    else
      let newlist : DlinkedList α υ σ :=
        { dlComparator := cmp
          dlAllocator := al.getD allocatorHandle
          dlSentinel := .storage a
          dlItems := 0
          dlUserdata := userdata }
      some (some a, m.allocList a newlist { nData := none, nLink := fun _ => .storage a })

/-- The body of the two push functions: `side` is the end that gets the item. -/
def push (m : Memory α υ σ) (side : LinkDirection) (list : Addr) (item : α)
    (alloc : Option Addr) : Option (Option α × Memory α υ σ) := do
  let h ← m.lists list
  let refnode ← m.getLink h.dlSentinel side
  m.insertNode list item refnode side.not alloc

def dlistPushHead (m : Memory α υ σ) (list : Addr) (item : α) (alloc : Option Addr) :
    Option (Option α × Memory α υ σ) :=
  m.push .right list item alloc

def dlistPushTail (m : Memory α υ σ) (list : Addr) (item : α) (alloc : Option Addr) :
    Option (Option α × Memory α υ σ) :=
  m.push .left list item alloc

/-- The body of the two pop functions: `side` is the end that loses its item. -/
def pop (m : Memory α υ σ) (side : LinkDirection) (list : Addr) :
    Option (Option α × Memory α υ σ) := do
  let h ← m.lists list
  let node ← m.getLink h.dlSentinel side
  if node ≠ h.dlSentinel then
    m.removeNode list node
  -- "Incorrect item count!"
  else if h.dlItems ≠ 0 then none
  else some (none, m)

def dlistPopHead (m : Memory α υ σ) (list : Addr) : Option (Option α × Memory α υ σ) :=
  m.pop .right list

def dlistPopTail (m : Memory α υ σ) (list : Addr) : Option (Option α × Memory α υ σ) :=
  m.pop .left list

/-- The loop of `dlist_find`; `env` is what the comparator sees of the other memory. -/
def findLoop (m : Memory α υ σ) (h : DlinkedList α υ σ) (env : σ) (item : α) :
    ℕ → NodePtr → Option (Option α)
  | 0, _ => none
  | fuel + 1, curr =>
    if curr = h.dlSentinel then some none
    else do
      let x ← (← m.getData curr)
      if h.dlComparator env x item h.dlUserdata = 0 then m.getData curr
      else findLoop m h env item fuel (← m.getLink curr .right)

def dlistFind (m : Memory α υ σ) (fuel : ℕ) (env : σ) (list : Addr) (item : α) :
    Option (Option α) := do
  let h ← m.lists list
  m.findLoop h env item fuel (← m.getLink h.dlSentinel .right)

/-- The loop of `dlist_remove_item`. -/
def removeLoop (m : Memory α υ σ) (h : DlinkedList α υ σ) (env : σ) (list : Addr) (item : α) :
    ℕ → NodePtr → Option (Option α × Memory α υ σ)
  | 0, _ => none
  | fuel + 1, curr =>
    if curr = h.dlSentinel then some (none, m)
    else do
      let x ← (← m.getData curr)
      if h.dlComparator env x item h.dlUserdata = 0 then m.removeNode list curr
      else removeLoop m h env list item fuel (← m.getLink curr .right)

def dlistRemoveItem (m : Memory α υ σ) (fuel : ℕ) (env : σ) (list : Addr) (item : α) :
    Option (Option α × Memory α υ σ) := do
  let h ← m.lists list
  m.removeLoop h env list item fuel (← m.getLink h.dlSentinel .right)

/-- The loop of `dlist_for_each`. The callback changes the memory outside the lists. -/
def forEachLoop (m : Memory α υ σ) (h : DlinkedList α υ σ) (fn : α → υ → ω → σ → σ)
    (walkData : ω) : ℕ → NodePtr → σ → Option σ
  | 0, _, _ => none
  | fuel + 1, curr, env =>
    if curr = h.dlSentinel then some env
    else do
      let x ← (← m.getData curr)
      let env := fn x h.dlUserdata walkData env
      forEachLoop m h fn walkData fuel (← m.getLink curr .right) env

def dlistForEach (m : Memory α υ σ) (fuel : ℕ) (env : σ) (list : Addr)
    (fn : α → υ → ω → σ → σ) (walkData : ω) : Option σ := do
  let h ← m.lists list
  m.forEachLoop h fn walkData fuel (← m.getLink h.dlSentinel .right) env

def dlistSize (m : Memory α υ σ) (list : Addr) : Option ℕ :=
  (m.lists list).map (·.dlItems)

end Memory

/-! ## Calls -/

/-- One call of the interface on a given list. -/
inductive Call (α υ ω σ : Type)
  | pushHead (item : α) (alloc : Option Addr)
  | pushTail (item : α) (alloc : Option Addr)
  | popHead
  | popTail
  | find (item : α)
  | removeItem (item : α)
  | forEach (fn : α → υ → ω → σ → σ) (walkData : ω)
  | size

/-- What a call returns; for `dlist_for_each` the memory that the callbacks leave. -/
inductive Result (α σ : Type)
  | item (x : Option α)
  | env (e : σ)
  | size (n : ℕ)

/-- Making a call, while the memory outside the lists is `env`. -/
def Call.exec (fuel : ℕ) (list : Addr) (env : σ) (m : Memory α υ σ) :
    Call α υ ω σ → Option (Result α σ × Memory α υ σ)
  | pushHead item alloc => (m.dlistPushHead list item alloc).map fun r => (.item r.1, r.2)
  | pushTail item alloc => (m.dlistPushTail list item alloc).map fun r => (.item r.1, r.2)
  | popHead => (m.dlistPopHead list).map fun r => (.item r.1, r.2)
  | popTail => (m.dlistPopTail list).map fun r => (.item r.1, r.2)
  | find item => (m.dlistFind fuel env list item).map fun x => (.item x, m)
  | removeItem item =>
    (m.dlistRemoveItem fuel env list item).map fun r => (.item r.1, r.2)
  | forEach fn walkData => (m.dlistForEach fuel env list fn walkData).map fun e => (.env e, m)
  | size => (m.dlistSize list).map fun n => (.size n, m)

/-- Calls one after the other. Each comes with the memory outside the lists at its time. -/
def execAll (fuel : ℕ) (list : Addr) :
    List (σ × Call α υ ω σ) → Memory α υ σ → Option (List (Result α σ) × Memory α υ σ)
  | [], m => some ([], m)
  | (env, call) :: calls, m => do
    let (r, m) ← call.exec fuel list env m
    let (rs, m) ← execAll fuel list calls m
    some (r :: rs, m)

/-- The call's allocation, if it makes one that succeeds, yields a block not in use. -/
def Call.Fresh (m : Memory α υ σ) : Call α υ ω σ → Prop
  | pushHead _ (some a) | pushTail _ (some a) => m.owner a = none
  | _ => True

/-- The allocator keeps to its contract in a series of calls. -/
def Fresh (fuel : ℕ) (list : Addr) : List (σ × Call α υ ω σ) → Memory α υ σ → Prop
  | [], _ => True
  | (env, call) :: calls, m =>
    call.Fresh m ∧ ∀ r ∈ call.exec fuel list env m, Fresh fuel list calls r.2

end AioServer.LinkedList
