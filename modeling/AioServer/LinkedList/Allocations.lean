import AioServer.Lib.Ledger
import AioServer.LinkedList.Code

/-!
# The doubly linked list: its calls of the allocator

The functions of `AioServer.LinkedList.Code` again, with the ledger of what they get from
`al_mem_alloc` and pass to `al_mem_release`, and `dlist_destroy`. `handedOut` reads a ledger as a
history of the blocks in use, to be compared with those of the memory.

`Op` is an operation in a program that works with any number of lists; `execOps` runs such a
program. A list call with its ledger is the list call (`Call.execLogged_fst`).
-/

namespace AioServer.LinkedList

open Lib

variable {α υ ω σ : Type}

/-- The pointer that `al_mem_alloc` returns and `al_mem_release` gets. -/
inductive BlockPtr
  | header
  | node (p : NodePtr)
deriving DecidableEq, Repr

/-- A block of memory, with the list it was obtained for. -/
structure Block where
  list : Addr
  allocator : Allocator
  ptr : BlockPtr
deriving DecidableEq, Repr

/-- The address that `al_mem_alloc` returned. -/
def Block.addr (b : Block) : Addr :=
  match b.ptr with
  | .header => b.list
  | .node p => p.addr

/-- The blocks in use after the entries of a ledger, with the allocator each came from. -/
def handedOut (owner : Addr → Option Allocator) : List (Event Block) → Addr → Option Allocator
  | [] => owner
  | .acquire b :: es => handedOut (Function.update owner b.addr (some b.allocator)) es
  | .use _ :: es => handedOut owner es
  | .release b :: es => handedOut (Function.update owner b.addr none) es

theorem handedOut_append {owner : Addr → Option Allocator} {es fs : List (Event Block)} :
    handedOut owner (es ++ fs) = handedOut (handedOut owner es) fs := by
  induction es generalizing owner with
  | nil => rfl
  | cons e es ih => cases e <;> exact ih

namespace Memory

/-! ## The code -/

def insertNodeLogged (m : Memory α υ σ) (list : Addr) (item : α) (refnode : NodePtr)
    (dir : LinkDirection) (alloc : Option Addr) :
    Option ((Option α × Memory α υ σ) × List (Event Block)) := do
  let h ← m.lists list
  let r ← m.insertNode list item refnode dir alloc
  some (r, alloc.toList.map fun a => .acquire ⟨list, h.dlAllocator, .node (.block a)⟩)

def removeNodeLogged (m : Memory α υ σ) (list : Addr) (node : NodePtr) :
    Option ((Option α × Memory α υ σ) × List (Event Block)) := do
  let h ← m.lists list
  let r ← m.removeNode list node
  some (r, [.release ⟨list, h.dlAllocator, .node node⟩])

def pushLogged (m : Memory α υ σ) (side : LinkDirection) (list : Addr) (item : α)
    (alloc : Option Addr) : Option ((Option α × Memory α υ σ) × List (Event Block)) := do
  let h ← m.lists list
  let refnode ← m.getLink h.dlSentinel side
  m.insertNodeLogged list item refnode side.not alloc

def popLogged (m : Memory α υ σ) (side : LinkDirection) (list : Addr) :
    Option ((Option α × Memory α υ σ) × List (Event Block)) := do
  let h ← m.lists list
  let node ← m.getLink h.dlSentinel side
  if node ≠ h.dlSentinel then
    m.removeNodeLogged list node
  else if h.dlItems ≠ 0 then none
  else some ((none, m), [])

def removeLoopLogged (m : Memory α υ σ) (h : DlinkedList α υ σ) (env : σ) (list : Addr)
    (item : α) : ℕ → NodePtr → Option ((Option α × Memory α υ σ) × List (Event Block))
  | 0, _ => none
  | fuel + 1, curr =>
    if curr = h.dlSentinel then some ((none, m), [])
    else do
      let x ← (← m.getData curr)
      if h.dlComparator env x item h.dlUserdata = 0 then m.removeNodeLogged list curr
      else removeLoopLogged m h env list item fuel (← m.getLink curr .right)

def removeItemLogged (m : Memory α υ σ) (fuel : ℕ) (env : σ) (list : Addr) (item : α) :
    Option ((Option α × Memory α υ σ) × List (Event Block)) := do
  let h ← m.lists list
  m.removeLoopLogged h env list item fuel (← m.getLink h.dlSentinel .right)

/-- The loop of `dlist_destroy`. -/
def destroyLoop (list : Addr) : ℕ → NodePtr → Memory α υ σ →
    Option (List (Event Block) × Memory α υ σ)
  | 0, _, _ => none
  | fuel + 1, curr, m => do
    let h ← m.lists list
    if curr = h.dlSentinel then some ([], m)
    else
      let next ← m.getLink curr .right
      let m ← m.alMemRelease h.dlAllocator curr.addr
      let (es, m) ← destroyLoop list fuel next m
      some (.release ⟨list, h.dlAllocator, .node curr⟩ :: es, m)

def dlistDestroy (m : Memory α υ σ) (fuel : ℕ) (list : Addr) :
    Option (List (Event Block) × Memory α υ σ) := do
  let h ← m.lists list
  let curr ← m.getLink h.dlSentinel .right
  let (es, m) ← destroyLoop list fuel curr m
  let h ← m.lists list
  let m ← m.alMemRelease h.dlAllocator list
  some (es ++ [.release ⟨list, h.dlAllocator, .header⟩], m)

end Memory

/-- Making a call, with its ledger. The calls that only read make no entry. -/
def Call.execLogged (fuel : ℕ) (list : Addr) (env : σ) (m : Memory α υ σ) :
    Call α υ ω σ → Option ((Result α σ × Memory α υ σ) × List (Event Block))
  | pushHead item alloc =>
    (m.pushLogged .right list item alloc).map fun r => ((.item r.1.1, r.1.2), r.2)
  | pushTail item alloc =>
    (m.pushLogged .left list item alloc).map fun r => ((.item r.1.1, r.1.2), r.2)
  | popHead => (m.popLogged .right list).map fun r => ((.item r.1.1, r.1.2), r.2)
  | popTail => (m.popLogged .left list).map fun r => ((.item r.1.1, r.1.2), r.2)
  | removeItem item =>
    (m.removeItemLogged fuel env list item).map fun r => ((.item r.1.1, r.1.2), r.2)
  | find item => ((find item : Call α υ ω σ).exec fuel list env m).map fun r => (r, [])
  | forEach fn walkData => ((forEach fn walkData).exec fuel list env m).map fun r => (r, [])
  | size => ((size : Call α υ ω σ).exec fuel list env m).map fun r => (r, [])

/-- One operation of a program; a list call comes with the memory outside the lists. -/
inductive Op (α υ ω σ : Type)
  | create (cmp : σ → α → α → υ → ℤ) (al : Option Allocator) (userdata : υ)
      (alloc : Option Addr)
  | call (list : Addr) (env : σ) (c : Call α υ ω σ)
  | destroy (list : Addr)

def Op.exec (allocatorHandle : Allocator) (fuel : ℕ) (m : Memory α υ σ) :
    Op α υ ω σ → Option (List (Event Block) × Memory α υ σ)
  | create cmp al userdata alloc =>
    (m.dlistCreate allocatorHandle cmp al userdata alloc).map fun r =>
      (r.1.toList.map fun a => .acquire ⟨a, al.getD allocatorHandle, .header⟩, r.2)
  | call list env c => (c.execLogged fuel list env m).map fun r => (r.2, r.1.2)
  | destroy list => m.dlistDestroy fuel list

/-- A program: its ledger, and the memory it leaves. -/
def execOps (allocatorHandle : Allocator) (fuel : ℕ) :
    List (Op α υ ω σ) → Memory α υ σ → Option (List (Event Block) × Memory α υ σ)
  | [], m => some ([], m)
  | op :: ops, m => do
    let (es, m) ← op.exec allocatorHandle fuel m
    let (fs, m) ← execOps allocatorHandle fuel ops m
    some (es ++ fs, m)

/-- Every list that is used was created and is not destroyed yet, and all lists are destroyed
in the end; `live` are the lists there are. -/
def Ended : List (Op α υ ω σ) → List Addr → Prop
  | [], live => live = []
  | .create _ _ _ alloc :: ops, live => Ended ops (alloc.toList ++ live)
  | .call list _ _ :: ops, live => list ∈ live ∧ Ended ops live
  | .destroy list :: ops, live => list ∈ live ∧ Ended ops (live.erase list)

/-- The operation's allocation, if it makes one that succeeds, yields a block not in use. -/
def Op.Fresh (m : Memory α υ σ) : Op α υ ω σ → Prop
  | create _ _ _ (some a) => m.owner a = none
  | call _ _ c => c.Fresh m
  | _ => True

/-- The allocators keep to their contract in a program. -/
def FreshOps (allocatorHandle : Allocator) (fuel : ℕ) :
    List (Op α υ ω σ) → Memory α υ σ → Prop
  | [], _ => True
  | op :: ops, m =>
    op.Fresh m ∧ ∀ r ∈ op.exec allocatorHandle fuel m, FreshOps allocatorHandle fuel ops r.2

/-! ## Without the ledger -/

namespace Memory

variable {m : Memory α υ σ} {list : Addr} {item : α} {alloc : Option Addr}

theorem insertNodeLogged_fst {refnode : NodePtr} {dir : LinkDirection} :
    (m.insertNodeLogged list item refnode dir alloc).map Prod.fst
      = m.insertNode list item refnode dir alloc := by
  unfold insertNodeLogged
  cases hl : m.lists list with
  | none => simp [insertNode, hl]
  | some h => cases hr : m.insertNode list item refnode dir alloc <;> simp

theorem removeNodeLogged_fst {node : NodePtr} :
    (m.removeNodeLogged list node).map Prod.fst = m.removeNode list node := by
  unfold removeNodeLogged
  cases hl : m.lists list with
  | none => simp [removeNode, hl]
  | some h => cases hr : m.removeNode list node <;> simp

theorem pushLogged_fst {side : LinkDirection} :
    (m.pushLogged side list item alloc).map Prod.fst = m.push side list item alloc := by
  simp only [pushLogged, push, Option.bind_eq_bind, Option.map_bind, Function.comp_def,
    insertNodeLogged_fst]

theorem popLogged_fst {side : LinkDirection} :
    (m.popLogged side list).map Prod.fst = m.pop side list := by
  simp only [popLogged, pop, Option.bind_eq_bind, Option.map_bind, Function.comp_def,
    apply_ite (Option.map Prod.fst), removeNodeLogged_fst, Option.map_none, Option.map_some]

theorem removeLoopLogged_fst {h : DlinkedList α υ σ} {env : σ} {fuel : ℕ} {curr : NodePtr} :
    (m.removeLoopLogged h env list item fuel curr).map Prod.fst
      = m.removeLoop h env list item fuel curr := by
  induction fuel generalizing curr with
  | zero => rfl
  | succ fuel ih =>
    simp only [removeLoopLogged, removeLoop, Option.bind_eq_bind, Option.map_bind,
      Function.comp_def, apply_ite (Option.map Prod.fst), removeNodeLogged_fst,
      Option.map_some, ih]

theorem removeItemLogged_fst {env : σ} {fuel : ℕ} :
    (m.removeItemLogged fuel env list item).map Prod.fst
      = m.dlistRemoveItem fuel env list item := by
  simp only [removeItemLogged, dlistRemoveItem, Option.bind_eq_bind, Option.map_bind,
    Function.comp_def, removeLoopLogged_fst]

end Memory

/-- A call that returns an item, without its ledger. -/
theorem item_fst {f : Option ((Option α × Memory α υ σ) × List (Event Block))}
    {g : Option (Option α × Memory α υ σ)} (h : f.map Prod.fst = g) :
    (f.map fun r => (((.item r.1.1 : Result α σ), r.1.2), r.2)).map Prod.fst
      = g.map fun r => (.item r.1, r.2) := by
  rw [← h, Option.map_map, Option.map_map]
  rfl

/-- The ledger is all that is added to a call. -/
theorem Call.execLogged_fst {m : Memory α υ σ} {list : Addr} {env : σ} {fuel : ℕ}
    (c : Call α υ ω σ) :
    (c.execLogged fuel list env m).map Prod.fst = c.exec fuel list env m := by
  cases c with
  | pushHead item alloc | pushTail item alloc => exact item_fst Memory.pushLogged_fst
  | popHead | popTail => exact item_fst Memory.popLogged_fst
  | removeItem item => exact item_fst Memory.removeItemLogged_fst
  | find item | forEach fn walkData | size =>
    simp [execLogged, Option.map_map, Function.comp_def]

end AioServer.LinkedList
