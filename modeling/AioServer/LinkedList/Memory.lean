import Mathlib.Data.Int.Notation
import Mathlib.Data.Nat.Notation
import Mathlib.Logic.Function.Basic

/-!
# The doubly linked list: its memory

`base/linked_list.c` keeps a list in blocks of a `struct allocator`: one block for the
header (`struct dlinked_list`), whose field `dl_storage` is the sentinel node, and one block
for each other node (`struct list_node`).

* `Memory` says which blocks are in use, and what is in the headers and nodes in them;
* `getLink`, `setLink`, ... are the accesses of the C code; they are undefined (`none`) at a
  block that is not in use or holds something else;
* `Memory.link`, `Memory.data` read the same memory without the failures; `setLink_eq`,
  ... say what an access does to them.

`α` are the stored items (non-NULL pointers), `υ` the user data of a list, `σ` the memory
outside the lists, which a comparator may read.
-/

namespace AioServer.LinkedList

variable {α υ σ : Type}

/-- Address of a block handed out by an allocator. -/
abbrev Addr := ℕ

/-- Address of a `struct allocator`. -/
abbrev Allocator := ℕ

/-- `kLinkDirection`. -/
inductive LinkDirection
  | left
  | right
deriving DecidableEq, Repr

/-- `!where`. -/
def LinkDirection.not : LinkDirection → LinkDirection
  | left => right
  | right => left

@[simp] theorem LinkDirection.not_right : right.not = left := rfl

@[simp] theorem LinkDirection.not_not (d : LinkDirection) : d.not.not = d := by
  cases d <;> rfl

@[simp] theorem LinkDirection.not_ne (d : LinkDirection) : d.not ≠ d := by
  cases d <;> decide

@[simp] theorem LinkDirection.ne_not (d : LinkDirection) : d ≠ d.not := d.not_ne.symm

/-- `struct list_node*`: into the header of a list, or to a block of its own. -/
inductive NodePtr
  | storage (list : Addr)
  | block (a : Addr)
deriving DecidableEq, Repr

/-- The block that a node pointer points into. -/
def NodePtr.addr : NodePtr → Addr
  | storage list => list
  | block a => a

/-- `struct list_node`; `nData` is `none` for NULL. -/
structure ListNode (α : Type) where
  nLink : LinkDirection → NodePtr
  nData : Option α

/-- `struct dlinked_list`. The node in `dl_storage` is kept with the other nodes, under the
pointer `NodePtr.storage`. `dl_items` counts blocks in use, so it never wraps. -/
structure DlinkedList (α υ σ : Type) where
  dlComparator : σ → α → α → υ → ℤ
  dlAllocator : Allocator
  dlSentinel : NodePtr
  dlItems : ℕ
  dlUserdata : υ

/-- The blocks in use, with the allocator each came from, and their contents. -/
structure Memory (α υ σ : Type) where
  owner : Addr → Option Allocator
  lists : Addr → Option (DlinkedList α υ σ)
  nodes : NodePtr → Option (ListNode α)

namespace Memory

variable {m m' : Memory α υ σ} {p q r : NodePtr} {d e : LinkDirection} {a : Addr}

/-! ## Accesses -/

def getLink (m : Memory α υ σ) (p : NodePtr) (d : LinkDirection) : Option NodePtr :=
  (m.nodes p).map (·.nLink d)

def getData (m : Memory α υ σ) (p : NodePtr) : Option (Option α) :=
  (m.nodes p).map (·.nData)

/-- `node->n_link[d] = q` on a node that is there. -/
def writeLink (m : Memory α υ σ) (p : NodePtr) (d : LinkDirection) (q : NodePtr) :
    Memory α υ σ :=
  { m with
    nodes := Function.update m.nodes p
      ((m.nodes p).map fun n => { n with nLink := Function.update n.nLink d q }) }

def setLink (m : Memory α υ σ) (p : NodePtr) (d : LinkDirection) (q : NodePtr) :
    Option (Memory α υ σ) :=
  if (m.nodes p).isSome then some (m.writeLink p d q) else none

/-- `list->dl_items = n` -/
def setItems (m : Memory α υ σ) (list : Addr) (n : ℕ) : Memory α υ σ :=
  { m with
    lists := Function.update m.lists list
      ((m.lists list).map fun h => { h with dlItems := n }) }

/-- A new block with a header; all its fields are written before any is read. -/
def allocList (m : Memory α υ σ) (a : Addr) (h : DlinkedList α υ σ) (sentinel : ListNode α) :
    Memory α υ σ where
  owner := Function.update m.owner a (some h.dlAllocator)
  lists := Function.update m.lists a (some h)
  nodes := Function.update m.nodes (.storage a) (some sentinel)

/-- A new block with a node; all its fields are written before any is read. -/
def allocNode (m : Memory α υ σ) (al : Allocator) (a : Addr) (n : ListNode α) :
    Memory α υ σ where
  owner := Function.update m.owner a (some al)
  lists := m.lists
  nodes := Function.update m.nodes (.block a) (some n)

/-- The memory without the block `a`. -/
def free (m : Memory α υ σ) (a : Addr) : Memory α υ σ where
  owner := Function.update m.owner a none
  lists := Function.update m.lists a none
  nodes := fun p => if p.addr = a then none else m.nodes p

/-- `al_mem_release`: undefined for a block that this allocator has not handed out. -/
def alMemRelease (m : Memory α υ σ) (al : Allocator) (a : Addr) : Option (Memory α υ σ) :=
  if m.owner a = some al then some (m.free a) else none

/-! ## The links and the data as functions -/

def link (m : Memory α υ σ) (d : LinkDirection) (p : NodePtr) : NodePtr :=
  (m.getLink p d).getD p

def data (m : Memory α υ σ) (p : NodePtr) : Option α := (m.nodes p).bind (·.nData)

theorem getLink_eq (h : (m.nodes p).isSome) : m.getLink p d = some (m.link d p) := by
  obtain ⟨n, hn⟩ := Option.isSome_iff_exists.mp h
  simp [link, getLink, hn]

theorem isSome_of_data {x : α} (h : m.data p = some x) : (m.nodes p).isSome := by
  cases hp : m.nodes p with
  | none => simp [data, hp] at h
  | some n => rfl

theorem getData_eq {x : α} (h : m.data p = some x) : m.getData p = some (some x) := by
  obtain ⟨n, hn, hd⟩ := Option.bind_eq_some_iff.mp h
  simp [getData, hn, hd]

theorem setLink_eq (h : (m.nodes p).isSome) : m.setLink p d q = some (m.writeLink p d q) :=
  if_pos h

@[simp] theorem isSome_writeLink :
    ((m.writeLink p d q).nodes r).isSome = (m.nodes r).isSome := by
  by_cases h : r = p
  · simp [writeLink, h]
  · simp [writeLink, Function.update_of_ne h]

@[simp] theorem data_writeLink : (m.writeLink p d q).data r = m.data r := by
  by_cases h : r = p
  · subst h
    cases hr : m.nodes r <;> simp [writeLink, data, hr]
  · simp [writeLink, data, Function.update_of_ne h]

theorem link_writeLink (hp : (m.nodes p).isSome) :
    (m.writeLink p d q).link e r = if r = p ∧ e = d then q else m.link e r := by
  obtain ⟨n, hn⟩ := Option.isSome_iff_exists.mp hp
  by_cases h : r = p
  · subst h
    by_cases he : e = d
    · simp [link, getLink, writeLink, hn, he]
    · simp [link, getLink, writeLink, hn, he, Function.update_of_ne]
  · simp [link, getLink, writeLink, h, Function.update_of_ne]

@[simp] theorem owner_writeLink : (m.writeLink p d q).owner = m.owner := rfl

@[simp] theorem lists_writeLink : (m.writeLink p d q).lists = m.lists := rfl

@[simp] theorem owner_setItems {n : ℕ} : (m.setItems a n).owner = m.owner := rfl

@[simp] theorem nodes_setItems {n : ℕ} : (m.setItems a n).nodes = m.nodes := rfl

@[simp] theorem data_setItems {n : ℕ} : (m.setItems a n).data = m.data := rfl

@[simp] theorem link_setItems {n : ℕ} : (m.setItems a n).link = m.link := rfl

theorem isSome_allocNode {al : Allocator} {n : ListNode α} (h : (m.nodes p).isSome) :
    ((m.allocNode al a n).nodes p).isSome := by
  by_cases hp : p = .block a
  · simp [allocNode, hp]
  · simpa [allocNode, Function.update_of_ne hp] using h

theorem link_allocNode_self {al : Allocator} {n : ListNode α} :
    (m.allocNode al a n).link d (.block a) = n.nLink d := by
  simp [link, getLink, allocNode]

theorem link_allocNode {al : Allocator} {n : ListNode α} (h : p ≠ .block a) :
    (m.allocNode al a n).link d p = m.link d p := by
  simp [link, getLink, allocNode, Function.update_of_ne h]

theorem data_allocNode_self {al : Allocator} {n : ListNode α} :
    (m.allocNode al a n).data (.block a) = n.nData := by
  simp [data, allocNode]

theorem data_allocNode {al : Allocator} {n : ListNode α} (h : p ≠ .block a) :
    (m.allocNode al a n).data p = m.data p := by
  simp [data, allocNode, Function.update_of_ne h]

theorem alMemRelease_eq {al : Allocator} (h : m.owner a = some al) :
    m.alMemRelease al a = some (m.free a) := if_pos h

theorem nodes_free (h : p.addr ≠ a) : (m.free a).nodes p = m.nodes p := if_neg h

theorem link_free (h : p.addr ≠ a) : (m.free a).link d p = m.link d p := by
  rw [link, getLink, nodes_free h]
  rfl

theorem data_free (h : p.addr ≠ a) : (m.free a).data p = m.data p := by
  rw [data, nodes_free h]
  rfl

end Memory

end AioServer.LinkedList
