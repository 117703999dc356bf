import AioServer.Lib.Ring
import AioServer.LinkedList.Code

/-!
# The doubly linked list: what represents a list of items

`Represents m list h cells`: in the memory `m` the list `list` is a ring through its
sentinel and the blocks of `cells`, each with its item, in this order. Linking a node in
(`Represents.push`) and taking one out (`Represents.removeNode`, `Represents.pop`) keep such
a ring.

The two ends are treated at once: seen in the direction `side` the list is
`orient side cells`, and its first element is where a push or a pop works.
-/

namespace AioServer.LinkedList

open Lib

variable {α υ σ : Type} {m : Memory α υ σ} {list a : Addr} {h : DlinkedList α υ σ}
  {cells as bs : List (Addr × α)} {c : Addr × α} {side : LinkDirection} {item : α}

/-! ## What the memory holds -/

/-- The node of a block with its item. -/
def cellPtr (c : Addr × α) : NodePtr := .block c.1

@[simp] theorem cellPtr_ne_storage : cellPtr c ≠ .storage list := by
  simp [cellPtr]

/-- A list, seen from one of its ends. -/
def orient {β : Type} : LinkDirection → List β → List β
  | .right, xs => xs
  | .left, xs => xs.reverse

theorem map_orient {β γ : Type} (f : β → γ) (side : LinkDirection) (xs : List β) :
    (orient side xs).map f = orient side (xs.map f) := by
  cases side
  · exact List.map_reverse
  · rfl

@[simp] theorem mem_orient {β : Type} {x : β} {xs : List β} : x ∈ orient side xs ↔ x ∈ xs := by
  cases side
  · exact List.mem_reverse
  · rfl

@[simp] theorem length_orient {β : Type} (xs : List β) : (orient side xs).length = xs.length := by
  cases side
  · exact List.length_reverse
  · rfl

/-- The sentinel and `ns` are a ring: the `side` links run through `ns`, the others back. -/
def Memory.RingAt (m : Memory α υ σ) (list : Addr) (side : LinkDirection)
    (ns : List NodePtr) : Prop :=
  Ring (m.link side) (m.link side.not) (.storage list) ns

theorem ringAt_orient (side : LinkDirection) {ns : List NodePtr} :
    m.RingAt list side (orient side ns) ↔ m.RingAt list .right ns := by
  cases side with
  | right => exact Iff.rfl
  | left =>
    refine ⟨fun hr => ?_, Ring.reverse⟩
    have hrev := Ring.reverse hr
    rwa [orient, List.reverse_reverse] at hrev

structure Represents (m : Memory α υ σ) (list : Addr) (h : DlinkedList α υ σ)
    (cells : List (Addr × α)) : Prop where
  header : m.lists list = some { h with dlItems := cells.length }
  sentinel : h.dlSentinel = .storage list
  storage : (m.nodes (.storage list)).isSome
  owned : ∀ a ∈ list :: cells.map Prod.fst, m.owner a = some h.dlAllocator
  apart : list ∉ cells.map Prod.fst
  data : ∀ c ∈ cells, m.data (cellPtr c) = some c.2
  ring : m.RingAt list .right (cells.map cellPtr)

namespace Represents

theorem ringAt (hr : Represents m list h cells) (side : LinkDirection) :
    m.RingAt list side ((orient side cells).map cellPtr) := by
  rw [map_orient, ringAt_orient]
  exact hr.ring

theorem live_cell (hr : Represents m list h cells) (hc : c ∈ cells) :
    (m.nodes (cellPtr c)).isSome :=
  Memory.isSome_of_data (hr.data c hc)

/-- All nodes of the ring are there. -/
theorem live (hr : Represents m list h cells) {p : NodePtr}
    (hp : p ∈ .storage list :: cells.map cellPtr) : (m.nodes p).isSome := by
  rcases List.mem_cons.mp hp with rfl | hp
  · exact hr.storage
  · obtain ⟨c, hc, rfl⟩ := List.mem_map.mp hp
    exact hr.live_cell hc

/-- How every function enters the list: it reads the header and a link of the sentinel. -/
theorem enter {β : Type} (hr : Represents m list h cells) (side : LinkDirection)
    (k : DlinkedList α υ σ → NodePtr → Option β) :
    ((m.lists list).bind fun h' => (m.getLink h'.dlSentinel side).bind (k h'))
      = k { h with dlItems := cells.length } (m.link side (.storage list)) := by
  simp [hr.header, hr.sentinel, Memory.getLink_eq hr.storage]

/-- From any node the links go on to a node, and back. -/
theorem step (hr : Represents m list h cells) (side : LinkDirection) {p : NodePtr}
    (hp : p ∈ .storage list :: cells.map cellPtr) :
    m.link side p ∈ .storage list :: cells.map cellPtr ∧ m.link side.not (m.link side p) = p := by
  have hnext := (hr.ringAt side).prev_next (by simpa using hp)
  exact ⟨by simpa using hnext.1, hnext.2⟩

/-- A block not in use is not in the ring. -/
theorem fresh (hr : Represents m list h cells) (ha : m.owner a = none) :
    a ∉ list :: cells.map Prod.fst := by
  intro hmem
  have howned := hr.owned a hmem
  rw [ha] at howned
  cases howned

end Represents

/-! ## Insertion -/

/-- The memory after a node is linked in. -/
def Memory.inserted (m : Memory α υ σ) (list : Addr) (h : DlinkedList α υ σ) (item : α)
    (refnode : NodePtr) (dir : LinkDirection) (a : Addr) : Memory α υ σ :=
  (((m.allocNode h.dlAllocator a
    { nData := some item
      nLink := fun d => if d = dir.not then refnode else m.link dir refnode }).writeLink
    (m.link dir refnode) dir.not (.block a)).writeLink refnode dir (.block a)).setItems list
    (h.dlItems + 1)

@[simp] theorem Memory.data_inserted_self {refnode : NodePtr} {dir : LinkDirection} :
    (m.inserted list h item refnode dir a).data (.block a) = some item := by
  simp [inserted, data_allocNode_self]

theorem Memory.data_inserted {refnode p : NodePtr} {dir : LinkDirection} (hp : p ≠ .block a) :
    (m.inserted list h item refnode dir a).data p = m.data p := by
  simp [inserted, data_allocNode hp]

theorem Memory.insertNode_eq {refnode : NodePtr} {dir : LinkDirection}
    (hl : m.lists list = some h) (ha : m.owner a = none)
    (href : (m.nodes refnode).isSome) (hnext : (m.nodes (m.link dir refnode)).isSome)
    (hne : refnode ≠ .block a) :
    m.insertNode list item refnode dir (some a)
      = some (some item, m.inserted list h item refnode dir a) := by
  have hdata : (m.inserted list h item refnode dir a).getData (.block a) = some (some item) :=
    getData_eq data_inserted_self
  simp only [insertNode, hl, ha, Option.bind_eq_bind, Option.bind_some, getLink_eq href]
  rw [if_neg (by simp), getLink_eq (isSome_allocNode href), link_allocNode hne, Option.bind_some,
    setLink_eq (isSome_allocNode hnext), Option.bind_some,
    setLink_eq (by simpa using isSome_allocNode href), Option.bind_some]
  rw [inserted] at hdata ⊢
  rw [hdata, Option.bind_some]

/-- The links of the new node, and of the two nodes it stands between. -/
theorem Memory.link_inserted {refnode p : NodePtr} {dir d : LinkDirection}
    (href : (m.nodes refnode).isSome) (hnext : (m.nodes (m.link dir refnode)).isSome) :
    (m.inserted list h item refnode dir a).link d p
      = if p = refnode ∧ d = dir ∨ p = m.link dir refnode ∧ d = dir.not then .block a
        else if p = .block a then (if d = dir.not then refnode else m.link dir refnode)
        else m.link d p := by
  rw [inserted, link_setItems, link_writeLink (by simpa using isSome_allocNode href),
    link_writeLink (isSome_allocNode hnext)]
  by_cases hp : p = .block a
  · subst hp
    rw [link_allocNode_self, if_pos rfl, ite_or]
  · rw [link_allocNode hp, if_neg hp, ite_or]

/-- The cells after a push at the end `side`. -/
def pushCell : LinkDirection → Addr × α → List (Addr × α) → List (Addr × α)
  | .right, c, cells => c :: cells
  | .left, c, cells => cells ++ [c]

theorem orient_pushCell (side : LinkDirection) (c : Addr × α) (cells : List (Addr × α)) :
    orient side (pushCell side c cells) = c :: orient side cells := by
  cases side
  · exact List.reverse_concat
  · rfl

theorem mem_pushCell {c' : Addr × α} : c' ∈ pushCell side c cells ↔ c' = c ∨ c' ∈ cells := by
  cases side
  · simp [pushCell, or_comm]
  · exact List.mem_cons

@[simp] theorem length_pushCell : (pushCell side c cells).length = cells.length + 1 := by
  cases side
  · exact List.length_append
  · rfl

/-- The new node is none of the ring. -/
theorem Represents.ne_fresh (hr : Represents m list h cells) (ha : m.owner a = none) :
    ∀ r ∈ NodePtr.storage list :: cells.map cellPtr, r ≠ .block a := by
  have hfresh := hr.fresh ha
  rintro r hr rfl
  obtain hr | hr := List.mem_cons.mp hr
  · cases hr
  · obtain ⟨c, hc, hca⟩ := List.mem_map.mp hr
    have hca : c.1 = a := NodePtr.block.inj hca
    exact hfresh (List.mem_cons_of_mem list (List.mem_map.mpr ⟨c, hc, hca⟩))

/-- The new node stands between the sentinel and the first node in the direction `side`. -/
theorem Represents.ringAt_inserted (hr : Represents m list h cells) (ha : m.owner a = none)
    (h' : DlinkedList α υ σ) (side : LinkDirection) :
    (m.inserted list h' item (m.link side (.storage list)) side.not a).RingAt list .right
      ((pushCell side (a, item) cells).map cellPtr) := by
  have hring : Ring (m.link side) (m.link side.not) (.storage list)
      ([] ++ (orient side cells).map cellPtr) := hr.ringAt side
  obtain ⟨hmem, hback⟩ := hr.step side List.mem_cons_self
  have hnew := hr.ne_fresh ha
  -- the links of the sentinel, the new node and the old first node; the rest as before
  have hlink : ∀ d r, (m.inserted list h' item (m.link side (.storage list)) side.not a).link d r
      = if r = m.link side (.storage list) ∧ d = side.not ∨ r = .storage list ∧ d = side
        then .block a
        else if r = .block a then (if d = side then m.link side (.storage list) else .storage list)
        else m.link d r := by
    intro d r
    rw [Memory.link_inserted (hr.live hmem) (by rw [hback]; exact hr.storage), hback,
      LinkDirection.not_not]
  rw [← ringAt_orient side, ← map_orient, orient_pushCell]
  show Ring _ _ _ ([] ++ .block a :: (orient side cells).map cellPtr)
  have hne := (hnew _ hmem).symm
  refine hring.insert (fun hx => hnew (.block a) (by simpa using hx) rfl) rfl rfl ?_ ?_ ?_ ?_ ?_ ?_
  · simp [hlink]
  · simp [hlink, hne]
  · simp [hlink, hne]
  · simp [hlink]
  · intro r hr hrp
    simp [hlink, hrp, hnew r (by simpa using hr)]
  · intro r hr hrq
    simp [hlink, hrq, hnew r (by simpa using hr)]

theorem Represents.inserted (hr : Represents m list h cells) (ha : m.owner a = none)
    (item : α) (side : LinkDirection) :
    Represents (m.inserted list { h with dlItems := cells.length } item
      (m.link side (.storage list)) side.not a) list h (pushCell side (a, item) cells) := by
  have hfresh := hr.fresh ha
  refine ⟨?_, hr.sentinel, ?_, ?_, ?_, ?_, hr.ringAt_inserted ha _ side⟩
  · simp [Memory.inserted, Memory.setItems, Memory.allocNode, hr.header]
  · simpa [Memory.inserted] using Memory.isSome_allocNode hr.storage
  · intro b hb
    by_cases hba : b = a
    · simp [Memory.inserted, Memory.allocNode, hba]
    · have hb' : b ∈ list :: cells.map Prod.fst := by
        simp only [List.mem_cons, List.mem_map, mem_pushCell] at hb ⊢
        obtain hb | ⟨c, rfl | hc, rfl⟩ := hb
        · exact Or.inl hb
        · exact absurd rfl hba
        · exact Or.inr ⟨c, hc, rfl⟩
      simpa [Memory.inserted, Memory.allocNode, Function.update_of_ne hba] using hr.owned b hb'
  · intro hmem
    obtain ⟨c, hc, hcl⟩ := List.mem_map.mp hmem
    obtain rfl | hc := mem_pushCell.mp hc
    · exact hfresh (by simp [show a = list from hcl])
    · exact hr.apart (List.mem_map.mpr ⟨c, hc, hcl⟩)
  · intro c hc
    obtain rfl | hc := mem_pushCell.mp hc
    · exact Memory.data_inserted_self
    · have hmem : cellPtr c ∈ .storage list :: cells.map cellPtr :=
        List.mem_cons_of_mem _ (List.mem_map_of_mem hc)
      rw [Memory.data_inserted (hr.ne_fresh ha _ hmem)]
      exact hr.data c hc

theorem Represents.insertNode_eq (hr : Represents m list h cells) (ha : m.owner a = none)
    (item : α) (side : LinkDirection) :
    m.insertNode list item (m.link side (.storage list)) side.not (some a)
      = some (some item, m.inserted list { h with dlItems := cells.length } item
        (m.link side (.storage list)) side.not a) := by
  obtain ⟨hmem, hback⟩ := hr.step side List.mem_cons_self
  have hnext : (m.nodes (m.link side.not (m.link side (.storage list)))).isSome := by
    rw [hback]
    exact hr.storage
  exact Memory.insertNode_eq hr.header ha (hr.live hmem) hnext (hr.ne_fresh ha _ hmem)

theorem Represents.push (hr : Represents m list h cells) (ha : m.owner a = none)
    (item : α) (side : LinkDirection) :
    ∃ m', m.push side list item (some a) = some (some item, m') ∧
      Represents m' list h (pushCell side (a, item) cells) := by
  refine ⟨_, ?_, hr.inserted ha item side⟩
  simp only [Memory.push, Option.bind_eq_bind, hr.enter]
  exact hr.insertNode_eq ha item side

/-- A push whose allocation fails. -/
theorem Represents.push_none (hr : Represents m list h cells) (item : α) (side : LinkDirection) :
    m.push side list item none = some (none, m) := by
  simp only [Memory.push, Option.bind_eq_bind, hr.enter]
  rw [Memory.insertNode, hr.header]
  rfl

/-! ## Removal -/

/-- The memory after the node of a block is unlinked and released. -/
def Memory.removed (m : Memory α υ σ) (list : Addr) (h : DlinkedList α υ σ) (a : Addr) :
    Memory α υ σ :=
  (((m.writeLink (m.link .right (.block a)) .left (m.link .left (.block a))).writeLink
    (m.link .left (.block a)) .right (m.link .right (.block a))).free a).setItems list
    (h.dlItems - 1)

theorem Memory.removeNode_eq (hl : m.lists list = some h) (hs : NodePtr.block a ≠ h.dlSentinel)
    (hitems : h.dlItems ≠ 0) (hdata : m.data (.block a) = some item)
    (howner : m.owner a = some h.dlAllocator)
    (hleft : (m.nodes (m.link .left (.block a))).isSome)
    (hright : (m.nodes (m.link .right (.block a))).isSome)
    (hne : m.link .right (.block a) ≠ .block a) :
    m.removeNode list (.block a) = some (some item, m.removed list h a) := by
  have hlive := isSome_of_data hdata
  simp only [removeNode, hl, Option.bind_eq_bind, Option.bind_some, if_neg hs, if_neg hitems,
    getLink_eq hlive, setLink_eq hright]
  rw [getLink_eq (by simpa using hlive), getLink_eq (by simpa using hlive),
    link_writeLink hright, link_writeLink hright]
  simp only [Option.bind_some, Ne.symm hne, false_and, if_false]
  rw [setLink_eq (by simpa using hleft), Option.bind_some, getData_eq (by simpa using hdata),
    Option.bind_some, NodePtr.addr, alMemRelease_eq (by simpa using howner)]
  rfl

theorem Memory.link_removed {r : NodePtr} {d : LinkDirection}
    (hleft : (m.nodes (m.link .left (.block a))).isSome)
    (hright : (m.nodes (m.link .right (.block a))).isSome) (hr : r.addr ≠ a) :
    (m.removed list h a).link d r
      = if r = m.link .left (.block a) ∧ d = .right then m.link .right (.block a)
        else if r = m.link .right (.block a) ∧ d = .left then m.link .left (.block a)
        else m.link d r := by
  rw [removed, link_setItems, link_free hr, link_writeLink (by simpa using hleft),
    link_writeLink hright]

/-- The ring of a list with an element in sight. -/
theorem Represents.ringSplit (hr : Represents m list h (as ++ c :: bs)) :
    Ring (m.link .right) (m.link .left) (.storage list)
      (as.map cellPtr ++ cellPtr c :: bs.map cellPtr) := by
  have hring := hr.ring
  rwa [List.map_append, List.map_cons] at hring

/-- The other nodes of the ring are in other blocks. -/
theorem Represents.addr_ne (hr : Represents m list h (as ++ c :: bs)) :
    ∀ r ∈ .storage list :: (as ++ bs).map cellPtr, r.addr ≠ c.1 := by
  intro r hmem heq
  obtain rfl | hmem := List.mem_cons.mp hmem
  · have hlist : list = c.1 := heq
    exact hr.apart (by simp [hlist])
  · obtain ⟨c', hc', rfl⟩ := List.mem_map.mp hmem
    have hptr : cellPtr c' = cellPtr c := congrArg NodePtr.block heq
    refine hr.ringSplit.notMem (List.mem_cons_of_mem _ ?_)
    rw [← hptr, ← List.map_append]
    exact List.mem_map_of_mem hc'

/-- The neighbours of an element are in the ring without it. -/
theorem Represents.neighbour (hr : Represents m list h (as ++ c :: bs)) (side : LinkDirection) :
    m.link side (cellPtr c) ∈ .storage list :: (as ++ bs).map cellPtr := by
  rw [List.map_append]
  cases side
  · exact hr.ringSplit.prev_mem
  · exact hr.ringSplit.next_mem

theorem Represents.live_others (hr : Represents m list h (as ++ c :: bs)) :
    ∀ r ∈ .storage list :: (as ++ bs).map cellPtr, (m.nodes r).isSome := by
  intro r hmem
  refine hr.live ?_
  simp only [List.mem_cons, List.mem_append, List.map_append, List.map_cons] at hmem ⊢
  tauto

/-- The neighbours are linked to each other. -/
theorem Represents.ring_removed (hr : Represents m list h (as ++ c :: bs))
    (h' : DlinkedList α υ σ) :
    (m.removed list h' c.1).RingAt list .right ((as ++ bs).map cellPtr) := by
  have hleft := hr.live_others _ (hr.neighbour .left)
  have hright := hr.live_others _ (hr.neighbour .right)
  -- the two links that led to the element; the rest as before
  have hlink : ∀ d, ∀ r ∈ .storage list :: (as.map cellPtr ++ bs.map cellPtr),
      (m.removed list h' c.1).link d r
        = if r = m.link .left (cellPtr c) ∧ d = .right then m.link .right (cellPtr c)
          else if r = m.link .right (cellPtr c) ∧ d = .left then m.link .left (cellPtr c)
          else m.link d r := by
    intro d r hmem
    rw [← List.map_append] at hmem
    exact Memory.link_removed hleft hright (hr.addr_ne r hmem)
  rw [List.map_append]
  refine hr.ringSplit.remove ?_ ?_ ?_ ?_
  · rw [hlink _ _ hr.ringSplit.prev_mem]
    simp
  · rw [LinkDirection.not_right, hlink _ _ hr.ringSplit.next_mem]
    simp
  · intro r hmem hrp
    rw [hlink _ _ hmem]
    simp [hrp]
  · intro r hmem hrq
    rw [LinkDirection.not_right, hlink _ _ hmem]
    simp [hrq]

theorem Represents.removed (hr : Represents m list h (as ++ c :: bs)) :
    Represents (m.removed list { h with dlItems := (as ++ c :: bs).length } c.1) list h
      (as ++ bs) := by
  have haddr := hr.addr_ne
  have hlist : list ≠ c.1 := haddr (.storage list) List.mem_cons_self
  refine ⟨?_, hr.sentinel, ?_, ?_, ?_, ?_, ?_⟩
  · simp [Memory.removed, Memory.setItems, Memory.free, Function.update_of_ne hlist, hr.header]
  · have haddr_list : (NodePtr.storage list).addr ≠ c.1 := hlist
    rw [Memory.removed, Memory.nodes_setItems, Memory.nodes_free haddr_list]
    simpa using hr.storage
  · intro b hb
    have hbc : b ≠ c.1 := by
      obtain rfl | hb := List.mem_cons.mp hb
      · exact hlist
      · obtain ⟨c', hc', rfl⟩ := List.mem_map.mp hb
        exact haddr (cellPtr c') (List.mem_cons_of_mem _ (List.mem_map_of_mem hc'))
    have hb' : b ∈ list :: (as ++ c :: bs).map Prod.fst := by
      simp only [List.mem_cons, List.mem_append, List.map_append, List.map_cons] at hb ⊢
      tauto
    simpa [Memory.removed, Memory.free, Function.update_of_ne hbc] using hr.owned b hb'
  · have happart := hr.apart
    simp only [List.map_append, List.map_cons, List.mem_append, List.mem_cons] at happart ⊢
    tauto
  · intro c' hc'
    have hne := haddr (cellPtr c') (List.mem_cons_of_mem _ (List.mem_map_of_mem hc'))
    rw [Memory.removed, Memory.data_setItems, Memory.data_free hne]
    have hmem : c' ∈ as ++ c :: bs := by
      simp only [List.mem_append, List.mem_cons] at hc' ⊢
      tauto
    simpa using hr.data c' hmem
  · exact hr.ring_removed _

theorem Represents.removeNode_eq (hr : Represents m list h (as ++ c :: bs)) :
    m.removeNode list (cellPtr c) = some (some c.2,
      m.removed list { h with dlItems := (as ++ c :: bs).length } c.1) := by
  refine Memory.removeNode_eq hr.header ?_ ?_ ?_ ?_ (hr.live_others _ (hr.neighbour .left))
    (hr.live_others _ (hr.neighbour .right)) ?_
  · simp [hr.sentinel]
  · simp
  · exact hr.data c (by simp)
  · exact hr.owned c.1 (by simp)
  · intro heq
    exact hr.addr_ne _ (hr.neighbour .right) (congrArg NodePtr.addr heq)

theorem Represents.removeNode (hr : Represents m list h (as ++ c :: bs)) :
    ∃ m', m.removeNode list (cellPtr c) = some (some c.2, m') ∧
      Represents m' list h (as ++ bs) :=
  ⟨_, hr.removeNode_eq, hr.removed⟩

/-! ## The two pops -/

/-- The first node in the direction `side`. -/
theorem Represents.first (hr : Represents m list h cells) (side : LinkDirection) :
    orient side cells = [] ∧ m.link side (.storage list) = .storage list ∨
      ∃ as c bs, cells = as ++ c :: bs ∧ orient side cells = c :: orient side (as ++ bs) ∧
        m.link side (.storage list) = cellPtr c := by
  have hclosed := (hr.ringAt side).closed
  cases hcells : orient side cells with
  | nil =>
    rw [hcells] at hclosed
    exact Or.inl ⟨rfl, hclosed.1⟩
  | cons c cs =>
    rw [hcells] at hclosed
    -- the first element in the direction `side` is the last one of `cells` if that is `left`
    obtain ⟨as, bs, rfl, hrest⟩ : ∃ as bs, cells = as ++ c :: bs ∧ orient side (as ++ bs) = cs := by
      cases side with
      | right => exact ⟨[], cs, hcells, rfl⟩
      | left => exact ⟨cs.reverse, [], by simpa [orient] using hcells, by simp [orient]⟩
    exact Or.inr ⟨as, c, bs, rfl, by rw [hrest], hclosed.1⟩

theorem Represents.pop (hr : Represents m list h cells) (side : LinkDirection) :
    ∃ m' cells', m.pop side list = some ((orient side cells).head?.map Prod.snd, m') ∧
      Represents m' list h cells' ∧ orient side cells' = (orient side cells).tail := by
  simp only [Memory.pop, Option.bind_eq_bind, hr.enter]
  obtain ⟨hcells, hfirst⟩ | ⟨as, c, bs, rfl, hcells, hfirst⟩ := hr.first side
  · have hlen : cells.length = 0 := by rw [← length_orient, hcells, List.length_nil]
    refine ⟨m, cells, ?_, hr, by rw [hcells]; rfl⟩
    simp [hr.sentinel, hfirst, hlen, hcells]
  · obtain ⟨m', hm', hr'⟩ := hr.removeNode
    refine ⟨m', as ++ bs, ?_, hr', by rw [hcells]; rfl⟩
    simp [hr.sentinel, hfirst, hm', hcells]

end AioServer.LinkedList
