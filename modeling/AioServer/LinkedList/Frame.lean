import AioServer.LinkedList.Representation

/-!
# The doubly linked list: what the functions leave alone

`Memory.AgreeAt m m' b`: the block `b` is the same in both memories. Inserting a node and
removing one change only blocks of their list and the new block (`Represents.agreeAt_inserted`,
`Represents.agreeAt_removed`), and a list is represented by any memory that agrees at its blocks
(`Represents.congr`), so lists that share no block do not disturb each other.
-/

namespace AioServer.LinkedList

open Lib

variable {α υ σ : Type} {m m' m'' : Memory α υ σ} {list a b : Addr} {h : DlinkedList α υ σ}
  {cells as bs : List (Addr × α)} {c : Addr × α} {p q : NodePtr} {d : LinkDirection}

/-- The block `b` is the same in both memories. -/
structure Memory.AgreeAt (m m' : Memory α υ σ) (b : Addr) : Prop where
  owner : m'.owner b = m.owner b
  lists : m'.lists b = m.lists b
  nodes : ∀ p, p.addr = b → m'.nodes p = m.nodes p

namespace Memory

theorem AgreeAt.refl (m : Memory α υ σ) (b : Addr) : m.AgreeAt m b :=
  ⟨rfl, rfl, fun _ _ => rfl⟩

theorem AgreeAt.trans (h : m.AgreeAt m' b) (h' : m'.AgreeAt m'' b) : m.AgreeAt m'' b :=
  ⟨h'.owner.trans h.owner, h'.lists.trans h.lists,
    fun p hp => (h'.nodes p hp).trans (h.nodes p hp)⟩

theorem AgreeAt.link (h : m.AgreeAt m' b) (hp : p.addr = b) : m'.link d p = m.link d p := by
  simp only [Memory.link, getLink, h.nodes p hp]

theorem AgreeAt.getLink (h : m.AgreeAt m' b) (hp : p.addr = b) :
    m'.getLink p d = m.getLink p d := by
  simp only [Memory.getLink, h.nodes p hp]

theorem AgreeAt.data (h : m.AgreeAt m' b) (hp : p.addr = b) : m'.data p = m.data p := by
  simp only [Memory.data, h.nodes p hp]

/-! ## Single changes -/

theorem agreeAt_writeLink (h : p.addr ≠ b) : m.AgreeAt (m.writeLink p d q) b := by
  refine ⟨rfl, rfl, fun r hr => Function.update_of_ne ?_ _ _⟩
  rintro rfl
  exact h hr

theorem agreeAt_setItems {n : ℕ} (h : list ≠ b) : m.AgreeAt (m.setItems list n) b :=
  ⟨rfl, Function.update_of_ne (Ne.symm h) _ _, fun _ _ => rfl⟩

theorem agreeAt_allocNode {al : Allocator} {n : ListNode α} (h : a ≠ b) :
    m.AgreeAt (m.allocNode al a n) b := by
  refine ⟨Function.update_of_ne (Ne.symm h) _ _, rfl, fun r hr => Function.update_of_ne ?_ _ _⟩
  rintro rfl
  exact h hr

theorem agreeAt_allocList {hd : DlinkedList α υ σ} {n : ListNode α} (h : a ≠ b) :
    m.AgreeAt (m.allocList a hd n) b := by
  refine ⟨Function.update_of_ne (Ne.symm h) _ _, Function.update_of_ne (Ne.symm h) _ _,
    fun r hr => Function.update_of_ne ?_ _ _⟩
  rintro rfl
  exact h hr

theorem agreeAt_free (h : a ≠ b) : m.AgreeAt (m.free a) b := by
  refine ⟨Function.update_of_ne (Ne.symm h) _ _, Function.update_of_ne (Ne.symm h) _ _,
    fun r hr => nodes_free ?_⟩
  rw [hr]
  exact Ne.symm h

end Memory

/-! ## Lists -/

/-- The blocks of a list. -/
def blocks (list : Addr) (cells : List (Addr × α)) : List Addr := list :: cells.map Prod.fst

theorem addr_mem_blocks (hp : p ∈ NodePtr.storage list :: cells.map cellPtr) :
    p.addr ∈ blocks list cells := by
  obtain rfl | hp := List.mem_cons.mp hp
  · exact List.mem_cons_self
  · obtain ⟨c, hc, rfl⟩ := List.mem_map.mp hp
    exact List.mem_cons_of_mem _ (List.mem_map.mpr ⟨c, hc, rfl⟩)

/-- A list depends on its blocks only. -/
theorem Represents.congr (hr : Represents m list h cells)
    (hag : ∀ b ∈ blocks list cells, m.AgreeAt m' b) : Represents m' list h cells := by
  have hlist : m.AgreeAt m' list := hag list List.mem_cons_self
  have hlink : ∀ d, ∀ p ∈ NodePtr.storage list :: cells.map cellPtr, m'.link d p = m.link d p :=
    fun d p hp => (hag _ (addr_mem_blocks hp)).link rfl
  refine ⟨hlist.lists.trans hr.header, hr.sentinel, ?_, fun b hb => ?_, hr.apart,
    fun c hc => ?_, ?_, hr.ring.nodup⟩
  · rw [hlist.nodes _ rfl]
    exact hr.storage
  · rw [(hag b hb).owner]
    exact hr.owned b hb
  · have hmem : c.1 ∈ blocks list cells :=
      List.mem_cons_of_mem _ (List.mem_map.mpr ⟨c, hc, rfl⟩)
    rw [(hag c.1 hmem).data rfl]
    exact hr.data c hc
  · have hdrop : (NodePtr.storage list :: (cells.map cellPtr ++ [NodePtr.storage list])).dropLast
        = NodePtr.storage list :: cells.map cellPtr := by
      rw [← List.cons_append, List.dropLast_concat]
    refine hr.ring.closed.congr (fun z hz => ?_) fun z hz => ?_
    · rw [hdrop] at hz
      exact hlink _ z hz
    · refine hlink _ z ?_
      simp only [List.mem_append, List.mem_cons] at hz ⊢
      tauto

/-- The pointers of a list are into blocks in use. -/
theorem Represents.owner_isSome (hr : Represents m list h cells) (hb : b ∈ blocks list cells) :
    (m.owner b).isSome := by
  rw [hr.owned b hb]
  rfl

/-- Inserting changes the list's blocks and the new one. -/
theorem Represents.agreeAt_inserted (hr : Represents m list h cells) {item : α}
    {side : LinkDirection} {h' : DlinkedList α υ σ} (hb : b ∉ blocks list cells) (hba : a ≠ b) :
    m.AgreeAt (m.inserted list h' item (m.link side (.storage list)) side.not a) b := by
  obtain ⟨hmem, hback⟩ := hr.step side List.mem_cons_self
  have hne : ∀ p ∈ NodePtr.storage list :: cells.map cellPtr, p.addr ≠ b := by
    rintro p hp rfl
    exact hb (addr_mem_blocks hp)
  have hlist : list ≠ b := hne (.storage list) List.mem_cons_self
  rw [Memory.inserted, hback]
  exact (((Memory.agreeAt_allocNode hba).trans
    (Memory.agreeAt_writeLink (hne _ List.mem_cons_self))).trans
    (Memory.agreeAt_writeLink (hne _ hmem))).trans (Memory.agreeAt_setItems hlist)

/-- Removing changes the list's blocks. -/
theorem Represents.agreeAt_removed (hr : Represents m list h (as ++ c :: bs))
    {h' : DlinkedList α υ σ} (hb : b ∉ blocks list (as ++ c :: bs)) :
    m.AgreeAt (m.removed list h' c.1) b := by
  have hne : ∀ p ∈ NodePtr.storage list :: (as ++ c :: bs).map cellPtr, p.addr ≠ b := by
    rintro p hp rfl
    exact hb (addr_mem_blocks hp)
  have hc : cellPtr c ∈ NodePtr.storage list :: (as ++ c :: bs).map cellPtr := by
    simp
  have hright := (hr.step .right hc).1
  have hleft := (hr.step .left hc).1
  unfold Memory.removed
  exact (((Memory.agreeAt_writeLink (hne _ hright)).trans
    (Memory.agreeAt_writeLink (hne _ hleft))).trans (Memory.agreeAt_free (hne _ hc))).trans
    (Memory.agreeAt_setItems (hne _ List.mem_cons_self))

end AioServer.LinkedList
