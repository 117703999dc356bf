import AioServer.LinkedList.Allocations
import AioServer.LinkedList.Frame
import AioServer.LinkedList.Refinement
import Mathlib.Algebra.BigOperators.Group.List.Basic
import Mathlib.Algebra.Order.Group.Multiset
import Mathlib.Data.List.Lattice

/-!
# The doubly linked list: the life of its blocks

* `Changed` is what a list call does to the memory and to the ledger of its list, and
  `Represents.execLogged` that every call does so;
* `Represents.dlistDestroy`: the walk of `dlist_destroy` releases the nodes of the list, from
  the head on, and then the header;
* `Ran` is the same for a program with any number of lists: its ledger is the history of the
  blocks in use, and it does not touch the blocks that others have;
* `blocks_released_once`: such a program, with all lists destroyed in the end.
-/

namespace AioServer.LinkedList

open Lib

variable {α υ ω σ : Type} {m m' : Memory α υ σ} {list a : Addr} {h : DlinkedList α υ σ}
  {cells cells' as bs : List (Addr × α)} {c : Addr × α} {item : α} {env : σ} {fuel : ℕ}
  {side : LinkDirection} {es : List (Event Block)}

/-! ## What a list holds -/

def headerBlock (list : Addr) (h : DlinkedList α υ σ) : Block :=
  ⟨list, h.dlAllocator, .header⟩

def nodeBlock (list : Addr) (h : DlinkedList α υ σ) (c : Addr × α) : Block :=
  ⟨list, h.dlAllocator, .node (cellPtr c)⟩

/-- The blocks that are held for a list. -/
def held (list : Addr) (h : DlinkedList α υ σ) (cells : List (Addr × α)) : Multiset Block :=
  headerBlock list h ::ₘ (cells.map (nodeBlock list h) : Multiset Block)

theorem held_middle :
    held list h (as ++ c :: bs) = nodeBlock list h c ::ₘ held list h (as ++ bs) := by
  have hperm : List.Perm ((as ++ c :: bs).map (nodeBlock list h))
      ((c :: (as ++ bs)).map (nodeBlock list h)) := List.perm_middle.map _
  rw [held, held, Multiset.cons_swap, Multiset.coe_eq_coe.mpr hperm]
  rfl

theorem held_cons : held list h (c :: cells) = nodeBlock list h c ::ₘ held list h cells := by
  have hmid : held list h ([] ++ c :: cells) = nodeBlock list h c ::ₘ held list h ([] ++ cells) :=
    held_middle
  exact hmid

theorem held_pushCell :
    held list h (pushCell side c cells) = nodeBlock list h c ::ₘ held list h cells := by
  cases side with
  | right => exact held_cons
  | left =>
    have hmid : held list h (cells ++ c :: []) = nodeBlock list h c ::ₘ held list h (cells ++ []) :=
      held_middle
    rwa [List.append_nil] at hmid

/-- No node inside a header is released. -/
def SentinelFree (es : List (Event Block)) : Prop :=
  ∀ list al s, .release ⟨list, al, .node (.storage s)⟩ ∉ es

/-! ## Calls -/

/-- A call makes a list with `cells` into one with `cells'` and makes the entries `es`. -/
structure Changed (list : Addr) (h : DlinkedList α υ σ) (cells : List (Addr × α))
    (m m' : Memory α υ σ) (es : List (Event Block)) (cells' : List (Addr × α)) : Prop where
  represents : Represents m' list h cells'
  settled : settle (held list h cells) es = some (held list h cells')
  single : es.length ≤ 1
  sentinel : SentinelFree es
  length : cells'.length ≤ cells.length + 1
  blocks : ∀ b ∈ blocks list cells', b ∈ blocks list cells ∨ m.owner b = none
  frame : ∀ b ∉ LinkedList.blocks list cells, (m.owner b).isSome → m.AgreeAt m' b
  history : m'.owner = handedOut m.owner es
  outside : ∀ b ∉ LinkedList.blocks list cells',
    m'.owner b = if b ∈ LinkedList.blocks list cells then none else m.owner b

theorem Represents.unchanged (hr : Represents m list h cells) :
    Changed list h cells m m [] cells :=
  ⟨hr, rfl, Nat.zero_le _, by simp [SentinelFree], Nat.le_succ _, fun _ hb => Or.inl hb,
    fun b _ _ => Memory.AgreeAt.refl m b, rfl, fun _ hb => (if_neg hb).symm⟩

theorem Represents.changed_inserted (hr : Represents m list h cells) (ha : m.owner a = none)
    (item : α) (side : LinkDirection) :
    Changed list h cells m (m.inserted list { h with dlItems := cells.length } item
      (m.link side (.storage list)) side.not a)
      [.acquire ⟨list, h.dlAllocator, .node (.block a)⟩] (pushCell side (a, item) cells) := by
  refine ⟨hr.inserted ha item side, ?_, Nat.le_refl 1, by simp [SentinelFree], by simp, ?_, ?_,
    rfl, ?_⟩
  · rw [held_pushCell]
    rfl
  · intro b hb
    simp only [LinkedList.blocks, List.mem_cons, List.mem_map, mem_pushCell] at hb ⊢
    obtain hb | ⟨c, rfl | hc, rfl⟩ := hb
    · exact Or.inl (Or.inl hb)
    · exact Or.inr ha
    · exact Or.inl (Or.inr ⟨c, hc, rfl⟩)
  · intro b hb howner
    refine hr.agreeAt_inserted hb ?_
    rintro rfl
    simp [ha] at howner
  · intro b hb
    simp only [LinkedList.blocks, List.mem_cons, List.mem_map, mem_pushCell, not_or] at hb ⊢
    have hba : b ≠ a := fun h => hb.2 ⟨(a, item), Or.inl rfl, h.symm⟩
    have hold : ¬ (b = list ∨ ∃ c ∈ cells, c.1 = b) := by
      rintro (hbl | ⟨c, hc, hcb⟩)
      · exact hb.1 hbl
      · exact hb.2 ⟨c, Or.inr hc, hcb⟩
    rw [if_neg hold]
    exact Function.update_of_ne hba _ _

theorem Represents.changed_removed (hr : Represents m list h (as ++ c :: bs)) :
    Changed list h (as ++ c :: bs) m
      (m.removed list { h with dlItems := (as ++ c :: bs).length } c.1)
      [.release (nodeBlock list h c)] (as ++ bs) := by
  refine ⟨hr.removed, ?_, Nat.le_refl 1, by simp [SentinelFree, nodeBlock, cellPtr], ?_, ?_,
    fun b hb _ => hr.agreeAt_removed hb, rfl, ?_⟩
  · rw [held_middle, settle_release_cons, settle_nil]
  · simp only [List.length_append, List.length_cons]
    omega
  · intro b hb
    simp only [LinkedList.blocks, List.map_append, List.map_cons, List.mem_cons,
      List.mem_append] at hb ⊢
    tauto
  · intro b hb
    by_cases hbc : b = c.1
    · rw [if_pos (by simp [LinkedList.blocks, hbc]), hbc]
      exact Function.update_self _ _ _
    · rw [if_neg (by simpa [LinkedList.blocks, hbc] using hb)]
      exact Function.update_of_ne hbc _ _

theorem Represents.pushLogged (hr : Represents m list h cells) (alloc : Option Addr)
    (hfresh : ∀ a ∈ alloc, m.owner a = none) (item : α) (side : LinkDirection) :
    ∃ x es m' cells', m.pushLogged side list item alloc = some ((x, m'), es) ∧
      Changed list h cells m m' es cells' := by
  simp only [Memory.pushLogged, Option.bind_eq_bind, hr.enter]
  cases alloc with
  | none =>
    refine ⟨none, [], m, cells, ?_, hr.unchanged⟩
    simp [Memory.insertNodeLogged, Memory.insertNode, hr.header]
  | some a =>
    have ha : m.owner a = none := hfresh a rfl
    refine ⟨some item, _, _, _, ?_, hr.changed_inserted ha item side⟩
    simp [Memory.insertNodeLogged, hr.insertNode_eq ha, hr.header]

theorem Represents.removeNodeLogged (hr : Represents m list h (as ++ c :: bs)) :
    m.removeNodeLogged list (cellPtr c) = some ((some c.2,
      m.removed list { h with dlItems := (as ++ c :: bs).length } c.1),
      [.release (nodeBlock list h c)]) := by
  simp only [Memory.removeNodeLogged, hr.removeNode_eq, hr.header]
  rfl

theorem Represents.popLogged (hr : Represents m list h cells) (side : LinkDirection) :
    ∃ x es m' cells', m.popLogged side list = some ((x, m'), es) ∧
      Changed list h cells m m' es cells' := by
  simp only [Memory.popLogged, Option.bind_eq_bind, hr.enter]
  obtain ⟨hcells, hfirst⟩ | ⟨as, c, bs, rfl, -, hfirst⟩ := hr.first side
  · have hlen : cells.length = 0 := by rw [← length_orient, hcells, List.length_nil]
    refine ⟨none, [], m, cells, ?_, hr.unchanged⟩
    simp [hr.sentinel, hfirst, hlen]
  · refine ⟨some c.2, _, _, _, ?_, hr.changed_removed⟩
    simp [hr.sentinel, hfirst, hr.removeNodeLogged]

/-- The search of `dlist_remove_item` ends at the sentinel or at an element to be removed. -/
theorem Represents.removeLoopLogged {n : ℕ} {p : NodePtr} (hr : Represents m list h cells)
    (hsub : bs ⊆ cells)
    (hseg : Seg (m.link .right) (m.link .left) p (bs.map cellPtr ++ [.storage list])
      (.storage list)) (hfuel : bs.length < fuel) :
    m.removeLoopLogged { h with dlItems := n } env list item fuel (m.link .right p)
        = some ((none, m), []) ∨
      ∃ c ∈ cells, m.removeLoopLogged { h with dlItems := n } env list item fuel
        (m.link .right p) = m.removeNodeLogged list (cellPtr c) := by
  induction bs generalizing p fuel with
  | nil =>
    obtain ⟨fuel, rfl⟩ := Nat.exists_eq_succ_of_ne_zero (Nat.ne_zero_of_lt hfuel)
    rw [hseg.1, Memory.removeLoopLogged, if_pos hr.sentinel.symm]
    exact Or.inl rfl
  | cons c bs ih =>
    obtain ⟨fuel, rfl⟩ := Nat.exists_eq_succ_of_ne_zero (Nat.ne_zero_of_lt hfuel)
    obtain ⟨hne, hdata, hlink⟩ := hr.round (hsub List.mem_cons_self)
    obtain ⟨hfirst, -, hrest⟩ := hseg
    rw [hfirst, Memory.removeLoopLogged, if_neg hne, hdata, hlink]
    simp only [Option.bind_eq_bind, Option.bind_some]
    by_cases hcmp : h.dlComparator env c.2 item h.dlUserdata = 0
    · rw [if_pos hcmp]
      exact Or.inr ⟨c, hsub List.mem_cons_self, rfl⟩
    · rw [if_neg hcmp]
      exact ih (List.subset_of_cons_subset hsub) hrest (Nat.lt_of_succ_lt_succ hfuel)

theorem Represents.removeItemLogged (hr : Represents m list h cells) (env : σ) (item : α)
    (hfuel : cells.length < fuel) :
    ∃ x es m' cells', m.removeItemLogged fuel env list item = some ((x, m'), es) ∧
      Changed list h cells m m' es cells' := by
  simp only [Memory.removeItemLogged, Option.bind_eq_bind, hr.enter]
  obtain hnone | ⟨c, hc, hsome⟩ :=
    hr.removeLoopLogged (List.Subset.refl cells) hr.ring.closed hfuel
  · exact ⟨none, [], m, cells, hnone, hr.unchanged⟩
  · obtain ⟨as, bs, rfl⟩ := List.append_of_mem hc
    exact ⟨_, _, _, _, hsome.trans hr.removeNodeLogged, hr.changed_removed⟩

theorem snd_of_map {β γ : Type} {f : Option β} {g : β → γ} :
    ∀ r ∈ f.map (fun x => (g x, m)), r.2 = m := by
  intro r hr
  obtain ⟨x, -, rfl⟩ := Option.map_eq_some_iff.mp hr
  rfl

/-- Every call changes its list as `Changed` says. -/
theorem Represents.execLogged (hr : Represents m list h cells) (call : Call α υ ω σ) (env : σ)
    (hfresh : call.Fresh m) (hfuel : cells.length < fuel) :
    ∃ r es m' cells', call.execLogged fuel list env m = some ((r, m'), es) ∧
      Changed list h cells m m' es cells' := by
  -- the calls that only read
  have hread : ∀ c : Call α υ ω σ, c.Fresh m → (∀ r ∈ c.exec fuel list env m, r.2 = m) →
      c.execLogged fuel list env m = (c.exec fuel list env m).map (fun r => (r, [])) →
      ∃ r es m' cells', c.execLogged fuel list env m = some ((r, m'), es) ∧
        Changed list h cells m m' es cells' := by
    intro c hc hsame hlog
    obtain ⟨m', -, hm', -, -⟩ := hr.exec c env hc hfuel
    obtain rfl : m' = m := hsame _ hm'
    exact ⟨_, [], m', cells, by rw [hlog, hm']; rfl, hr.unchanged⟩
  -- the calls that return an item
  have hitem : ∀ {f : Option ((Option α × Memory α υ σ) × List (Event Block))},
      (∃ x es m' cells', f = some ((x, m'), es) ∧ Changed list h cells m m' es cells') →
      ∃ r es m' cells', (f.map fun r => (((.item r.1.1 : Result α σ), r.1.2), r.2))
        = some ((r, m'), es) ∧ Changed list h cells m m' es cells' := by
    rintro f ⟨x, es, m', cells', rfl, hch⟩
    exact ⟨.item x, es, m', cells', rfl, hch⟩
  cases call with
  | pushHead item alloc =>
    exact hitem (hr.pushLogged alloc (by rintro a rfl; exact hfresh) item .right)
  | pushTail item alloc =>
    exact hitem (hr.pushLogged alloc (by rintro a rfl; exact hfresh) item .left)
  | popHead => exact hitem (hr.popLogged .right)
  | popTail => exact hitem (hr.popLogged .left)
  | removeItem item => exact hitem (hr.removeItemLogged env item hfuel)
  | find item => exact hread _ hfresh snd_of_map rfl
  | forEach fn walkData => exact hread _ hfresh snd_of_map rfl
  | size => exact hread _ hfresh snd_of_map rfl

/-! ## Destruction -/

/-- The memory without these blocks. -/
def Memory.freeAll (m : Memory α υ σ) (as : List Addr) : Memory α υ σ := as.foldl Memory.free m

theorem Memory.agreeAt_freeAll {as : List Addr} {b : Addr} (hb : b ∉ as) :
    m.AgreeAt (m.freeAll as) b := by
  induction as generalizing m with
  | nil => exact AgreeAt.refl m b
  | cons a as ih =>
    obtain ⟨hba, hbas⟩ := List.ne_and_not_mem_of_not_mem_cons hb
    exact (agreeAt_free (Ne.symm hba)).trans (ih hbas)

theorem Memory.owner_freeAll {as : List Addr} {b : Addr} (hb : b ∈ as) :
    (m.freeAll as).owner b = none := by
  induction as generalizing m with
  | nil => simp at hb
  | cons a as ih =>
    by_cases hbas : b ∈ as
    · exact ih hbas
    · obtain rfl : b = a := by simpa [hbas] using hb
      exact (agreeAt_freeAll (m := m.free b) hbas).owner.trans (Function.update_self _ _ _)

/-- The releases of the nodes of a list. -/
theorem Memory.history_freeAll :
    (m.freeAll (cells.map Prod.fst)).owner
      = handedOut m.owner (cells.map fun c => .release (nodeBlock list h c)) := by
  induction cells generalizing m with
  | nil => rfl
  | cons c cells ih => exact ih

/-- From `curr` on the right links lead through `ns` to `s`. -/
def Memory.Walk (m : Memory α υ σ) : NodePtr → List NodePtr → NodePtr → Prop
  | curr, [], s => curr = s
  | curr, n :: ns, s => curr = n ∧ ∃ next, m.getLink n .right = some next ∧ Walk m next ns s

theorem Memory.Walk.congr {curr s : NodePtr} {ns : List NodePtr} (hw : m.Walk curr ns s)
    (hag : ∀ p ∈ ns, m.AgreeAt m' p.addr) : m'.Walk curr ns s := by
  induction ns generalizing curr with
  | nil => exact hw
  | cons n ns ih =>
    obtain ⟨hcurr, next, hnext, hrest⟩ := hw
    have hlink : m'.getLink n .right = some next := by
      rw [(hag n List.mem_cons_self).getLink rfl, hnext]
    exact ⟨hcurr, next, hlink, ih hrest fun p hp => hag p (List.mem_cons_of_mem n hp)⟩

theorem Memory.Visits.walk {p s : NodePtr} {ns : List NodePtr} (hv : m.Visits .right p ns s) :
    ∃ curr, m.getLink p .right = some curr ∧ m.Walk curr ns s := by
  induction ns generalizing p with
  | nil => exact ⟨s, hv, rfl⟩
  | cons n ns ih =>
    obtain ⟨hp, hrest⟩ := hv
    exact ⟨n, hp, rfl, ih hrest⟩

/-- The loop reads the link of a node, releases the node and goes on with the rest. -/
theorem Memory.destroyLoop_eq {curr : NodePtr} (hl : m.lists list = some h)
    (hs : h.dlSentinel = .storage list) (hnd : (blocks list bs).Nodup)
    (howned : ∀ c ∈ bs, m.owner c.1 = some h.dlAllocator)
    (hwalk : m.Walk curr (bs.map cellPtr) (.storage list)) (hfuel : bs.length < fuel) :
    destroyLoop list fuel curr m
      = some (bs.map fun c => .release (nodeBlock list h c), m.freeAll (bs.map Prod.fst)) := by
  induction bs generalizing m curr fuel with
  | nil =>
    obtain ⟨fuel, rfl⟩ := Nat.exists_eq_succ_of_ne_zero (Nat.ne_zero_of_lt hfuel)
    obtain rfl : curr = .storage list := hwalk
    rw [destroyLoop, hl, Option.bind_eq_bind, Option.bind_some, if_pos hs.symm]
    rfl
  | cons c bs ih =>
    obtain ⟨fuel, rfl⟩ := Nat.exists_eq_succ_of_ne_zero (Nat.ne_zero_of_lt hfuel)
    obtain ⟨rfl, next, hnext, hrest⟩ := hwalk
    have hne : cellPtr c ≠ h.dlSentinel := by simp [hs]
    have hrel : m.alMemRelease h.dlAllocator (cellPtr c).addr = some (m.free c.1) :=
      alMemRelease_eq (howned c List.mem_cons_self)
    obtain ⟨hlist, hc, hnd'⟩ : list ≠ c.1 ∧ c.1 ∉ bs.map Prod.fst ∧ (blocks list bs).Nodup := by
      simp only [blocks, List.map_cons, List.nodup_cons, List.mem_cons] at hnd ⊢
      tauto
    -- the other blocks are still there
    have hag : ∀ b, b ≠ c.1 → m.AgreeAt (m.free c.1) b := fun b hb => agreeAt_free (Ne.symm hb)
    have hcells : ∀ c' ∈ bs, c'.1 ≠ c.1 := by
      rintro c' hc' heq
      exact hc (heq ▸ List.mem_map_of_mem hc')
    have hloop := ih (m := m.free c.1) ((hag list hlist).lists.trans hl) hnd'
      (fun c' hc' => ((hag c'.1 (hcells c' hc')).owner).trans
        (howned c' (List.mem_cons_of_mem c hc')))
      (hrest.congr fun p hp => by
        obtain ⟨c', hc', rfl⟩ := List.mem_map.mp hp
        exact hag c'.1 (hcells c' hc'))
      (Nat.lt_of_succ_lt_succ hfuel)
    rw [destroyLoop, hl, Option.bind_eq_bind, Option.bind_some, if_neg hne, hnext]
    simp only [Option.bind_eq_bind, Option.bind_some, hrel, hloop]
    rfl

theorem Represents.nodup (hr : Represents m list h cells) : (blocks list cells).Nodup := by
  have hptrs : ((cells.map Prod.fst).map NodePtr.block).Nodup := by
    rw [List.map_map]
    exact List.Nodup.of_cons hr.ring.nodup
  exact List.nodup_cons.mpr ⟨hr.apart, List.Nodup.of_map _ hptrs⟩

/-- `dlist_destroy` releases the nodes of the list from the head on, and then the header. -/
theorem Represents.dlistDestroy (hr : Represents m list h cells) (hfuel : cells.length < fuel) :
    m.dlistDestroy fuel list = some
      (cells.map (fun c => .release (nodeBlock list h c)) ++ [.release (headerBlock list h)],
        (m.freeAll (cells.map Prod.fst)).free list) := by
  obtain ⟨curr, hcurr, hwalk⟩ := hr.wellFormed.right.walk
  have hloop := Memory.destroyLoop_eq hr.header hr.sentinel hr.nodup
    (fun c hc => hr.owned c.1 (List.mem_cons_of_mem list (List.mem_map_of_mem hc))) hwalk hfuel
  have hag := Memory.agreeAt_freeAll (m := m) hr.apart
  have hl := hag.lists.trans hr.header
  have hrel : (m.freeAll (cells.map Prod.fst)).alMemRelease h.dlAllocator list
      = some ((m.freeAll (cells.map Prod.fst)).free list) :=
    Memory.alMemRelease_eq (hag.owner.trans (hr.owned list List.mem_cons_self))
  simp only [Memory.dlistDestroy, hr.header, Option.bind_eq_bind, Option.bind_some, hr.sentinel,
    hcurr, hloop, hl, hrel]
  rfl

/-! ## Headers are released last -/

/-- Whose blocks are held, their header is held. -/
def Headed (blks : Multiset Block) : Prop := ∀ r ∈ blks, { r with ptr := .header } ∈ blks

/-- At every time of a ledger that starts with `blks`, the header of each block that is held
is held. -/
def HeaderLast (blks : Multiset Block) (es : List (Event Block)) : Prop :=
  ∀ pre blks', pre <+: es → settle blks pre = some blks' → Headed blks'

section headed

variable {blks blks' rest : Multiset Block} {fs : List (Event Block)}

theorem Headed.add (h : Headed blks) (h' : Headed blks') : Headed (blks + blks') := by
  intro r hr
  obtain hr | hr := Multiset.mem_add.mp hr
  · exact Multiset.mem_add.mpr (Or.inl (h r hr))
  · exact Multiset.mem_add.mpr (Or.inr (h' r hr))

theorem headed_held : Headed (held list h cells) := by
  intro r hr
  obtain rfl | hr := Multiset.mem_cons.mp hr
  · exact Multiset.mem_cons_self _ _
  · obtain ⟨c, -, rfl⟩ := List.mem_map.mp (Multiset.mem_coe.mp hr)
    exact Multiset.mem_cons_self _ _

/-- A ledger of one entry, between headed states. -/
theorem headerLast_of_single (hlen : es.length ≤ 1) (hs : settle blks es = some blks')
    (h : Headed blks) (h' : Headed blks') : HeaderLast blks es := by
  intro pre mid hpre hmid
  by_cases hnil : pre = []
  · subst hnil
    obtain rfl := Option.some.inj hmid
    exact h
  · have hpos := List.length_pos_iff.mpr hnil
    obtain rfl : pre = es := hpre.eq_of_length_le (by omega)
    obtain rfl := Option.some.inj (hs.symm.trans hmid)
    exact h'

theorem HeaderLast.append (h : HeaderLast blks es) (hs : settle blks es = some blks')
    (h' : HeaderLast blks' fs) : HeaderLast blks (es ++ fs) := by
  intro pre mid hpre hmid
  obtain hle | ⟨pre', rfl⟩ := List.prefix_or_prefix_of_prefix hpre (List.prefix_append es fs)
  · exact h pre mid hle hmid
  · rw [settle_append, hs, Option.bind_some] at hmid
    exact h' pre' mid ((List.prefix_append_right_inj es).mp hpre) hmid

/-- The entries of `dlist_destroy`. -/
def destroyEntries (list : Addr) (h : DlinkedList α υ σ) (cells : List (Addr × α)) :
    List (Event Block) :=
  cells.map (fun c => .release (nodeBlock list h c)) ++ [.release (headerBlock list h)]

theorem settle_destroyEntries :
    settle (held list h cells + rest) (destroyEntries list h cells) = some rest := by
  induction cells with
  | nil =>
    have hlast : settle (held list h []) [.release (headerBlock list h)] = some 0 :=
      settle_release_cons
    exact settle_part hlast rfl (zero_add rest).symm
  | cons c cells ih =>
    rw [held_cons, Multiset.cons_add]
    exact settle_release_cons.trans ih

theorem headerLast_destroyEntries (hrest : Headed rest) :
    HeaderLast (held list h cells + rest) (destroyEntries list h cells) := by
  induction cells with
  | nil =>
    have hlen : (destroyEntries list h []).length ≤ 1 := Nat.le_refl 1
    exact headerLast_of_single hlen settle_destroyEntries (headed_held.add hrest) hrest
  | cons c cells ih =>
    have hfirst : settle (held list h (c :: cells) + rest) [.release (nodeBlock list h c)]
        = some (held list h cells + rest) := by
      rw [held_cons, Multiset.cons_add]
      exact settle_release_cons
    have hlast : HeaderLast (held list h (c :: cells) + rest) [.release (nodeBlock list h c)] :=
      headerLast_of_single (Nat.le_refl 1) hfirst (headed_held.add hrest) (headed_held.add hrest)
    exact hlast.append hfirst ih

end headed

/-! ## Several lists -/

/-- A list that there is. -/
structure ListState (α υ σ : Type) where
  addr : Addr
  header : DlinkedList α υ σ
  cells : List (Addr × α)

namespace ListState

def blocks (l : ListState α υ σ) : List Addr := LinkedList.blocks l.addr l.cells

def held (l : ListState α υ σ) : Multiset Block := LinkedList.held l.addr l.header l.cells

end ListState

variable {l : ListState α υ σ} {ls ls' ks : List (ListState α υ σ)}

/-- The lists that there are, none of which shares a block with another. -/
structure Lists (m : Memory α υ σ) (ls : List (ListState α υ σ)) : Prop where
  represents : ∀ l ∈ ls, Represents m l.addr l.header l.cells
  apart : ls.Pairwise fun l l' => l.blocks.Disjoint l'.blocks

/-- The blocks held for all the lists. -/
def heldAll (ls : List (ListState α υ σ)) : Multiset Block := (ls.map ListState.held).sum

theorem heldAll_middle : heldAll (ks ++ l :: ls) = l.held + heldAll (ks ++ ls) := by
  simp only [heldAll, List.map_append, List.map_cons, List.sum_append, List.sum_cons]
  exact add_left_comm _ _ _

theorem heldAll_cons : heldAll (l :: ls) = l.held + heldAll ls := List.sum_cons

theorem headed_heldAll : Headed (heldAll ls) := by
  induction ls with
  | nil => simp [heldAll, Headed]
  | cons l ls ih =>
    rw [heldAll_cons]
    exact headed_held.add ih

theorem lists_cons : Lists m (l :: ls) ↔ Represents m l.addr l.header l.cells ∧
    (∀ k ∈ ls, l.blocks.Disjoint k.blocks) ∧ Lists m ls := by
  constructor
  · intro hL
    obtain ⟨hd, htl⟩ := List.pairwise_cons.mp hL.apart
    exact ⟨hL.represents l List.mem_cons_self, hd,
      fun k hk => hL.represents k (List.mem_cons_of_mem l hk), htl⟩
  · rintro ⟨hr, hd, hL⟩
    refine ⟨?_, List.pairwise_cons.mpr ⟨hd, hL.apart⟩⟩
    rintro k hk
    obtain rfl | hk := List.mem_cons.mp hk
    · exact hr
    · exact hL.represents k hk

theorem lists_middle : Lists m (ks ++ l :: ls) ↔ Lists m (l :: (ks ++ ls)) := by
  have hsymm : ∀ {x y : ListState α υ σ}, x.blocks.Disjoint y.blocks →
      y.blocks.Disjoint x.blocks := fun h => h.symm
  have hmem : ∀ k, k ∈ ks ++ l :: ls ↔ k ∈ l :: (ks ++ ls) := fun k =>
    List.perm_middle.mem_iff
  constructor
  · rintro ⟨hr, hp⟩
    exact ⟨fun k hk => hr k ((hmem k).mpr hk), (List.pairwise_middle hsymm).mp hp⟩
  · rintro ⟨hr, hp⟩
    exact ⟨fun k hk => hr k ((hmem k).mp hk), (List.pairwise_middle hsymm).mpr hp⟩

theorem Lists.congr (hL : Lists m ls) (hag : ∀ l ∈ ls, ∀ b ∈ l.blocks, m.AgreeAt m' b) :
    Lists m' ls :=
  ⟨fun l hl => (hL.represents l hl).congr (hag l hl), hL.apart⟩

/-- A block of one of the lists is in use. -/
theorem Lists.owner_isSome (hL : Lists m ls) (hl : l ∈ ls) {b : Addr} (hb : b ∈ l.blocks) :
    (m.owner b).isSome :=
  (hL.represents l hl).owner_isSome hb

/-- A call on one of the lists. -/
theorem Lists.changed (hL : Lists m (ks ++ l :: ls))
    (hch : Changed l.addr l.header l.cells m m' es cells') :
    Lists m' (ks ++ { l with cells := cells' } :: ls) := by
  rw [lists_middle, lists_cons] at hL ⊢
  obtain ⟨-, hd, hL⟩ := hL
  refine ⟨hch.represents, fun k hk b hb hbk => ?_, hL.congr fun k hk b hb => ?_⟩
  · obtain hb | hnone := hch.blocks b hb
    · exact hd k hk hb hbk
    · have hsome := hL.owner_isSome hk hbk
      rw [hnone] at hsome
      cases hsome
  · exact hch.frame b (fun hbl => hd k hk hbl hb) (hL.owner_isSome hk hb)

/-- The other lists after one is destroyed. -/
theorem Lists.destroyed (hL : Lists m (ks ++ l :: ls)) :
    Lists ((m.freeAll (l.cells.map Prod.fst)).free l.addr) (ks ++ ls) := by
  rw [lists_middle, lists_cons] at hL
  obtain ⟨-, hd, hL⟩ := hL
  refine hL.congr fun k hk b hb => ?_
  obtain ⟨haddr, hcells⟩ := List.ne_and_not_mem_of_not_mem_cons fun hbl => hd k hk hbl hb
  exact (Memory.agreeAt_freeAll hcells).trans (Memory.agreeAt_free (Ne.symm haddr))

/-- A new list. -/
theorem Lists.created (hL : Lists m ls) (allocatorHandle : Allocator)
    (cmp : σ → α → α → υ → ℤ) (al : Option Allocator) (userdata : υ) (ha : m.owner a = none) :
    ∃ m' hd, m.dlistCreate allocatorHandle cmp al userdata (some a) = some (some a, m') ∧
      hd.dlAllocator = al.getD allocatorHandle ∧
      m'.owner = Function.update m.owner a (some hd.dlAllocator) ∧
      Lists m' (⟨a, hd, []⟩ :: ls) := by
  have hcreate : m.dlistCreate allocatorHandle cmp al userdata (some a) = some (some a, _) :=
    if_neg (by simp [ha])
  refine ⟨_, _, hcreate, rfl, rfl, lists_cons.mpr ⟨represents_dlistCreate hcreate, ?_, ?_⟩⟩
  · rintro k hk b hb hbk
    obtain rfl : b = a := List.mem_singleton.mp hb
    have hsome := hL.owner_isSome hk hbk
    rw [ha] at hsome
    cases hsome
  · refine hL.congr fun k hk b hb => Memory.agreeAt_allocList ?_
    rintro rfl
    have hsome := hL.owner_isSome hk hb
    rw [ha] at hsome
    cases hsome

/-! ## The blocks of others -/

/-- The blocks in use that are not in a list. -/
def elsewhere (m : Memory α υ σ) (ls : List (ListState α υ σ)) (b : Addr) : Option Allocator :=
  if b ∈ ls.flatMap ListState.blocks then none else m.owner b

theorem elsewhere_middle (b : Addr) : elsewhere m (ks ++ l :: ls) b
    = if b ∈ l.blocks then none else elsewhere m (ks ++ ls) b := by
  simp only [elsewhere, List.flatMap_append, List.flatMap_cons, List.mem_append]
  by_cases hl : b ∈ l.blocks
  · rw [if_pos (Or.inr (Or.inl hl)), if_pos hl]
  · simp only [hl, false_or, if_false]

/-- A call takes blocks for its list from those that nobody has, and gives them back there. -/
theorem Changed.elsewhere_eq (hch : Changed l.addr l.header l.cells m m' es cells') :
    elsewhere m' (ks ++ { l with cells := cells' } :: ls) = elsewhere m (ks ++ l :: ls) := by
  funext b
  rw [elsewhere_middle, elsewhere_middle]
  by_cases hb' : b ∈ LinkedList.blocks l.addr cells'
  · have hmem : b ∈ ({ l with cells := cells' } : ListState α υ σ).blocks := hb'
    rw [if_pos hmem]
    obtain hb | hnone := hch.blocks b hb'
    · exact (if_pos (show b ∈ l.blocks from hb)).symm
    · simp [elsewhere, hnone]
  · have howner := hch.outside b hb'
    have hmem : b ∉ ({ l with cells := cells' } : ListState α υ σ).blocks := hb'
    rw [if_neg hmem]
    by_cases hb : b ∈ l.blocks
    · rw [if_pos (show b ∈ LinkedList.blocks l.addr l.cells from hb)] at howner
      simp [elsewhere, howner, hb]
    · rw [if_neg (show b ∉ LinkedList.blocks l.addr l.cells from hb)] at howner
      simp [elsewhere, howner, hb]

/-- `dlist_destroy` gives back the blocks of its list. -/
theorem elsewhere_destroyed :
    elsewhere ((m.freeAll (l.cells.map Prod.fst)).free l.addr) (ks ++ ls)
      = elsewhere m (ks ++ l :: ls) := by
  funext b
  rw [elsewhere_middle]
  have hfree : ((m.freeAll (l.cells.map Prod.fst)).free l.addr).owner b
      = if b ∈ l.blocks then none else m.owner b := by
    by_cases haddr : b = l.addr
    · subst haddr
      rw [if_pos (show l.addr ∈ l.blocks from List.mem_cons_self)]
      exact Function.update_self _ _ _
    · have hlast : ((m.freeAll (l.cells.map Prod.fst)).free l.addr).owner b
          = (m.freeAll (l.cells.map Prod.fst)).owner b := Function.update_of_ne haddr _ _
      by_cases hcells : b ∈ l.cells.map Prod.fst
      · rw [if_pos (show b ∈ l.blocks from List.mem_cons_of_mem _ hcells), hlast,
          Memory.owner_freeAll hcells]
      · have hb : b ∉ l.blocks := fun h => (List.mem_cons.mp h).elim haddr hcells
        rw [if_neg hb, hlast, (Memory.agreeAt_freeAll hcells).owner]
  simp only [elsewhere, hfree]
  split_ifs <;> rfl

/-! ## Programs -/

variable {allocatorHandle : Allocator} {ops rest : List (Op α υ ω σ)}

/-- What the operations of a program have done. -/
structure Ran (m : Memory α υ σ) (ls : List (ListState α υ σ)) (es : List (Event Block))
    (m' : Memory α υ σ) (ls' : List (ListState α υ σ)) : Prop where
  lists : Lists m' ls'
  history : m'.owner = handedOut m.owner es
  elsewhere : LinkedList.elsewhere m' ls' = LinkedList.elsewhere m ls
  settled : settle (heldAll ls) es = some (heldAll ls')
  headerLast : HeaderLast (heldAll ls) es
  sentinel : SentinelFree es

theorem Ran.nil (hL : Lists m ls) : Ran m ls [] m ls :=
  ⟨hL, rfl, rfl, rfl, headerLast_of_single (Nat.zero_le 1) rfl headed_heldAll headed_heldAll,
    by simp [SentinelFree]⟩

theorem Ran.append {m'' : Memory α υ σ} {fs : List (Event Block)} (h : Ran m ls es m' ks)
    (h' : Ran m' ks fs m'' ls') : Ran m ls (es ++ fs) m'' ls' := by
  refine ⟨h'.lists, ?_, h'.elsewhere.trans h.elsewhere, settle_trans h.settled h'.settled,
    h.headerLast.append h.settled h'.headerLast, fun list al s hmem => ?_⟩
  · rw [handedOut_append, ← h.history, h'.history]
  · obtain hmem | hmem := List.mem_append.mp hmem
    · exact h.sentinel list al s hmem
    · exact h'.sentinel list al s hmem

/-- An operation that makes at most one entry. -/
theorem ran_single (hL : Lists m' ls') (hh : m'.owner = handedOut m.owner es)
    (ho : elsewhere m' ls' = elsewhere m ls) (hs : settle (heldAll ls) es = some (heldAll ls'))
    (hlen : es.length ≤ 1) (hsent : SentinelFree es) : Ran m ls es m' ls' :=
  ⟨hL, hh, ho, hs, headerLast_of_single hlen hs headed_heldAll headed_heldAll, hsent⟩

/-- A list call. -/
theorem Lists.exec_call (hL : Lists m (ks ++ l :: ls)) (c : Call α υ ω σ) (env : σ)
    (hfresh : c.Fresh m) (hfuel : l.cells.length < fuel) :
    ∃ r es m' cells', c.execLogged fuel l.addr env m = some ((r, m'), es) ∧
      cells'.length ≤ l.cells.length + 1 ∧
      Ran m (ks ++ l :: ls) es m' (ks ++ { l with cells := cells' } :: ls) := by
  have hr := (lists_cons.mp (lists_middle.mp hL)).1
  obtain ⟨r, es, m', cells', hexec, hch⟩ := hr.execLogged c env hfresh hfuel
  refine ⟨r, es, m', cells', hexec, hch.length,
    ran_single (hL.changed hch) hch.history hch.elsewhere_eq ?_ hch.single hch.sentinel⟩
  exact settle_part hch.settled heldAll_middle heldAll_middle

/-- The end of a list. -/
theorem Lists.exec_destroy (hL : Lists m (ks ++ l :: ls)) (hfuel : l.cells.length < fuel) :
    ∃ m', m.dlistDestroy fuel l.addr = some (destroyEntries l.addr l.header l.cells, m') ∧
      Ran m (ks ++ l :: ls) (destroyEntries l.addr l.header l.cells) m' (ks ++ ls) := by
  have hr := (lists_cons.mp (lists_middle.mp hL)).1
  refine ⟨_, hr.dlistDestroy hfuel, hL.destroyed, ?_, elsewhere_destroyed, ?_, ?_, ?_⟩
  · rw [destroyEntries, handedOut_append, ← Memory.history_freeAll]
    rfl
  · rw [heldAll_middle]
    exact settle_destroyEntries
  · rw [heldAll_middle]
    exact headerLast_destroyEntries headed_heldAll
  · simp [SentinelFree, destroyEntries, nodeBlock, headerBlock, cellPtr]

/-- Handles of different lists differ. -/
theorem Lists.erase_addr (hL : Lists m (ks ++ l :: ls)) :
    ((ks ++ l :: ls).map ListState.addr).erase l.addr = (ks ++ ls).map ListState.addr := by
  obtain ⟨-, hd, -⟩ := lists_cons.mp (lists_middle.mp hL)
  have hks : l.addr ∉ ks.map ListState.addr := by
    intro hmem
    obtain ⟨k, hk, haddr⟩ := List.mem_map.mp hmem
    have hkl : l.addr ∈ k.blocks := haddr ▸ List.mem_cons_self
    exact hd k (List.mem_append_left ls hk) List.mem_cons_self hkl
  rw [List.map_append, List.map_cons, List.erase_append_right _ hks, List.erase_cons_head,
    List.map_append]

/-- One operation of a program that may go on with `rest`. -/
theorem Lists.exec (hL : Lists m ls) (allocatorHandle : Allocator) {op : Op α υ ω σ}
    (hended : Ended (op :: rest) (ls.map ListState.addr)) (hfresh : op.Fresh m)
    (hrest : rest.length ≤ fuel) (hfuel : ∀ l ∈ ls, l.cells.length + (op :: rest).length ≤ fuel) :
    ∃ es m' ls', op.exec allocatorHandle fuel m = some (es, m') ∧ Ran m ls es m' ls' ∧
      Ended rest (ls'.map ListState.addr) ∧ ∀ l ∈ ls', l.cells.length + rest.length ≤ fuel := by
  have hless : ∀ l ∈ ls, l.cells.length + rest.length ≤ fuel := fun l hl =>
    Nat.le_of_succ_le (hfuel l hl)
  -- the list that a call or `dlist_destroy` names
  have hfind : ∀ list ∈ ls.map ListState.addr,
      ∃ ks l ls', ls = ks ++ l :: ls' ∧ l.addr = list ∧ l.cells.length < fuel := by
    intro list hmem
    obtain ⟨l, hl, rfl⟩ := List.mem_map.mp hmem
    obtain ⟨ks, ls', hsplit⟩ := List.append_of_mem hl
    refine ⟨ks, l, ls', hsplit, rfl, ?_⟩
    have hl := hfuel l hl
    rw [List.length_cons] at hl
    omega
  cases op with
  | create cmp al userdata alloc =>
    cases alloc with
    | none => exact ⟨[], m, ls, rfl, Ran.nil hL, hended, hless⟩
    | some a =>
      obtain ⟨m', hd, hcreate, hal, howner, hL'⟩ :=
        hL.created allocatorHandle cmp al userdata hfresh
      refine ⟨[.acquire (headerBlock a hd)], m', ⟨a, hd, []⟩ :: ls, ?_,
        ran_single hL' howner ?_ ?_ (Nat.le_refl 1) (by simp [SentinelFree]), hended, ?_⟩
      · rw [Op.exec, hcreate, headerBlock, hal]
        rfl
      · have hfree : m.owner a = none := hfresh
        funext b
        have hmiddle : elsewhere m' ([] ++ ⟨a, hd, []⟩ :: ls) b = _ := elsewhere_middle b
        rw [List.nil_append] at hmiddle
        rw [hmiddle]
        by_cases hb : b = a
        · subst hb
          simp [ListState.blocks, blocks, elsewhere, hfree]
        · simp [ListState.blocks, blocks, elsewhere, howner, hb]
      · rw [heldAll_cons]
        rfl
      · rintro l hl
        obtain rfl | hl := List.mem_cons.mp hl
        · simpa using hrest
        · exact hless l hl
  | call list env c =>
    obtain ⟨hmem, hended⟩ := hended
    obtain ⟨ks, l, ls, rfl, rfl, hlen⟩ := hfind list hmem
    obtain ⟨r, es, m', cells', hexec, hlen', hran⟩ := hL.exec_call c env hfresh hlen
    refine ⟨es, m', _, by rw [Op.exec, hexec]; rfl, hran, by simpa using hended, fun k hk => ?_⟩
    have hl := hfuel l (by simp)
    rw [List.length_cons] at hl
    obtain hk | hk := List.mem_append.mp hk
    · exact hless k (by simp [hk])
    · obtain rfl | hk := List.mem_cons.mp hk
      · show cells'.length + rest.length ≤ fuel
        omega
      · exact hless k (by simp [hk])
  | destroy list =>
    obtain ⟨hmem, hended⟩ := hended
    obtain ⟨ks, l, ls, rfl, rfl, hlen⟩ := hfind list hmem
    obtain ⟨m', hexec, hran⟩ := hL.exec_destroy hlen
    rw [hL.erase_addr] at hended
    refine ⟨_, m', _, hexec, hran, hended, fun k hk => hless k ?_⟩
    rw [List.mem_append] at hk ⊢
    exact hk.imp_right (List.mem_cons_of_mem l)

/-- The first operations of a program that goes on with `rest`. -/
theorem Lists.execOps (hL : Lists m ls) (hended : Ended (ops ++ rest) (ls.map ListState.addr))
    (hfresh : FreshOps allocatorHandle fuel (ops ++ rest) m)
    (hrest : (ops ++ rest).length ≤ fuel)
    (hfuel : ∀ l ∈ ls, l.cells.length + (ops ++ rest).length ≤ fuel) :
    ∃ es m' ls', LinkedList.execOps allocatorHandle fuel ops m = some (es, m') ∧
      Ran m ls es m' ls' ∧ Ended rest (ls'.map ListState.addr) ∧
      ∀ l ∈ ls', l.cells.length + rest.length ≤ fuel := by
  induction ops generalizing m ls with
  | nil => exact ⟨[], m, ls, rfl, Ran.nil hL, hended, hfuel⟩
  | cons op ops ih =>
    have hless : (ops ++ rest).length ≤ fuel := Nat.le_of_succ_le hrest
    obtain ⟨es, m', ls', hexec, hran, hended', hfuel'⟩ :=
      hL.exec allocatorHandle hended hfresh.1 hless hfuel
    obtain ⟨fs, m'', ls'', hexec', hran', hended'', hfuel''⟩ :=
      ih hran.lists hended' (hfresh.2 _ hexec) hless hfuel'
    refine ⟨es ++ fs, m'', ls'', ?_, hran.append hran', hended'', hfuel''⟩
    simp only [LinkedList.execOps, hexec, hexec', Option.bind_eq_bind, Option.bind_some]

/-- The ledger of a program starts with those of its parts. -/
theorem execOps_prefix {before after : List (Op α υ ω σ)} {m₁ : Memory α υ σ}
    {log : List (Event Block)} (hb : execOps allocatorHandle fuel before m = some (es, m₁))
    (h : execOps allocatorHandle fuel (before ++ after) m = some (log, m')) : es <+: log := by
  induction before generalizing m es log with
  | nil =>
    obtain ⟨rfl, -⟩ : [] = es ∧ m = m₁ := by simpa [execOps] using hb
    exact List.nil_prefix
  | cons op ops ih =>
    simp only [List.cons_append, execOps, Option.bind_eq_bind, Option.bind_eq_some_iff] at hb h
    obtain ⟨⟨es₁, m₂⟩, hop, ⟨es₂, m₃⟩, hb, heq⟩ := hb
    obtain ⟨⟨fs₁, m₄⟩, hop', ⟨fs₂, m₅⟩, h, heq'⟩ := h
    obtain ⟨rfl, rfl⟩ : es₁ = fs₁ ∧ m₂ = m₄ := by simpa using hop.symm.trans hop'
    obtain ⟨rfl, rfl⟩ : es₁ ++ es₂ = es ∧ m₃ = m₁ := by simpa using heq
    obtain ⟨rfl, rfl⟩ : es₁ ++ fs₂ = log ∧ m₅ = m' := by simpa using heq'
    exact (List.prefix_append_right_inj es₁).mpr (ih hb h)

/-- A program that works with any lists it creates, calls in any order and destroys in the
end, with any allocations that fail: no access or release gets stuck, every block that is
obtained is released exactly once, no sentinel is released, a header is held as long as a node
of its list, and `dlist_destroy` releases the nodes that the list has then, and the header. At
each point the blocks in use are those that the ledger says, and in the end those of before. -/
theorem blocks_released_once (hended : Ended ops [])
    (hfresh : FreshOps allocatorHandle fuel ops m) (hfuel : ops.length ≤ fuel) :
    ∃ log m', execOps allocatorHandle fuel ops m = some (log, m') ∧ Balanced log ∧
      (∀ a, m'.owner a = m.owner a) ∧ SentinelFree log ∧ HeaderLast 0 log ∧
      (∀ before after, ops = before ++ after →
        ∃ es m₁, execOps allocatorHandle fuel before m = some (es, m₁) ∧ es <+: log ∧
          m₁.owner = handedOut m.owner es) ∧
      ∀ before list after, ops = before ++ .destroy list :: after →
        ∃ es m₁ ns al m₂, execOps allocatorHandle fuel before m = some (es, m₁) ∧
          WellFormed m₁ list ns ∧ m₁.dlistDestroy fuel list = some
            (ns.map (fun p => .release ⟨list, al, .node p⟩) ++ [.release ⟨list, al, .header⟩],
              m₂) := by
  have hnone : Lists m ([] : List (ListState α υ σ)) := ⟨by simp, List.Pairwise.nil⟩
  rw [← List.append_nil ops] at hended hfresh hfuel
  obtain ⟨log, m', ls', hexec, hran, hend, -⟩ := hnone.execOps hended hfresh hfuel (by simp)
  rw [List.append_nil] at hended hfresh hfuel
  obtain rfl : ls' = [] := List.map_eq_nil_iff.mp hend
  refine ⟨log, m', hexec, hran.settled, fun a => ?_, hran.sentinel, hran.headerLast, ?_, ?_⟩
  · have hout := congrFun hran.elsewhere a
    simpa [elsewhere] using hout
  · rintro before after rfl
    obtain ⟨es, m₁, ls₁, hexec₁, hran₁, -, -⟩ := hnone.execOps hended hfresh hfuel (by simp)
    exact ⟨es, m₁, hexec₁, execOps_prefix hexec₁ hexec, hran₁.history⟩
  · rintro before list after rfl
    obtain ⟨es, m₁, ls₁, hexec₁, hran₁, ⟨hmem, -⟩, hlen₁⟩ :=
      hnone.execOps hended hfresh hfuel (by simp)
    obtain ⟨l, hl, rfl⟩ := List.mem_map.mp hmem
    have hr := hran₁.lists.represents l hl
    have hlen : l.cells.length < fuel := by
      have hle := hlen₁ l hl
      rw [List.length_cons] at hle
      omega
    refine ⟨es, m₁, l.cells.map cellPtr, l.header.dlAllocator,
      (m₁.freeAll (l.cells.map Prod.fst)).free l.addr, hexec₁, hr.wellFormed, ?_⟩
    rw [hr.dlistDestroy hlen, List.map_map]
    rfl

/-- Two lists: an item of the first is removed, a push on the second fails. -/
theorem blocks_released_once_two :
    let m : Memory ℕ Unit Unit := ⟨fun _ => none, fun _ => none, fun _ => none⟩
    let cmp : Unit → ℕ → ℕ → Unit → ℤ := fun _ x y _ => x - y
    let ops : List (Op ℕ Unit Unit Unit) :=
      [.create cmp none () (some 0), .call 0 () (.pushHead 5 (some 1)),
        .create cmp (some 1) () (some 2), .call 0 () (.pushTail 6 (some 3)),
        .call 2 () (.pushTail 7 none), .call 0 () (.removeItem 5), .destroy 2, .destroy 0]
    ∃ log m', execOps 0 8 ops m = some (log, m') ∧ Balanced log ∧ log.length = 8 ∧
      (∀ a, m'.owner a = none) ∧ ∃ es m₁, execOps 0 8 (ops.take 4) m = some (es, m₁) ∧
        m₁.owner = handedOut m.owner es ∧ m₁.owner 3 = some 0 := by
  intro m cmp ops
  have hended : Ended ops [] := by
    simp [ops, Ended]
  have hfresh : FreshOps 0 8 ops m := by
    refine ⟨rfl, ?_⟩
    rintro r ⟨rfl⟩
    refine ⟨rfl, ?_⟩
    rintro r ⟨rfl⟩
    refine ⟨rfl, ?_⟩
    rintro r ⟨rfl⟩
    refine ⟨rfl, ?_⟩
    rintro r ⟨rfl⟩
    refine ⟨trivial, ?_⟩
    rintro r ⟨rfl⟩
    refine ⟨trivial, ?_⟩
    rintro r ⟨rfl⟩
    refine ⟨trivial, ?_⟩
    rintro r ⟨rfl⟩
    refine ⟨trivial, ?_⟩
    rintro r ⟨rfl⟩
    trivial
  obtain ⟨log, m', hexec, hbal, howner, -, -, hprefix, -⟩ :=
    blocks_released_once hended hfresh (by decide)
  obtain ⟨es, m₁, hexec₁, -, hhistory⟩ := hprefix (ops.take 4) (ops.drop 4) rfl
  have hlog : (execOps 0 8 ops m).map (fun r => r.1.length) = some 8 := rfl
  have hthree : (execOps 0 8 (ops.take 4) m).map (fun r => r.2.owner 3) = some (some 0) := rfl
  rw [hexec] at hlog
  rw [hexec₁] at hthree
  exact ⟨log, m', hexec, hbal, by simpa using hlog, howner, es, m₁, hexec₁, hhistory,
    by simpa using hthree⟩

end AioServer.LinkedList
