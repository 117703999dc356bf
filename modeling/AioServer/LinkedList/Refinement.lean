import AioServer.LinkedList.Representation
import AioServer.LinkedList.Sequence

/-!
# The doubly linked list refines a sequence

`Call.onSequence` is what a call means on the sequence of items. Every call makes a
represented list into a represented list and does to it what `Call.onSequence` says
(`Represents.exec`), so a whole series of calls on a new list does
(`dlist_refines_sequence`); the ring that is left is spelled out by `WellFormed`.
-/

namespace AioServer.LinkedList

open Lib

variable {α υ ω σ : Type} {m m' : Memory α υ σ} {list a : Addr} {h : DlinkedList α υ σ}
  {cells as bs : List (Addr × α)} {c : Addr × α} {p : NodePtr} {item : α} {env : σ} {fuel : ℕ}

/-! ## The sequence of items -/

/-- A call on the sequence of items, whose comparator and user data are `cmp`, `userdata`. -/
def Call.onSequence (cmp : σ → α → α → υ → ℤ) (userdata : υ) (env : σ) (xs : List α) :
    Call α υ ω σ → Result α σ × List α
  | pushHead item (some _) => (.item (some item), item :: xs)
  | pushTail item (some _) => (.item (some item), xs ++ [item])
  | pushHead _ none | pushTail _ none => (.item none, xs)
  | popHead => (.item xs.head?, xs.tail)
  | popTail => (.item xs.getLast?, xs.dropLast)
  | find item => (.item (Sequence.find (fun x y => cmp env x y userdata) item xs), xs)
  | removeItem item =>
    let r := Sequence.removeItem (fun x y => cmp env x y userdata) item xs
    (.item r.1, r.2)
  | forEach fn walkData => (.env (xs.foldl (fun e x => fn x userdata walkData e) env), xs)
  | size => (.size xs.length, xs)

def runOnSequence (cmp : σ → α → α → υ → ℤ) (userdata : υ) :
    List (σ × Call α υ ω σ) → List α → List (Result α σ) × List α
  | [], xs => ([], xs)
  | (env, call) :: calls, xs =>
    let (r, xs) := call.onSequence cmp userdata env xs
    let (rs, xs) := runOnSequence cmp userdata calls xs
    (r :: rs, xs)

theorem Call.length_onSequence_le (cmp : σ → α → α → υ → ℤ) (userdata : υ) (env : σ)
    (xs : List α) (call : Call α υ ω σ) :
    (call.onSequence cmp userdata env xs).2.length ≤ xs.length + 1 := by
  cases call with
  | pushHead _ alloc | pushTail _ alloc => cases alloc <;> simp [onSequence]
  | popHead | popTail => simp only [onSequence, List.length_tail, List.length_dropLast]; omega
  | find | forEach | size => simp [onSequence]
  | removeItem item => exact Nat.le_succ_of_le (Sequence.length_removeItem_le _ item xs)

/-! ## The loops -/

/-- What a round of a loop reads at an element. -/
theorem Represents.round (hr : Represents m list h cells) (hc : c ∈ cells) :
    cellPtr c ≠ h.dlSentinel ∧ m.getData (cellPtr c) = some (some c.2) ∧
      m.getLink (cellPtr c) .right = some (m.link .right (cellPtr c)) :=
  ⟨by simp [hr.sentinel], Memory.getData_eq (hr.data c hc), Memory.getLink_eq (hr.live_cell hc)⟩

section loops

variable {n : ℕ}

/-- From the node behind `p` on, the search sees `bs`. -/
theorem Represents.findLoop (hr : Represents m list h cells) (hsub : bs ⊆ cells)
    (hseg : Seg (m.link .right) (m.link .left) p (bs.map cellPtr ++ [.storage list])
      (.storage list)) (hfuel : bs.length < fuel) :
    m.findLoop { h with dlItems := n } env item fuel (m.link .right p) = some
      (Sequence.find (fun x y => h.dlComparator env x y h.dlUserdata) item (bs.map Prod.snd)) := by
  induction bs generalizing p fuel with
  | nil =>
    -- the node behind `p` is the sentinel
    obtain ⟨fuel, rfl⟩ := Nat.exists_eq_succ_of_ne_zero (Nat.ne_zero_of_lt hfuel)
    rw [hseg.1, Memory.findLoop, if_pos hr.sentinel.symm]
    rfl
  | cons c bs ih =>
    obtain ⟨fuel, rfl⟩ := Nat.exists_eq_succ_of_ne_zero (Nat.ne_zero_of_lt hfuel)
    obtain ⟨hne, hdata, hlink⟩ := hr.round (hsub List.mem_cons_self)
    obtain ⟨hfirst, -, hrest⟩ := hseg
    rw [hfirst, Memory.findLoop, if_neg hne, hdata, hlink]
    simp only [Option.bind_eq_bind, Option.bind_some, List.map_cons, Sequence.find]
    split
    · rfl
    · exact ih (List.subset_of_cons_subset hsub) hrest (Nat.lt_of_succ_lt_succ hfuel)

/-- The search of `dlist_remove_item` has passed `as` and goes on through `bs`. -/
theorem Represents.removeLoop (hr : Represents m list h (as ++ bs))
    (hseg : Seg (m.link .right) (m.link .left) p (bs.map cellPtr ++ [.storage list])
      (.storage list)) (hfuel : bs.length < fuel) :
    let found := Sequence.removeItem (fun x y => h.dlComparator env x y h.dlUserdata) item
      (bs.map Prod.snd)
    ∃ m' bs', m.removeLoop { h with dlItems := n } env list item fuel (m.link .right p)
        = some (found.1, m') ∧
      Represents m' list h (as ++ bs') ∧ bs'.map Prod.snd = found.2 := by
  induction bs generalizing as p fuel with
  | nil =>
    obtain ⟨fuel, rfl⟩ := Nat.exists_eq_succ_of_ne_zero (Nat.ne_zero_of_lt hfuel)
    refine ⟨m, [], ?_, hr, rfl⟩
    rw [hseg.1, Memory.removeLoop, if_pos hr.sentinel.symm]
    rfl
  | cons c bs ih =>
    obtain ⟨fuel, rfl⟩ := Nat.exists_eq_succ_of_ne_zero (Nat.ne_zero_of_lt hfuel)
    obtain ⟨hne, hdata, hlink⟩ := hr.round (show c ∈ as ++ c :: bs by simp)
    obtain ⟨hfirst, -, hrest⟩ := hseg
    rw [hfirst, Memory.removeLoop, if_neg hne, hdata, hlink]
    simp only [Option.bind_eq_bind, Option.bind_some, List.map_cons, Sequence.removeItem]
    by_cases hcmp : h.dlComparator env c.2 item h.dlUserdata = 0
    · obtain ⟨m', hm', hr'⟩ := hr.removeNode
      simp only [if_pos hcmp]
      exact ⟨m', bs, hm', hr', rfl⟩
    · -- `c` joins the elements that were passed
      have hr' : Represents m list h ((as ++ [c]) ++ bs) := by simpa using hr
      obtain ⟨m', bs', hm', hr', hbs'⟩ := ih hr' hrest (Nat.lt_of_succ_lt_succ hfuel)
      simp only [if_neg hcmp]
      exact ⟨m', c :: bs', hm', by simpa using hr', by rw [List.map_cons, hbs']⟩

/-- The callback is called with the items of `bs`, one after the other. -/
theorem Represents.forEachLoop (hr : Represents m list h cells) (hsub : bs ⊆ cells)
    (hseg : Seg (m.link .right) (m.link .left) p (bs.map cellPtr ++ [.storage list])
      (.storage list)) (hfuel : bs.length < fuel) (fn : α → υ → ω → σ → σ) (walkData : ω) :
    m.forEachLoop { h with dlItems := n } fn walkData fuel (m.link .right p) env = some
      ((bs.map Prod.snd).foldl (fun e x => fn x h.dlUserdata walkData e) env) := by
  induction bs generalizing p fuel env with
  | nil =>
    obtain ⟨fuel, rfl⟩ := Nat.exists_eq_succ_of_ne_zero (Nat.ne_zero_of_lt hfuel)
    rw [hseg.1, Memory.forEachLoop, if_pos hr.sentinel.symm]
    rfl
  | cons c bs ih =>
    obtain ⟨fuel, rfl⟩ := Nat.exists_eq_succ_of_ne_zero (Nat.ne_zero_of_lt hfuel)
    obtain ⟨hne, hdata, hlink⟩ := hr.round (hsub List.mem_cons_self)
    obtain ⟨hfirst, -, hrest⟩ := hseg
    rw [hfirst, Memory.forEachLoop, if_neg hne, hdata, hlink]
    simp only [Option.bind_eq_bind, Option.bind_some, List.map_cons, List.foldl_cons]
    exact ih (List.subset_of_cons_subset hsub) hrest (Nat.lt_of_succ_lt_succ hfuel)

end loops

/-! ## The calls -/

theorem Represents.exec (hr : Represents m list h cells) (call : Call α υ ω σ) (env : σ)
    (hfresh : call.Fresh m) (hfuel : cells.length < fuel) :
    let r := call.onSequence h.dlComparator h.dlUserdata env (cells.map Prod.snd)
    ∃ m' cells', call.exec fuel list env m = some (r.1, m') ∧
      Represents m' list h cells' ∧ cells'.map Prod.snd = r.2 := by
  have hclosed : Seg (m.link .right) (m.link .left) (.storage list)
      (cells.map cellPtr ++ [.storage list]) (.storage list) := hr.ring.closed
  cases call with
  | pushHead item alloc =>
    cases alloc with
    | none =>
      refine ⟨m, cells, ?_, hr, rfl⟩
      rw [Call.exec, Memory.dlistPushHead, hr.push_none]
      rfl
    | some a =>
      obtain ⟨m', hm', hr'⟩ := hr.push hfresh item .right
      refine ⟨m', _, ?_, hr', rfl⟩
      rw [Call.exec, Memory.dlistPushHead, hm']
      rfl
  | pushTail item alloc =>
    cases alloc with
    | none =>
      refine ⟨m, cells, ?_, hr, rfl⟩
      rw [Call.exec, Memory.dlistPushTail, hr.push_none]
      rfl
    | some a =>
      obtain ⟨m', hm', hr'⟩ := hr.push hfresh item .left
      refine ⟨m', _, ?_, hr', by simp [pushCell, Call.onSequence]⟩
      rw [Call.exec, Memory.dlistPushTail, hm']
      rfl
  | popHead =>
    obtain ⟨m', cells', hm', hr', hcells'⟩ := hr.pop .right
    refine ⟨m', cells', ?_, hr', ?_⟩
    · rw [Call.exec, Memory.dlistPopHead, hm']
      simp [Call.onSequence, orient]
    · rw [show cells' = cells.tail from hcells', List.map_tail]
      rfl
  | popTail =>
    obtain ⟨m', cells', hm', hr', hcells'⟩ := hr.pop .left
    refine ⟨m', cells', ?_, hr', ?_⟩
    · rw [Call.exec, Memory.dlistPopTail, hm']
      simp [Call.onSequence, orient]
    · have hrev : cells' = cells.dropLast := by simpa [orient] using hcells'
      rw [hrev, List.map_dropLast]
      rfl
  | find item =>
    refine ⟨m, cells, ?_, hr, rfl⟩
    simp only [Call.exec, Memory.dlistFind, Option.bind_eq_bind, hr.enter]
    rw [hr.findLoop (List.Subset.refl _) hclosed hfuel]
    rfl
  | removeItem item =>
    have hr' : Represents m list h ([] ++ cells) := hr
    obtain ⟨m', cells', hm', hr', hcells'⟩ := hr'.removeLoop hclosed hfuel
    refine ⟨m', cells', ?_, hr', hcells'⟩
    simp only [Call.exec, Memory.dlistRemoveItem, Option.bind_eq_bind, hr.enter]
    rw [hm']
    rfl
  | forEach fn walkData =>
    refine ⟨m, cells, ?_, hr, rfl⟩
    simp only [Call.exec, Memory.dlistForEach, Option.bind_eq_bind, hr.enter]
    rw [hr.forEachLoop (List.Subset.refl _) hclosed hfuel]
    rfl
  | size =>
    refine ⟨m, cells, ?_, hr, rfl⟩
    simp [Call.exec, Memory.dlistSize, hr.header, Call.onSequence]

theorem Represents.execAll (hr : Represents m list h cells) (calls : List (σ × Call α υ ω σ))
    (hfresh : Fresh fuel list calls m) (hfuel : cells.length + calls.length ≤ fuel) :
    let r := runOnSequence h.dlComparator h.dlUserdata calls (cells.map Prod.snd)
    ∃ m' cells', LinkedList.execAll fuel list calls m = some (r.1, m') ∧
      Represents m' list h cells' ∧ cells'.map Prod.snd = r.2 := by
  induction calls generalizing m cells with
  | nil => exact ⟨m, cells, rfl, hr, rfl⟩
  | cons ec calls ih =>
    obtain ⟨env, call⟩ := ec
    rw [List.length_cons] at hfuel
    -- a call adds one element at most, so the rounds suffice for the rest
    have hround : cells.length < fuel := by omega
    obtain ⟨m', cells', hm', hr', hcells'⟩ := hr.exec call env hfresh.1 hround
    have hlen := call.length_onSequence_le h.dlComparator h.dlUserdata env (cells.map Prod.snd)
    rw [← hcells', List.length_map, List.length_map] at hlen
    obtain ⟨m'', cells'', hm'', hr'', hcells''⟩ := ih hr' (hfresh.2 _ hm') (by omega)
    rw [hcells'] at hm'' hcells''
    refine ⟨m'', cells'', ?_, hr'', hcells''⟩
    simp only [LinkedList.execAll, hm', hm'', Option.bind_eq_bind, Option.bind_some]
    rfl

/-! ## The ring -/

/-- The `d` links lead from `p` through `ns` to `q`. -/
def Memory.Visits (m : Memory α υ σ) (d : LinkDirection) :
    NodePtr → List NodePtr → NodePtr → Prop
  | p, [], q => m.getLink p d = some q
  | p, n :: ns, q => m.getLink p d = some n ∧ Visits m d n ns q

/-- The ring of a list, as its links show it. -/
structure WellFormed (m : Memory α υ σ) (list : Addr) (ns : List NodePtr) : Prop where
  sentinel : (m.lists list).map (·.dlSentinel) = some (.storage list)
  items : m.dlistSize list = some ns.length
  distinct : (.storage list :: ns).Nodup
  right : m.Visits .right (.storage list) ns (.storage list)
  left : m.Visits .left (.storage list) ns.reverse (.storage list)
  neighbours : ∀ p ∈ NodePtr.storage list :: ns, ∀ d,
    ∃ q, m.getLink p d = some q ∧ m.getLink q d.not = some p

theorem visits_of_seg {d : LinkDirection} {s : NodePtr} {ns : List NodePtr}
    (hseg : Seg (m.link d) (m.link d.not) p (ns ++ [s]) s)
    (hlive : ∀ r ∈ p :: ns, (m.nodes r).isSome) : m.Visits d p ns s := by
  induction ns generalizing p with
  | nil =>
    have hp : m.link d p = s := hseg.1
    rw [Memory.Visits, Memory.getLink_eq (hlive p List.mem_cons_self), hp]
  | cons x ns ih =>
    obtain ⟨hp, -, hrest⟩ := hseg
    rw [Memory.Visits, Memory.getLink_eq (hlive p List.mem_cons_self), hp]
    exact ⟨rfl, ih hrest fun r hr => hlive r (List.mem_cons_of_mem p hr)⟩

theorem Represents.wellFormed (hr : Represents m list h cells) :
    WellFormed m list (cells.map cellPtr) := by
  have hlive : ∀ r ∈ NodePtr.storage list :: cells.map cellPtr, (m.nodes r).isSome :=
    fun r hmem => hr.live hmem
  have hleft : m.RingAt list .left (cells.map cellPtr).reverse := Ring.reverse hr.ring
  refine ⟨?_, ?_, hr.ring.nodup, visits_of_seg hr.ring.closed hlive,
    visits_of_seg hleft.closed (by simpa using hlive), ?_⟩
  · rw [hr.header]
    exact congrArg some hr.sentinel
  · simp [Memory.dlistSize, hr.header]
  · intro p hp d
    obtain ⟨hmem, hback⟩ := hr.step d hp
    refine ⟨m.link d p, Memory.getLink_eq (hlive p hp), ?_⟩
    rw [Memory.getLink_eq (hlive _ hmem), hback]

theorem represents_dlistCreate {m₀ : Memory α υ σ} {allocatorHandle : Allocator}
    {cmp : σ → α → α → υ → ℤ} {al : Option Allocator} {userdata : υ} {alloc : Option Addr}
    (hcreate : m₀.dlistCreate allocatorHandle cmp al userdata alloc = some (some list, m)) :
    Represents m list
      { dlComparator := cmp, dlAllocator := al.getD allocatorHandle, dlSentinel := .storage list,
        dlItems := 0, dlUserdata := userdata } [] := by
  unfold Memory.dlistCreate at hcreate
  split at hcreate
  · cases hcreate
  · split at hcreate
    · cases hcreate
    · cases hcreate
      refine ⟨?_, rfl, ?_, ?_, by simp, by simp, Ring.empty ?_ ?_⟩
      · simp [Memory.allocList]
      · simp [Memory.allocList]
      · simp [Memory.allocList]
      · simp [Memory.link, Memory.getLink, Memory.allocList]
      · simp [Memory.link, Memory.getLink, Memory.allocList]

/-- A new list under any series of calls: no call gets stuck, the results and the items are
those of the sequence, the ring is well formed, and a push whose allocation fails returns
NULL and changes nothing. -/
theorem dlist_refines_sequence {m₀ : Memory α υ σ} {allocatorHandle : Allocator}
    {cmp : σ → α → α → υ → ℤ} {al : Option Allocator} {userdata : υ} {alloc : Option Addr}
    (hcreate : m₀.dlistCreate allocatorHandle cmp al userdata alloc = some (some list, m))
    (calls : List (σ × Call α υ ω σ)) (hfresh : Fresh fuel list calls m)
    (hfuel : calls.length ≤ fuel) :
    let r := runOnSequence cmp userdata calls []
    ∃ m' ns, execAll fuel list calls m = some (r.1, m') ∧ WellFormed m' list ns ∧
      ns.map m'.getData = r.2.map (fun x => some (some x)) ∧
      ∀ item, m'.dlistPushHead list item none = some (none, m') ∧
        m'.dlistPushTail list item none = some (none, m') := by
  have hr := represents_dlistCreate hcreate
  obtain ⟨m', cells, hm', hr', hcells⟩ := hr.execAll calls hfresh (by simpa using hfuel)
  refine ⟨m', cells.map cellPtr, hm', hr'.wellFormed, ?_,
    fun item => ⟨hr'.push_none item .right, hr'.push_none item .left⟩⟩
  change cells.map Prod.snd = (runOnSequence cmp userdata calls []).2 at hcells
  rw [← hcells, List.map_map, List.map_map]
  exact List.map_congr_left fun c hc => Memory.getData_eq (hr'.data c hc)

theorem dlist_refines_sequence_remove :
    let m₀ : Memory ℕ Unit Unit := ⟨fun _ => none, fun _ => none, fun _ => none⟩
    let cmp : Unit → ℕ → ℕ → Unit → ℤ := fun _ x y _ => x - y
    let calls : List (Unit × Call ℕ Unit Unit Unit) :=
      [((), .pushHead 5 (some 1)), ((), .pushTail 6 none), ((), .removeItem 5), ((), .popTail)]
    ∃ m m' ns, m₀.dlistCreate 0 cmp none () (some 0) = some (some 0, m) ∧
      execAll 4 0 calls m = some
        ([.item (some 5), .item none, .item (some 5), .item none], m') ∧ WellFormed m' 0 ns := by
  intro m₀ cmp calls
  obtain ⟨m, hcreate, hfresh⟩ : ∃ m, m₀.dlistCreate 0 cmp none () (some 0) = some (some 0, m) ∧
      Fresh 4 0 calls m := by
    refine ⟨_, rfl, rfl, ?_⟩
    rintro r ⟨rfl⟩
    refine ⟨trivial, ?_⟩
    rintro r ⟨rfl⟩
    refine ⟨trivial, ?_⟩
    rintro r ⟨rfl⟩
    refine ⟨trivial, ?_⟩
    rintro r ⟨rfl⟩
    trivial
  obtain ⟨m', ns, hm', hwf, -⟩ := dlist_refines_sequence hcreate calls hfresh (by decide)
  exact ⟨m, m', ns, hcreate, hm', hwf⟩

end AioServer.LinkedList
