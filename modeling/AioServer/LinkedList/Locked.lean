import AioServer.Lib.Prog
import AioServer.LinkedList.Refinement

/-!
# The doubly linked list under a lock

The server calls its list `sv_clients` under `sv_list_lock`. A function of the list reads and
writes one member after the other, and another thread may run in between. Here the functions of
`base/linked_list.c` are given access by access.

* `Access`, `machine`: the accesses, and the loops of the three functions that search or walk;
* `Call.code`: a call of the interface;
* `Represents.performs`: without interruption a call does to the sequence of items what
  `Call.onSequence` says;
* `dlist_linearized`: so it does for any number of threads that are interleaved at each access.
-/

namespace AioServer.LinkedList

open Lib

variable {α υ ω σ : Type}

/-! ## The code -/

/-- An access to the memory of the lists. `bugstop` is a `BUGSTOP_IF` that fires. -/
inductive Access (α υ σ : Type)
  | header (list : Addr)
  | setItems (list : Addr) (n : ℕ)
  | getLink (p : NodePtr) (d : LinkDirection)
  | setLink (p : NodePtr) (d : LinkDirection) (q : NodePtr)
  | getData (p : NodePtr)
  /-- An item that is handed to a function, which may not be NULL. -/
  | getItem (p : NodePtr)
  | alMemAlloc (al : Allocator) (a : Addr) (n : ListNode α)
  | alMemRelease (al : Allocator) (a : Addr)
  | bugstop

/-- What an access returns. -/
abbrev Access.Value : Access α υ σ → Type
  | .header _ => DlinkedList α υ σ
  | .getLink _ _ => NodePtr
  | .getData _ => Option α
  | .getItem _ => α
  | .bugstop => Empty
  | _ => Unit

/-- One access; `none` is undefined behaviour. -/
def Access.exec : (i : Access α υ σ) → Memory α υ σ → Option (i.Value × Memory α υ σ)
  | .header list, m => (m.lists list).map fun h => (h, m)
  | .setItems list n, m => some ((), m.setItems list n)
  | .getLink p d, m => (m.getLink p d).map fun q => (q, m)
  | .setLink p d q, m => (m.setLink p d q).map fun m' => ((), m')
  | .getData p, m => (m.getData p).map fun x => (x, m)
  | .getItem p, m => (m.getData p).bind fun x => x.map fun x => (x, m)
  | .alMemAlloc al a n, m => if (m.owner a).isSome then none else some ((), m.allocNode al a n)
  | .alMemRelease al a, m => (m.alMemRelease al a).map fun m' => ((), m')
  | .bugstop, _ => none

/-- The loops, at the head of a round: `curr` is `curr_node`. -/
inductive Loop (α υ ω σ : Type)
  | find (env : σ) (item : α) (curr : NodePtr)
  | removeItem (env : σ) (item : α) (curr : NodePtr)
  | forEach (fn : α → υ → ω → σ → σ) (walkData : ω) (env : σ) (curr : NodePtr)

/-- Code of the list: what is left of a call. -/
abbrev Code (α υ ω σ : Type) : Type :=
  Prog (Access α υ σ) Access.Value (Loop α υ ω σ) (Result α σ)

namespace Code

/-- `dlinked_list_internal_insert_node` -/
def insertNode (list : Addr) (item : α) (refnode : NodePtr) (dir : LinkDirection)
    (alloc : Option Addr) : Code α υ ω σ :=
  .op (.header list) fun h =>
  match alloc with
  | none => .ret (.item none)
  | some a =>
    .op (.getLink refnode dir) fun next =>
    -- nobody sees the new node before it is linked in
    .op (.alMemAlloc h.dlAllocator a
      { nData := some item
        nLink := fun d => if d = dir.not then refnode else next }) fun _ =>
    .op (.getLink refnode dir) fun next =>
    .op (.setLink next dir.not (.block a)) fun _ =>
    .op (.setLink refnode dir (.block a)) fun _ =>
    .op (.header list) fun h =>
    .op (.setItems list (h.dlItems + 1)) fun _ =>
    .op (.getData (.block a)) fun item =>
    .ret (.item item)

/-- `dlinked_list_internal_remove_node` -/
def removeNode (list : Addr) (node : NodePtr) : Code α υ ω σ :=
  .op (.header list) fun h =>
  if node = h.dlSentinel then .op .bugstop Empty.elim
  else if h.dlItems = 0 then .op .bugstop Empty.elim
  else
    .op (.getLink node .right) fun right =>
    .op (.getLink node .left) fun left =>
    .op (.setLink right .left left) fun _ =>
    .op (.getLink node .left) fun left =>
    .op (.getLink node .right) fun right =>
    .op (.setLink left .right right) fun _ =>
    .op (.getData node) fun nodeData =>
    .op (.header list) fun h =>
    .op (.alMemRelease h.dlAllocator node.addr) fun _ =>
    .op (.header list) fun h =>
    .op (.setItems list (h.dlItems - 1)) fun _ =>
    .ret (.item nodeData)

/-- `dlist_push_head` and `dlist_push_tail` -/
def push (side : LinkDirection) (list : Addr) (item : α) (alloc : Option Addr) : Code α υ ω σ :=
  .op (.header list) fun h =>
  .op (.getLink h.dlSentinel side) fun refnode =>
  insertNode list item refnode side.not alloc

/-- `dlist_pop_head` and `dlist_pop_tail` -/
def pop (side : LinkDirection) (list : Addr) : Code α υ ω σ :=
  .op (.header list) fun h =>
  .op (.getLink h.dlSentinel side) fun node =>
  if node ≠ h.dlSentinel then
    .op (.header list) fun h =>
    .op (.getLink h.dlSentinel side) fun node =>
    removeNode list node
  else
    .op (.header list) fun h =>
    if h.dlItems ≠ 0 then .op .bugstop Empty.elim else .ret (.item none)

/-- How a search and a walk begin. -/
def first (list : Addr) (loop : NodePtr → Loop α υ ω σ) : Code α υ ω σ :=
  .op (.header list) fun h =>
  .op (.getLink h.dlSentinel .right) fun curr =>
  .goto (loop curr)

/-- One round of a loop. -/
def round (list : Addr) : Loop α υ ω σ → Code α υ ω σ
  | .find env item curr =>
    .op (.header list) fun h =>
    if curr = h.dlSentinel then .ret (.item none)
    else
      .op (.getItem curr) fun x =>
      if h.dlComparator env x item h.dlUserdata = 0 then
        .op (.getData curr) fun x => .ret (.item x)
      else .op (.getLink curr .right) fun next => .goto (.find env item next)
  | .removeItem env item curr =>
    .op (.header list) fun h =>
    if curr = h.dlSentinel then .ret (.item none)
    else
      .op (.getItem curr) fun x =>
      if h.dlComparator env x item h.dlUserdata = 0 then removeNode list curr
      else .op (.getLink curr .right) fun next => .goto (.removeItem env item next)
  | .forEach fn walkData env curr =>
    .op (.header list) fun h =>
    if curr = h.dlSentinel then .ret (.env env)
    else
      .op (.getItem curr) fun x =>
      .op (.getLink curr .right) fun next =>
      .goto (.forEach fn walkData (fn x h.dlUserdata walkData env) next)

end Code

/-- A call; `env` is what the comparator sees of the other memory. A search shows it each item
once, so it may stand for what is found at each comparison. -/
def Call.code (list : Addr) (env : σ) : Call α υ ω σ → Code α υ ω σ
  | pushHead item alloc => .push .right list item alloc
  | pushTail item alloc => .push .left list item alloc
  | popHead => .pop .right list
  | popTail => .pop .left list
  | find item => .first list (.find env item)
  | removeItem item => .first list (.removeItem env item)
  | forEach fn walkData => .first list (.forEach fn walkData env)
  | size => .op (.header list) fun h => .ret (.size h.dlItems)

/-- The accesses, and the loops on a list. -/
def machine (list : Addr) :
    Machine (Memory α υ σ) (Access α υ σ) Access.Value (Loop α υ ω σ) (Result α σ) where
  exec := Access.exec
  code := Code.round list

/-- What runs under the lock of a list. -/
abbrev listRoutine (list : Addr) :
    Routine (Memory α υ σ) (Code α υ ω σ) (σ × Call α υ ω σ) (Option (Result α σ)) :=
  Prog.routine (machine list) fun c => c.2.code list c.1

/-! ## One call -/

section call

variable {m m' : Memory α υ σ} {list : Addr} {h : DlinkedList α υ σ} {cells as bs : List (Addr × α)}
  {p node refnode : NodePtr} {dir : LinkDirection} {item : α} {env : σ} {out : Option α}
  {alloc : Option Addr}

theorem lists_setLink {q : NodePtr} {d : LinkDirection} (hset : m.setLink p d q = some m') :
    m'.lists = m.lists := by
  unfold Memory.setLink at hset
  split_ifs at hset
  obtain rfl := Option.some.inj hset
  exact Memory.lists_writeLink

/-- The accesses amount to the function. -/
theorem eval_insertNode (hins : m.insertNode list item refnode dir alloc = some (out, m')) :
    (Code.insertNode list item refnode dir alloc : Code α υ ω σ).eval (machine list) m
      = some (.item out, m') := by
  unfold Memory.insertNode at hins
  obtain ⟨h, hl, hins⟩ := Option.bind_eq_some_iff.mp hins
  cases alloc with
  | none =>
    obtain ⟨rfl, rfl⟩ := Prod.mk.inj (Option.some.inj hins)
    simp [Code.insertNode, Prog.eval, machine, Access.exec, hl]
  | some a =>
    dsimp only at hins
    split_ifs at hins with howner
    simp only [Option.bind_eq_bind, Option.bind_eq_some_iff] at hins
    obtain ⟨next, hnext, next', hnext', m₁, hm₁, m₂, hm₂, item', hitem, hout⟩ := hins
    obtain ⟨rfl, rfl⟩ := Prod.mk.inj (Option.some.inj hout)
    have hl' : m₂.lists list = some h := by
      rw [lists_setLink hm₂, lists_setLink hm₁]
      exact hl
    simp [Code.insertNode, Prog.eval, machine, Access.exec, hl, hnext, howner, hnext', hm₁, hm₂,
      hl', hitem]

theorem eval_removeNode (hapart : node.addr ≠ list)
    (hrem : m.removeNode list node = some (out, m')) :
    (Code.removeNode list node : Code α υ ω σ).eval (machine list) m = some (.item out, m') := by
  unfold Memory.removeNode at hrem
  obtain ⟨h, hl, hrem⟩ := Option.bind_eq_some_iff.mp hrem
  split_ifs at hrem with hs hitems
  simp only [Option.bind_eq_bind, Option.bind_eq_some_iff] at hrem
  obtain ⟨right, hright, left, hleft, m₁, hm₁, left', hleft', right', hright', m₂, hm₂,
    nodeData, hdata, m₃, hm₃, hout⟩ := hrem
  obtain ⟨rfl, rfl⟩ := Prod.mk.inj (Option.some.inj hout)
  have hl₂ : m₂.lists list = some h := by
    rw [lists_setLink hm₂, lists_setLink hm₁]
    exact hl
  -- the header is in another block
  have hl₃ : m₃.lists list = some h := by
    unfold Memory.alMemRelease at hm₃
    split_ifs at hm₃
    obtain rfl := Option.some.inj hm₃
    exact (Function.update_of_ne (Ne.symm hapart) _ _).trans hl₂
  simp [Code.removeNode, Prog.eval, machine, Access.exec, hl, hs, hitems, hright, hleft, hm₁,
    hleft', hright', hm₂, hdata, hl₂, hm₃, hl₃]

theorem eval_push {side : LinkDirection} (hpush : m.push side list item alloc = some (out, m')) :
    (Code.push side list item alloc : Code α υ ω σ).eval (machine list) m
      = some (.item out, m') := by
  obtain ⟨h, hl, hpush⟩ := Option.bind_eq_some_iff.mp hpush
  obtain ⟨refnode, href, hins⟩ := Option.bind_eq_some_iff.mp hpush
  simp only [Code.push, Prog.eval, machine, Access.exec, hl, href, Option.map_some,
    Option.bind_some]
  exact eval_insertNode hins

theorem Represents.eval_pop {side : LinkDirection} (hr : Represents m list h cells)
    (hpop : m.pop side list = some (out, m')) :
    (Code.pop side list : Code α υ ω σ).eval (machine list) m = some (.item out, m') := by
  obtain ⟨h', hl, hpop⟩ := Option.bind_eq_some_iff.mp hpop
  obtain ⟨node, hnode, hpop⟩ := Option.bind_eq_some_iff.mp hpop
  have hsentinel : h'.dlSentinel = .storage list := by
    obtain rfl := Option.some.inj (hr.header.symm.trans hl)
    exact hr.sentinel
  split_ifs at hpop with hne hitems
  · -- the node is an element, so not in the block of the header
    have hapart : node.addr ≠ list := by
      rw [hsentinel] at hnode hne
      obtain rfl : m.link side (.storage list) = node :=
        Option.some.inj ((Memory.getLink_eq hr.storage).symm.trans hnode)
      rcases List.mem_cons.mp (hr.step side List.mem_cons_self).1 with heq | hmem
      · exact absurd heq hne
      · obtain ⟨c, hc, hcell⟩ := List.mem_map.mp hmem
        rw [← hcell]
        exact fun heq => hr.apart (List.mem_map.mpr ⟨c, hc, heq⟩)
    simp only [Code.pop, Prog.eval, machine, Access.exec, hl, hnode, Option.map_some,
      Option.bind_some, if_pos hne]
    exact eval_removeNode hapart hpop
  · obtain ⟨rfl, rfl⟩ := Prod.mk.inj (Option.some.inj hpop)
    rw [not_ne_iff] at hne hitems
    simp [Code.pop, Prog.eval, machine, Access.exec, hl, hnode, hne, hitems]

theorem Represents.exec_header (hr : Represents m list h cells) :
    (machine list : Machine _ _ _ (Loop α υ ω σ) _).exec (.header list) m
      = some ({ h with dlItems := cells.length }, m) := by
  simp [machine, Access.exec, hr.header]

theorem exec_getLink {d : LinkDirection} (hp : (m.nodes p).isSome) :
    (machine list : Machine _ _ _ (Loop α υ ω σ) _).exec (.getLink p d) m
      = some (m.link d p, m) := by
  simp [machine, Access.exec, Memory.getLink_eq hp]

theorem exec_getItem (hp : m.data p = some item) :
    (machine list : Machine _ _ _ (Loop α υ ω σ) _).exec (.getItem p) m = some (item, m) := by
  simp [machine, Access.exec, Memory.getData_eq hp]

theorem exec_getData (hp : m.data p = some item) :
    (machine list : Machine _ _ _ (Loop α υ ω σ) _).exec (.getData p) m
      = some (some item, m) := by
  simp [machine, Access.exec, Memory.getData_eq hp]

section loops

variable {loop : Loop α υ ω σ} {stop : Code α υ ω σ} {more : DlinkedList α υ σ → α → Code α υ ω σ}
  {curr : NodePtr} {y : Code α υ ω σ × Memory α υ σ}

/-- The last round, at the sentinel. -/
theorem Represents.reaches_sentinel (hr : Represents m list h cells)
    (hround : Code.round list loop = .op (.header list) fun h =>
      if NodePtr.storage list = h.dlSentinel then stop else .op (.getItem (.storage list)) (more h))
    (hrest : Prog.Reaches (machine list) (stop, m) y) :
    Prog.Reaches (machine list) (.goto loop, m) y := by
  refine Prog.reaches_goto ?_
  show Prog.Reaches (machine list) (Code.round list loop, m) y
  rw [hround]
  refine Prog.reaches_op hr.exec_header ?_
  rw [if_pos hr.sentinel.symm]
  exact hrest

/-- A round at an element. -/
theorem Represents.reaches_element {c : Addr × α} (hr : Represents m list h cells)
    (hc : c ∈ cells)
    (hround : Code.round list loop = .op (.header list) fun h =>
      if cellPtr c = h.dlSentinel then stop else .op (.getItem (cellPtr c)) (more h))
    (hrest : Prog.Reaches (machine list) (more { h with dlItems := cells.length } c.2, m) y) :
    Prog.Reaches (machine list) (.goto loop, m) y := by
  have hne : cellPtr c ≠ h.dlSentinel := by simp [hr.sentinel]
  refine Prog.reaches_goto ?_
  show Prog.Reaches (machine list) (Code.round list loop, m) y
  rw [hround]
  refine Prog.reaches_op hr.exec_header ?_
  rw [if_neg hne]
  exact Prog.reaches_op (exec_getItem (hr.data c hc)) hrest

/-- From the node behind `p` on, the search sees `bs`. -/
theorem Represents.reaches_find (hr : Represents m list h cells) (hsub : bs ⊆ cells)
    (hseg : Seg (m.link .right) (m.link .left) p (bs.map cellPtr ++ [.storage list])
      (.storage list)) :
    Prog.Reaches (machine list)
      ((.goto (.find env item (m.link .right p)) : Code α υ ω σ), m)
      (.ret (.item (Sequence.find (fun x y => h.dlComparator env x y h.dlUserdata) item
        (bs.map Prod.snd))), m) := by
  induction bs generalizing p with
  | nil =>
    rw [hseg.1]
    exact hr.reaches_sentinel rfl .refl
  | cons c bs ih =>
    have hc : c ∈ cells := hsub List.mem_cons_self
    obtain ⟨hfirst, -, hrest⟩ := hseg
    rw [hfirst]
    refine hr.reaches_element hc rfl ?_
    rw [List.map_cons, Sequence.find]
    split_ifs with hcmp
    · exact Prog.reaches_op (exec_getData (hr.data c hc)) .refl
    · exact Prog.reaches_op (exec_getLink (hr.live_cell hc))
        (ih (List.subset_of_cons_subset hsub) hrest)

/-- The search of `dlist_remove_item` has passed `as` and goes on through `bs`. -/
theorem Represents.reaches_removeItem (hr : Represents m list h (as ++ bs))
    (hseg : Seg (m.link .right) (m.link .left) p (bs.map cellPtr ++ [.storage list])
      (.storage list)) :
    let found := Sequence.removeItem (fun x y => h.dlComparator env x y h.dlUserdata) item
      (bs.map Prod.snd)
    ∃ m' bs', Prog.Reaches (machine list)
        ((.goto (.removeItem env item (m.link .right p)) : Code α υ ω σ), m)
        (.ret (.item found.1), m') ∧
      Represents m' list h (as ++ bs') ∧ bs'.map Prod.snd = found.2 := by
  induction bs generalizing as p with
  | nil =>
    refine ⟨m, [], ?_, hr, rfl⟩
    rw [hseg.1]
    exact hr.reaches_sentinel rfl .refl
  | cons c bs ih =>
    have hc : c ∈ as ++ c :: bs := by simp
    obtain ⟨hfirst, -, hrest⟩ := hseg
    rw [hfirst]
    simp only [List.map_cons, Sequence.removeItem]
    by_cases hcmp : h.dlComparator env c.2 item h.dlUserdata = 0
    · obtain ⟨m', hm', hr'⟩ := hr.removeNode
      have hapart : (cellPtr c).addr ≠ list := fun heq =>
        hr.apart (List.mem_map.mpr ⟨c, hc, heq⟩)
      simp only [if_pos hcmp]
      refine ⟨m', bs, hr.reaches_element hc rfl ?_, hr', rfl⟩
      rw [if_pos hcmp]
      exact Prog.reaches_of_eval (eval_removeNode hapart hm')
    · -- `c` joins the elements that were passed
      have hr' : Represents m list h ((as ++ [c]) ++ bs) := by simpa using hr
      obtain ⟨m', bs', hm', hr', hbs'⟩ := ih hr' hrest
      simp only [if_neg hcmp]
      refine ⟨m', c :: bs', hr.reaches_element hc rfl ?_, by simpa using hr',
        by rw [List.map_cons, hbs']⟩
      rw [if_neg hcmp]
      exact Prog.reaches_op (exec_getLink (hr.live_cell hc)) hm'

/-- The callback is called with the items of `bs`, one after the other. -/
theorem Represents.reaches_forEach (hr : Represents m list h cells) (hsub : bs ⊆ cells)
    (hseg : Seg (m.link .right) (m.link .left) p (bs.map cellPtr ++ [.storage list])
      (.storage list)) (fn : α → υ → ω → σ → σ) (walkData : ω) :
    Prog.Reaches (machine list)
      ((.goto (.forEach fn walkData env (m.link .right p)) : Code α υ ω σ), m)
      (.ret (.env ((bs.map Prod.snd).foldl (fun e x => fn x h.dlUserdata walkData e) env)), m) := by
  induction bs generalizing p env with
  | nil =>
    rw [hseg.1]
    exact hr.reaches_sentinel rfl .refl
  | cons c bs ih =>
    have hc : c ∈ cells := hsub List.mem_cons_self
    obtain ⟨hfirst, -, hrest⟩ := hseg
    rw [hfirst]
    refine hr.reaches_element hc rfl ?_
    exact Prog.reaches_op (exec_getLink (hr.live_cell hc))
      (ih (List.subset_of_cons_subset hsub) hrest)

end loops

/-- How a search and a walk begin. -/
theorem Represents.reaches_first {loop : NodePtr → Loop α υ ω σ} {y : Code α υ ω σ × Memory α υ σ}
    (hr : Represents m list h cells)
    (hrest : Prog.Reaches (machine list) (.goto (loop (m.link .right (.storage list))), m) y) :
    Prog.Reaches (machine list) (Code.first list loop, m) y := by
  refine Prog.reaches_op hr.exec_header ?_
  rw [show ({ h with dlItems := cells.length } : DlinkedList α υ σ).dlSentinel = .storage list
    from hr.sentinel]
  exact Prog.reaches_op (exec_getLink hr.storage) hrest

/-- Without interruption a call gets to its result, and does what it says to the items. -/
theorem Represents.performs (hr : Represents m list h cells) (call : Call α υ ω σ) (env : σ)
    (hfresh : call.Fresh m) :
    let r := call.onSequence h.dlComparator h.dlUserdata env (cells.map Prod.snd)
    ∃ m' cells', (listRoutine list).Performs (env, call) m (some r.1) m' ∧
      Represents m' list h cells' ∧ cells'.map Prod.snd = r.2 := by
  have hclosed : Seg (m.link .right) (m.link .left) (.storage list)
      (cells.map cellPtr ++ [.storage list]) (.storage list) := hr.ring.closed
  -- a function without a loop is the one of the memory
  have hplain : ∀ {f : Option (Option α × Memory α υ σ)},
      (call.exec (cells.length + 1) list env m = f.map fun r => (.item r.1, r.2)) →
      (∀ {x m'}, f = some (x, m') →
        (call.code list env).eval (machine list) m = some (.item x, m')) →
      ∃ m' cells', (listRoutine list).Performs (env, call) m
          (some (call.onSequence h.dlComparator h.dlUserdata env (cells.map Prod.snd)).1) m' ∧
        Represents m' list h cells' ∧ cells'.map Prod.snd =
          (call.onSequence h.dlComparator h.dlUserdata env (cells.map Prod.snd)).2 := by
    intro f hf heval
    obtain ⟨m', cells', hm', hr', hcells'⟩ := hr.exec call env hfresh (Nat.lt_succ_self _)
    obtain ⟨⟨x, n⟩, hfx, hpair⟩ := Option.map_eq_some_iff.mp (hf.symm.trans hm')
    obtain ⟨hx, rfl⟩ := Prod.mk.inj hpair
    refine ⟨n, cells', Prog.performs_of_reaches ?_, hr', hcells'⟩
    rw [← hx]
    exact Prog.reaches_of_eval (heval hfx)
  cases call with
  | pushHead item alloc => exact hplain rfl eval_push
  | pushTail item alloc => exact hplain rfl eval_push
  | popHead => exact hplain rfl hr.eval_pop
  | popTail => exact hplain rfl hr.eval_pop
  | find item =>
    refine ⟨m, cells, Prog.performs_of_reaches ?_, hr, rfl⟩
    exact hr.reaches_first (hr.reaches_find (List.Subset.refl _) hclosed)
  | removeItem item =>
    have hr' : Represents m list h ([] ++ cells) := hr
    obtain ⟨m', cells', hm', hr', hcells'⟩ := hr'.reaches_removeItem hclosed
    exact ⟨m', cells', Prog.performs_of_reaches (hr.reaches_first hm'), hr', hcells'⟩
  | forEach fn walkData =>
    refine ⟨m, cells, Prog.performs_of_reaches ?_, hr, rfl⟩
    exact hr.reaches_first (hr.reaches_forEach (List.Subset.refl _) hclosed fn walkData)
  | size =>
    refine ⟨m, cells, Prog.performs_of_reaches (Prog.reaches_op hr.exec_header ?_), hr, rfl⟩
    rw [show cells.length = (cells.map Prod.snd).length by simp]
    exact .refl

end call

/-! ## Any number of threads -/

instance (m : Memory α υ σ) (c : Call α υ ω σ) : Decidable (c.Fresh m) :=
  match c with
  | .pushHead _ (some a) | .pushTail _ (some a) => inferInstanceAs (Decidable (m.owner a = none))
  | .pushHead _ none | .pushTail _ none | .popHead | .popTail | .find _ | .removeItem _
  | .forEach _ _ | .size => isTrue trivial

/-- The memory, the lock, and the threads. -/
abbrev LockedState (α υ ω σ : Type) : Type :=
  Mutex.State (Memory α υ σ) (Code α υ ω σ) (σ × Call α υ ω σ) ℕ

abbrev LockedAction (α υ ω σ : Type) : Type := Mutex.Action (σ × Call α υ ω σ) ℕ

/-- The completed calls, in the order of the lock. -/
def completedCalls (list : Addr) (tr : List (LockedState α υ ω σ × LockedAction α υ ω σ)) :
    List (σ × Call α υ ω σ) := (Mutex.completed (listRoutine list) tr).map fun x => x.2.1

/-- What the lock is for. -/
structure Linearized (list : Addr) (cmp : σ → α → α → υ → ℤ) (userdata : υ)
    (tr : List (LockedState α υ ω σ × LockedAction α υ ω σ)) (s : LockedState α υ ω σ) : Prop where
  /-- One thread at a time. -/
  exclusive : ∀ t u c d b e, s.phase t = .inside c b → s.phase u = .inside d e → t = u
  /-- Whoever is inside gets to the end of the call alone, and no access is undefined. -/
  finishes : ∀ t c b, s.phase t = .inside c b → ∃ out m',
    Prog.Reaches (machine list) (b, s.mem) (.ret out, m')
  /-- Each thread's calls are completed once and in their order, but for the one that it is at. -/
  once : ∀ t, Mutex.ofThread t (Mutex.called tr) =
    Mutex.ofThread t ((Mutex.completed (listRoutine list) tr).map fun x => (x.1, x.2.1)) ++
      (s.phase t).pending
  /-- The results are those of the sequence. -/
  results : ((Mutex.completed (listRoutine list) tr).map fun x => x.2.2)
    = (runOnSequence cmp userdata (completedCalls list tr) []).1.map some
  /-- So are the items, between the calls, and the ring is well formed. -/
  items : s.holder = none → ∃ ns, WellFormed s.mem list ns ∧ ns.map s.mem.getData
    = (runOnSequence cmp userdata (completedCalls list tr) []).2.map fun x => some (some x)

theorem runOnSequence_eq (cmp : σ → α → α → υ → ℤ) (userdata : υ)
    (calls : List (σ × Call α υ ω σ)) (xs : List α) :
    runOnSequence cmp userdata calls xs
      = runCalls (fun c => c.2.onSequence cmp userdata c.1) calls xs := by
  induction calls generalizing xs with
  | nil => rfl
  | cons c calls ih =>
    rw [runCalls_cons, ← ih]
    rfl

section run

variable {m₀ m : Memory α υ σ} {list : Addr} {h : DlinkedList α υ σ}
  {tr : List (LockedState α υ ω σ × LockedAction α υ ω σ)} {s : LockedState α υ ω σ}

/-- A call on a list that stands for `xs`. -/
theorem refines_call (c : σ × Call α υ ω σ) (m : Memory α υ σ) (xs : List α)
    (out : Option (Result α σ)) (m' : Memory α υ σ)
    (hrel : ∃ cells, Represents m list h cells ∧ cells.map Prod.snd = xs) (hfresh : c.2.Fresh m)
    (hc : (listRoutine list).Performs c m out m') :
    out = some (c.2.onSequence h.dlComparator h.dlUserdata c.1 xs).1 ∧
      ∃ cells, Represents m' list h cells ∧
        cells.map Prod.snd = (c.2.onSequence h.dlComparator h.dlUserdata c.1 xs).2 := by
  obtain ⟨cells, hr, rfl⟩ := hrel
  obtain ⟨n, cells', hperforms, hr', hcells'⟩ := hr.performs c.2 c.1 hfresh
  obtain ⟨rfl, rfl⟩ := hc.unique hperforms
  exact ⟨rfl, cells', hr', hcells'⟩

/-- An empty list that any number of threads share. -/
theorem Represents.linearizes (hstart : Represents m list h [])
    (hrun : Run (Mutex.step (listRoutine list)) (.init m) tr s)
    (hfresh : Mutex.Admits (fun c m => c.2.Fresh m) tr) :
    Linearized list h.dlComparator h.dlUserdata tr s := by
  obtain ⟨n, hserial, hguard⟩ := Mutex.serial_of_run hrun hfresh
  -- the list stands for the items that the completed calls have left
  obtain ⟨hresults, cells, hr, hitems⟩ := hserial.refines
    (fun m xs => ∃ cells, Represents m list h cells ∧ cells.map Prod.snd = xs)
    (fun c xs => c.2.onSequence h.dlComparator h.dlUserdata c.1 xs) some refines_call
    ⟨[], hstart, rfl⟩
  rw [← runOnSequence_eq, List.map_nil] at hresults hitems
  refine ⟨fun t u c d b e ht hu => Mutex.mutual_exclusion hrun ht hu, fun t c b ht => ?_,
    Mutex.calls_eq hrun, hresults, fun hfree => ?_⟩
  · obtain ⟨-, hok, hreach⟩ := hguard.inside t c b ht
    obtain ⟨m', -, hperforms, -⟩ := hr.performs c.2 c.1 hok
    exact ⟨_, m', Prog.reaches_of_performs hperforms hreach⟩
  · rw [hguard.free hfree]
    refine ⟨cells.map cellPtr, hr.wellFormed, ?_⟩
    rw [completedCalls, ← hitems, List.map_map, List.map_map]
    exact List.map_congr_left fun c hc => Memory.getData_eq (hr.data c hc)

/-- A new list that any number of threads share, under any interleaving of their accesses. The
allocator hands out blocks that are not in use. -/
theorem dlist_linearized {allocatorHandle : Allocator} {cmp : σ → α → α → υ → ℤ}
    {al : Option Allocator} {userdata : υ} {alloc : Option Addr}
    (hcreate : m₀.dlistCreate allocatorHandle cmp al userdata alloc = some (some list, m))
    (hrun : Run (Mutex.step (listRoutine list)) (.init m) tr s)
    (hfresh : Mutex.Admits (fun c m => c.2.Fresh m) tr) :
    Linearized list cmp userdata tr s :=
  (represents_dlistCreate hcreate).linearizes hrun hfresh

end run

/-- Two threads add a client at the same time, and one of them removes its client again. -/
theorem dlist_linearized_two :
    let m₀ : Memory ℕ Unit Unit := ⟨fun _ => none, fun _ => none, fun _ => none⟩
    let cmp : Unit → ℕ → ℕ → Unit → ℤ := fun _ x y _ => x - y
    ∃ (m : Memory ℕ Unit Unit) (tr : List (LockedState ℕ Unit Unit Unit × _)) (s : _),
      m₀.dlistCreate 0 cmp none () (some 0) = some (some 0, m) ∧
      ((Mutex.completed (listRoutine 0) tr).map fun x => x.2.2) =
        [some (.item (some 6)), some (.item (some 5)), some (.item (some 6))] ∧
      Linearized 0 cmp () tr s := by
  intro m₀ cmp
  obtain ⟨m, tr, s, hcreate, hexec, hdone, hok⟩ : ∃ (m : Memory ℕ Unit Unit)
      (tr : List (LockedState ℕ Unit Unit Unit × _)) (s : _),
      m₀.dlistCreate 0 cmp none () (some 0) = some (some 0, m) ∧
      exec (Mutex.step (listRoutine 0)) (.init m) ([.call 0 ((), .pushHead 5 (some 1)),
        .call 1 ((), .pushHead 6 (some 2)), .acquire 1] ++ List.replicate 11 (.access 1) ++
        [.release 1, .call 1 ((), .removeItem 6), .acquire 0] ++ List.replicate 11 (.access 0) ++
        [.release 0, .acquire 1] ++ List.replicate 21 (.access 1) ++ [.release 1])
        = some (tr, s) ∧
      ((Mutex.completed (listRoutine 0) tr).map fun x => x.2.2) =
        [some (.item (some 6)), some (.item (some 5)), some (.item (some 6))] ∧
      tr.all (Mutex.admits fun c m => c.2.Fresh m) = true :=
    ⟨_, _, _, rfl, rfl, rfl, rfl⟩
  exact ⟨m, tr, s, hcreate, hdone,
    dlist_linearized hcreate (run_of_exec hexec) (Mutex.admits_of_all hok)⟩

end AioServer.LinkedList
