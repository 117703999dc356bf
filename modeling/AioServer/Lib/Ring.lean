import Mathlib.Data.List.Nodup
import Mathlib.Tactic.Tauto

/-!
# Rings of doubly linked nodes

`next` and `prev` are the links of nodes `P`.

* `Seg next prev p ns q`: from `p` the `next` links visit `ns`, whose last node is `q`
  (or `p`, if `ns` is empty), and the `prev` links lead back;
* `Ring next prev s ns`: from the sentinel `s` the links visit `ns`, all different, and come
  back to `s`;
* `Ring.insert`, `Ring.remove`: what changing the four links around a place does;
* `Ring.reverse`: a ring read the other way round.
-/

namespace AioServer.Lib

variable {P : Type*} {next prev next' prev' : P → P} {p q r s x : P} {ns as bs : List P}

/-! ## Segments -/

def Seg (next prev : P → P) : P → List P → P → Prop
  | p, [], q => p = q
  | p, n :: ns, q => next p = n ∧ prev n = p ∧ Seg next prev n ns q

@[simp] theorem seg_nil : Seg next prev p [] q ↔ p = q := Iff.rfl

@[simp] theorem seg_cons :
    Seg next prev p (x :: ns) q ↔ next p = x ∧ prev x = p ∧ Seg next prev x ns q := Iff.rfl

theorem seg_append :
    Seg next prev p (as ++ bs) q ↔ ∃ r, Seg next prev p as r ∧ Seg next prev r bs q := by
  induction as generalizing p with
  | nil => simp
  | cons x as ih => simp [ih, and_assoc]

/-- The last node of a segment ends it. -/
theorem Seg.concat (h : Seg next prev p ns q) : p :: ns = (p :: ns).dropLast ++ [q] := by
  induction ns generalizing p with
  | nil =>
    obtain rfl := h
    rfl
  | cons x ns ih => rw [List.dropLast_cons_cons, List.cons_append, ← ih h.2.2]

theorem Seg.end_mem (h : Seg next prev p ns q) : q ∈ p :: ns := by
  rw [h.concat]
  simp

/-- A segment depends on the `next` links of all nodes but the last and on the `prev` links
of all nodes but the first. -/
theorem Seg.congr (h : Seg next prev p ns q)
    (hnext : ∀ z ∈ (p :: ns).dropLast, next' z = next z) (hprev : ∀ z ∈ ns, prev' z = prev z) :
    Seg next' prev' p ns q := by
  induction ns generalizing p with
  | nil => exact h
  | cons x ns ih =>
    obtain ⟨h1, h2, h3⟩ := h
    rw [List.dropLast_cons_cons] at hnext
    refine ⟨?_, ?_, ih h3 (fun z hz => hnext z (List.mem_cons_of_mem p hz))
      fun z hz => hprev z (List.mem_cons_of_mem x hz)⟩
    · rw [hnext p (by simp), h1]
    · rw [hprev x (by simp), h2]

theorem Seg.reverse (h : Seg next prev p ns q) :
    Seg prev next q (p :: ns).dropLast.reverse p := by
  induction ns generalizing p with
  | nil => exact h.symm
  | cons x ns ih =>
    obtain ⟨h1, h2, h3⟩ := h
    rw [List.dropLast_cons_cons, List.reverse_cons, seg_append]
    exact ⟨x, ih h3, h2, h1, rfl⟩

/-! ## Rings -/

structure Ring (next prev : P → P) (s : P) (ns : List P) : Prop where
  closed : Seg next prev s (ns ++ [s]) s
  nodup : (s :: ns).Nodup

theorem Ring.empty (hn : next s = s) (hp : prev s = s) : Ring next prev s [] :=
  ⟨⟨hn, hp, rfl⟩, by simp⟩

theorem Ring.reverse (h : Ring next prev s ns) : Ring prev next s ns.reverse := by
  refine ⟨?_, by simpa using h.nodup⟩
  have hrev := h.closed.reverse
  rwa [← List.cons_append, List.dropLast_concat, List.reverse_cons] at hrev

/-- A ring, opened behind `as`: `p` is the last node before the gap, `q` the first after it. -/
theorem Ring.split (h : Ring next prev s (as ++ bs)) :
    ∃ p q cs, Seg next prev s as p ∧ next p = q ∧ prev q = p ∧ bs ++ [s] = q :: cs ∧
      Seg next prev q cs s := by
  have hclosed := h.closed
  rw [List.append_assoc, seg_append] at hclosed
  obtain ⟨p, hp, hrest⟩ := hclosed
  cases hbs : bs ++ [s] with
  | nil => simp at hbs
  | cons q cs =>
    rw [hbs] at hrest
    exact ⟨p, q, cs, hp, hrest.1, hrest.2.1, rfl, hrest.2.2⟩

/-- From any node the ring goes on to a node, and back. -/
theorem Ring.prev_next (h : Ring next prev s ns) (hx : x ∈ s :: ns) :
    next x ∈ s :: ns ∧ prev (next x) = x := by
  -- open the ring behind `x`
  obtain ⟨as, bs, rfl, hend⟩ : ∃ as bs, ns = as ++ bs ∧ ∀ p, Seg next prev s as p → p = x := by
    obtain rfl | hx := List.mem_cons.mp hx
    · exact ⟨[], ns, rfl, fun p hp => hp.symm⟩
    · obtain ⟨as, bs, rfl⟩ := List.append_of_mem hx
      refine ⟨as ++ [x], bs, by simp, fun p hp => ?_⟩
      obtain ⟨r, -, -, -, hrp⟩ := seg_append.mp hp
      exact hrp.symm
  obtain ⟨p, q, cs, hp, hpq, hqp, hcs, -⟩ := h.split
  obtain rfl := hend p hp
  subst hpq
  have hmem : next p ∈ bs ++ [s] := by simp [hcs]
  refine ⟨?_, hqp⟩
  simp only [List.mem_append, List.mem_cons, List.not_mem_nil, or_false] at hmem ⊢
  tauto

section surgery

variable {cs : List P}

/-- The first half of an opened ring keeps its links when only those of `p` and `q` change. -/
theorem Seg.congr_before (h : Seg next prev s as p) (hnd : (s :: (as ++ bs)).Nodup)
    (hq : bs ++ [s] = q :: cs) (hnext : ∀ z ∈ s :: (as ++ bs), z ≠ p → next' z = next z)
    (hprev : ∀ z ∈ s :: (as ++ bs), z ≠ q → prev' z = prev z) : Seg next' prev' s as p := by
  have hnd' : (s :: as).Nodup := hnd.sublist (by simp)
  refine h.congr (fun z hz => hnext z ?_ ?_) fun z hz => hprev z ?_ ?_
  · exact List.mem_append_left bs (List.dropLast_subset _ hz)
  -- `p` is the last node, and no node is there twice
  · rintro rfl
    rw [h.concat, List.nodup_append] at hnd'
    exact hnd'.2.2 z hz z (by simp) rfl
  · exact List.mem_cons_of_mem s (List.mem_append_left bs hz)
  -- `q` is behind the gap
  · rintro rfl
    have hmem : z ∈ bs ++ [s] := by simp [hq]
    rw [List.nodup_cons, List.nodup_append] at hnd
    rcases List.mem_append.mp hmem with hb | hb
    · exact hnd.2.2.2 z hz z hb rfl
    · obtain rfl : z = s := by simpa using hb
      exact hnd.1 (List.mem_append_left _ hz)

/-- The second half likewise. -/
theorem Seg.congr_after (h : Seg next prev q cs s) (hnd : (s :: (as ++ bs)).Nodup)
    (hp : p ∈ s :: as) (hq : bs ++ [s] = q :: cs)
    (hnext : ∀ z ∈ s :: (as ++ bs), z ≠ p → next' z = next z)
    (hprev : ∀ z ∈ s :: (as ++ bs), z ≠ q → prev' z = prev z) : Seg next' prev' q cs s := by
  have hnd' : (q :: cs).Nodup := by
    have hsub : (s :: bs).Nodup := hnd.sublist (by simp)
    rwa [← hq, List.nodup_append_comm]
  have hmem : ∀ z ∈ q :: cs, z ∈ s :: (as ++ bs) := by
    intro z hz
    rw [← hq] at hz
    simp only [List.mem_append, List.mem_cons, List.not_mem_nil, or_false] at hz ⊢
    tauto
  refine h.congr (fun z hz => ?_) fun z hz => hprev z ?_ ?_
  · have hzb : z ∈ bs := by rwa [← hq, List.dropLast_concat] at hz
    refine hnext z (hmem z (List.dropLast_subset _ hz)) ?_
    rintro rfl
    rw [List.nodup_cons, List.nodup_append] at hnd
    rcases List.mem_cons.mp hp with rfl | ha
    · exact hnd.1 (List.mem_append_right _ hzb)
    · exact hnd.2.2.2 z ha z hzb rfl
  · exact hmem z (List.mem_cons_of_mem q hz)
  · rintro rfl
    exact (List.nodup_cons.mp hnd').1 hz

/-- Linking a new node `x` between `p`, the last node of `as`, and its successor `q`. -/
theorem Ring.insert (h : Ring next prev s (as ++ bs)) (hx : x ∉ s :: (as ++ bs))
    (hp : Seg next prev s as p) (hpq : next p = q)
    (hpx : next' p = x) (hxp : prev' x = p) (hxq : next' x = q) (hqx : prev' q = x)
    (hnext : ∀ z ∈ s :: (as ++ bs), z ≠ p → next' z = next z)
    (hprev : ∀ z ∈ s :: (as ++ bs), z ≠ q → prev' z = prev z) :
    Ring next' prev' s (as ++ x :: bs) := by
  obtain ⟨p', q', cs, hp', hpq', -, hcs, hrest⟩ := h.split
  -- the gap of `h.split` is the one between `p` and `q`
  have hend : p = p' := by
    have heq := hp.concat.symm.trans hp'.concat
    simpa using heq
  subst hend
  obtain rfl : q = q' := hpq.symm.trans hpq'
  constructor
  · rw [List.append_assoc, seg_append]
    refine ⟨p, hp.congr_before h.nodup hcs hnext hprev, hpx, hxp, ?_⟩
    show Seg next' prev' x (bs ++ [s]) s
    rw [hcs]
    exact ⟨hxq, hqx, hrest.congr_after h.nodup hp.end_mem hcs hnext hprev⟩
  · rw [← List.cons_append, List.nodup_middle]
    exact List.nodup_cons.mpr ⟨hx, h.nodup⟩

/-- A node of the ring is none of the others. -/
theorem Ring.notMem (h : Ring next prev s (as ++ x :: bs)) : x ∉ s :: (as ++ bs) := by
  have hnd := h.nodup
  rw [← List.cons_append, List.nodup_middle] at hnd
  exact (List.nodup_cons.mp hnd).1

/-- The links of a node lead to others. -/
theorem Ring.next_mem (h : Ring next prev s (as ++ x :: bs)) : next x ∈ s :: (as ++ bs) := by
  have hclosed := h.closed
  rw [List.append_assoc, seg_append] at hclosed
  obtain ⟨p, -, -, -, hrest⟩ := hclosed
  cases bs with
  | nil => simp [show next x = s from hrest.1]
  | cons q bs => simp [show next x = q from hrest.1]

theorem Ring.prev_mem (h : Ring next prev s (as ++ x :: bs)) : prev x ∈ s :: (as ++ bs) := by
  have hrev := h.reverse
  rw [List.reverse_append, List.reverse_cons, List.append_assoc, List.singleton_append] at hrev
  have hmem := hrev.next_mem
  simp only [List.mem_cons, List.mem_append, List.mem_reverse] at hmem ⊢
  tauto

/-- Unlinking a node `x`: its neighbours are linked to each other. -/
theorem Ring.remove (h : Ring next prev s (as ++ x :: bs))
    (hpq : next' (prev x) = next x) (hqp : prev' (next x) = prev x)
    (hnext : ∀ z ∈ s :: (as ++ bs), z ≠ prev x → next' z = next z)
    (hprev : ∀ z ∈ s :: (as ++ bs), z ≠ next x → prev' z = prev z) :
    Ring next' prev' s (as ++ bs) := by
  have hnd : (s :: (as ++ bs)).Nodup := h.nodup.sublist (by simp)
  refine ⟨?_, hnd⟩
  have hclosed := h.closed
  rw [List.append_assoc, seg_append] at hclosed ⊢
  obtain ⟨p, hp, -, rfl, hrest⟩ := hclosed
  change Seg next prev x (bs ++ [s]) s at hrest
  cases hcs : bs ++ [s] with
  | nil => simp at hcs
  | cons q cs =>
    rw [hcs] at hrest
    obtain ⟨rfl, -, hrest⟩ := hrest
    refine ⟨prev x, hp.congr_before hnd hcs hnext hprev, hpq, hqp, ?_⟩
    exact hrest.congr_after hnd hp.end_mem hcs hnext hprev

end surgery

end AioServer.Lib
