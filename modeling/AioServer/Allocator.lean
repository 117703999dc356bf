import AioServer.Atomic
import AioServer.Lib.Lts
import AioServer.Lib.Printf
import Mathlib.Order.Interval.Finset.Nat

/-!
# The allocator and its statistics

`base/allocator.c` counts its calls: `default_mem_alloc` adds 1 to `ai_total_commits` and then
asks the system for the memory, `default_mem_release` adds 1 to `ai_total_releases` and then
gives the block back. Any number of threads do this at the same time, and each of the four
steps is one label.

* `step`: the two functions, with the blocks that the system has handed out; `Trans` lists what a
  step can do;
* `defaultStatsDumper`: the report;
* `commits_eq`, `releases_eq`, `balance`: what the counters are, by what has happened;
* `trustworthy_iff`: a failed allocation is counted as well, so the report is right just when
  their number is 0 modulo 2^32.
-/

namespace AioServer.Allocator

open Atomic Lib

/-! ## The code -/

/-- The platforms, with their back end for the atomic operations. -/
inductive Platform
  | linux
  | windows
deriving DecidableEq, Repr

/-- `atomic32_increment`. -/
def Platform.atomic32Increment : Platform → Atomic32 → Atomic32 → Atomic32 × Atomic32
  | .linux => Gcc.atomic32Increment
  | .windows => Msvc.atomic32Increment

/-- `atomic32_load`. -/
def Platform.atomic32Load : Platform → Atomic32 → Atomic32 × Atomic32
  | .linux => Gcc.atomic32Load
  | .windows => Msvc.atomic32Load

/-- `struct allocator_internals`. -/
structure AllocatorInternals where
  aiTotalCommits : Atomic32
  aiTotalReleases : Atomic32
deriving DecidableEq, Repr

/-- The address of a block; it is not NULL. -/
abbrev Block := { a : BitVec 32 // a ≠ 0 }

/-- The counters and the blocks that the system has handed out; how many calls of
`default_mem_alloc` are between their two steps, and which blocks are between those of
`default_mem_release`. -/
structure State where
  alInternals : AllocatorInternals
  live : Finset Block
  allocating : ℕ
  releasing : Finset Block

/-- `def_all_stats`, before any call. -/
def State.start : State := ⟨⟨0, 0⟩, ∅, 0, ∅⟩

/-- The steps of a call. -/
inductive Label
  | countCommit
  | allocate (block : Option Block)
  | countRelease (block : Block)
  | free (block : Block)
deriving DecidableEq

/-- `default_mem_alloc` is `countCommit` and then `allocate`, with what `malloc` or
`VirtualAlloc` returns; `default_mem_release` is `countRelease` and then `free`, for a block that
was obtained and is given to no other call. -/
def step (p : Platform) (s : State) : Label → Option State
  | .countCommit =>
    some { s with
      alInternals.aiTotalCommits := (p.atomic32Increment s.alInternals.aiTotalCommits 1).2
      allocating := s.allocating + 1 }
  | .allocate none =>
    if 0 < s.allocating then some { s with allocating := s.allocating - 1 } else none
  | .allocate (some b) =>
    if 0 < s.allocating ∧ b ∉ s.live then
      some { s with live := insert b s.live, allocating := s.allocating - 1 }
    else none
  | .countRelease b =>
    if b ∈ s.live ∧ b ∉ s.releasing then
      some { s with
        alInternals.aiTotalReleases := (p.atomic32Increment s.alInternals.aiTotalReleases 1).2
        releasing := insert b s.releasing }
    else none
  | .free b =>
    if b ∈ s.releasing then
      some { s with live := s.live.erase b, releasing := s.releasing.erase b }
    else none

/-- The numbers in the report, each as `%d` prints it. -/
structure Report where
  operations : List UInt8
  allocations : List UInt8
  releases : List UInt8
deriving DecidableEq

/-- The arguments of the format in `default_stats_dumper`. -/
def Platform.report (p : Platform) (al : AllocatorInternals) : Report :=
  let totalCommits := (p.atomic32Load al.aiTotalCommits).1
  let totalReleases := (p.atomic32Load al.aiTotalReleases).1
  ⟨formatInt (totalCommits + totalReleases).toInt, formatInt totalCommits.toInt,
    formatInt totalReleases.toInt⟩

/-- The format. -/
def Platform.reportText : Platform → Report → List UInt8
  | .linux, r => cstr "\nTotal operations " ++ r.operations ++ cstr "\nAllocations " ++
      r.allocations ++ cstr "\nReleases" ++ r.releases ++ cstr "\n"
  | .windows, r => cstr "\nTotal operations: " ++ r.operations ++ cstr "\nAllocations: " ++
      r.allocations ++ cstr "\nReleases: " ++ r.releases ++ cstr "\n"

/-- `sizeof(buff_stats)`. -/
def sizeofBuffStats : ℕ := 1024

/-- `default_stats_dumper`, with `write` or `WriteFile`: the bytes that it is given, and the
result. `StringCchPrintfEx` fails on a text that does not fit. -/
def defaultStatsDumper (p : Platform) (al : AllocatorInternals) (buffStats : List UInt8)
    (write : List UInt8 → ℤ) : Option (List UInt8) × ℤ :=
  let text := p.reportText (p.report al)
  match p with
  | .linux =>
    let (bytecount, buffStats) := snprintf sizeofBuffStats (.text text) buffStats
    let bytes := buffStats.take (bytecount % 2 ^ 32).toNat
    (some bytes, if write bytes = bytecount then 1 else 0)
  | .windows =>
    if text.length < sizeofBuffStats then
      (some text, if write text = text.length then 1 else 0)
    else (none, -1)

/-! ## What the report is for -/

/-- No call is between its two steps. -/
structure State.Quiet (s : State) : Prop where
  allocating : s.allocating = 0
  releasing : s.releasing = ∅

/-- The difference of the counters is the number of blocks, and the report shows equal totals
just when there is none. -/
structure Trustworthy (p : Platform) (s : State) : Prop where
  balance : s.alInternals.aiTotalCommits - s.alInternals.aiTotalReleases
    = BitVec.ofNat 32 s.live.card
  report : (p.report s.alInternals).allocations = (p.report s.alInternals).releases ↔ s.live = ∅

/-! ## What has happened -/

/-- The steps that count an allocation. -/
def Label.isCommit : Label → Bool
  | .countCommit => true
  | _ => false

/-- The steps that count a release. -/
def Label.isRelease : Label → Bool
  | .countRelease _ => true
  | _ => false

/-- The system has no memory. -/
def Label.isFailure : Label → Bool
  | .allocate none => true
  | _ => false

/-- How many allocations of a run failed. -/
def failures (tr : List (State × Label)) : ℕ := tr.countP (·.2.isFailure)

/-- What the calls have taken from the system, and will have taken when they return. -/
def State.outstanding (s : State) : ℤ := s.live.card + s.allocating - s.releasing.card

section steps

variable {p : Platform} {s s' : State} {a : Label} {tr : List (State × Label)}

/-- The transitions, one constructor for each. -/
inductive Trans (p : Platform) (s : State) : Label → State → Prop
  | countCommit : Trans p s .countCommit { s with
      alInternals.aiTotalCommits := (p.atomic32Increment s.alInternals.aiTotalCommits 1).2
      allocating := s.allocating + 1 }
  | refused (hpos : 0 < s.allocating) :
      Trans p s (.allocate none) { s with allocating := s.allocating - 1 }
  | obtained (b : Block) (hpos : 0 < s.allocating) (hfresh : b ∉ s.live) :
      Trans p s (.allocate (some b))
        { s with live := insert b s.live, allocating := s.allocating - 1 }
  | countRelease (b : Block) (hlive : b ∈ s.live) (hnew : b ∉ s.releasing) :
      Trans p s (.countRelease b) { s with
        alInternals.aiTotalReleases := (p.atomic32Increment s.alInternals.aiTotalReleases 1).2
        releasing := insert b s.releasing }
  | free (b : Block) (hb : b ∈ s.releasing) :
      Trans p s (.free b) { s with live := s.live.erase b, releasing := s.releasing.erase b }

/-- Both back ends add to the cell. -/
theorem increment_cell (p : Platform) (ptr newval : Atomic32) :
    (p.atomic32Increment ptr newval).2 = ptr + newval := by
  cases p with
  | linux => exact BitVec.add_comm newval ptr
  | windows => rfl

/-- Every step is one of the transitions. -/
theorem trans_of_step (h : step p s a = some s') : Trans p s a s' := by
  cases a with
  | countCommit =>
    cases h
    exact .countCommit
  | allocate block =>
    cases block with
    | none =>
      simp only [step, Option.ite_none_right_eq_some] at h
      obtain ⟨hpos, ⟨⟩⟩ := h
      exact .refused hpos
    | some b =>
      simp only [step, Option.ite_none_right_eq_some] at h
      obtain ⟨⟨hpos, hfresh⟩, ⟨⟩⟩ := h
      exact .obtained b hpos hfresh
  | countRelease b =>
    simp only [step, Option.ite_none_right_eq_some] at h
    obtain ⟨⟨hlive, hnew⟩, ⟨⟩⟩ := h
    exact .countRelease b hlive hnew
  | free b =>
    simp only [step, Option.ite_none_right_eq_some] at h
    obtain ⟨hb, ⟨⟩⟩ := h
    exact .free b hb

/-- The counters after a step. -/
theorem step_counters (h : step p s a = some s') :
    s'.alInternals.aiTotalCommits
        = s.alInternals.aiTotalCommits + BitVec.ofNat 32 a.isCommit.toNat ∧
      s'.alInternals.aiTotalReleases
        = s.alInternals.aiTotalReleases + BitVec.ofNat 32 a.isRelease.toNat := by
  cases trans_of_step h with
  | countCommit => exact ⟨increment_cell p _ 1, (BitVec.add_zero _).symm⟩
  | refused _ => exact ⟨(BitVec.add_zero _).symm, (BitVec.add_zero _).symm⟩
  | obtained _ _ _ => exact ⟨(BitVec.add_zero _).symm, (BitVec.add_zero _).symm⟩
  | countRelease _ _ _ => exact ⟨(BitVec.add_zero _).symm, increment_cell p _ 1⟩
  | free _ _ => exact ⟨(BitVec.add_zero _).symm, (BitVec.add_zero _).symm⟩

/-- The counters after a run. -/
theorem counters_eq (hrun : Run (step p) State.start tr s) :
    s.alInternals.aiTotalCommits = BitVec.ofNat 32 (tr.countP (·.2.isCommit)) ∧
      s.alInternals.aiTotalReleases = BitVec.ofNat 32 (tr.countP (·.2.isRelease)) := by
  induction hrun with
  | nil => exact ⟨rfl, rfl⟩
  | @snoc tr s a s' _ hs ih =>
    obtain ⟨hcommits, hreleases⟩ := step_counters hs
    have hsum : ∀ q : State × Label → Bool,
        (tr ++ [(s, a)]).countP q = tr.countP q + (q (s, a)).toNat := by
      intro q
      rw [List.countP_append, List.countP_singleton]
      cases q (s, a) <;> rfl
    rw [hcommits, hreleases, ih.1, ih.2, hsum, hsum, BitVec.ofNat_add, BitVec.ofNat_add]
    exact ⟨rfl, rfl⟩

/-- A block that is being released is still there. -/
theorem releasing_subset (hrun : Run (step p) State.start tr s) : s.releasing ⊆ s.live := by
  refine hrun.invariant (I := fun s => s.releasing ⊆ s.live) (Finset.empty_subset _)
    fun s a s' hsub hs => ?_
  cases trans_of_step hs with
  | countCommit => exact hsub
  | refused _ => exact hsub
  | obtained b _ _ => exact hsub.trans (Finset.subset_insert b _)
  | countRelease b hlive _ => exact Finset.insert_subset hlive hsub
  | free b _ => exact Finset.erase_subset_erase b hsub

/-- A counted allocation is outstanding until it fails or its block is given back. -/
theorem step_outstanding (hsub : s.releasing ⊆ s.live) (h : step p s a = some s') :
    s'.outstanding + ((a.isFailure.toNat + a.isRelease.toNat : ℕ) : ℤ)
      = s.outstanding + (a.isCommit.toNat : ℤ) := by
  unfold State.outstanding
  cases trans_of_step h with
  | countCommit =>
    simp only [Label.isFailure, Label.isRelease, Label.isCommit, Bool.toNat_false, Bool.toNat_true]
    omega
  | refused hpos =>
    simp only [Label.isFailure, Label.isRelease, Label.isCommit, Bool.toNat_false,
      Bool.toNat_true]
    omega
  | obtained b hpos hfresh =>
    simp only [Label.isFailure, Label.isRelease, Label.isCommit, Bool.toNat_false,
      Finset.card_insert_of_notMem hfresh]
    omega
  | countRelease b _ hnew =>
    simp only [Label.isFailure, Label.isRelease, Label.isCommit, Bool.toNat_false,
      Bool.toNat_true, Finset.card_insert_of_notMem hnew]
    omega
  | free b hb =>
    have hlive := Finset.card_erase_add_one (hsub hb)
    have hreleasing := Finset.card_erase_add_one hb
    simp only [Label.isFailure, Label.isRelease, Label.isCommit, Bool.toNat_false]
    omega

/-- What was counted and has not failed or been given back is outstanding. -/
theorem balance (hrun : Run (step p) State.start tr s) :
    s.outstanding + failures tr + tr.countP (·.2.isRelease) = tr.countP (·.2.isCommit) := by
  have hledger := hrun.ledger State.outstanding (fun x => x.2.isCommit.toNat)
    (fun x => x.2.isFailure.toNat + x.2.isRelease.toNat)
    (fun _ _ hrun => releasing_subset hrun) fun s a s' hsub hs => step_outstanding hsub hs
  rw [List.sum_map_add, sum_map_toNat, sum_map_toNat, sum_map_toNat] at hledger
  have hstart : State.start.outstanding = 0 := rfl
  unfold failures
  omega

/-! ## Calls one after the other -/

/-- The steps of a call that no other call interrupts. -/
inductive Call
  | alloc (block : Option Block)
  | release (block : Block)

def Call.labels : Call → List Label
  | .alloc block => [.countCommit, .allocate block]
  | .release block => [.countRelease block, .free block]

/-- A call without interruption ends what it has begun. -/
theorem quiet_call {s₁ : State} {c : Call} (hquiet : s.Quiet) {l l' : Label}
    (hlabels : c.labels = [l, l']) (h : step p s l = some s₁) (h' : step p s₁ l' = some s') :
    s'.Quiet := by
  cases c with
  | alloc block =>
    obtain ⟨rfl, rfl⟩ : .countCommit = l ∧ .allocate block = l' := by
      simpa [Call.labels] using hlabels
    cases trans_of_step h
    cases trans_of_step h' with
    | refused _ => exact ⟨hquiet.allocating, hquiet.releasing⟩
    | obtained _ _ _ => exact ⟨hquiet.allocating, hquiet.releasing⟩
  | release block =>
    obtain ⟨rfl, rfl⟩ : .countRelease block = l ∧ .free block = l' := by
      simpa [Call.labels] using hlabels
    cases trans_of_step h
    cases trans_of_step h' with
    | free _ _ =>
      refine ⟨hquiet.allocating, ?_⟩
      simp [hquiet.releasing]

/-- So after a sequence of such calls none is under way. -/
theorem quiet_calls {calls : List Call} (hquiet : s.Quiet)
    (h : exec (step p) s (calls.flatMap Call.labels) = some (tr, s')) : s'.Quiet := by
  induction calls generalizing s tr with
  | nil =>
    obtain ⟨-, rfl⟩ : [] = tr ∧ s = s' := by simpa [exec] using h
    exact hquiet
  | cons c calls ih =>
    obtain ⟨l, l', hlabels⟩ : ∃ l l', c.labels = [l, l'] := by cases c <;> exact ⟨_, _, rfl⟩
    rw [List.flatMap_cons, hlabels, List.cons_append, List.cons_append, List.nil_append] at h
    cases h₁ : step p s l with
    | none => simp [exec, h₁] at h
    | some s₁ =>
      cases h₂ : step p s₁ l' with
      | none => simp [exec, h₁, h₂] at h
      | some s₂ =>
        simp only [exec, h₁, h₂, Option.map_eq_some_iff, Prod.mk.injEq] at h
        obtain ⟨r, ⟨q, hq, rfl⟩, -, hstate⟩ := h
        have hrest : exec (step p) s₂ (calls.flatMap Call.labels) = some (q.1, s') := by
          rw [hq, ← hstate]
        exact ih (quiet_call hquiet hlabels h₁ h₂) hrest

/-! ## The report -/

/-- There are fewer blocks than addresses. -/
theorem card_live_lt (live : Finset Block) : live.card < 2 ^ 32 := by
  have hmaps : ∀ b ∈ live, b.1.toNat ∈ Finset.Ioo 0 (2 ^ 32) := by
    intro b _
    have hne : b.1.toNat ≠ 0 := fun h => b.2 (BitVec.eq_of_toNat_eq h)
    exact Finset.mem_Ioo.mpr ⟨Nat.pos_of_ne_zero hne, b.1.isLt⟩
  have hinj : Set.InjOn (fun b : Block => b.1.toNat) live :=
    fun b _ c _ h => Subtype.ext (BitVec.eq_of_toNat_eq h)
  have hcard := Finset.card_le_card_of_injOn _ hmaps hinj
  rw [Nat.card_Ioo] at hcard
  omega

/-- The report shows the same totals when the counters are equal. -/
theorem report_eq_iff (p : Platform) (al : AllocatorInternals) :
    (p.report al).allocations = (p.report al).releases ↔
      al.aiTotalCommits = al.aiTotalReleases := by
  have hload : ∀ cell, (p.atomic32Load cell).1 = cell := by
    intro cell
    cases p <;> rfl
  unfold Platform.report
  simp only [hload, formatInt_inj]
  exact ⟨BitVec.eq_of_toInt_eq, fun h => h ▸ rfl⟩

/-- When no call is under way, the difference of the counters is the number of blocks, and the
report tells a leak from none, if and only if the number of failed allocations is a multiple of
2^32. -/
theorem trustworthy_iff (hrun : Run (step p) State.start tr s) (hquiet : s.Quiet) :
    Trustworthy p s ↔ failures tr % 2 ^ 32 = 0 := by
  obtain ⟨hcommits, hreleases⟩ := counters_eq hrun
  have hbalance := balance hrun
  unfold State.outstanding at hbalance
  rw [hquiet.allocating, hquiet.releasing, Finset.card_empty] at hbalance
  have hlt := card_live_lt s.live
  constructor
  · intro h
    have hdiff := h.balance
    rw [hcommits, hreleases] at hdiff
    have hnat := congrArg BitVec.toNat hdiff
    simp only [BitVec.toNat_sub, BitVec.toNat_ofNat] at hnat
    omega
  · intro h
    refine ⟨?_, ?_⟩
    · rw [hcommits, hreleases]
      refine BitVec.eq_of_toNat_eq ?_
      simp only [BitVec.toNat_sub, BitVec.toNat_ofNat]
      omega
    · rw [report_eq_iff, hcommits, hreleases, ← Finset.card_eq_zero]
      constructor
      · intro heq
        have hnat := congrArg BitVec.toNat heq
        simp only [BitVec.toNat_ofNat] at hnat
        omega
      · intro hempty
        refine BitVec.eq_of_toNat_eq ?_
        simp only [BitVec.toNat_ofNat]
        omega

end steps

/-- The report fits into its buffer. -/
theorem length_reportText_lt (p : Platform) (al : AllocatorInternals) :
    (p.reportText (p.report al)).length < sizeofBuffStats := by
  have hint : ∀ n : Atomic32, (formatInt n.toInt).length ≤ 11 := by
    intro n
    have hlt : 2 * n.toInt < 2 ^ 32 := BitVec.two_mul_toInt_lt
    have hle : -2 ^ 32 ≤ 2 * n.toInt := BitVec.le_two_mul_toInt
    exact length_formatInt_le (by omega)
  have hconst : ∀ q : Platform, (q.reportText ⟨[], [], []⟩).length ≤ 100 := by
    intro q
    cases q <;> decide
  have hparts : ∀ r : Report, (p.reportText r).length = (p.reportText ⟨[], [], []⟩).length +
      (r.operations.length + r.allocations.length + r.releases.length) := by
    intro r
    cases p <;> simp only [Platform.reportText, List.length_append, List.length_nil] <;> omega
  have hall := hconst p
  have hoperations := hint ((p.atomic32Load al.aiTotalCommits).1 +
    (p.atomic32Load al.aiTotalReleases).1)
  have hcommits := hint (p.atomic32Load al.aiTotalCommits).1
  have hreleases := hint (p.atomic32Load al.aiTotalReleases).1
  rw [hparts]
  unfold Platform.report sizeofBuffStats
  simp only
  omega

/-- The dumper writes the report as a whole. -/
theorem defaultStatsDumper_text (p : Platform) (al : AllocatorInternals) (buffStats : List UInt8)
    (write : List UInt8 → ℤ) :
    (defaultStatsDumper p al buffStats write).1 = some (p.reportText (p.report al)) := by
  have hlt := length_reportText_lt p al
  cases p with
  | windows =>
    unfold defaultStatsDumper
    simp only
    rw [if_pos hlt]
  | linux =>
    unfold sizeofBuffStats at hlt
    obtain ⟨hret, htake⟩ := @snprintf_fits sizeofBuffStats _ buffStats
      (Nat.le_sub_one_of_lt hlt) (Nat.lt_trans hlt (by decide))
    have hcount : ((Platform.linux.reportText (Platform.linux.report al)).length % 2 ^ 32 : ℤ).toNat
        = (Platform.linux.reportText (Platform.linux.report al)).length := by
      omega
    unfold defaultStatsDumper
    simp only
    rw [hret, hcount, htake]

/-- Two blocks of the system. -/
def someBlock : Block := ⟨0x1000, by decide⟩

def otherBlock : Block := ⟨0x2000, by decide⟩

/-- Two blocks are obtained and the first one is released: the counters differ by 1. -/
theorem trustworthy_someBlock : ∃ tr, Run (step .windows) State.start tr
    ⟨⟨2, 1⟩, {otherBlock}, 0, ∅⟩ ∧ Trustworthy .windows ⟨⟨2, 1⟩, {otherBlock}, 0, ∅⟩ := by
  have hrun : ∃ tr, Run (step .windows) State.start tr ⟨⟨2, 1⟩, {otherBlock}, 0, ∅⟩ ∧
      failures tr = 0 :=
    ⟨_, run_of_exec (show exec (step .windows) State.start [.countCommit,
      .allocate (some someBlock), .countCommit, .allocate (some otherBlock),
      .countRelease someBlock, .free someBlock] = some (_, _) from rfl), rfl⟩
  obtain ⟨tr, hrun, hfailures⟩ := hrun
  exact ⟨tr, hrun, (trustworthy_iff hrun ⟨rfl, rfl⟩).mpr (by simp [hfailures])⟩

/-- The system has no memory: the totals are 1 and 0, and there is no block. -/
theorem failure_counted : ¬ ∀ (p : Platform) (tr : List (State × Label)) (s : State),
    Run (step p) State.start tr s → s.Quiet → Trustworthy p s := by
  intro h
  have hexec : exec (step .windows) State.start [.countCommit, .allocate none]
      = some ([(State.start, .countCommit), (⟨⟨1, 0⟩, ∅, 1, ∅⟩, .allocate none)],
        ⟨⟨1, 0⟩, ∅, 0, ∅⟩) := rfl
  exact absurd (h .windows _ _ (run_of_exec hexec) ⟨rfl, rfl⟩).balance (by decide)

end AioServer.Allocator
