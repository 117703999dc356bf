import AioServer.Lib.Mutex
import AioServer.Lib.Printf
import AioServer.StatsHistory

/-!
# Server statistics: the lock

`base/statistics.c` increments and decrements plain variables: each is a read and a write. Any
number of threads call `server_update_stats` at the same time, and `STATS_DUMP` may read the
counters in between; what keeps them apart is `ss_stats_lock`.

* `serverUpdateStatsBody`, `serverDumpStatsBody`: the two functions, access by access;
* `step`: the threads, interleaved at will;
* `eval_serverUpdateStats`: without interruption, an update is the function of the model in which
  it is one action;
* `linearized`: every run amounts to its updates in the order of the lock. No update is lost or
  made twice, and a report shows the counters at one moment.
-/

namespace AioServer.StatsLock

open Lib

/-! ## The code -/

/-- The variables of `struct server_stats`. -/
inductive StatsCell
  | totalConnections
  | concurrentConnections
  | peakConnections
  | totalBytes
deriving DecidableEq, Repr

/-- What is read and written. -/
abbrev StatsCell.Value : StatsCell → Type
  | .totalBytes => ℕ
  | _ => ℤ

/-- The members by their names. -/
def statsCells : Cells ServerStats StatsCell StatsCell.Value where
  get
    | .totalConnections, ss => ss.ssTotalConnections
    | .concurrentConnections, ss => ss.ssConcurrentConnections
    | .peakConnections, ss => ss.ssPeakConnections
    | .totalBytes, ss => ss.ssTotalBytes
  put
    | .totalConnections, v, ss => { ss with ssTotalConnections := v }
    | .concurrentConnections, v, ss => { ss with ssConcurrentConnections := v }
    | .peakConnections, v, ss => { ss with ssPeakConnections := v }
    | .totalBytes, v, ss => { ss with ssTotalBytes := v }

/-- What runs under the lock: the body of `server_update_stats`, and `server_dump_stats`, which
`STATS_DUMP` calls. -/
inductive StatsCall
  | update (stat : StatsType)
  | dump
deriving DecidableEq, Repr

/-- A call of `server_update_stats` returns nothing, `server_dump_stats` the bytes that it gives
to `WriteFile`. -/
abbrev StatsBody := Body StatsCell StatsCell.Value (Option (List UInt8))

/-- `server_update_stats`, from `lock_acquire` to `lock_release`. -/
def serverUpdateStatsBody : StatsType → StatsBody
  | .addConnection =>
    -- `++` on a volatile variable
    .load .totalConnections fun total =>
    .store .totalConnections (total + 1) <|
    .load .concurrentConnections fun concurrent =>
    .store .concurrentConnections (concurrent + 1) <|
    .load .peakConnections fun peak =>
    .load .concurrentConnections fun concurrent =>
      if peak < concurrent then
        .load .concurrentConnections fun concurrent =>
        .store .peakConnections concurrent (.ret none)
      else .ret none
  | .delConnection =>
    .load .concurrentConnections fun concurrent =>
    .store .concurrentConnections (concurrent - 1) <|
    .load .totalConnections fun total =>
    .store .totalConnections (total - 1) (.ret none)
  | .transferSuccess bytes =>
    .load .totalBytes fun total =>
    .store .totalBytes ((total + bytes) % 2 ^ 32) (.ret none)

/-- The text of the report. An argument for `%d` is read as a signed 32-bit number. -/
def statsText (total peak : ℤ) (bytes : ℕ) : List UInt8 :=
  cstr "\nTotal connections " ++ formatInt (total.bmod (2 ^ 32)) ++
  cstr "\nMaximum simultaneous connections " ++ formatInt (peak.bmod (2 ^ 32)) ++
  cstr "\nTotal bytes transferred " ++ formatInt ((bytes : ℤ).bmod (2 ^ 32))

/-- `sizeof(buffer_stats)`. -/
def sizeofBufferStats : ℕ := 1024

/-- `server_dump_stats`: the arguments of the format are read one after the other. `_snprintf_s`
keeps what fits in front of the NUL. -/
def serverDumpStatsBody : StatsBody :=
  .load .totalConnections fun total =>
  .load .peakConnections fun peak =>
  .load .totalBytes fun bytes =>
  .ret (some ((statsText total peak bytes).take (sizeofBufferStats - 1)))

def statsBody : StatsCall → StatsBody
  | .update stat => serverUpdateStatsBody stat
  | .dump => serverDumpStatsBody

/-- The code under the lock. -/
abbrev statsRoutine : Routine ServerStats StatsBody StatsCall (Option (List UInt8)) :=
  Body.routine statsCells statsBody

abbrev State := Mutex.State ServerStats StatsBody StatsCall ℕ

abbrev Action := Mutex.Action StatsCall ℕ

/-- `STATS_INITIALIZE`. -/
abbrev State.start : State := .init ServerStats.zero

/-- One step of one thread: it makes a call, gets the lock, reads or writes one variable, or gives
the lock back. -/
abbrev step : State → Action → Option State := Mutex.step statsRoutine

/-! ## One call -/

/-- What a call leaves. -/
def effect (ss : ServerStats) : StatsCall → ServerStats
  | .update stat => serverUpdateStats ss stat
  | .dump => ss

/-- The report of the counters. -/
def statsReport (ss : ServerStats) : List UInt8 :=
  statsText ss.ssTotalConnections ss.ssPeakConnections ss.ssTotalBytes

/-- What a call writes. -/
def report (ss : ServerStats) : StatsCall → Option (List UInt8)
  | .update _ => none
  | .dump => some (statsReport ss)

theorem eval_serverUpdateStats (stat : StatsType) (ss : ServerStats) :
    (serverUpdateStatsBody stat).eval statsCells ss = (none, serverUpdateStats ss stat) := by
  cases stat with
  | addConnection =>
    unfold serverUpdateStatsBody serverUpdateStats
    by_cases hpeak : ss.ssPeakConnections < ss.ssConcurrentConnections + 1
    · simp [Body.eval, statsCells, hpeak]
    · simp [Body.eval, statsCells, hpeak]
  | delConnection => rfl
  | transferSuccess bytes => rfl

theorem length_formatInt_bmod (n : ℤ) : (formatInt (n.bmod (2 ^ 32))).length ≤ 11 := by
  apply length_formatInt_le
  have hlow : -(2 ^ 32 / 2 : ℤ) ≤ n.bmod (2 ^ 32) := Int.le_bmod (by decide)
  have hhigh : n.bmod (2 ^ 32) < (2 ^ 32 + 1) / 2 := Int.bmod_lt (by decide)
  omega

/-- The report is never cut. -/
theorem length_statsText (total peak : ℤ) (bytes : ℕ) :
    (statsText total peak bytes).length ≤ sizeofBufferStats - 1 := by
  have htotal := length_formatInt_bmod total
  have hpeak := length_formatInt_bmod peak
  have hbytes := length_formatInt_bmod bytes
  have hfixed : (cstr "\nTotal connections ").length +
      (cstr "\nMaximum simultaneous connections ").length +
      (cstr "\nTotal bytes transferred ").length ≤ 100 := by decide
  unfold statsText sizeofBufferStats
  simp only [List.length_append]
  omega

theorem eval_serverDumpStats (ss : ServerStats) :
    serverDumpStatsBody.eval statsCells ss = (some (statsReport ss), ss) := by
  have hfits : (statsReport ss).length ≤ sizeofBufferStats - 1 := length_statsText _ _ _
  show (some ((statsReport ss).take (sizeofBufferStats - 1)), ss) = _
  rw [List.take_of_length_le hfits]

/-- A call without interruption. -/
theorem performs_statsRoutine (c : StatsCall) (ss : ServerStats) (out : Option (List UInt8))
    (ss' : ServerStats) (h : statsRoutine.Performs c ss out ss') :
    ss' = effect ss c ∧ out = report ss c := by
  have heval : (statsBody c).eval statsCells ss = (out, ss') := Body.performs_eval h
  cases c with
  | update stat =>
    obtain ⟨rfl, rfl⟩ := Prod.mk.inj ((eval_serverUpdateStats stat ss).symm.trans heval)
    exact ⟨rfl, rfl⟩
  | dump =>
    obtain ⟨rfl, rfl⟩ := Prod.mk.inj ((eval_serverDumpStats ss).symm.trans heval)
    exact ⟨rfl, rfl⟩

/-! ## The history -/

/-- The updates among the calls. -/
def updates (calls : List StatsCall) : List StatsType :=
  calls.filterMap fun
    | .update stat => some stat
    | .dump => none

theorem updates_perm {calls calls' : List StatsCall} (h : calls.Perm calls') :
    (updates calls).Perm (updates calls') := h.filterMap _

/-- Reports change nothing. -/
theorem foldl_effect (calls : List StatsCall) (ss : ServerStats) :
    calls.foldl effect ss = (updates calls).foldl serverUpdateStats ss := by
  induction calls generalizing ss with
  | nil => rfl
  | cons c calls ih =>
    cases c with
    | update stat => exact ih (serverUpdateStats ss stat)
    | dump => exact ih ss

/-- A call that is completed, without the thread and the result. -/
abbrev completedCalls (done : List (ℕ × StatsCall × Option (List UInt8))) : List StatsCall :=
  done.map fun x => x.2.1

/-- What the lock is for. -/
structure Linearized (tr : List (State × Action)) (s : State) : Prop where
  /-- One thread at a time. -/
  exclusive : ∀ t u c d b e, s.phase t = .inside c b → s.phase u = .inside d e → t = u
  /-- Each thread's calls are completed once and in their order, but for the one that it is at. -/
  once : ∀ t, Mutex.ofThread t (Mutex.called tr) =
    Mutex.ofThread t ((Mutex.completed statsRoutine tr).map fun x => (x.1, x.2.1)) ++
      (s.phase t).pending
  /-- The counters are what the updates come to, one after the other. -/
  counters : s.holder = none →
    s.mem = serverStatsAfter (updates (completedCalls (Mutex.completed statsRoutine tr)))
  /-- A report shows the updates in front of it, all of each. -/
  reports : ∀ before t text after,
    Mutex.completed statsRoutine tr = before ++ (t, .dump, text) :: after →
      text = some (statsReport (serverStatsAfter (updates (completedCalls before))))
  /-- Between the calls, the counters are those of all the calls that were made. -/
  settled : (∀ t, s.phase t = .idle) →
    s.mem.ssConcurrentConnections
        = connectionBalance (updates ((Mutex.called tr).map Prod.snd)) ∧
      s.mem.ssTotalConnections
        = connectionBalance (updates ((Mutex.called tr).map Prod.snd)) ∧
      s.mem.ssTotalBytes
        = ((updates ((Mutex.called tr).map Prod.snd)).map StatsType.bytes).sum % 2 ^ 32

theorem connectionBalance_perm {events events' : List StatsType} (h : events.Perm events') :
    connectionBalance events = connectionBalance events' := by
  unfold connectionBalance
  rw [h.count_eq, h.count_eq]

section run

variable {tr : List (State × Action)} {s : State}

theorem mem_of_run (hrun : Run step State.start tr s) (hfree : s.holder = none) :
    s.mem = serverStatsAfter (updates (completedCalls (Mutex.completed statsRoutine tr))) := by
  obtain ⟨ss, hserial, hguard⟩ := Mutex.serial_of_run hrun Mutex.admits_true
  rw [hguard.free hfree, (hserial.eq_foldl performs_statsRoutine).1, foldl_effect]
  rfl

/-- For every interleaving of any number of threads. -/
theorem linearized (hrun : Run step State.start tr s) : Linearized tr s where
  exclusive t u c d b e ht hu := Mutex.mutual_exclusion hrun ht hu
  once := Mutex.calls_eq hrun
  counters := mem_of_run hrun
  reports before t text after hdone := by
    obtain ⟨ss, hserial, -⟩ := Mutex.serial_of_run hrun Mutex.admits_true
    have htext := (hserial.eq_foldl performs_statsRoutine).2 before t .dump text after hdone
    rw [foldl_effect] at htext
    exact htext
  settled hidle := by
    have hfree : s.holder = none := Mutex.free_of_idle hrun hidle
    have hperm : (completedCalls (Mutex.completed statsRoutine tr)).Perm
        ((Mutex.called tr).map Prod.snd) := by
      have hcalls := (Mutex.completed_perm hrun hidle).map Prod.snd
      rwa [List.map_map] at hcalls
    have hupdates := updates_perm hperm
    have hbytes := (hupdates.map StatsType.bytes).sum_eq
    have hmem := mem_of_run hrun hfree
    rw [hmem, concurrent_eq, total_eq, bytes_eq, hbytes]
    exact ⟨connectionBalance_perm hupdates, connectionBalance_perm hupdates, rfl⟩

/-- Two connections are added at the same time; a report follows. -/
theorem linearized_two : ∃ tr s, Run step State.start tr s ∧
    Mutex.completed statsRoutine tr = [(1, .update .addConnection, none),
      (0, .update .addConnection, none), (1, .dump, some (statsText 2 2 0))] ∧
    Linearized tr s := by
  have hrun := run_of_exec (rfl : exec step State.start [.call 0 (.update .addConnection),
    .call 1 (.update .addConnection), .acquire 1, .access 1, .access 1, .call 2 .dump, .access 1,
    .access 1, .access 1, .access 1, .access 1, .access 1, .release 1, .acquire 0, .access 0,
    .call 1 .dump, .access 0, .access 0, .access 0, .access 0, .access 0, .access 0, .access 0,
    .release 0, .acquire 1, .access 1, .access 1, .access 1, .release 1] = some (_, _))
  exact ⟨_, _, hrun, rfl, linearized hrun⟩

end run

end AioServer.StatsLock
