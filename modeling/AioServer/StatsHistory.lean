import AioServer.Statistics
import Mathlib.Data.List.Induction
import Mathlib.Order.Bounds.Basic

/-!
# Server statistics: the history of the counters

What the counters of `base/statistics.c` are after a sequence of calls of
`server_update_stats`, against the number of connections that were added and deleted, its
greatest difference so far, and the bytes that were transferred.

* `total_eq`, `concurrent_eq`, `peak_isGreatest`, `bytes_eq`: the four counters;
* `matchesHistory_iff`: they say what their names say as long as no connection is deleted,
  since a deletion is taken off the total as well.
-/

namespace AioServer

/-- The calls one after the other, on zeroed statistics. -/
def serverStatsAfter (events : List StatsType) : ServerStats :=
  events.foldl serverUpdateStats ServerStats.zero

/-- Connections that were added and not deleted. -/
def connectionBalance (events : List StatsType) : ℤ :=
  events.count .addConnection - events.count .delConnection

/-- The amount that one call reports. -/
def StatsType.bytes : StatsType → ℕ
  | .transferSuccess bytes => bytes
  | _ => 0

/-- The counters match the history. -/
structure MatchesHistory (events : List StatsType) : Prop where
  total : (serverStatsAfter events).ssTotalConnections = events.count .addConnection
  concurrent : (serverStatsAfter events).ssConcurrentConnections = connectionBalance events
  peak : IsGreatest {k | ∃ before, before <+: events ∧ k = connectionBalance before}
    (serverStatsAfter events).ssPeakConnections
  bytes : (serverStatsAfter events).ssTotalBytes = (events.map StatsType.bytes).sum % 2 ^ 32
  monotone : ∀ before, before <+: events →
    (serverStatsAfter before).ssTotalConnections ≤ (serverStatsAfter events).ssTotalConnections
  concurrent_le_peak : (serverStatsAfter events).ssConcurrentConnections ≤
    (serverStatsAfter events).ssPeakConnections
  peak_le_total : (serverStatsAfter events).ssPeakConnections ≤
    (serverStatsAfter events).ssTotalConnections

variable (events : List StatsType)

@[simp] theorem serverStatsAfter_snoc (e : StatsType) :
    serverStatsAfter (events ++ [e]) = serverUpdateStats (serverStatsAfter events) e := by
  simp [serverStatsAfter]

@[simp] theorem connectionBalance_snoc (e : StatsType) : connectionBalance (events ++ [e]) =
    connectionBalance events +
      match e with
      | .addConnection => 1
      | .delConnection => -1
      | .transferSuccess _ => 0 := by
  cases e <;> simp [connectionBalance] <;> omega

/-! ## The counters -/

theorem concurrent_eq :
    (serverStatsAfter events).ssConcurrentConnections = connectionBalance events := by
  induction events using List.reverseRecOn with
  | nil => rfl
  | append_singleton events e ih =>
    rw [serverStatsAfter_snoc, connectionBalance_snoc, ← ih]
    cases e with
    | addConnection => rfl
    | delConnection => exact Int.sub_eq_add_neg
    | transferSuccess bytes => exact (Int.add_zero _).symm

/-- A deletion is taken off the total. -/
theorem total_eq :
    (serverStatsAfter events).ssTotalConnections = connectionBalance events := by
  induction events using List.reverseRecOn with
  | nil => rfl
  | append_singleton events e ih =>
    rw [serverStatsAfter_snoc, connectionBalance_snoc, ← ih]
    cases e with
    | addConnection => rfl
    | delConnection => exact Int.sub_eq_add_neg
    | transferSuccess bytes => exact (Int.add_zero _).symm

theorem bytes_eq :
    (serverStatsAfter events).ssTotalBytes = (events.map StatsType.bytes).sum % 2 ^ 32 := by
  induction events using List.reverseRecOn with
  | nil => rfl
  | append_singleton events e ih =>
    rw [serverStatsAfter_snoc, List.map_append, List.sum_append]
    cases e with
    | addConnection => simpa [serverUpdateStats, StatsType.bytes] using ih
    | delConnection => simpa [serverUpdateStats, StatsType.bytes] using ih
    | transferSuccess bytes => simp [serverUpdateStats, StatsType.bytes, ih, Nat.mod_add_mod]

/-- The values at the moments of a longer history. -/
theorem prefix_snoc_iff {events before : List StatsType} {e : StatsType} :
    before <+: events ++ [e] ↔ before <+: events ∨ before = events ++ [e] := by
  rw [List.prefix_concat_iff]
  exact or_comm

theorem peak_isGreatest :
    IsGreatest {k | ∃ before, before <+: events ∧ k = connectionBalance before}
      (serverStatsAfter events).ssPeakConnections := by
  induction events using List.reverseRecOn with
  | nil =>
    refine ⟨⟨[], List.prefix_refl _, rfl⟩, ?_⟩
    rintro k ⟨before, hpre, rfl⟩
    rw [List.prefix_nil.mp hpre]
    exact Int.le_refl _
  | append_singleton events e ih =>
    obtain ⟨⟨top, htop, hpeak⟩, hle⟩ := ih
    have hconc := concurrent_eq events
    have hnow : connectionBalance events ≤ (serverStatsAfter events).ssPeakConnections :=
      hle ⟨events, List.prefix_refl _, rfl⟩
    have hold : ∀ before, before <+: events →
        connectionBalance before ≤ (serverStatsAfter events).ssPeakConnections :=
      fun before hbefore => hle ⟨before, hbefore, rfl⟩
    rw [serverStatsAfter_snoc]
    -- the old peak, unless the new value is greater
    have hkeep : connectionBalance (events ++ [e]) ≤ (serverStatsAfter events).ssPeakConnections →
        IsGreatest {k | ∃ before, before <+: events ++ [e] ∧ k = connectionBalance before}
          (serverStatsAfter events).ssPeakConnections := by
      intro hlast
      refine ⟨⟨top, htop.trans (List.prefix_append _ _), hpeak⟩, ?_⟩
      rintro k ⟨before, hbefore, rfl⟩
      obtain hbefore | rfl := prefix_snoc_iff.mp hbefore
      · exact hold before hbefore
      · exact hlast
    rw [connectionBalance_snoc] at hkeep
    cases e with
    | addConnection =>
      simp only [serverUpdateStats, hconc]
      split_ifs with hlt
      · refine ⟨⟨events ++ [.addConnection], List.prefix_refl _, by simp⟩, ?_⟩
        rintro k ⟨before, hbefore, rfl⟩
        obtain hbefore | rfl := prefix_snoc_iff.mp hbefore
        · have := hold before hbefore
          omega
        · simp
      · exact hkeep (by simp only; omega)
    | delConnection => exact hkeep (by simp only; omega)
    | transferSuccess bytes => exact hkeep (by simp only; omega)

/-! ## The history -/

theorem count_prefix_le {events before : List StatsType} (h : before <+: events) :
    before.count .addConnection ≤ events.count .addConnection :=
  h.sublist.count_le _

/-- For every sequence of calls: the counters match the history if and only if no connection was
deleted. -/
theorem matchesHistory_iff : MatchesHistory events ↔ .delConnection ∉ events := by
  constructor
  · intro h hdel
    have hpos : 0 < events.count .delConnection := List.count_pos_iff.mpr hdel
    have htotal := h.total
    rw [total_eq, connectionBalance] at htotal
    omega
  · intro hno
    have hbalance : ∀ before, before <+: events →
        connectionBalance before = before.count .addConnection := by
      intro before hbefore
      have hzero : before.count .delConnection = 0 :=
        List.count_eq_zero_of_not_mem fun hmem => hno (hbefore.subset hmem)
      simp [connectionBalance, hzero]
    have hself := List.prefix_refl events
    refine ⟨?_, concurrent_eq events, peak_isGreatest events, bytes_eq events, ?_, ?_, ?_⟩
    · rw [total_eq, hbalance events hself]
    · intro before hbefore
      have hle := count_prefix_le hbefore
      rw [total_eq, total_eq, hbalance before hbefore, hbalance events hself]
      omega
    · rw [concurrent_eq]
      exact (peak_isGreatest events).2 ⟨events, hself, rfl⟩
    · obtain ⟨top, htop, hpeak⟩ := (peak_isGreatest events).1
      have hle := count_prefix_le htop
      rw [hpeak, total_eq, hbalance top htop, hbalance events hself]
      omega

/-- One connection that comes and goes leaves a total of 0. -/
theorem total_forgets_connection : ¬ ∀ events : List StatsType,
    (∀ before, before <+: events →
      before.count .delConnection ≤ before.count .addConnection) →
    events.length < 2 ^ 31 → MatchesHistory events := by
  intro h
  have hpre : ∀ before, before <+: [StatsType.addConnection, .delConnection] →
      before.count .delConnection ≤ before.count .addConnection := by
    intro before hbefore
    simp only [List.prefix_cons_iff, List.prefix_nil] at hbefore
    obtain rfl | ⟨before, rfl, rfl | ⟨last, rfl, rfl⟩⟩ := hbefore <;> decide
  have htotal := (h [.addConnection, .delConnection] hpre (by decide)).total
  revert htotal
  decide

end AioServer
