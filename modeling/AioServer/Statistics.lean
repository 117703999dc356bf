import Mathlib.Algebra.Order.Ring.Int

/-!
# Server statistics

`base/statistics.c`: the four counters behind `__ENABLE_STATISTICS__`. Every update runs
under `ss_stats_lock`, so `serverUpdateStats` is one atomic action of the thread that calls
it. The connection counters are signed; `ss_total_bytes` wraps at 32 bits.
-/

namespace AioServer

/-- `kStatsType`, with the argument the variadic call passes. -/
inductive StatsType
  | addConnection
  | delConnection
  | transferSuccess (bytes : ℕ)
deriving DecidableEq, Repr

/-- `struct server_stats`, without its lock. -/
structure ServerStats where
  ssTotalConnections : ℤ
  ssConcurrentConnections : ℤ
  ssPeakConnections : ℤ
  ssTotalBytes : ℕ
deriving DecidableEq, Repr

/-- `STATS_INITIALIZE`. -/
def ServerStats.zero : ServerStats := ⟨0, 0, 0, 0⟩

/-- `server_update_stats`. -/
def serverUpdateStats (ss : ServerStats) : StatsType → ServerStats
  | .addConnection =>
    let concurrent := ss.ssConcurrentConnections + 1
    { ss with
      ssTotalConnections := ss.ssTotalConnections + 1
      ssConcurrentConnections := concurrent
      ssPeakConnections :=
        if ss.ssPeakConnections < concurrent then concurrent else ss.ssPeakConnections }
  | .delConnection =>
    { ss with
      ssConcurrentConnections := ss.ssConcurrentConnections - 1
      ssTotalConnections := ss.ssTotalConnections - 1 }
  | .transferSuccess bytes =>
    { ss with ssTotalBytes := (ss.ssTotalBytes + bytes) % 2 ^ 32 }

end AioServer
