/-
# Counting the jobs

The jobs of a namespace are counted by five reads that are sent together without a
transaction: the ready jobs, the scheduled jobs that are due, those that are not, the
leased jobs and the failed jobs. Due is decided by the time of the caller.
-/

import Redloop.Store.Exec

namespace Redloop

/-- Queue state counts. -/
structure QueueCounts where
  readyCount : ℕ
  scheduledDueCount : ℕ
  scheduledFutureCount : ℕ
  leasedCount : ℕ
  failedCount : ℕ
  deriving DecidableEq

namespace QueueCounts

/-- All the jobs that are counted. -/
def total (counts : QueueCounts) : ℕ :=
  counts.readyCount + counts.scheduledDueCount + counts.scheduledFutureCount +
    counts.leasedCount + counts.failedCount

end QueueCounts

/-- How many entries have a score within a bound. -/
def zcount (set : ZSet) (bound : ℤ → Bool) : ℕ := (set.rangeByScore bound).length

/-- The operations that other clients run between two of the reads. -/
structure BetweenCounts where
  afterReady : List Op
  afterDue : List Op
  afterFuture : List Op
  afterLeased : List Op

namespace BetweenCounts

/-- The reads follow each other without an operation in between. -/
def none : BetweenCounts := ⟨[], [], [], []⟩

/-- All the operations, in order. -/
def ops (between : BetweenCounts) : List Op :=
  between.afterReady ++ between.afterDue ++ between.afterFuture ++ between.afterLeased

end BetweenCounts

namespace Store

/-- Count the jobs, with the operations that other clients run between the reads. -/
def countsDuring (s : Store) (between : BetweenCounts) (now : Timestamp) : QueueCounts :=
  let atDue := s.run between.afterReady
  let atFuture := atDue.run between.afterDue
  let atLeased := atFuture.run between.afterFuture
  let atFailed := atLeased.run between.afterLeased
  { readyCount := s.ready.card
    scheduledDueCount := zcount atDue.scheduled (· ≤ Double.ofInt (micros now))
    scheduledFutureCount := zcount atFuture.scheduled (Double.ofInt (micros now) < ·)
    leasedCount := atLeased.leased.card
    failedCount := atFailed.failed.card }

/-- Count the jobs of a store that nobody else changes meanwhile. -/
def counts (s : Store) (now : Timestamp) : QueueCounts := s.countsDuring .none now

end Store

end Redloop
