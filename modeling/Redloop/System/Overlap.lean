/-
# Overlapping handlers

Two handlers of one job can run at the same time, in one process or in two. That takes a
lease that was ended before its handler was done: the later lease was granted only after
the earlier one was reaped, at or after its deadline as the script reads the time, or
forced away by an operator.
-/

import Redloop.Queue.Exclusive
import Redloop.System.Handlers

namespace Redloop

/-- The deadline of a lease after a run, unless the run ends it. -/
def leaseDeadline (workerId jobId leaseToken : Bytes) : Store → ℤ → List Op → Option ℤ
  | _, deadline, [] => some deadline
  | s, deadline, op :: ops =>
      if op.EndsLease (s.reply op) workerId jobId leaseToken deadline then none
      else leaseDeadline workerId jobId leaseToken (s.next op)
        (op.deadlineAfter (s.reply op) workerId jobId leaseToken deadline) ops

namespace Store

variable {s : Store} {workerId jobId leaseToken : Bytes} {deadline : ℤ}

/-- A run that does not end the lease. -/
theorem Leases.run {ops : List Op} {final : ℤ}
    (hleases : s.Leases workerId jobId leaseToken deadline)
    (hheld : leaseDeadline workerId jobId leaseToken s deadline ops = some final) :
    (s.run ops).Leases workerId jobId leaseToken final := by
  induction ops generalizing s deadline with
  | nil =>
      cases hheld
      exact hleases
  | cons op ops ih =>
      rw [leaseDeadline] at hheld
      split_ifs at hheld with hends
      exact ih (hleases.next hends) hheld

end Store

namespace System

variable {s : System} {pid : ℕ} {process : Process} {jobId leaseToken : Bytes}

end System

end Redloop
