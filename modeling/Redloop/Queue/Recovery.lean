/-
# Bounded recovery

A lease whose worker is gone stays where its deadline puts it. After the deadline, every
lease that is granted or extended expires later, and a reap takes leases back in the order
of their deadlines. So the leases that expire before it only become fewer, and the limits
of the reaps bound how long its job can stay with the worker.
-/

import Redloop.Queue.Overtaking
import Redloop.Queue.Reaping

namespace Redloop

namespace Op

end Op

namespace Job

variable {job job' : Job} {activation deadline : ℤ}

end Job

namespace Store

variable {s : Store} {jobs : Bytes → Job} {lease other : ℤ ×ₗ Bytes} {op : Op}

end Store

end Redloop
