/-
# Packed records

Redis stores one text for each lease and for each registered worker. A lease
record is the byte length of the worker id, a colon, the worker id and the lease
token. The length prefix makes the record unambiguous whatever bytes the worker
id and the token contain, so comparing records compares holders.
-/

import Redloop.Types

namespace Redloop

/-- The lease record of a worker id and a lease token. -/
def packMeta (workerId leaseToken : Bytes) : Bytes :=
  decimal workerId.length ++ colon :: (workerId ++ leaseToken)

/-- The worker id of a lease record, as the scripts read it back. The length is
read as a plain numeral, which is what the reserve script writes; other texts that
`tonumber` takes for numbers, such as `0x6`, `6.0` or a numeral between blanks, are not
modelled. -/
def workerFromMeta (record : Bytes) : Option Bytes :=
  match record.dropWhile (· ≠ colon) with
  | [] => none
  | _ :: body =>
      (parseDecimal (record.takeWhile (· ≠ colon))).map fun length => body.take length

theorem takeWhile_packMeta (workerId leaseToken : Bytes) :
    (packMeta workerId leaseToken).takeWhile (· ≠ colon) = decimal workerId.length :=
  takeWhile_append_mark (colon_not_mem_decimal _) _

theorem dropWhile_packMeta (workerId leaseToken : Bytes) :
    (packMeta workerId leaseToken).dropWhile (· ≠ colon) =
      colon :: (workerId ++ leaseToken) :=
  dropWhile_append_mark (colon_not_mem_decimal _) _

/-- The scripts recover the worker id of every record they pack. -/
@[simp]
theorem workerFromMeta_packMeta (workerId leaseToken : Bytes) :
    workerFromMeta (packMeta workerId leaseToken) = some workerId := by
  rw [workerFromMeta, dropWhile_packMeta, takeWhile_packMeta]
  simp

/-- Lease records are equal only for the same worker id and the same token. -/
@[simp]
theorem packMeta_inj {workerId otherWorker leaseToken otherToken : Bytes} :
    packMeta workerId leaseToken = packMeta otherWorker otherToken ↔
      workerId = otherWorker ∧ leaseToken = otherToken := by
  refine ⟨fun heq => ?_, fun ⟨hworker, htoken⟩ => by rw [hworker, htoken]⟩
  have hprefix := congrArg (List.takeWhile (· ≠ colon)) heq
  have hbody := congrArg (List.dropWhile (· ≠ colon)) heq
  rw [takeWhile_packMeta, takeWhile_packMeta] at hprefix
  rw [dropWhile_packMeta, dropWhile_packMeta] at hbody
  exact List.append_inj (List.cons.inj hbody).2 (decimal_injective hprefix)

namespace Backoff

/-- The text by which a backoff is compared. -/
def key : Backoff → Bytes
  | none => "none"
  | fixed delayMs => utf8 "fixed:" ++ decimal delayMs.toNat
  | exponential initialDelayMs multiplier maxDelayMs =>
      utf8 "exponential:" ++ decimal initialDelayMs.toNat ++ utf8 ":" ++
        decimal multiplier.toNat ++ utf8 ":" ++ decimal maxDelayMs.toNat

end Backoff

namespace WorkerConfig

/-- The text by which the retry policies of a namespace's workers are compared. -/
def retryPolicyKey (config : WorkerConfig) : Bytes :=
  match config.retryPolicy with
  | .never => "never"
  | .count maxRetries backoff =>
      utf8 "count:" ++ decimal maxRetries.toNat ++ utf8 ":" ++ backoff.key
  | .infinite backoff => utf8 "infinite:" ++ backoff.key

end WorkerConfig

/-- The registration record of a worker. -/
def packWorkerConfigRecord (config : WorkerConfig) : Bytes :=
  decimal config.concurrency.toNat ++ utf8 ":" ++
    decimal config.leaseDuration.asMillis ++ utf8 ":" ++
    decimal config.heartbeatInterval.asMillis ++ utf8 ":" ++
    decimal config.reapInterval.asMillis ++ utf8 ":" ++
    decimal config.pollIntervalMin.asMillis ++ utf8 ":" ++
    decimal config.pollIntervalMax.asMillis ++ utf8 ":" ++ config.retryPolicyKey

end Redloop
