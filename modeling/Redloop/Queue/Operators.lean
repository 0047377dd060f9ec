/-
# Operator commands and worker operations

The operator script codes again what other scripts do. A requeue and a retry_now make
a waiting or failed job ready as an immediate enqueue does, and force_retry does so
for a failed job. A force_ack and a force_fail end a lease as its holder does by an ack
and by a terminal failure. In every reachable state the two paths lead to one store.
-/

import Redloop.Queue.Fencing

namespace Redloop

namespace Store

variable {s : Store} {jobId workerId leaseToken : Bytes} {state : JobState}

/-! ## Making a job ready -/

/-- An immediate enqueue moves a job that is not leased as a requeue does. -/
theorem enqueueImmediate_eq_requeue (hfound : (s.currentState jobId).1 = some state)
    (hleased : state ≠ .leased) (now requested : ℤ) (mode : ReplaceMode) :
    (s.enqueueOrReschedule .enqueueImmediate jobId now requested mode).1 =
      (s.requeue jobId (Double.ofInt now) state).1 := by
  obtain ⟨found, score, hcurrent⟩ : ∃ found score, s.currentState jobId = (found, score) :=
    ⟨_, _, rfl⟩
  rw [hcurrent] at hfound
  cases hfound
  unfold enqueueOrReschedule
  rw [hcurrent]
  cases state with
  | ready => rfl
  | scheduled => rfl
  | leased => exact absurd rfl hleased
  | failed => rfl

/-- A retry_now is a requeue. -/
theorem next_retryNow (s : Store) (jobId : Bytes) (now : Timestamp) :
    s.next (.operator .retryNow jobId now) = s.next (.operator .requeue jobId now) := by
  show (s.operatorTransition .retryNow jobId (micros now)).1 =
    (s.operatorTransition .requeue jobId (micros now)).1
  unfold operatorTransition
  split <;> rfl

/-- What a requeue leads to. -/
theorem next_requeue (hfound : (s.currentState jobId).1 = some state) (now : Timestamp) :
    s.next (.operator .requeue jobId now) =
      (s.requeue jobId (Double.ofInt (micros now)) state).1 := by
  show (s.operatorTransition .requeue jobId (micros now)).1 = _
  unfold operatorTransition
  rw [hfound]

/-- A force_retry of a failed job is a requeue. -/
theorem next_forceRetry (hfound : (s.currentState jobId).1 = some .failed) (now : Timestamp) :
    s.next (.operator .forceRetry jobId now) = s.next (.operator .requeue jobId now) := by
  rw [next_requeue hfound]
  show (s.operatorTransition .forceRetry jobId (micros now)).1 = _
  unfold operatorTransition
  rw [hfound]
  rfl

/-! ## Ending a lease -/

/-- The force commands find the holder in the lease record. -/
theorem forceLeased_eq (hholds : s.HoldsLease jobId workerId leaseToken)
    (command : Store → Store) :
    s.forceLeased jobId .leased command = (command (s.dropLease jobId workerId), [utf8 "ok"]) := by
  unfold forceLeased
  rw [if_neg (not_not.mpr rfl), hholds.1]
  dsimp only
  rw [workerFromMeta_packMeta]

/-- A force_ack is the ack of the holder. -/
theorem next_forceAck (hholds : s.HoldsLease jobId workerId leaseToken)
    (hfound : (s.currentState jobId).1 = some .leased) (now : Timestamp) :
    s.next (.operator .forceAck jobId now) = s.next (.ack workerId jobId leaseToken now) := by
  show (s.operatorTransition .forceAck jobId (micros now)).1 =
    (s.ack jobId workerId leaseToken (micros now)).1
  unfold operatorTransition ack
  rw [hfound, if_neg (not_not.mpr hholds)]
  dsimp only
  rw [forceLeased_eq hholds]
  rfl

/-- A force_fail is the terminal failure of the holder. -/
theorem next_forceFail (hholds : s.HoldsLease jobId workerId leaseToken)
    (hfound : (s.currentState jobId).1 = some .leased) (now : Timestamp) (policy : RetryPolicy) :
    s.next (.operator .forceFail jobId now) =
      s.next (.failOrRetry ⟨workerId, jobId, leaseToken, .terminal, policy, now⟩) := by
  show (s.operatorTransition .forceFail jobId (micros now)).1 =
    (s.failOrRetry jobId workerId leaseToken (micros now) .terminal (failureArgs policy)).1
  unfold operatorTransition failOrRetry
  rw [hfound, if_neg (not_not.mpr hholds)]
  dsimp only
  rw [forceLeased_eq hholds, if_pos (Or.inl rfl)]
  rfl

/-! ## Reachable states -/

/-- The sets that a job is in determine the state that the scripts find. -/
theorem currentState_of_refines {jobs : Bytes → Job} (hrefines : Refines s jobs)
    (jobId : Bytes) :
    ((s.failed.score jobId).isSome → (s.currentState jobId).1 = some .failed) ∧
      ((s.leased.score jobId).isSome → (s.currentState jobId).1 = some .leased) ∧
        ((s.ready.score jobId).isSome ∨ (s.scheduled.score jobId).isSome →
          ∃ state, (s.currentState jobId).1 = some state ∧ state ≠ .leased) := by
  have hslot := hrefines.slot_eq jobId
  rw [currentState_eq hslot]
  cases hplacement : (jobs jobId).placement <;>
    simp_all [Slot.ext_iff, slot, Job.toSlot]

/-- In every reachable state an operator command leads to the store that the other path
leads to: for a job in ready, scheduled or failed, an immediate enqueue, a requeue and a
retry_now agree, and for a failed job a force_retry as well; for a leased job a force_ack
agrees with the ack of the holder, and a force_fail with its terminal failure. -/
theorem operator_paths_agree (ops : List Op) (jobId : Bytes) (now : Timestamp) :
    let s := empty.run ops
    ((s.ready.score jobId).isSome ∨ (s.scheduled.score jobId).isSome ∨
        (s.failed.score jobId).isSome →
      ∀ scheduleAt mode,
        s.next (.enqueue ⟨jobId, scheduleAt, mode, true⟩ now) =
            s.next (.operator .requeue jobId now) ∧
          s.next (.operator .retryNow jobId now) = s.next (.operator .requeue jobId now)) ∧
      ((s.failed.score jobId).isSome →
        s.next (.operator .forceRetry jobId now) = s.next (.operator .requeue jobId now)) ∧
        ∀ workerId leaseToken, s.HoldsLease jobId workerId leaseToken →
          s.next (.operator .forceAck jobId now) = s.next (.ack workerId jobId leaseToken now) ∧
            ∀ policy, s.next (.operator .forceFail jobId now) =
              s.next (.failOrRetry ⟨workerId, jobId, leaseToken, .terminal, policy, now⟩) := by
  intro s
  obtain ⟨jobs, hrefines⟩ := exists_refines_run ops
  obtain ⟨hfailed, hleased, hwaiting⟩ := currentState_of_refines hrefines jobId
  refine ⟨fun hplaced scheduleAt mode => ⟨?_, next_retryNow s jobId now⟩, ?_, ?_⟩
  · have hfound : ∃ state, (s.currentState jobId).1 = some state ∧ state ≠ .leased := by
      rcases hplaced with hready | hscheduled | hset
      · exact hwaiting (Or.inl hready)
      · exact hwaiting (Or.inr hscheduled)
      · exact ⟨.failed, hfailed hset, by simp⟩
    obtain ⟨state, hstate, hne⟩ := hfound
    rw [next_requeue hstate]
    exact enqueueImmediate_eq_requeue hstate hne (micros now) (scheduleMicros scheduleAt) mode
  · intro hset
    exact next_forceRetry (hfailed hset) now
  · intro workerId leaseToken hholds
    have hfound := hleased hholds.2
    exact ⟨next_forceAck hholds hfound now, next_forceFail hholds hfound now⟩

/-- A job that is leased and marked for a rerun is ready after a force_ack, as after the
ack of its worker. -/
theorem operator_paths_agree_sample :
    let s := empty.run
      (sampleLeaseRun ++ [.enqueue ⟨"job", none, .always, true⟩ (.ofSeconds 3)])
    s.next (.operator .forceAck "job" (.ofSeconds 4)) =
        s.next (.ack "worker" "job" "token" (.ofSeconds 4)) ∧
      (s.next (.operator .forceAck "job" (.ofSeconds 4))).ready.score "job" ≠ none := by
  intro s
  have hholds : s.HoldsLease "job" "worker" "token" := by decide
  have hagree := (operator_paths_agree _ "job" (.ofSeconds 4)).2.2 "worker" "token" hholds
  exact ⟨hagree.1, by decide⟩

end Store

end Redloop
