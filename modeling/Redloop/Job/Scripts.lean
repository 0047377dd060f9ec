/-
# The single-job scripts realize the job machine

One theorem for each script that is aimed at one job: on the slot of a job the
script does what the transition of the job does, it answers ok exactly when the
transition is not refused, and it leaves the slots of other jobs alone. Each
proof follows the placements of the job, which decide the branch the script takes.
-/

import Redloop.Job.Slot

namespace Redloop

namespace Store

variable {s : Store} {jobId : Bytes} {job : Job}

/-! ## Lease scripts -/

/-- A reply that reports success without a change realizes a job that stays. -/
theorem realizes_self (hslot : s.slot jobId = job.toSlot) (rest : List Bytes) :
    Realizes s (s, utf8 "ok" :: rest) jobId (some job) :=
  ⟨hslot, Reply.isOk_ok _, fun _ _ => rfl⟩

/-- A script behind the lease check realizes a transition of the lease holder if
it does so for the holder. -/
theorem realizes_asHolder (hslot : s.slot jobId = job.toSlot) {workerId leaseToken : Bytes}
    {success : Store × Reply} {transition : Bool → Job}
    (hsuccess : ∀ deadline rerun, job.placement = .leased deadline workerId leaseToken rerun →
      Realizes s success jobId (some (transition rerun))) :
    Realizes s
      (if ¬ s.HoldsLease jobId workerId leaseToken then (s, Reply.leaseMismatch) else success)
      jobId (job.asHolder workerId leaseToken transition) := by
  by_cases hholder : job.LeasedTo workerId leaseToken
  · obtain ⟨deadline, rerun, hplacement⟩ := hholder
    have hholds := (holdsLease_iff hslot).mpr ⟨deadline, rerun, hplacement⟩
    rw [if_neg (not_not.mpr hholds)]
    simpa [Job.asHolder, hplacement] using hsuccess deadline rerun hplacement
  · have hholds := mt (holdsLease_iff hslot).mp hholder
    have hrefused : job.asHolder workerId leaseToken transition = none := by
      unfold Job.asHolder
      split
      · next deadline holder token rerun hplacement =>
          rw [if_neg]
          rintro ⟨rfl, rfl⟩
          exact hholder ⟨deadline, rerun, hplacement⟩
      · rfl
    rw [if_pos hholds, hrefused]
    exact ⟨rfl, Reply.isOk_leaseMismatch⟩

theorem heartbeat_realizes (hslot : s.slot jobId = job.toSlot) (workerId leaseToken : Bytes)
    (now deadline : ℤ) :
    Realizes s (s.heartbeat jobId workerId leaseToken now deadline) jobId
      (job.heartbeat workerId leaseToken (Double.ofInt deadline)) := by
  refine realizes_asHolder hslot fun found rerun hplacement => ?_
  simp only [Slot.ext_iff, slot, Job.toSlot, hplacement] at hslot
  refine ⟨?_, Reply.isOk_ok _, fun other hne => ?_⟩
  · simp [slot, Job.moveTo, Job.toSlot, hslot]
  · simp [slot, hne]

theorem ack_realizes (hslot : s.slot jobId = job.toSlot) (workerId leaseToken : Bytes)
    (now : ℤ) :
    Realizes s (s.ack jobId workerId leaseToken now) jobId
      (job.ack workerId leaseToken (Double.ofInt now)) := by
  refine realizes_asHolder hslot fun found rerun hplacement => ?_
  simp only [Slot.ext_iff, slot, Job.toSlot, hplacement] at hslot
  have hrerun : rerun = decide (jobId ∈ s.rerun) := hslot.2.2.2.2.2.1.symm
  subst hrerun
  by_cases hmarked : jobId ∈ s.rerun
  all_goals
    simp only [dropLease, rerunIfMarked, hmarked, if_true, if_false, decide_true, decide_false]
    refine ⟨?_, Reply.isOk_ok _, fun other hne => ?_⟩
    · simp [slot, Job.toSlot, hmarked, hslot]
    · simp [slot, hne]

theorem completeAndReschedule_realizes (hslot : s.slot jobId = job.toSlot)
    (workerId leaseToken : Bytes) (now schedule : ℤ) :
    Realizes s (s.completeAndReschedule jobId workerId leaseToken now schedule) jobId
      (job.completeAndReschedule workerId leaseToken
        (normalizeTarget (Double.ofInt schedule) (Double.ofInt now)) (Double.ofInt now)) := by
  refine realizes_asHolder hslot fun found rerun hplacement => ?_
  simp only [Slot.ext_iff, slot, Job.toSlot, hplacement] at hslot
  have hrerun : rerun = decide (jobId ∈ s.rerun) := hslot.2.2.2.2.2.1.symm
  subst hrerun
  by_cases hmarked : jobId ∈ s.rerun
  · simp only [dropLease, rerunIfMarked, hmarked, if_true, decide_true]
    refine ⟨?_, Reply.isOk_ok _, fun other hne => ?_⟩
    · simp [slot, Job.toSlot, hslot]
    · simp [slot, hne]
  · simp only [dropLease, hmarked, if_false, decide_false, normalizeTarget]
    by_cases hdue : Double.ofInt schedule = 0 ∨ Double.ofInt schedule ≤ Double.ofInt now
    all_goals
      simp only [hdue, if_true, if_false]
      refine ⟨?_, Reply.isOk_ok _, fun other hne => ?_⟩
      · simp [slot, Job.toSlot, Target.placement, hmarked, hslot]
      · simp [slot, hne]

theorem failOrRetry_realizes (hslot : s.slot jobId = job.toSlot) (workerId leaseToken : Bytes)
    (now : ℤ) (action : FailureAction) (args : PolicyArgs) :
    Realizes s (s.failOrRetry jobId workerId leaseToken now action args) jobId
      (job.failOrRetry workerId leaseToken action args (Double.ofInt now)) := by
  refine realizes_asHolder hslot fun found rerun hplacement => ?_
  simp only [Slot.ext_iff, slot, Job.toSlot, hplacement] at hslot
  have hcounter : Hash.counter s.failures jobId + 1 = job.countFailure := by
    simp [Hash.counter, Job.countFailure, hslot]
  have hcount : Hash.counter (Hash.incrBy s.failures jobId 1) jobId = job.countFailure := by
    simp [Hash.counter, Hash.lookup_incrBy, ← hcounter]
  simp only [dropLease, hcount, Job.failurePlacement]
  split_ifs with hfailed hready
  all_goals
    refine ⟨?_, Reply.isOk_ok _, fun other hne => ?_⟩
    · simp [slot, Job.toSlot, Hash.lookup_incrBy, hcounter, hslot]
    · simp [slot, Hash.lookup_incrBy, hne]

/-! ## Operator commands -/

theorem operatorTransition_realizes (hslot : s.slot jobId = job.toSlot) (op : OperatorOp)
    (now : ℤ) :
    Realizes s (s.operatorTransition op jobId now) jobId
      (job.operator op (Double.ofInt now)) := by
  have hstate := currentState_eq hslot
  obtain ⟨placement, failures⟩ := job
  unfold operatorTransition
  rw [hstate]
  cases placement with
  | absent => cases op <;> exact ⟨rfl, Reply.isOk_notFound⟩
  | ready score =>
      cases op with
      | requeue => exact realizes_self hslot _
      | retryNow => exact realizes_self hslot _
      | cancel | forceRetry | forceAck | forceFail => exact ⟨rfl, Reply.isOk_invalidState _⟩
  | scheduled score =>
      simp only [Slot.ext_iff, slot, Job.toSlot] at hslot
      cases op with
      | cancel | requeue | retryNow =>
          refine ⟨?_, Reply.isOk_ok _, fun other hne => ?_⟩
          · simp [cancel, requeue, slot, Job.absent, Job.moveTo, Job.toSlot, hslot]
          · simp [cancel, requeue, slot, hne]
      | forceRetry | forceAck | forceFail => exact ⟨rfl, Reply.isOk_invalidState _⟩
  | failed score =>
      simp only [Slot.ext_iff, slot, Job.toSlot] at hslot
      cases op with
      | cancel | requeue | retryNow | forceRetry =>
          refine ⟨?_, Reply.isOk_ok _, fun other hne => ?_⟩
          · simp [cancel, requeue, forceRetry, reactivate, slot, Job.absent, Job.toSlot, hslot]
          · simp [cancel, requeue, forceRetry, reactivate, slot, hne]
      | forceAck | forceFail => exact ⟨rfl, Reply.isOk_invalidState _⟩
  | leased deadline workerId leaseToken rerun =>
      simp only [Slot.ext_iff, slot, Job.toSlot] at hslot
      have hrerun : rerun = decide (jobId ∈ s.rerun) := hslot.2.2.2.2.2.1.symm
      subst hrerun
      cases op with
      | forceAck =>
          by_cases hmarked : jobId ∈ s.rerun
          all_goals
            simp only [forceLeased, hslot, workerFromMeta_packMeta, forceAck, rerunIfMarked,
              dropLease, ne_eq, not_true, hmarked, if_true, if_false, decide_true, decide_false]
            refine ⟨?_, Reply.isOk_ok _, fun other hne => ?_⟩
            · simp [slot, Job.toSlot, hmarked, hslot]
            · simp [slot, hne]
      | forceFail =>
          simp only [forceLeased, hslot, workerFromMeta_packMeta, forceFail, dropLease, ne_eq,
            not_true, if_false]
          refine ⟨?_, Reply.isOk_ok _, fun other hne => ?_⟩
          · simp [slot, Job.toSlot, Job.countFailure, Hash.lookup_incrBy, Hash.counter, hslot]
          · simp [slot, Hash.lookup_incrBy, hne]
      | cancel | requeue | retryNow | forceRetry => exact ⟨rfl, Reply.isOk_invalidState _⟩

/-! ## Enqueue and reschedule -/

/-- A target is never a set other than ready and scheduled. -/
theorem normalizeTarget_state (requestedUs nowUs : ℤ) :
    (normalizeTarget requestedUs nowUs).state = .ready ∨
      (normalizeTarget requestedUs nowUs).state = .scheduled := by
  unfold normalizeTarget
  split
  · exact Or.inl rfl
  · exact Or.inr rfl

/-- The placement of a waiting job, from the state and score the scripts find. -/
def waitingPlacement (state : JobState) (score : ℤ) : Placement :=
  if state = .ready then .ready score else .scheduled score

/-- The scripts compare state and score, which is comparing placements. -/
theorem waitingPlacement_eq_iff {state : JobState} (hstate : state = .ready ∨ state = .scheduled)
    (score : ℤ) {target : Target}
    (htarget : target.state = .ready ∨ target.state = .scheduled) :
    waitingPlacement state score = target.placement ↔
      state = target.state ∧ score = target.score := by
  unfold waitingPlacement Target.placement
  rcases hstate with rfl | rfl <;> rcases htarget with htarget | htarget <;> simp [htarget]

/-- Moving a waiting job to its target. -/
theorem slot_moveWaiting (hslot : s.slot jobId = job.toSlot) {state : JobState} {score : ℤ}
    (hstate : state = .ready ∨ state = .scheduled)
    (hplacement : job.placement = waitingPlacement state score)
    {target : Target} (htarget : target.state = .ready ∨ target.state = .scheduled) :
    (s.moveWaiting state target jobId).slot jobId = (job.moveTo target.placement).toSlot ∧
      ∀ other, other ≠ jobId → (s.moveWaiting state target jobId).slot other = s.slot other := by
  rcases hstate with rfl | rfl <;> rcases htarget with htarget | htarget
  all_goals
    simp only [waitingPlacement, if_true, reduceCtorEq, if_false] at hplacement
    simp only [Slot.ext_iff, slot, Job.toSlot, hplacement] at hslot
    refine ⟨?_, fun other hne => ?_⟩
    · simp [moveWaiting, removeWaiting, clearRerun, addTarget, Target.placement, htarget, slot,
        Job.moveTo, Job.toSlot, hslot]
    · simp [moveWaiting, removeWaiting, clearRerun, addTarget, htarget, slot, hne]

/-- The decision of both waiting branches: keep the job, or move it to its target. -/
theorem replaceWaiting_realizes (hslot : s.slot jobId = job.toSlot) {state : JobState}
    {score : ℤ} (hstate : state = .ready ∨ state = .scheduled)
    (hplacement : job.placement = waitingPlacement state score)
    {target : Target} (htarget : target.state = .ready ∨ target.state = .scheduled)
    (mode : ReplaceMode) {result : Store × Reply} (hok : result.2.isOk = true)
    (hkeep : (state = target.state ∧ score = target.score) ∨
      ¬ mode.shouldReplace target.score score → result.1 = s)
    (hmove : ¬ ((state = target.state ∧ score = target.score) ∨
      ¬ mode.shouldReplace target.score score) → result.1 = s.moveWaiting state target jobId) :
    Realizes s result jobId (some (job.replaceWaiting target mode score)) := by
  have hsame := waitingPlacement_eq_iff hstate score htarget
  rw [← hplacement] at hsame
  simp only [Job.replaceWaiting, hsame]
  split_ifs with hkept
  · rw [Realizes, hkeep hkept]
    exact ⟨hslot, hok, fun _ _ => rfl⟩
  · obtain ⟨hmoved, hframe⟩ := slot_moveWaiting hslot hstate hplacement htarget
    rw [Realizes, hmove hkept]
    exact ⟨hmoved, hok, hframe⟩

theorem reschedule_realizes (hslot : s.slot jobId = job.toSlot) (nowUs requestedUs : ℤ)
    (mode : ReplaceMode) :
    Realizes s (s.reschedule jobId nowUs requestedUs mode) jobId
      (job.reschedule (normalizeTarget requestedUs nowUs) mode) := by
  have hcurrent := currentState_eq hslot
  have htarget := normalizeTarget_state requestedUs nowUs
  obtain ⟨placement, failures⟩ := job
  unfold reschedule
  rw [hcurrent]
  cases placement with
  | absent => exact ⟨rfl, Reply.isOk_notFound⟩
  | leased deadline workerId leaseToken rerun => exact ⟨rfl, Reply.isOk_invalidState _⟩
  | failed score => exact ⟨rfl, Reply.isOk_invalidState _⟩
  | ready score =>
      refine replaceWaiting_realizes hslot (Or.inl rfl) rfl htarget mode ?_ ?_ ?_
      all_goals
        simp only [reduceCtorEq, or_self, if_false]
        split_ifs <;> grind [Reply.isOk_ok]
  | scheduled score =>
      refine replaceWaiting_realizes hslot (Or.inr rfl) rfl htarget mode ?_ ?_ ?_
      all_goals
        simp only [reduceCtorEq, or_self, if_false]
        split_ifs <;> grind [Reply.isOk_ok]

/-- The immediate branch. A job that has failed is cleared before. -/
theorem enqueueImmediate_realizes (hslot : s.slot jobId = job.toSlot) (now requested : ℤ)
    (mode : ReplaceMode) :
    Realizes s (s.enqueueOrReschedule .enqueueImmediate jobId now requested mode) jobId
      (some (job.enqueueImmediate (Double.ofInt now))) := by
  have hcurrent := currentState_eq hslot
  obtain ⟨placement, failures⟩ := job
  unfold enqueueOrReschedule
  rw [hcurrent]
  cases placement with
  | absent =>
      simp only [Slot.ext_iff, slot, Job.toSlot] at hslot
      refine ⟨?_, Reply.isOk_ok _, fun other hne => ?_⟩
      · simp [enqueueImmediate, slot, Job.enqueueImmediate, Job.moveTo, Job.toSlot, hslot]
      · simp [enqueueImmediate, slot, hne]
  | ready score => exact realizes_self hslot _
  | scheduled score =>
      simp only [Slot.ext_iff, slot, Job.toSlot] at hslot
      refine ⟨?_, Reply.isOk_ok _, fun other hne => ?_⟩
      · simp [enqueueImmediate, slot, Job.enqueueImmediate, Job.moveTo, Job.toSlot, hslot]
      · simp [enqueueImmediate, slot, hne]
  | leased deadline workerId leaseToken rerun =>
      simp only [Slot.ext_iff, slot, Job.toSlot] at hslot
      by_cases hmarked : jobId ∈ s.rerun
      all_goals
        simp only [Option.some.injEq, reduceCtorEq, if_false,
          enqueueImmediate, hmarked, if_true]
        refine ⟨?_, Reply.isOk_ok _, fun other hne => ?_⟩
        · simp [slot, Job.enqueueImmediate, Job.moveTo, Job.toSlot, hmarked, hslot]
        · simp [slot, hne]
  | failed score =>
      simp only [Slot.ext_iff, slot, Job.toSlot] at hslot
      refine ⟨?_, Reply.isOk_ok _, fun other hne => ?_⟩
      · simp [enqueueImmediate, clearFailed, slot, Job.enqueueImmediate, Job.toSlot, hslot]
      · simp [enqueueImmediate, clearFailed, slot, hne]

/-- The scheduled branch. A job that has failed is cleared before. -/
theorem enqueueScheduled_realizes (hslot : s.slot jobId = job.toSlot) (now requested : ℤ)
    (mode : ReplaceMode) :
    Realizes s (s.enqueueOrReschedule .enqueueScheduled jobId now requested mode) jobId
      (job.enqueueScheduled (normalizeTarget (Double.ofInt requested) (Double.ofInt now))
        mode) := by
  have hcurrent := currentState_eq hslot
  have htarget := normalizeTarget_state (Double.ofInt requested) (Double.ofInt now)
  obtain ⟨placement, failures⟩ := job
  unfold enqueueOrReschedule
  rw [hcurrent]
  cases placement with
  | leased deadline workerId leaseToken rerun => exact ⟨rfl, Reply.isOk_invalidState _⟩
  | ready score =>
      refine replaceWaiting_realizes hslot (Or.inl rfl) rfl htarget mode ?_ ?_ ?_
      all_goals
        simp only [Option.some.injEq, reduceCtorEq, if_false,
          enqueueScheduled]
        split_ifs <;> grind [Reply.isOk_ok]
  | scheduled score =>
      refine replaceWaiting_realizes hslot (Or.inr rfl) rfl htarget mode ?_ ?_ ?_
      all_goals
        simp only [Option.some.injEq, reduceCtorEq, if_false,
          enqueueScheduled]
        split_ifs <;> grind [Reply.isOk_ok]
  | absent =>
      simp only [Slot.ext_iff, slot, Job.toSlot] at hslot
      refine ⟨?_, Reply.isOk_ok _, fun other hne => ?_⟩
      · rcases htarget with htarget | htarget <;>
          simp [enqueueScheduled, clearRerun, addTarget, Target.placement, htarget, slot,
            Job.moveTo, Job.toSlot, hslot]
      · rcases htarget with htarget | htarget <;>
          simp [enqueueScheduled, clearRerun, addTarget, htarget, slot, hne]
  | failed score =>
      simp only [Slot.ext_iff, slot, Job.toSlot] at hslot
      refine ⟨?_, Reply.isOk_ok _, fun other hne => ?_⟩
      · rcases htarget with htarget | htarget <;>
          simp [enqueueScheduled, clearFailed, clearRerun, addTarget, Target.placement, htarget,
            slot, Job.toSlot, hslot]
      · rcases htarget with htarget | htarget <;>
          simp [enqueueScheduled, clearFailed, clearRerun, addTarget, htarget, slot, hne]

end Store

end Redloop
