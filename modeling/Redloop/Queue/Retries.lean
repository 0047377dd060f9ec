/-
# Enqueueing again

A caller that has lost the reply to an enqueue sends it again, at a later time of the
clock. An immediate enqueue then finds what it has done itself. So does a scheduled one
whose time is still to come, provided that the script can tell it from a time that has
come and from no time: the numbers it compares are doubles of whole microseconds, and zero
stands for none. In every case the job is not created again and stays in one set.
-/

import Redloop.Queue.Refusal
import Redloop.Queue.Replaces

namespace Redloop

/-- The last time before the first one that no double holds. -/
def lastRepresentedTime : Timestamp :=
  ⟨9007199254740992000, by unfold minTimestampNanos maxTimestampNanos; omega⟩

/-- Two times in one microsecond. -/
def sameMicrosecond : Timestamp × Timestamp :=
  ⟨⟨5000000200, by unfold minTimestampNanos maxTimestampNanos; omega⟩,
    ⟨5000000500, by unfold minTimestampNanos maxTimestampNanos; omega⟩⟩

variable {σ : Type} [LinearOrder σ] {rank : ℤ → σ} {mode : ReplaceMode}

namespace Job

variable {job : Job} {target : Target}

/-! ## One job -/

/-- An immediate enqueue finds what an earlier one has done. -/
theorem enqueueImmediate_again (first second : ℤ) (job : Job) :
    (job.enqueueImmediate first).enqueueImmediate second = job.enqueueImmediate first := by
  obtain ⟨placement, failures⟩ := job
  cases placement <;> rfl

/-- An offer that replaces always puts the job at its target. -/
theorem placement_offer_always (hleased : job.placement.state ≠ some .leased)
    (target : Target) : (job.offer target .always).placement = target.placement := by
  obtain ⟨placement, failures⟩ := job
  cases placement with
  | leased deadline workerId leaseToken rerun => exact absurd rfl hleased
  | absent => rfl
  | failed score => rfl
  | ready score => exact placement_replaceWaiting_always _ target score
  | scheduled score => exact placement_replaceWaiting_always _ target score

/-- A job that waits at its target is not moved. -/
theorem offer_of_placement_eq (hplacement : job.placement = target.placement) :
    job.offer target mode = job := by
  have hreplaced (score : ℤ) : job.replaceWaiting target mode score = job :=
    if_pos (Or.inl hplacement)
  obtain ⟨placement, failures⟩ := job
  rcases target.placement_cases with htarget | htarget <;> rw [htarget] at hplacement <;>
    cases hplacement <;> exact hreplaced _

/-- A waiting job keeps its place exactly when the offer is not better. -/
theorem offer_eq_self_iff (hmode : mode.RanksBy rank) {holder : Placement}
    (hwaiting : job.waiting = some holder) (target : Target) :
    job.offer target mode = job ↔ rank holder.time ≤ rank target.placement.time := by
  constructor
  · intro hsame
    by_contra hbetter
    have hoffered := (offer_spec hmode (state_ne_leased hwaiting) target).2
    simp only [hsame, hwaiting] at hoffered
    rw [if_pos (target.placement_time ▸ not_le.mp hbetter), Option.some.injEq] at hoffered
    rw [hoffered] at hbetter
    exact hbetter le_rfl
  · intro hle
    show job.offers [target] mode = job
    apply offers_eq_self hmode hwaiting
    intro other hmem
    rwa [List.mem_singleton.mp hmem]

/-- An offer that is not better than the one before is without effect. -/
theorem offer_again (hmode : mode.RanksBy rank) (hleased : job.placement.state ≠ some .leased)
    {first second : Target} (hle : rank first.placement.time ≤ rank second.placement.time) :
    (job.offer first mode).offer second mode = job.offer first mode := by
  obtain ⟨placement, hwaiting, hbest⟩ := exists_waiting_offer hmode hleased first
  exact (offer_eq_self_iff hmode hwaiting second).mpr (hbest.trans hle)

/-- An offer that is made twice. -/
theorem offer_twice (hleased : job.placement.state ≠ some .leased) (target : Target)
    (mode : ReplaceMode) :
    (job.offer target mode).offer target mode = job.offer target mode := by
  cases mode with
  | always => exact offer_of_placement_eq (placement_offer_always hleased target)
  | ifEarlier => exact offer_again ReplaceMode.ranksBy_ifEarlier hleased le_rfl
  | ifLater => exact offer_again ReplaceMode.ranksBy_ifLater hleased le_rfl

variable {requestedUs firstUs secondUs : ℤ}

/-- A later time of the clock does not move a target to an earlier one. -/
theorem target_time_mono (requestedUs : ℤ) (hle : firstUs ≤ secondUs) :
    (normalizeTarget requestedUs firstUs).placement.time ≤
      (normalizeTarget requestedUs secondUs).placement.time := by
  rw [Target.placement_time, Target.placement_time]
  unfold normalizeTarget
  split_ifs with hfirst hsecond hsecond
  · exact hle
  · exact hle.trans (not_le.mp (not_or.mp hsecond).2).le
  · rcases hsecond with hzero | hpast
    · exact absurd (Or.inl hzero) hfirst
    · exact hpast
  · exact le_rfl

/-- An unconditional offer moves the job again when the requested time has come, or there is
none, at a later time of the clock. -/
theorem offer_again_always_ne (hleased : job.placement.state ≠ some .leased)
    (hlt : firstUs < secondUs) (hdue : requestedUs = 0 ∨ requestedUs ≤ secondUs) :
    (job.offer (normalizeTarget requestedUs firstUs) .always).offer
      (normalizeTarget requestedUs secondUs) .always ≠
      job.offer (normalizeTarget requestedUs firstUs) .always := by
  intro hsame
  have hfirst := placement_offer_always hleased (normalizeTarget requestedUs firstUs)
  have hunleased : (job.offer (normalizeTarget requestedUs firstUs) .always).placement.state ≠
      some .leased := by
    rw [hfirst]
    rcases (normalizeTarget requestedUs firstUs).placement_cases with heq | heq <;> rw [heq] <;>
      simp [Placement.state]
  have hsecond := placement_offer_always hunleased (normalizeTarget requestedUs secondUs)
  rw [hsame, hfirst, placement_of_due hdue] at hsecond
  by_cases hpast : requestedUs = 0 ∨ requestedUs ≤ firstUs
  · rw [placement_of_due hpast] at hsecond
    exact hlt.ne (Placement.ready.inj hsecond)
  · rw [placement_of_later hpast] at hsecond
    cases hsecond

/-- A job that is made ready again, unless it waits for a later time. -/
theorem offer_again_ifLater_iff (hleased : job.placement.state ≠ some .leased)
    (hlt : firstUs < secondUs) :
    (job.offer (normalizeTarget 0 firstUs) .ifLater).offer (normalizeTarget 0 secondUs) .ifLater =
        job.offer (normalizeTarget 0 firstUs) .ifLater ↔
      ∃ holder ∈ job.waiting, secondUs ≤ holder.time := by
  have hfirst : (normalizeTarget 0 firstUs).placement = .ready firstUs :=
    placement_of_due (Or.inl rfl)
  have hsecond : (normalizeTarget 0 secondUs).placement = .ready secondUs :=
    placement_of_due (Or.inl rfl)
  have hkeeps {placement : Placement}
      (hwaiting : (job.offer (normalizeTarget 0 firstUs) .ifLater).waiting = some placement) :=
    offer_eq_self_iff ReplaceMode.ranksBy_ifLater hwaiting (normalizeTarget 0 secondUs)
  rw [hsecond] at hkeeps
  have hoffered := (offer_spec ReplaceMode.ranksBy_ifLater hleased (normalizeTarget 0 firstUs)).2
  have hscore : (normalizeTarget 0 firstUs).score = firstUs := by
    rw [← Target.placement_time, hfirst]
    rfl
  rw [hfirst, hscore] at hoffered
  cases hwaiting : job.waiting with
  | none =>
      rw [hwaiting] at hoffered
      rw [hkeeps hoffered]
      refine iff_of_false (fun hle => ?_) (by simp)
      exact hlt.not_ge hle
  | some holder =>
      rw [hwaiting] at hoffered
      dsimp only at hoffered
      split_ifs at hoffered with hbetter
      · rw [hkeeps hoffered]
        have hearlier : holder.time < firstUs := hbetter
        refine iff_of_false (fun hle => hlt.not_ge hle) ?_
        rintro ⟨_, hholder, hle⟩
        cases hholder
        omega
      · rw [hkeeps hoffered]
        simp only [Option.mem_some, exists_eq_left']
        rfl

/-- When an offer that is made again at a later time of the clock is without effect, for a
requested time that is none or not before the later one. -/
theorem offer_again_iff (hleased : job.placement.state ≠ some .leased)
    (hle : firstUs ≤ secondUs) (hlater : requestedUs ≠ 0 → secondUs ≤ requestedUs) :
    (job.offer (normalizeTarget requestedUs firstUs) mode).offer
        (normalizeTarget requestedUs secondUs) mode =
        job.offer (normalizeTarget requestedUs firstUs) mode ↔
      firstUs = secondUs ∨ (requestedUs ≠ 0 ∧ secondUs < requestedUs) ∨ mode = .ifEarlier ∨
        (mode = .ifLater ∧ (requestedUs ≠ 0 ∨
          ∃ holder ∈ job.waiting, secondUs ≤ holder.time)) := by
  rcases hle.eq_or_lt with rfl | hlt
  · exact iff_of_true (offer_twice hleased _ _) (Or.inl rfl)
  by_cases hfuture : requestedUs ≠ 0 ∧ secondUs < requestedUs
  · -- both offers are for one place in scheduled
    have htarget : normalizeTarget requestedUs secondUs = normalizeTarget requestedUs firstUs := by
      unfold normalizeTarget
      rw [if_neg (by omega), if_neg (by omega)]
    rw [htarget]
    exact iff_of_true (offer_twice hleased _ _) (Or.inr (Or.inl hfuture))
  simp only [hlt.ne, hfuture, false_or]
  cases mode with
  | always =>
      have hdue : requestedUs = 0 ∨ requestedUs ≤ secondUs := by
        by_contra hnot
        obtain ⟨hnonzero, hnever⟩ := not_or.mp hnot
        exact hfuture ⟨hnonzero, not_le.mp hnever⟩
      exact iff_of_false (offer_again_always_ne hleased hlt hdue) (by simp)
  | ifEarlier =>
      refine iff_of_true ?_ (Or.inl rfl)
      exact offer_again ReplaceMode.ranksBy_ifEarlier hleased (target_time_mono _ hle)
  | ifLater =>
      by_cases hzero : requestedUs = 0
      · subst hzero
        rw [offer_again_ifLater_iff hleased hlt]
        simp
      · -- the requested time is the later one of the clock
        have hsame : requestedUs = secondUs := by
          have hge := hlater hzero
          by_contra hne
          exact hfuture ⟨hzero, by omega⟩
        subst hsame
        refine iff_of_true ?_ (Or.inr ⟨rfl, Or.inl hzero⟩)
        apply offer_again ReplaceMode.ranksBy_ifLater hleased
        show (normalizeTarget requestedUs requestedUs).placement.time ≤
          (normalizeTarget requestedUs firstUs).placement.time
        rw [placement_of_due (Or.inr le_rfl), placement_of_later (by omega)]
        exact le_rfl

/-! ## Both kinds of enqueue -/

/-- The job after an enqueue. A refused enqueue leaves it as it is. -/
def afterEnqueue (request : EnqueueRequest) (now : Timestamp) (job : Job) : Job :=
  ((Op.enqueue request now).outcome job).getD job

variable {request : EnqueueRequest} {now : Timestamp}

theorem afterEnqueue_immediate (himmediate : request.allowExistingCurrentRun = true)
    (job : Job) :
    job.afterEnqueue request now = job.enqueueImmediate (Double.ofInt (micros now)) := by
  simp [afterEnqueue, Op.outcome, himmediate]

theorem afterEnqueue_scheduled (hscheduled : request.allowExistingCurrentRun = false)
    (job : Job) :
    job.afterEnqueue request now =
      job.offer (normalizeTarget (Double.ofInt (scheduleMicros request.scheduleAt))
        (Double.ofInt (micros now))) request.replaceMode := by
  simp [afterEnqueue, Op.outcome, hscheduled, offer]

/-- An offer keeps a placed job or puts it at its target. -/
theorem offer_cases (job : Job) (target : Target) (mode : ReplaceMode) :
    (job.offer target mode = job ∧ job.IsPlaced) ∨
      (job.offer target mode).placement = target.placement := by
  have hreplaced {job : Job} (hplaced : job.IsPlaced) (score : ℤ) :
      (job.replaceWaiting target mode score = job ∧ job.IsPlaced) ∨
        (job.replaceWaiting target mode score).placement = target.placement := by
    unfold replaceWaiting
    split_ifs
    · exact Or.inl ⟨rfl, hplaced⟩
    · exact Or.inr rfl
  obtain ⟨placement, failures⟩ := job
  cases placement with
  | absent => exact Or.inr rfl
  | failed score => exact Or.inr rfl
  | leased deadline workerId leaseToken rerun => exact Or.inl ⟨rfl, by simp [IsPlaced]⟩
  | ready score => exact hreplaced (by simp [IsPlaced]) score
  | scheduled score => exact hreplaced (by simp [IsPlaced]) score

/-- An offer leaves the job placed. -/
theorem isPlaced_offer (job : Job) (target : Target) (mode : ReplaceMode) :
    (job.offer target mode).IsPlaced := by
  rcases job.offer_cases target mode with ⟨hkept, hplaced⟩ | hmoved
  · rwa [hkept]
  · rw [IsPlaced, hmoved]
    rcases target.placement_cases with heq | heq <;> rw [heq] <;> simp

/-- An offer leases no job. -/
theorem state_offer_ne_leased (hleased : job.placement.state ≠ some .leased) (target : Target)
    (mode : ReplaceMode) : (job.offer target mode).placement.state ≠ some .leased := by
  rcases job.offer_cases target mode with ⟨hkept, _⟩ | hmoved
  · rwa [hkept]
  · rw [hmoved]
    rcases target.placement_cases with heq | heq <;> rw [heq] <;> simp [Placement.state]

/-- An enqueue leaves the job placed. -/
theorem isPlaced_afterEnqueue (job : Job) (request : EnqueueRequest) (now : Timestamp) :
    (job.afterEnqueue request now).IsPlaced := by
  cases himmediate : request.allowExistingCurrentRun with
  | true =>
      rw [afterEnqueue_immediate himmediate]
      obtain ⟨placement, failures⟩ := job
      cases placement <;> simp [enqueueImmediate, moveTo, IsPlaced]
  | false =>
      rw [afterEnqueue_scheduled himmediate]
      exact isPlaced_offer _ _ _

/-- A placed job is in a set. -/
theorem exists_state_of_isPlaced (hplaced : job.IsPlaced) :
    ∃ state, job.placement.state = some state := by
  obtain ⟨placement, failures⟩ := job
  cases placement with
  | absent => exact absurd rfl hplaced
  | _ => exact ⟨_, rfl⟩

/-- What is refused when it is sent again was refused before. -/
theorem outcome_eq_none_of_again {first second : Timestamp}
    (hagain : (Op.enqueue request second).outcome (job.afterEnqueue request first) = none) :
    (Op.enqueue request first).outcome job = none := by
  obtain ⟨hscheduled, hleased⟩ := outcome_enqueue_eq_none_iff.mp hagain
  rw [afterEnqueue_scheduled hscheduled] at hleased
  apply outcome_enqueue_eq_none_iff.mpr ⟨hscheduled, ?_⟩
  by_contra hunleased
  exact state_offer_ne_leased hunleased _ _ hleased

/-- A placed job is not created. -/
theorem changeStatus_ne_created {job' : Job} (hplaced : job.IsPlaced) :
    job.changeStatus job' ≠ .created := by
  rw [changeStatus, if_neg hplaced]
  split_ifs <;> simp

/-- A placed job that has not changed. -/
theorem changeStatus_self (hplaced : job.IsPlaced) : job.changeStatus job = .unchanged := by
  rw [changeStatus, if_neg hplaced, if_pos rfl]

/-- A refused offer. -/
theorem offer_of_leased (hleased : job.placement.state = some .leased) (target : Target)
    (mode : ReplaceMode) : job.offer target mode = job := by
  obtain ⟨placement, failures⟩ := job
  cases placement with
  | leased deadline workerId leaseToken rerun => rfl
  | _ => cases hleased

end Job

namespace Store

variable {s : Store} {jobId : Bytes} {job : Job} {request : EnqueueRequest} {now : Timestamp}

/-! ## One enqueue of the store -/

/-- What the caller of an enqueue reads. -/
def enqueueResult (s : Store) (request : EnqueueRequest) (now : Timestamp) :
    Except Error EnqueueResult :=
  parseEnqueueResponse request.jobId (s.reply (.enqueue request now))

/-- The job after an enqueue is the one that the store then holds. -/
theorem slot_next_enqueue (hslot : s.slot request.jobId = job.toSlot) (now : Timestamp) :
    (s.next (.enqueue request now)).slot request.jobId =
      (job.afterEnqueue request now).toSlot := by
  have hrealizes := exec_enqueue_realizes hslot now
  unfold Job.afterEnqueue
  cases houtcome : (Op.enqueue request now).outcome job with
  | none =>
      rw [houtcome] at hrealizes
      rw [next, hrealizes.1]
      exact hslot
  | some job' =>
      rw [houtcome] at hrealizes
      exact hrealizes.1

/-- An enqueue that keeps the job keeps the store. -/
theorem next_enqueue_eq_self_iff (hslot : s.slot request.jobId = job.toSlot) (now : Timestamp) :
    s.next (.enqueue request now) = s ↔ job.afterEnqueue request now = job := by
  constructor
  · intro hsame
    apply Job.toSlot_injective
    rw [← slot_next_enqueue hslot now, hsame, hslot]
  · intro hkept
    cases houtcome : (Op.enqueue request now).outcome job with
    | none =>
        have hrealizes := exec_enqueue_realizes hslot now
        rw [houtcome] at hrealizes
        exact hrealizes.1
    | some job' =>
        apply (exec_enqueue_answers hslot houtcome).kept
        rwa [Job.afterEnqueue, houtcome] at hkept

/-- A refused enqueue is reported with the state of the job. -/
theorem enqueueResult_of_refused (hslot : s.slot request.jobId = job.toSlot)
    (hrefused : (Op.enqueue request now).outcome job = none) :
    s.enqueueResult request now = .error (.invalidState request.jobId .leased) := by
  obtain ⟨hscheduled, hleased⟩ := Job.outcome_enqueue_eq_none_iff.mp hrefused
  have hreply : s.reply (.enqueue request now) = Reply.invalidState .leased := by
    have hcurrent := currentState_eq hslot
    obtain ⟨placement, failures⟩ := job
    cases placement with
    | leased deadline workerId leaseToken rerun =>
        simp [reply, exec, enqueueOrReschedule, enqueueScheduled, hscheduled, hcurrent]
    | _ => cases hleased
  rw [enqueueResult, hreply, parseEnqueueResponse, if_pos (by simp),
    parseScriptError_invalidState]

/-- A successful enqueue is reported with how the job has changed. -/
theorem enqueueResult_of_outcome (hslot : s.slot request.jobId = job.toSlot) {job' : Job}
    (houtcome : (Op.enqueue request now).outcome job = some job') :
    ∃ state, s.enqueueResult request now =
      .ok ⟨request.jobId, state, job.changeStatus job'⟩ := by
  obtain ⟨state, _, schedule, _, _, _, hreply⟩ := (exec_enqueue_answers hslot houtcome).reply
  refine ⟨state, ?_⟩
  rw [enqueueResult, reply, hreply]
  exact parseEnqueueResponse_of_ok _ _ _

end Store

/-! ## The same enqueue again -/

/-- A later time is in no earlier microsecond. -/
theorem micros_mono {first second : Timestamp} (hle : first ≤ second) :
    micros first ≤ micros second :=
  Int.ediv_le_ediv (by decide) hle

/-- A request whose effect should not depend on the time of the clock: an immediate one, or
one for a time that is still to come. -/
def EnqueueRequest.IsAhead (request : EnqueueRequest) (now : Timestamp) : Prop :=
  request.allowExistingCurrentRun = true ∨ ∃ scheduleAt ∈ request.scheduleAt, now < scheduleAt

namespace Store

variable {s : Store} {job : Job} {request : EnqueueRequest} {first second : Timestamp}

/-- What an enqueue owes to a caller that sends it again. Ahead of its time it changes
nothing and answers that nothing has changed, or refuses as it did before. In every case it
does not create the job again and leaves it in one set. -/
structure RetryHarmless (s : Store) (request : EnqueueRequest) (first second : Timestamp) :
    Prop where
  repeated : request.IsAhead second →
    (s.next (.enqueue request first)).next (.enqueue request second) =
        s.next (.enqueue request first) ∧
      ((∃ state, s.enqueueResult request first = .error (.invalidState request.jobId state) ∧
          (s.next (.enqueue request first)).enqueueResult request second =
            .error (.invalidState request.jobId state)) ∨
        ((∃ result, s.enqueueResult request first = .ok result) ∧
          ∃ state, (s.next (.enqueue request first)).enqueueResult request second =
            .ok ⟨request.jobId, state, .unchanged⟩))
  notCreated : ∀ result,
    (s.next (.enqueue request first)).enqueueResult request second = .ok result →
      result.status ≠ .created
  placed : ∃ state,
    ((s.next (.enqueue request first)).next (.enqueue request second)).placements
      request.jobId = [state]

/-- When a request can be sent again: it is immediate or refused, its time has come, or the
script sees no difference between the two times of the clock, sees that its time is still to
come, or lets the job wait on. -/
def Repeats (s : Store) (request : EnqueueRequest) (first second : Timestamp) : Prop :=
  request.allowExistingCurrentRun = true ∨ (s.leased.score request.jobId).isSome ∨
    ∀ scheduleAt ∈ request.scheduleAt, second < scheduleAt →
      Double.ofInt (micros first) = Double.ofInt (micros second) ∨
        (micros scheduleAt ≠ 0 ∧
          Double.ofInt (micros second) < Double.ofInt (micros scheduleAt)) ∨
        request.replaceMode = .ifEarlier ∨
        (request.replaceMode = .ifLater ∧
          (micros scheduleAt ≠ 0 ∨
            ∃ time ∈ s.waitingTime request.jobId, Double.ofInt (micros second) ≤ time))

/-- A request is harmless to send again when a job that should not depend on the time of the
clock does not. -/
theorem retryHarmless_iff_afterEnqueue (hslot : s.slot request.jobId = job.toSlot)
    (first second : Timestamp) :
    s.RetryHarmless request first second ↔
      (request.IsAhead second →
        (job.afterEnqueue request first).afterEnqueue request second =
          job.afterEnqueue request first) := by
  have hslot' := slot_next_enqueue hslot first
  have hplaced := job.isPlaced_afterEnqueue request first
  constructor
  · intro hharmless hahead
    exact (next_enqueue_eq_self_iff hslot' second).mp (hharmless.repeated hahead).1
  · intro hkeeps
    refine ⟨fun hahead => ⟨(next_enqueue_eq_self_iff hslot' second).mpr (hkeeps hahead), ?_⟩,
      fun result hresult => ?_, ?_⟩
    · cases houtcome : (Op.enqueue request first).outcome job with
      | none =>
          have hsame : job.afterEnqueue request first = job := by
            rw [Job.afterEnqueue, houtcome, Option.getD_none]
          have hagain : (Op.enqueue request second).outcome (job.afterEnqueue request first) =
              none := by
            rw [hsame]
            exact Job.outcome_enqueue_eq_none_iff.mpr
              (Job.outcome_enqueue_eq_none_iff.mp houtcome)
          exact Or.inl ⟨.leased, enqueueResult_of_refused hslot houtcome,
            enqueueResult_of_refused hslot' hagain⟩
      | some job' =>
          right
          obtain ⟨state, hread⟩ := enqueueResult_of_outcome hslot houtcome
          refine ⟨⟨_, hread⟩, ?_⟩
          cases hagain : (Op.enqueue request second).outcome (job.afterEnqueue request first) with
          | none =>
              have hrefused := Job.outcome_eq_none_of_again hagain
              cases houtcome.symm.trans hrefused
          | some again =>
              have hsame := hkeeps hahead
              rw [Job.afterEnqueue, hagain, Option.getD_some] at hsame
              obtain ⟨state, hread⟩ := enqueueResult_of_outcome hslot' hagain
              rw [hsame, Job.changeStatus_self hplaced] at hread
              exact ⟨state, hread⟩
    · cases houtcome : (Op.enqueue request second).outcome (job.afterEnqueue request first) with
      | none => cases hresult.symm.trans (enqueueResult_of_refused hslot' houtcome)
      | some job' =>
          obtain ⟨state, hread⟩ := enqueueResult_of_outcome hslot' houtcome
          cases hresult.symm.trans hread
          exact Job.changeStatus_ne_created hplaced
    · obtain ⟨state, hstate⟩ := Job.exists_state_of_isPlaced
        ((job.afterEnqueue request first).isPlaced_afterEnqueue request second)
      refine ⟨state, ?_⟩
      rw [placements_of_slot (slot_next_enqueue hslot' second), hstate]
      rfl

/-- The time of a waiting job in the store. -/
theorem exists_waitingTime_iff (hslot : s.slot request.jobId = job.toSlot) (bound : ℤ) :
    (∃ time ∈ s.waitingTime request.jobId, bound ≤ time) ↔
      ∃ holder ∈ job.waiting, bound ≤ holder.time := by
  rw [waitingTime_of_slot hslot]
  cases job.waiting <;> simp

/-- An enqueue is harmless to send again exactly when the request repeats itself. -/
theorem retry_harmless_iff (s : Store) (hwf : s.WellFormed) (request : EnqueueRequest)
    (first second : Timestamp) (hle : first ≤ second) :
    s.RetryHarmless request first second ↔ s.Repeats request first second := by
  obtain ⟨job, hslot⟩ := hwf.exists_job request.jobId
  rw [retryHarmless_iff_afterEnqueue hslot]
  cases himmediate : request.allowExistingCurrentRun with
  | true =>
      refine iff_of_true (fun _ => ?_) (Or.inl himmediate)
      rw [Job.afterEnqueue_immediate himmediate, Job.afterEnqueue_immediate himmediate]
      exact Job.enqueueImmediate_again _ _ job
  | false =>
      rw [Job.afterEnqueue_scheduled himmediate, Job.afterEnqueue_scheduled himmediate]
      have hset := isSome_leased_iff hslot
      by_cases hleased : job.placement.state = some .leased
      · refine iff_of_true (fun _ => ?_) (Or.inr (Or.inl (hset.mpr hleased)))
        rw [Job.offer_of_leased hleased, Job.offer_of_leased hleased]
      · simp only [Repeats, EnqueueRequest.IsAhead, himmediate, hset, hleased, false_or,
          Bool.false_eq_true, exists_waitingTime_iff hslot]
        cases request.scheduleAt with
        | none => simp
        | some scheduleAt =>
            simp only [Option.mem_some, exists_eq_left', forall_eq', scheduleMicros,
              Option.map_some, Option.getD_some]
            apply imp_congr_right
            intro hlater
            rw [Job.offer_again_iff hleased (Double.ofInt_mono (micros_mono hle))
              fun _ => Double.ofInt_mono (micros_mono hlater.le)]
            simp only [ne_eq, Double.ofInt_eq_zero_iff]

/-- A job that is enqueued for the fifth second is not moved by the same request. -/
theorem retry_harmless_sample :
    empty.RetryHarmless ⟨"job", some (.ofSeconds 5), .always, false⟩ (.ofSeconds 1)
      (.ofSeconds 2) := by
  apply (retry_harmless_iff empty wellFormed_empty
    ⟨"job", some (.ofSeconds 5), .always, false⟩ (.ofSeconds 1) (.ofSeconds 2) (by decide)).mpr
  refine Or.inr (Or.inr fun scheduleAt hschedule _ => Or.inr (Or.inl ?_))
  cases hschedule
  exact ⟨by decide, by decide⟩

/-- A job is moved to ready when the request is sent again before its time, but in the same
microsecond or in the one before a time that no double holds. -/
theorem lateRequests_not_retryHarmless :
    empty.WellFormed ∧ ∀ times ∈ [sameMicrosecond, (lastRepresentedTime, unrepresentedTime)],
      .ofSeconds 1 ≤ times.1 ∧ times.1 < times.2 ∧
        ¬ empty.RetryHarmless ⟨"job", some times.2, .always, false⟩ (.ofSeconds 1) times.1 := by
  have hmoved (times : Timestamp × Timestamp) (hahead : times.1 < times.2)
      (hchanged : (empty.next (.enqueue ⟨"job", some times.2, .always, false⟩
        (.ofSeconds 1))).next (.enqueue ⟨"job", some times.2, .always, false⟩ times.1) ≠
        empty.next (.enqueue ⟨"job", some times.2, .always, false⟩ (.ofSeconds 1))) :
      ¬ empty.RetryHarmless ⟨"job", some times.2, .always, false⟩ (.ofSeconds 1) times.1 :=
    fun hharmless => hchanged (hharmless.repeated (Or.inr ⟨times.2, rfl, hahead⟩)).1
  simp only [List.forall_mem_cons, List.not_mem_nil, false_implies, implies_true, and_true]
  exact ⟨wellFormed_empty,
    ⟨by decide, by decide, hmoved sameMicrosecond (by decide) (by decide)⟩, by decide, by decide,
    hmoved (lastRepresentedTime, unrepresentedTime) (by decide) (by decide)⟩

end Store

end Redloop
