/-
# What an enqueue answers

The enqueue script builds its reply by hand at each of its exits: a status, a state
and a schedule. Whatever exit is taken, the status says how the job has changed, the
state is the set that holds it now, and a query that follows finds it there. The
schedule that a reschedule reports is the score of a scheduled job and none for a
ready one. Only the query has a limit of its own: it reads failure counts as unsigned
32-bit integers, and fails on a job whose count is kept and is none.
-/

import Redloop.Queue.Lookup

namespace Redloop

/-- The word of the scripts for an enqueue status. -/
def EnqueueStatus.asStr : EnqueueStatus → Bytes
  | created => "created"
  | unchanged => "unchanged"
  | updated => "updated"

theorem parseEnqueueStatus_asStr (status : EnqueueStatus) :
    parseEnqueueStatus status.asStr = .ok status := by
  cases status <;> rfl

theorem parseState_asStr (state : JobState) : parseState state.asStr = .ok state := by
  cases state <;> rfl

namespace Placement

/-- The set that holds a job. -/
def state : Placement → Option JobState
  | absent => none
  | ready _ => some .ready
  | scheduled _ => some .scheduled
  | leased _ _ _ _ => some .leased
  | failed _ => some .failed

/-- The score of a job in its set. -/
def score : Placement → Option ℤ
  | absent => none
  | ready score | scheduled score | failed score => some score
  | leased deadline _ _ _ => some deadline

end Placement

/-- A time that is none or has come asks for ready. -/
theorem placement_of_due {requestedUs nowUs : ℤ} (hdue : requestedUs = 0 ∨ requestedUs ≤ nowUs) :
    (normalizeTarget requestedUs nowUs).placement = .ready nowUs := by
  rw [normalizeTarget, if_pos hdue]
  rfl

/-- Any other time asks for scheduled. -/
theorem placement_of_later {requestedUs nowUs : ℤ}
    (hlater : ¬ (requestedUs = 0 ∨ requestedUs ≤ nowUs)) :
    (normalizeTarget requestedUs nowUs).placement = .scheduled requestedUs := by
  rw [normalizeTarget, if_neg hlater]
  rfl

/-- The schedule of a target is that of a job that waits there. -/
theorem normalizeTarget_scheduleValue (requestedUs nowUs : ℤ) :
    (normalizeTarget requestedUs nowUs).scheduleValue =
      Store.existingSchedule (normalizeTarget requestedUs nowUs).state
        (normalizeTarget requestedUs nowUs).score := by
  unfold normalizeTarget
  split_ifs <;> rfl

/-- A job whose placement a query can read: its time is below `2 ^ 53` microseconds, and its
holder is named by texts. -/
structure Job.Readable (job : Job) : Prop where
  time : ∀ score, job.placement.score = some score → score.natAbs < 2 ^ 53
  holder : ∀ deadline workerId leaseToken rerun,
    job.placement = .leased deadline workerId leaseToken rerun →
      workerId.length ≤ u64Max ∧ leaseToken.head?.all (StartsCharacter ·)

/-- A job whose failure count, if it has one, is an unsigned 32-bit integer. -/
def Job.CountFits (job : Job) : Prop :=
  ∀ count, job.failures = some count → 0 ≤ count ∧ count ≤ u32Max

/-- How a job has changed. -/
def Job.changeStatus (job job' : Job) : EnqueueStatus :=
  if job.placement = .absent then .created else if job' = job then .unchanged else .updated

namespace Store

variable {s : Store} {jobId : Bytes} {job job' : Job}

/-! ## The exits of the script -/

/-- A result on a job answers how the job has changed, in which set it is and since when
or until when, and it leaves the store as it was when the job has not changed. The
schedule of a job that had failed is printed in a shorter form. -/
structure Answers (s : Store) (result : Store × Reply) (job job' : Job) : Prop where
  reply : ∃ state score schedule,
    job'.placement.state = some state ∧ job'.placement.score = some score ∧
      (job.placement.state ≠ some .failed →
        schedule = fixedText (existingSchedule state score)) ∧
      result.2 = [utf8 "ok", (job.changeStatus job').asStr, state.asStr, schedule]
  kept : job' = job → result.1 = s

/-- A job in another set than scheduled has no schedule. -/
theorem zero_eq_fixedText {state : JobState} (hstate : state ≠ .scheduled) (score : ℤ) :
    utf8 "0" = fixedText (existingSchedule state score) := by
  rw [existingSchedule, if_neg hstate]
  decide

/-- A job that stays where it is. -/
theorem answers_kept {state : JobState} {score : ℤ} {schedule : Bytes}
    (hstate : job.placement.state = some state) (hscore : job.placement.score = some score)
    (hschedule : schedule = fixedText (existingSchedule state score)) :
    s.Answers (s, [utf8 "ok", utf8 "unchanged", state.asStr, schedule]) job job := by
  have hplaced : job.placement ≠ .absent := by
    intro habsent
    rw [habsent] at hstate
    cases hstate
  have hstatus : job.changeStatus job = .unchanged := by
    rw [Job.changeStatus, if_neg hplaced, if_pos rfl]
  refine ⟨⟨state, score, schedule, hstate, hscore, fun _ => hschedule, ?_⟩, fun _ => rfl⟩
  rw [hstatus]
  rfl

/-- A placed job that has changed. -/
theorem answers_updated {s' : Store} {state : JobState} {score : ℤ} {schedule : Bytes}
    (hplaced : job.placement ≠ .absent) (hchanged : job' ≠ job)
    (hstate : job'.placement.state = some state) (hscore : job'.placement.score = some score)
    (hschedule : job.placement.state ≠ some .failed →
      schedule = fixedText (existingSchedule state score)) :
    s.Answers (s', [utf8 "ok", utf8 "updated", state.asStr, schedule]) job job' := by
  have hstatus : job.changeStatus job' = .updated := by
    rw [Job.changeStatus, if_neg hplaced, if_neg hchanged]
  refine ⟨⟨state, score, schedule, hstate, hscore, hschedule, ?_⟩, fun heq =>
    absurd heq hchanged⟩
  rw [hstatus]
  rfl

/-- A job that is new to the queue. -/
theorem answers_created {s' : Store} {state : JobState} {score : ℤ} {schedule : Bytes}
    (habsent : job.placement = .absent) (hstate : job'.placement.state = some state)
    (hscore : job'.placement.score = some score)
    (hschedule : schedule = fixedText (existingSchedule state score)) :
    s.Answers (s', [utf8 "ok", utf8 "created", state.asStr, schedule]) job job' := by
  have hstatus : job.changeStatus job' = .created := if_pos habsent
  refine ⟨⟨state, score, schedule, hstate, hscore, fun _ => hschedule, ?_⟩, ?_⟩
  · rw [hstatus]
    rfl
  · rintro rfl
    rw [habsent] at hstate
    cases hstate

/-- A target is a placement in its set at its score. -/
theorem target_placement (requestedUs nowUs : ℤ) :
    (normalizeTarget requestedUs nowUs).placement.state =
        some (normalizeTarget requestedUs nowUs).state ∧
      (normalizeTarget requestedUs nowUs).placement.score =
        some (normalizeTarget requestedUs nowUs).score := by
  unfold Target.placement
  rcases normalizeTarget_state requestedUs nowUs with htarget | htarget <;>
    simp [htarget, Placement.state, Placement.score]

/-- The decision of both waiting branches is answered. -/
theorem replaceWaiting_answers {state : JobState} {score : ℤ}
    (hstate : state = .ready ∨ state = .scheduled)
    (hplacement : job.placement = waitingPlacement state score) {target : Target}
    {requestedUs nowUs : ℤ} (htarget : normalizeTarget requestedUs nowUs = target)
    (mode : ReplaceMode) {result : Store × Reply}
    (hkeep : (state = target.state ∧ score = target.score) ∨
      ¬ mode.shouldReplace target.score score → result =
        (s, [utf8 "ok", utf8 "unchanged", state.asStr, fixedText (existingSchedule state score)]))
    (hmove : ¬ ((state = target.state ∧ score = target.score) ∨
      ¬ mode.shouldReplace target.score score) → result.2 =
        [utf8 "ok", utf8 "updated", target.state.asStr,
          fixedText (existingSchedule target.state target.score)]) :
    s.Answers result job (job.replaceWaiting target mode score) := by
  subst htarget
  have hsame := waitingPlacement_eq_iff hstate score (normalizeTarget_state requestedUs nowUs)
  rw [← hplacement] at hsame
  have hfound : job.placement.state = some state ∧ job.placement.score = some score := by
    rw [hplacement, waitingPlacement]
    rcases hstate with rfl | rfl <;> exact ⟨rfl, rfl⟩
  simp only [Job.replaceWaiting, hsame]
  split_ifs with hkept
  · rw [hkeep hkept]
    exact answers_kept hfound.1 hfound.2 rfl
  · obtain ⟨hthere, hscored⟩ := target_placement requestedUs nowUs
    rw [← Prod.mk.eta (p := result), hmove hkept]
    apply answers_updated ?_ ?_ hthere hscored fun _ => rfl
    · intro habsent
      rw [habsent] at hfound
      cases hfound.1
    · intro heq
      exact hkept (Or.inl (hsame.mp (congrArg Job.placement heq).symm))

theorem reschedule_answers (hslot : s.slot jobId = job.toSlot) {nowUs requestedUs : ℤ}
    {mode : ReplaceMode}
    (houtcome : job.reschedule (normalizeTarget requestedUs nowUs) mode = some job') :
    s.Answers (s.reschedule jobId nowUs requestedUs mode) job job' := by
  have hcurrent := currentState_eq hslot
  obtain ⟨placement, failures⟩ := job
  unfold reschedule
  rw [hcurrent]
  cases placement with
  | absent => cases houtcome
  | leased deadline workerId leaseToken rerun => cases houtcome
  | failed score => cases houtcome
  | ready score =>
      cases houtcome
      apply replaceWaiting_answers (Or.inl rfl) rfl rfl mode
      all_goals
        simp only [reduceCtorEq, or_self, if_false, normalizeTarget_scheduleValue]
        split_ifs <;> grind
  | scheduled score =>
      cases houtcome
      apply replaceWaiting_answers (Or.inr rfl) rfl rfl mode
      all_goals
        simp only [reduceCtorEq, or_self, if_false, normalizeTarget_scheduleValue]
        split_ifs <;> grind

theorem enqueueScheduled_answers (hslot : s.slot jobId = job.toSlot) {now requested : ℤ}
    {mode : ReplaceMode}
    (houtcome : job.enqueueScheduled
      (normalizeTarget (Double.ofInt requested) (Double.ofInt now)) mode = some job') :
    s.Answers (s.enqueueOrReschedule .enqueueScheduled jobId now requested mode) job job' := by
  have hcurrent := currentState_eq hslot
  obtain ⟨hthere, hscored⟩ := target_placement (Double.ofInt requested) (Double.ofInt now)
  obtain ⟨placement, failures⟩ := job
  unfold enqueueOrReschedule
  rw [hcurrent]
  cases placement with
  | leased deadline workerId leaseToken rerun => cases houtcome
  | absent =>
      cases houtcome
      apply answers_created rfl hthere hscored
      rw [normalizeTarget_scheduleValue]
  | failed score =>
      cases houtcome
      apply answers_updated (by simp) ?_ hthere hscored fun hne => absurd rfl hne
      intro heq
      have hplacement := congrArg (fun job => job.placement.state) heq
      rw [hthere] at hplacement
      rcases normalizeTarget_state (Double.ofInt requested) (Double.ofInt now) with
        htarget | htarget <;> simp [htarget, Placement.state] at hplacement
  | ready score =>
      cases houtcome
      apply replaceWaiting_answers (Or.inl rfl) rfl rfl mode
      all_goals
        simp only [Option.some.injEq, reduceCtorEq, if_false, enqueueScheduled,
          normalizeTarget_scheduleValue]
        split_ifs <;> grind
  | scheduled score =>
      cases houtcome
      apply replaceWaiting_answers (Or.inr rfl) rfl rfl mode
      all_goals
        simp only [Option.some.injEq, reduceCtorEq, if_false, enqueueScheduled,
          normalizeTarget_scheduleValue]
        split_ifs <;> grind

theorem enqueueImmediate_answers (hslot : s.slot jobId = job.toSlot) (now requested : ℤ)
    (mode : ReplaceMode) :
    s.Answers (s.enqueueOrReschedule .enqueueImmediate jobId now requested mode) job
      (job.enqueueImmediate (Double.ofInt now)) := by
  have hcurrent := currentState_eq hslot
  obtain ⟨placement, failures⟩ := job
  unfold enqueueOrReschedule
  rw [hcurrent]
  cases placement with
  | absent =>
      show s.Answers (_, [utf8 "ok", utf8 "created", JobState.ready.asStr, utf8 "0"])
        ⟨.absent, failures⟩ ⟨.ready (Double.ofInt now), failures⟩
      exact answers_created rfl rfl rfl (zero_eq_fixedText (by simp) _)
  | ready score =>
      show s.Answers (s, [utf8 "ok", utf8 "unchanged", JobState.ready.asStr, utf8 "0"])
        ⟨.ready score, failures⟩ ⟨.ready score, failures⟩
      exact answers_kept rfl rfl (zero_eq_fixedText (by simp) _)
  | scheduled score =>
      show s.Answers (_, [utf8 "ok", utf8 "updated", JobState.ready.asStr, utf8 "0"])
        ⟨.scheduled score, failures⟩ ⟨.ready (Double.ofInt now), failures⟩
      exact answers_updated (by simp) (by simp) rfl rfl fun _ => zero_eq_fixedText (by simp) _
  | failed score =>
      show s.Answers (_, [utf8 "ok", utf8 "updated", JobState.ready.asStr, utf8 "0"])
        ⟨.failed score, failures⟩ ⟨.ready (Double.ofInt now), none⟩
      exact answers_updated (by simp) (by simp) rfl rfl fun hne => absurd rfl hne
  | leased deadline workerId leaseToken rerun =>
      have hrerun : rerun = decide (jobId ∈ s.rerun) := (congrArg Slot.rerun hslot).symm
      subst hrerun
      simp only [Option.some.injEq, reduceCtorEq, if_false, enqueueImmediate]
      split_ifs with hmarked
      · simp only [hmarked, decide_true]
        show s.Answers (s, [utf8 "ok", utf8 "unchanged", JobState.leased.asStr, utf8 "0"])
          ⟨.leased deadline workerId leaseToken true, failures⟩
          ⟨.leased deadline workerId leaseToken true, failures⟩
        exact answers_kept rfl rfl (zero_eq_fixedText (by simp) _)
      · simp only [hmarked, decide_false]
        show s.Answers (_, [utf8 "ok", utf8 "updated", JobState.leased.asStr, utf8 "0"])
          ⟨.leased deadline workerId leaseToken false, failures⟩
          ⟨.leased deadline workerId leaseToken true, failures⟩
        exact answers_updated (by simp) (by simp) rfl rfl fun _ => zero_eq_fixedText (by simp) _

/-- Both kinds of enqueue are answered. -/
theorem exec_enqueue_answers {request : EnqueueRequest} (hslot : s.slot request.jobId = job.toSlot)
    {now : Timestamp} (houtcome : (Op.enqueue request now).outcome job = some job') :
    s.Answers (s.exec (.enqueue request now)) job job' := by
  by_cases himmediate : request.allowExistingCurrentRun
  · simp only [exec, Op.outcome, himmediate, if_true, Option.some.injEq] at houtcome ⊢
    rw [← houtcome]
    exact enqueueImmediate_answers hslot _ _ _
  · simp only [exec, Op.outcome, himmediate, Bool.false_eq_true, if_false] at houtcome ⊢
    exact enqueueScheduled_answers hslot houtcome

/-! ## Queries -/

/-- A job is in the set of its placement and in no other. -/
theorem placements_of_slot (hslot : s.slot jobId = job.toSlot) :
    s.placements jobId = job.placement.state.toList := by
  obtain ⟨placement, failures⟩ := job
  cases placement <;>
    simp_all [Slot.ext_iff, slot, Job.toSlot, placements, Placement.state]

/-- The first score that a query finds is that of the placement. -/
theorem foundScore_of_slot (hslot : s.slot jobId = job.toSlot) :
    s.foundScore .none jobId = job.placement.score := by
  obtain ⟨placement, failures⟩ := job
  cases placement <;>
    simp_all [Slot.ext_iff, slot, Job.toSlot, foundScore, atLeased, atFailed, atScheduled,
      BetweenReads.none, Placement.score]

/-- A record that is returned is the one made of the time that was read. -/
theorem exists_time_of_record {field : String} {value : Bytes}
    {record : Timestamp → JobRecord} {found : Option JobRecord}
    (hread : (do
      let time ← parseTime field value
      pure (some (record time))) = Except.ok found) : ∃ time, found = some (record time) := by
  obtain ⟨time, _, hrecord⟩ := bind_eq_ok_iff.mp hread
  cases hrecord
  exact ⟨time, rfl⟩

/-- A query that returns reports the set that holds the job. -/
theorem state_of_getJob (hslot : s.slot jobId = job.toSlot) {found : Option JobRecord}
    (hfound : s.getJob jobId = some (.ok found)) :
    found.map JobRecord.state = job.placement.state := by
  unfold getJob at hfound
  rcases getJobDuring_eq s .none jobId with ⟨_, herror⟩ | ⟨_, count, hload⟩
  · rw [herror] at hfound
    cases hfound
  · rw [hload] at hfound
    obtain ⟨placement, failures⟩ := job
    simp only [Slot.ext_iff, slot, Job.toSlot] at hslot
    cases placement <;>
      simp only [scoreText, atLeased, atFailed, atScheduled, atFailures, atLeaseMeta,
        BetweenReads.none, run_nil, hslot, Option.map_none, Option.map_some, JobLookup.record,
        Option.some.injEq] at hfound
    case absent =>
      cases hfound
      rfl
    case leased =>
      obtain ⟨holder, _, hread⟩ := Option.map_eq_some_iff.mp hfound
      obtain ⟨_, _, hread⟩ := bind_eq_ok_iff.mp hread
      obtain ⟨_, rfl⟩ := exists_time_of_record hread
      rfl
    all_goals
      obtain ⟨_, rfl⟩ := exists_time_of_record hfound
      rfl

/-- A query reads the failure count of a job that it reports. -/
theorem readsCount_iff (hslot : s.slot jobId = job.toSlot) :
    s.ReadsCount .none jobId ↔ job.CountFits := by
  have hfailures := congrArg Slot.failures hslot
  rw [Job.toSlot_failures] at hfailures
  show (∀ count, (s.slot jobId).failures = some count → _) ↔ _
  rw [hfailures]
  rfl

/-- A query that reports a job has read its failure count. -/
theorem countFits_of_getJob (hslot : s.slot jobId = job.toSlot) {record : JobRecord}
    (hrecord : s.getJob jobId = some (.ok (some record))) : job.CountFits := by
  apply (readsCount_iff hslot).mp
  refine ((getJobDuring_eq s .none jobId).resolve_left ?_).1
  rintro ⟨_, herror⟩
  cases hrecord.symm.trans herror

/-- A query reports every placed job that it can read. -/
theorem exists_getJob (hslot : s.slot jobId = job.toSlot) (hplaced : job.IsPlaced)
    (hreadable : job.Readable) (hcount : job.CountFits) :
    ∃ record, s.getJob jobId = some (.ok (some record)) := by
  have hcounted := (readsCount_iff hslot).mpr hcount
  apply (exists_getJobDuring_iff hcounted).mpr ⟨?_, ?_⟩
  · rw [foundScore_of_slot hslot]
    obtain ⟨score, hscore⟩ : ∃ score, job.placement.score = some score := by
      obtain ⟨placement, failures⟩ := job
      cases placement with
      | absent => exact absurd rfl hplaced
      | _ => exact ⟨_, rfl⟩
    exact ⟨score, hscore, (hreadable.time score hscore).trans (by decide)⟩
  · rintro ⟨_, hleased⟩
    obtain ⟨placement, failures⟩ := job
    simp only [Slot.ext_iff, slot, Job.toSlot] at hslot
    cases placement with
    | leased deadline workerId leaseToken rerun =>
        obtain ⟨hlength, htoken⟩ := hreadable.holder _ _ _ _ rfl
        exact ⟨_, hslot.2.2.2.2.1, _, parseLeaseMeta_packMeta hlength htoken⟩
    | _ =>
        simp only [atLeased, BetweenReads.none, run_nil, hslot] at hleased
        cases hleased

end Store

/-! ## What stays readable -/

namespace Job.Readable

variable {job job' : Job} {requestedUs nowUs : ℤ}

/-- A job that waits at a target. -/
theorem of_target (hrequested : requestedUs.natAbs < 2 ^ 53) (hnow : nowUs.natAbs < 2 ^ 53)
    (failures : Option ℤ) :
    Readable ⟨(normalizeTarget requestedUs nowUs).placement, failures⟩ := by
  refine ⟨fun score hscore => ?_, fun _ _ _ _ hleased => ?_⟩
  · have htarget := (Store.target_placement requestedUs nowUs).2
    cases htarget.symm.trans hscore
    unfold normalizeTarget
    split_ifs
    · exact hnow
    · exact hrequested
  · rcases (normalizeTarget requestedUs nowUs).placement_cases with htarget | htarget <;>
      cases htarget.symm.trans hleased

/-- A job that is made ready. -/
theorem of_ready (hnow : nowUs.natAbs < 2 ^ 53) (failures : Option ℤ) :
    Readable ⟨.ready nowUs, failures⟩ := by
  refine ⟨fun score hscore => ?_, fun _ _ _ _ hleased => ?_⟩
  · cases hscore
    exact hnow
  · cases hleased

theorem replaceWaiting (hreadable : job.Readable) (hrequested : requestedUs.natAbs < 2 ^ 53)
    (hnow : nowUs.natAbs < 2 ^ 53) (mode : ReplaceMode) (score : ℤ) :
    (job.replaceWaiting (normalizeTarget requestedUs nowUs) mode score).Readable := by
  unfold Job.replaceWaiting
  split_ifs
  · exact hreadable
  · exact of_target hrequested hnow _

theorem enqueueScheduled (hreadable : job.Readable) (hrequested : requestedUs.natAbs < 2 ^ 53)
    (hnow : nowUs.natAbs < 2 ^ 53) {mode : ReplaceMode}
    (houtcome : job.enqueueScheduled (normalizeTarget requestedUs nowUs) mode = some job') :
    job'.Readable := by
  unfold Job.enqueueScheduled at houtcome
  split at houtcome <;> cases houtcome
  · exact of_target hrequested hnow _
  · exact hreadable.replaceWaiting hrequested hnow mode _
  · exact hreadable.replaceWaiting hrequested hnow mode _
  · exact of_target hrequested hnow _

theorem enqueueImmediate (hreadable : job.Readable) (hnow : nowUs.natAbs < 2 ^ 53) :
    (job.enqueueImmediate nowUs).Readable := by
  unfold Job.enqueueImmediate
  split
  · exact of_ready hnow _
  · exact hreadable
  · exact of_ready hnow _
  · next deadline workerId leaseToken rerun hplacement =>
      refine ⟨fun score hscore => ?_, fun _ _ _ _ hleased => ?_⟩
      · cases hscore
        exact hreadable.time _ (by rw [hplacement]; rfl)
      · cases hleased
        exact hreadable.holder _ _ _ _ hplacement
  · exact of_ready hnow _

theorem reschedule (hreadable : job.Readable) (hrequested : requestedUs.natAbs < 2 ^ 53)
    (hnow : nowUs.natAbs < 2 ^ 53) {mode : ReplaceMode}
    (houtcome : job.reschedule (normalizeTarget requestedUs nowUs) mode = some job') :
    job'.Readable := by
  unfold Job.reschedule at houtcome
  split at houtcome <;> cases houtcome
  · exact hreadable.replaceWaiting hrequested hnow mode _
  · exact hreadable.replaceWaiting hrequested hnow mode _

/-- Enqueues at times below `2 ^ 53` keep a job readable. -/
theorem enqueue (hreadable : job.Readable) {request : EnqueueRequest} {now : Timestamp}
    (hrequested : (scheduleMicros request.scheduleAt).natAbs < 2 ^ 53)
    (hnow : (micros now).natAbs < 2 ^ 53)
    (houtcome : (Op.enqueue request now).outcome job = some job') : job'.Readable := by
  rw [← Double.ofInt_of_natAbs_lt hrequested] at hrequested
  rw [← Double.ofInt_of_natAbs_lt hnow] at hnow
  simp only [Op.outcome] at houtcome
  split_ifs at houtcome
  · cases houtcome
    exact hreadable.enqueueImmediate hnow
  · exact hreadable.enqueueScheduled hrequested hnow houtcome

end Job.Readable

/-- Only a scheduled enqueue of a leased job is refused. -/
theorem Job.outcome_enqueue_eq_none_iff {job : Job} {request : EnqueueRequest} {now : Timestamp} :
    (Op.enqueue request now).outcome job = none ↔
      request.allowExistingCurrentRun = false ∧ job.placement.state = some .leased := by
  obtain ⟨placement, failures⟩ := job
  cases himmediate : request.allowExistingCurrentRun with
  | true => simp [Op.outcome, himmediate]
  | false =>
      cases placement <;>
        simp [Op.outcome, himmediate, Job.enqueueScheduled, Placement.state]

namespace Store

variable {s : Store} {jobId : Bytes} {job job' : Job}

/-- The times that the store holds for a job are below `2 ^ 53` microseconds, and its lease
record names texts. -/
structure ReadableJob (s : Store) (jobId : Bytes) : Prop where
  times : ∀ set ∈ [s.ready, s.scheduled, s.leased, s.failed], ∀ score ∈ set.score jobId,
    score.natAbs < 2 ^ 53
  holder : ∀ workerId leaseToken,
    s.leaseMeta.lookup jobId = some (packMeta workerId leaseToken) →
      workerId.length ≤ u64Max ∧ leaseToken.head?.all (StartsCharacter ·)

/-- A job of the store can be read. -/
theorem ReadableJob.readable (hreadable : s.ReadableJob jobId)
    (hslot : s.slot jobId = job.toSlot) : job.Readable := by
  refine ⟨fun score hscore => ?_, fun _ _ _ _ hleased => ?_⟩
  · obtain ⟨placement, failures⟩ := job
    simp only [Slot.ext_iff, slot, Job.toSlot] at hslot
    cases placement <;> cases hscore
    · exact hreadable.times s.ready (by simp) score hslot.1
    · exact hreadable.times s.scheduled (by simp) score hslot.2.1
    · exact hreadable.times s.leased (by simp) score hslot.2.2.1
    · exact hreadable.times s.failed (by simp) score hslot.2.2.2.1
  · obtain ⟨placement, failures⟩ := job
    cases hleased
    exact hreadable.holder _ _ (congrArg Slot.leaseMeta hslot)

/-- The failure count that the store holds for a job, if any, is an unsigned 32-bit integer. -/
def CountFits (s : Store) (jobId : Bytes) : Prop :=
  ∀ count ∈ s.failures.lookup jobId, 0 ≤ count ∧ count ≤ u32Max

instance (s : Store) (jobId : Bytes) : Decidable (s.CountFits jobId) :=
  inferInstanceAs (Decidable (∀ count ∈ s.failures.lookup jobId, _))

theorem countFits_iff (hslot : s.slot jobId = job.toSlot) : s.CountFits jobId ↔ job.CountFits := by
  have hfailures : s.failures.lookup jobId = job.failures :=
    (congrArg Slot.failures hslot).trans (Job.toSlot_failures job)
  unfold CountFits
  rw [hfailures]
  rfl

/-! ## The replies -/

/-- A status and a state tell how an operation has changed a job: it is new, or nothing at
all has changed; and the state is the set that holds the job, and the one that a query
reports. -/
structure Tells (s : Store) (op : Op) (jobId : Bytes) (status : EnqueueStatus)
    (state : JobState) : Prop where
  created : status = .created ↔ ¬ s.Known jobId
  unchanged : status = .unchanged ↔ s.next op = s
  placed : (s.next op).placements jobId = [state]
  reported : ∃ record, (s.next op).getJob jobId = some (.ok (some record)) ∧ record.state = state

/-- An operation after which a query reports the job keeps no count that does not fit. -/
theorem Tells.countFits {op : Op} {status : EnqueueStatus} {state : JobState}
    (htells : s.Tells op jobId status state) (hslot' : (s.next op).slot jobId = job'.toSlot) :
    job'.CountFits := by
  obtain ⟨record, hrecord, _⟩ := htells.reported
  exact countFits_of_getJob hslot' hrecord

/-- An operation that realizes and answers its transition tells how the job has changed, when
a query can read the job. -/
theorem tells_of_answers {op : Op} (hslot : s.slot jobId = job.toSlot)
    (hrealizes : Realizes s (s.exec op) jobId (some job'))
    (hanswers : s.Answers (s.exec op) job job') {state : JobState}
    (hstate : job'.placement.state = some state) (hreadable : job'.Readable)
    (hcount : job'.CountFits) : s.Tells op jobId (job.changeStatus job') state := by
  obtain ⟨hslot', _, _⟩ := hrealizes
  have hplaced : job'.IsPlaced := by
    intro habsent
    rw [habsent] at hstate
    cases hstate
  have hkept : s.next op = s ↔ job' = job := by
    constructor
    · intro hsame
      apply Job.toSlot_injective
      rw [← hslot', ← hslot]
      exact congrArg (fun store => store.slot jobId) hsame
    · exact hanswers.kept
  refine ⟨?_, ?_, ?_, ?_⟩
  · rw [known_iff hslot, Job.IsPlaced, not_not, Job.changeStatus]
    split_ifs with habsent <;> simp [habsent]
  · rw [hkept, Job.changeStatus]
    split_ifs with habsent hsame
    · have hne : job' ≠ job := by
        rintro rfl
        exact hplaced habsent
      simp [hne]
    · simp [hsame]
    · simp [hsame]
  · rw [show (s.next op).placements jobId = _ from placements_of_slot hslot', hstate]
    rfl
  · obtain ⟨record, hrecord⟩ := exists_getJob hslot' hplaced hreadable hcount
    have hthere := state_of_getJob hslot' hrecord
    rw [hstate] at hthere
    exact ⟨record, hrecord, Option.some.inj hthere⟩

/-- The client reads the reply to an enqueue that changed a job. -/
theorem parseEnqueueResponse_of_ok (status : EnqueueStatus) (state : JobState)
    (schedule : Bytes) :
    parseEnqueueResponse jobId [utf8 "ok", status.asStr, state.asStr, schedule] =
      .ok ⟨jobId, state, status⟩ := by
  unfold parseEnqueueResponse
  rw [if_neg (by simp)]
  exact bind_eq_ok_iff.mpr ⟨_, parseEnqueueStatus_asStr status,
    bind_eq_ok_iff.mpr ⟨_, parseState_asStr state, rfl⟩⟩

/-- The client reads the reply to a reschedule that changed a job. -/
theorem parseRescheduleResponse_of_ok {status : EnqueueStatus} (state : JobState) {value : ℤ}
    (hrange : minTimestampNanos ≤ value * 1000 ∧ value * 1000 ≤ maxTimestampNanos) :
    parseRescheduleResponse jobId [utf8 "ok", status.asStr, state.asStr, fixedText value] =
      .ok ⟨jobId, state, if value = 0 then none else some ⟨value * 1000, hrange⟩⟩ := by
  unfold parseRescheduleResponse
  rw [if_neg (by simp)]
  exact bind_eq_ok_iff.mpr ⟨_, parseState_asStr state,
    bind_eq_ok_iff.mpr ⟨_, parseOptionalTime_fixedText _ hrange, rfl⟩⟩

/-- A job is leased when the leased set has it. -/
theorem isSome_leased_iff (hslot : s.slot jobId = job.toSlot) :
    (s.leased.score jobId).isSome ↔ job.placement.state = some .leased := by
  rw [show s.leased.score jobId = _ from congrArg Slot.leased hslot]
  obtain ⟨placement, failures⟩ := job
  cases placement <;> simp [Job.toSlot, Placement.state]

/-- A job is failed when the failed set has it. -/
theorem isSome_failed_iff (hslot : s.slot jobId = job.toSlot) :
    (s.failed.score jobId).isSome ↔ job.placement.state = some .failed := by
  rw [show s.failed.score jobId = _ from congrArg Slot.failed hslot]
  obtain ⟨placement, failures⟩ := job
  cases placement <;> simp [Job.toSlot, Placement.state]

/-- What an enqueue that answers ok owes: its reply is read without error and tells how the
job has changed. -/
def EnqueueTells (s : Store) (request : EnqueueRequest) (now : Timestamp) : Prop :=
  (s.reply (.enqueue request now)).isOk = true →
    ∃ result, parseEnqueueResponse request.jobId (s.reply (.enqueue request now)) = .ok result ∧
      result.jobId = request.jobId ∧
      s.Tells (.enqueue request now) request.jobId result.status result.state

/-- An enqueue is refused, forgets the failures of a failed job, or finds a failure count
that fits. -/
def EnqueueCountFits (s : Store) (request : EnqueueRequest) : Prop :=
  (request.allowExistingCurrentRun = false ∧ (s.leased.score request.jobId).isSome) ∨
    (s.failed.score request.jobId).isSome ∨ s.CountFits request.jobId

/-- The reply to an enqueue tells how the job has changed exactly when a query can read the
failure count that the enqueue keeps. -/
theorem enqueueTells_iff (hwf : s.WellFormed) {request : EnqueueRequest} {now : Timestamp}
    (hreadable : s.ReadableJob request.jobId) (hnow : (micros now).natAbs < 2 ^ 53)
    (hrequested : (scheduleMicros request.scheduleAt).natAbs < 2 ^ 53) :
    s.EnqueueTells request now ↔ s.EnqueueCountFits request := by
  obtain ⟨job, hslot⟩ := hwf.exists_job request.jobId
  have hrealizes := exec_enqueue_realizes hslot now
  have hrefused : (Op.enqueue request now).outcome job = none ↔ _ :=
    Job.outcome_enqueue_eq_none_iff
  rw [← isSome_leased_iff hslot] at hrefused
  cases houtcome : (Op.enqueue request now).outcome job with
  | none =>
      rw [houtcome] at hrealizes
      refine iff_of_true (fun hok => ?_) (Or.inl (hrefused.mp houtcome))
      cases hok.symm.trans hrealizes.2
  | some job' =>
      rw [houtcome] at hrealizes hrefused
      have hanswers := exec_enqueue_answers hslot houtcome
      obtain ⟨state, score, schedule, hstate, _, _, hreply⟩ := hanswers.reply
      have hparse : parseEnqueueResponse request.jobId (s.reply (.enqueue request now)) =
          .ok ⟨request.jobId, state, job.changeStatus job'⟩ := by
        rw [reply, hreply]
        exact parseEnqueueResponse_of_ok _ _ _
      have hreadable' := (hreadable.readable hslot).enqueue hrequested hnow houtcome
      have hcount : job'.CountFits ↔ s.EnqueueCountFits request := by
        unfold EnqueueCountFits
        rw [← hrefused, isSome_failed_iff hslot, countFits_iff hslot]
        unfold Job.CountFits
        rcases Op.failures_of_enqueue houtcome with ⟨⟨failedAt, hfailed⟩, hcleared⟩ |
          ⟨hunfailed, hkept⟩
        · simp [hfailed, hcleared, Placement.state]
        · have hstate : job.placement.state ≠ some .failed := by
            cases hplacement : job.placement with
            | failed failedAt => exact absurd hplacement (hunfailed failedAt)
            | _ => simp [Placement.state]
          simp [hstate, hkept]
      constructor
      · intro howes
        obtain ⟨result, _, _, htells⟩ := howes hrealizes.2.1
        exact hcount.mp (htells.countFits hrealizes.1)
      · exact fun hfits _ => ⟨_, hparse, rfl,
          tells_of_answers hslot hrealizes hanswers hstate hreadable' (hcount.mpr hfits)⟩

end Store

/-- A replace without condition puts a job where it is asked to be. -/
theorem Job.placement_replaceWaiting_always (job : Job) (target : Target) (score : ℤ) :
    (job.replaceWaiting target .always score).placement = target.placement := by
  unfold replaceWaiting
  split_ifs with hkept
  · exact hkept.resolve_right (by simp [ReplaceMode.shouldReplace])
  · rfl

/-- A reschedule puts a job where it is asked to be. -/
theorem Job.placement_of_reschedule {job job' : Job} {target : Target}
    (houtcome : job.reschedule target .always = some job') :
    job'.placement = target.placement := by
  unfold Job.reschedule at houtcome
  split at houtcome <;> cases houtcome
  · exact job.placement_replaceWaiting_always target _
  · exact job.placement_replaceWaiting_always target _

namespace Store

variable {s : Store} {jobId : Bytes}

/-- A reply that reports success comes with the transition of the job. -/
theorem exists_outcome_of_isOk {op : Op} {outcome : Option Job}
    (hrealizes : Realizes s (s.exec op) jobId outcome) (hok : (s.reply op).isOk = true) :
    ∃ job', outcome = some job' := by
  cases outcome with
  | some job' => exact ⟨job', rfl⟩
  | none => cases hok.symm.trans hrealizes.2

/-- What a reschedule that answers ok owes: its reply is read without error and tells how the
job has changed, and its schedule is the score of a scheduled job and none for a ready job. -/
def RescheduleTells (s : Store) (jobId : Bytes) (scheduleAt : Option Timestamp)
    (now : Timestamp) : Prop :=
  (s.reply (.reschedule jobId scheduleAt now)).isOk = true →
    ∃ status result, (s.reply (.reschedule jobId scheduleAt now))[1]? = some status.asStr ∧
      parseRescheduleResponse jobId (s.reply (.reschedule jobId scheduleAt now)) = .ok result ∧
      result.jobId = jobId ∧
      s.Tells (.reschedule jobId scheduleAt now) jobId status result.state ∧
      (∀ score, (s.next (.reschedule jobId scheduleAt now)).scheduled.score jobId = some score →
        ∃ time, result.scheduleAt = some time ∧ time.val = score * 1000) ∧
      (((s.next (.reschedule jobId scheduleAt now)).ready.score jobId).isSome →
        result.scheduleAt = none)

/-- A reschedule is refused or finds a failure count that fits. -/
def RescheduleCountFits (s : Store) (jobId : Bytes) : Prop :=
  (s.ready.score jobId).isSome ∨ (s.scheduled.score jobId).isSome → s.CountFits jobId

/-- The reply to a reschedule tells how the job has changed when its failure count fits. -/
theorem rescheduleTells_of_countFits (hwf : s.WellFormed) {scheduleAt : Option Timestamp}
    {now : Timestamp} (hreadable : s.ReadableJob jobId) (hnow : (micros now).natAbs < 2 ^ 53)
    (hrequested : (scheduleMicros scheduleAt).natAbs < 2 ^ 53) (hcount : s.CountFits jobId) :
    s.RescheduleTells jobId scheduleAt now := by
  intro hok
  obtain ⟨job, hslot⟩ := hwf.exists_job jobId
  have hrealizes : Realizes s (s.exec (.reschedule jobId scheduleAt now)) jobId _ :=
    reschedule_realizes hslot _ _ _
  obtain ⟨job', houtcome⟩ := exists_outcome_of_isOk hrealizes hok
  rw [houtcome] at hrealizes
  have hanswers : s.Answers (s.exec (.reschedule jobId scheduleAt now)) job job' :=
    reschedule_answers hslot houtcome
  have hwaiting : job.placement.state ≠ some .failed := by
    obtain ⟨placement, failures⟩ := job
    cases placement with
    | failed score => cases houtcome
    | _ => simp [Placement.state]
  obtain ⟨state, score, schedule, hstate, hscore, hschedule, hreply⟩ := hanswers.reply
  rw [hschedule hwaiting] at hreply
  have hreadable' : job'.Readable := by
    rw [← Double.ofInt_of_natAbs_lt hrequested] at hrequested
    rw [← Double.ofInt_of_natAbs_lt hnow] at hnow
    exact (hreadable.readable hslot).reschedule hrequested hnow houtcome
  have hcount' : job'.CountFits := by
    rw [Job.CountFits, Job.failures_of_reschedule houtcome]
    exact (countFits_iff hslot).mp hcount
  have htold := tells_of_answers hslot hrealizes hanswers hstate hreadable' hcount'
  have hplacement := Job.placement_of_reschedule houtcome
  rw [Double.ofInt_of_natAbs_lt hrequested, Double.ofInt_of_natAbs_lt hnow] at hplacement
  have hslot' : (s.next (.reschedule jobId scheduleAt now)).slot jobId = job'.toSlot :=
    hrealizes.1
  rw [reply, hreply]
  by_cases hdue : scheduleMicros scheduleAt = 0 ∨ scheduleMicros scheduleAt ≤ micros now
  · -- the job is ready
    rw [placement_of_due hdue] at hplacement
    obtain ⟨placement', failures'⟩ := job'
    cases hplacement
    cases hstate
    cases hscore
    have hrange : minTimestampNanos ≤ 0 * 1000 ∧ 0 * 1000 ≤ maxTimestampNanos := by decide
    refine ⟨_, _, rfl, parseRescheduleResponse_of_ok _ hrange, rfl, htold, ?_, fun _ => rfl⟩
    intro score hscheduled
    cases (congrArg Slot.scheduled hslot').symm.trans hscheduled
  · -- the job is scheduled, at a time that is not zero
    rw [placement_of_later hdue] at hplacement
    obtain ⟨placement', failures'⟩ := job'
    cases hplacement
    cases hstate
    cases hscore
    have hrange : minTimestampNanos ≤ scheduleMicros scheduleAt * 1000 ∧
        scheduleMicros scheduleAt * 1000 ≤ maxTimestampNanos := by
      unfold minTimestampNanos maxTimestampNanos
      omega
    refine ⟨_, _, rfl, parseRescheduleResponse_of_ok _ hrange, rfl, htold, ?_, ?_⟩
    · intro score hscheduled
      cases (congrArg Slot.scheduled hslot').symm.trans hscheduled
      exact ⟨_, if_neg (not_or.mp hdue).1, rfl⟩
    · intro hready
      rw [show (s.next _).ready.score jobId = none from congrArg Slot.ready hslot'] at hready
      cases hready

/-- The reply to a reschedule tells how the job has changed exactly when a query can read the
failure count that the reschedule keeps. -/
theorem rescheduleTells_iff (hwf : s.WellFormed) {scheduleAt : Option Timestamp}
    {now : Timestamp} (hreadable : s.ReadableJob jobId) (hnow : (micros now).natAbs < 2 ^ 53)
    (hrequested : (scheduleMicros scheduleAt).natAbs < 2 ^ 53) :
    s.RescheduleTells jobId scheduleAt now ↔ s.RescheduleCountFits jobId := by
  obtain ⟨job, hslot⟩ := hwf.exists_job jobId
  have hrealizes : Realizes s (s.exec (.reschedule jobId scheduleAt now)) jobId _ :=
    reschedule_realizes hslot _ _ _
  constructor
  · intro howes hwaiting
    cases houtcome : job.reschedule (normalizeTarget (Double.ofInt (scheduleMicros scheduleAt))
        (Double.ofInt (micros now))) .always with
    | none =>
        rw [show s.ready.score jobId = _ from congrArg Slot.ready hslot,
          show s.scheduled.score jobId = _ from congrArg Slot.scheduled hslot] at hwaiting
        obtain ⟨placement, failures⟩ := job
        cases placement <;> simp_all [Job.toSlot, Job.reschedule]
    | some job' =>
        rw [houtcome] at hrealizes
        obtain ⟨status, result, _, _, _, htells, _⟩ := howes hrealizes.2.1
        have hcount := htells.countFits hrealizes.1
        rw [Job.CountFits, Job.failures_of_reschedule houtcome] at hcount
        exact (countFits_iff hslot).mpr hcount
  · intro hfits hok
    obtain ⟨job', houtcome⟩ := exists_outcome_of_isOk hrealizes hok
    refine rescheduleTells_of_countFits hwf hreadable hnow hrequested (hfits ?_) hok
    rw [show s.ready.score jobId = _ from congrArg Slot.ready hslot,
      show s.scheduled.score jobId = _ from congrArg Slot.scheduled hslot]
    obtain ⟨placement, failures⟩ := job
    cases placement <;> simp_all [Job.toSlot, Job.reschedule]

/-- At times below `2 ^ 53` microseconds, every successful enqueue and reschedule is read
without error and tells how the job has changed and where it is, exactly when the failure
count that it keeps is an unsigned 32-bit integer. -/
theorem enqueue_replies_tell_iff (s : Store) (hwf : s.WellFormed) (now : Timestamp)
    (hnow : (micros now).natAbs < 2 ^ 53) :
    (∀ request : EnqueueRequest, (scheduleMicros request.scheduleAt).natAbs < 2 ^ 53 →
      s.ReadableJob request.jobId →
        (s.EnqueueTells request now ↔ s.EnqueueCountFits request)) ∧
      ∀ jobId scheduleAt, (scheduleMicros scheduleAt).natAbs < 2 ^ 53 → s.ReadableJob jobId →
        (s.RescheduleTells jobId scheduleAt now ↔ s.RescheduleCountFits jobId) :=
  ⟨fun _ hrequested hreadable => enqueueTells_iff hwf hreadable hnow hrequested,
    fun _ _ hrequested hreadable => rescheduleTells_iff hwf hreadable hnow hrequested⟩

/-- A job that waits for its retry, with the given failure count. -/
def countedStore (count : ℤ) : Store :=
  { empty.run [.enqueue ⟨"job", some (.ofSeconds 68), .always, false⟩ (.ofSeconds 67)] with
    failures := Finmap.insert "job" count ∅ }

/-- A count may be set for a known job. -/
theorem WellFormed.withCount (hwf : s.WellFormed) (hknown : s.Known jobId) {count : ℤ}
    (hpos : 1 ≤ count) :
    { s with failures := Finmap.insert jobId count s.failures : Store }.WellFormed where
  single_placement := hwf.single_placement
  leaseMeta_iff := hwf.leaseMeta_iff
  leaseMeta_packed := hwf.leaseMeta_packed
  rerun_leased := hwf.rerun_leased
  failures_known other hcount := by
    by_cases hother : other = jobId
    · exact hother ▸ hknown
    · rw [Hash.lookup_insert, if_neg hother] at hcount
      exact hwf.failures_known other hcount
  failed_failures other hfailed := by
    rw [Hash.lookup_insert]
    split_ifs
    · exact ⟨count, rfl, hpos⟩
    · exact hwf.failed_failures other hfailed

theorem wellFormed_countedStore {count : ℤ} (hpos : 1 ≤ count) : (countedStore count).WellFormed :=
  (storesWf_run (by decide)).wellFormed.withCount (by decide) hpos

theorem readableJob_countedStore (count : ℤ) : (countedStore count).ReadableJob "job" where
  times := by
    show ∀ set ∈ [(countedStore 1).ready, (countedStore 1).scheduled, (countedStore 1).leased,
      (countedStore 1).failed], _
    decide
  holder _ _ hrecord := by cases hrecord

/-- A job that has failed once and waits for its retry is moved to a later time. -/
theorem enqueue_replies_tell_sample :
    let request : EnqueueRequest := ⟨"job", some (.ofSeconds 70), .ifLater, false⟩
    (((countedStore 1).reply (.enqueue request (.ofSeconds 69))).isOk = true ∧
        (countedStore 1).EnqueueTells request (.ofSeconds 69)) ∧
      ((countedStore 1).reply (.reschedule "job" (some (.ofSeconds 70)) (.ofSeconds 69))).isOk =
          true ∧
        (countedStore 1).RescheduleTells "job" (some (.ofSeconds 70)) (.ofSeconds 69) := by
  intro request
  have hreadable := readableJob_countedStore 1
  have hfits : (countedStore 1).CountFits "job" := by decide
  obtain ⟨henqueue, hreschedule⟩ := enqueue_replies_tell_iff (countedStore 1)
    (wellFormed_countedStore le_rfl) (.ofSeconds 69) (by decide)
  exact ⟨⟨by decide, (henqueue request (by decide) hreadable).mpr (Or.inr (Or.inr hfits))⟩,
    by decide, (hreschedule _ _ (by decide) hreadable).mpr fun _ => hfits⟩

/-- An enqueue that makes a job with 2^32 failures ready answers ok, and the query that follows
fails. -/
theorem overcounted_not_enqueueTells :
    (countedStore 4294967296).WellFormed ∧ (countedStore 4294967296).ReadableJob "job" ∧
      ¬ (countedStore 4294967296).EnqueueTells ⟨"job", some (.ofSeconds 68), .always, false⟩
        (.ofSeconds 69) := by
  refine ⟨wellFormed_countedStore (by decide), readableJob_countedStore _, fun howes => ?_⟩
  obtain ⟨_, _, _, htells⟩ := howes (by decide)
  obtain ⟨record, hrecord, _⟩ := htells.reported
  have hfails : ((countedStore 4294967296).next (.enqueue
      ⟨"job", some (.ofSeconds 68), .always, false⟩ (.ofSeconds 69))).getJob "job" =
        some (.error (decodeError "get_job")) := by decide
  cases hfails.symm.trans hrecord

end Store

end Redloop
