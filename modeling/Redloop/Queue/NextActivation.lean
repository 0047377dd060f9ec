/-
# Announcing the next activation

A reserve announces the least score after its time among the scheduled jobs that it leaves.
It puts its time into the bound of the query by concatenation, which prints it with 14
digits, while its due check uses the number itself. The two boundaries differ for most
times in microseconds. A job between them is skipped, or announced although its time has
come.
-/

import Redloop.Queue.Oldest
import Redloop.Queue.Policy

namespace Redloop

/-! ## The two boundaries -/

/-- The number that the 14-digit text of a time denotes. -/
def printedTime (nowUs : ℤ) : ℤ := Double.ofInt (generalValue 14 nowUs)

/-- A time from the epoch on is printed as such a time. -/
theorem printedTime_nonneg {nowUs : ℤ} (hnow : 0 ≤ nowUs) : 0 ≤ printedTime nowUs := by
  apply ofInt_nonneg
  unfold generalValue
  rw [if_neg hnow.not_gt]
  exact Int.natCast_nonneg _

/-- A time that is printed 40 microseconds later than it is. -/
def latePrintedTime : Timestamp :=
  ⟨1700000000000060000, by unfold minTimestampNanos maxTimestampNanos; omega⟩

/-- A time 20 microseconds later. -/
def soonTime : Timestamp :=
  ⟨1700000000000080000, by unfold minTimestampNanos maxTimestampNanos; omega⟩

namespace Store

variable {s : Store} {jobs : Bytes → Job} {config : WorkerConfig} {availableCapacity : ℕ}
  {now : Timestamp} {leaseTokens : List Bytes} {args : ReserveArgs}

/-- The scheduled scores after a time. -/
def Future (s : Store) (nowUs : ℤ) : Set ℤ :=
  {score | ∃ jobId, s.scheduled.score jobId = some score ∧ nowUs < score}

/-- A time is announced exactly: it is none when no scheduled job has a score after now, and
otherwise the least such score. -/
structure AnnouncesExactly (s : Store) (nowUs : ℤ) (announced : Option Timestamp) : Prop where
  none_iff : announced = none ↔ s.Future nowUs = ∅
  least : ∀ time, announced = some time →
    ∃ score, IsLeast (s.Future nowUs) score ∧ time.val = score * 1000

/-- What is announced depends on the scores that are after now. -/
theorem AnnouncesExactly.of_future_eq {s' : Store} {nowUs : ℤ} {announced : Option Timestamp}
    (hexactly : s.AnnouncesExactly nowUs announced) (hfuture : s.Future nowUs = s'.Future nowUs) :
    s'.AnnouncesExactly nowUs announced :=
  ⟨hfuture ▸ hexactly.none_iff, hfuture ▸ hexactly.least⟩

/-! ## What is announced -/

/-- What the client reads as the next activation: an announced zero stands for none. -/
theorem parseNextSchedule_eq {announced : Option ℤ} {next : Option Timestamp}
    (hparse : parseNextSchedule (some
      (match announced with
        | none => utf8 "0"
        | some score => generalText 17 score)) = .ok next) :
    (next = none ∧ (announced = none ∨ announced = some 0)) ∨
      ∃ score time, announced = some score ∧ score ≠ 0 ∧ next = some time ∧
        time.val = score * 1000 := by
  cases announced with
  | none =>
      cases hparse
      exact Or.inl ⟨rfl, Or.inl rfl⟩
  | some score =>
      unfold parseNextSchedule at hparse
      dsimp only at hparse
      split_ifs at hparse with hzero
      · cases hparse
        exact Or.inl ⟨rfl, Or.inr (congrArg some (eq_zero_of_scoreText hzero))⟩
      · right
        obtain ⟨micros, hmicros, hparse⟩ := bind_eq_ok_iff.mp hparse
        obtain ⟨time, htime, hnext⟩ := bind_eq_ok_iff.mp hparse
        cases hnext
        rw [parseI64_scoreText] at hmicros
        split_ifs at hmicros
        cases hmicros
        unfold fromMicros at htime
        split_ifs at htime
        cases htime
        refine ⟨score, _, rfl, ?_, rfl, rfl⟩
        rintro rfl
        exact hzero (by decide)

/-- The scores that the announced activation is the first of. -/
def AfterPrinted (s : Store) (args : ReserveArgs) : Set ℤ :=
  (s.takeAll (s.taken args)).Future (printedTime args.nowUs)

/-- The announced activation is the least score after the printed time. -/
theorem announced_eq_some_iff {score : ℤ} :
    s.announced args = some score ↔ IsLeast (s.AfterPrinted args) score := by
  unfold announced AfterPrinted Future printedTime
  rw [SortedSet.score_head?_rangeByScore_eq_some_iff]
  simp only [decide_eq_true_eq]

/-- No activation is announced when no score is after the printed time. -/
theorem announced_eq_none_iff : s.announced args = none ↔ s.AfterPrinted args = ∅ := by
  unfold announced AfterPrinted Future printedTime
  rw [SortedSet.score_head?_rangeByScore_eq_none_iff, Set.eq_empty_iff_forall_notMem]
  simp only [decide_eq_true_eq, Set.mem_ofPred_eq]

/-- Two times have the same future when no score lies between them. -/
theorem future_eq_iff {first second : ℤ} :
    s.Future first = s.Future second ↔
      ∀ jobId score, s.scheduled.score jobId = some score → (first < score ↔ second < score) := by
  constructor
  · intro heq jobId score hscore
    have hmem {nowUs : ℤ} : score ∈ s.Future nowUs ↔ nowUs < score :=
      ⟨fun hmem => hmem.choose_spec.2, fun hlater => ⟨jobId, hscore, hlater⟩⟩
    rw [← hmem, heq, hmem]
  · intro hagree
    ext score
    exact exists_congr fun jobId => and_congr_right fun hscore => hagree jobId score hscore

/-- Two times with the same first future score have the same future. -/
theorem future_eq_of_isLeast {first second least : ℤ} (hfirst : IsLeast (s.Future first) least)
    (hsecond : IsLeast (s.Future second) least) : s.Future first = s.Future second := by
  ext score
  constructor
  · rintro ⟨jobId, hscore, hlater⟩
    have hle := hfirst.2 ⟨jobId, hscore, hlater⟩
    exact ⟨jobId, hscore, hsecond.1.choose_spec.2.trans_le hle⟩
  · rintro ⟨jobId, hscore, hlater⟩
    have hle := hsecond.2 ⟨jobId, hscore, hlater⟩
    exact ⟨jobId, hscore, hfirst.1.choose_spec.2.trans_le hle⟩

/-- None is announced exactly when there is no future. -/
theorem announcesExactly_none_iff {nowUs : ℤ} :
    s.AnnouncesExactly nowUs none ↔ s.Future nowUs = ∅ := by
  constructor
  · intro hexact
    exact hexact.none_iff.mp rfl
  · intro hempty
    refine ⟨iff_of_true rfl hempty, ?_⟩
    rintro _ ⟨⟩

/-- A time is announced exactly when it is that of the first future score. -/
theorem announcesExactly_some_iff {nowUs score : ℤ} {time : Timestamp}
    (htime : time.val = score * 1000) :
    s.AnnouncesExactly nowUs (some time) ↔ IsLeast (s.Future nowUs) score := by
  constructor
  · intro hexact
    obtain ⟨least, hleast, hsame⟩ := hexact.least time rfl
    obtain rfl : score = least := by omega
    exact hleast
  · intro hleast
    constructor
    · apply iff_of_false
      · rintro ⟨⟩
      · intro hempty
        rw [hempty] at hleast
        cases hleast.1
    · rintro _ ⟨⟩
      exact ⟨score, hleast, htime⟩

/-- The least announced activation is exact when the two boundaries have the same future and
the zero that stands for none is not the activation itself. -/
theorem announcesExactly_iff_of_least {printed nowUs : ℤ} {announced : Option ℤ}
    {next : Option Timestamp} (hsign : 0 ≤ nowUs → 0 ≤ printed)
    (hsome : ∀ score, announced = some score ↔ IsLeast (s.Future printed) score)
    (hnone : announced = none ↔ s.Future printed = ∅)
    (hnext : (next = none ∧ (announced = none ∨ announced = some 0)) ∨
      ∃ score time, announced = some score ∧ score ≠ 0 ∧ next = some time ∧
        time.val = score * 1000) :
    s.AnnouncesExactly nowUs next ↔
      s.Future printed = s.Future nowUs ∧ ¬ IsLeast (s.Future nowUs) 0 := by
  rcases hnext with ⟨rfl, hannounced | hannounced⟩ | ⟨first, time, hannounced, hnonzero, rfl, hval⟩
  · rw [announcesExactly_none_iff, hnone.mp hannounced]
    constructor
    · intro hempty
      refine ⟨hempty.symm, fun hzero => ?_⟩
      rw [hempty] at hzero
      cases hzero.1
    · exact fun hsame => hsame.1.symm
  · have hprinted := (hsome 0).mp hannounced
    rw [announcesExactly_none_iff]
    constructor
    · -- before the epoch, the score zero would be in the future
      intro hempty
      obtain ⟨jobId, hscore, hbefore⟩ := hprinted.1
      have hnow : nowUs < 0 := by
        by_contra hnow
        exact absurd (hsign (not_lt.mp hnow)) (not_le.mpr hbefore)
      have hmem : (0 : ℤ) ∈ s.Future nowUs := ⟨jobId, hscore, hnow⟩
      rw [hempty] at hmem
      cases hmem
    · rintro ⟨hsame, hnonzero⟩
      exact absurd (hsame ▸ hprinted) hnonzero
  · have hprinted := (hsome first).mp hannounced
    rw [announcesExactly_some_iff hval]
    constructor
    · intro hleast
      exact ⟨future_eq_of_isLeast hprinted hleast,
        fun hzero => hnonzero (hleast.unique hzero)⟩
    · rintro ⟨hsame, _⟩
      exact hsame ▸ hprinted

/-! ## A reserve -/

/-- What a reserve leaves scheduled. -/
theorem scheduled_next_reserve (hrefines : Refines s jobs)
    (hrefuses : ¬ s.registry.Refuses config.retryPolicyKey) (availableCapacity : ℕ)
    (now : Timestamp) (leaseTokens : List Bytes) :
    (s.next (.reserve config availableCapacity now leaseTokens)).scheduled =
      (s.takeAll (s.taken (reserveArgs config availableCapacity now leaseTokens))).scheduled := by
  let args := reserveArgs config availableCapacity now leaseTokens
  obtain ⟨cfg, lastSeen, configs, _, hscheduled, _⟩ :=
    exists_reserveLoop hrefuses availableCapacity now leaseTokens
  let base : Store :=
    { s with cfg := cfg, workersLastSeen := lastSeen, workersConfig := configs }
  have hbase : Refines base jobs := hrefines.congr fun _ => rfl
  have hloop := (reserveLoop_takes args availableCapacity hbase []).2.1
  exact hscheduled.trans (hloop.trans (takeAll_congr base s rfl rfl _).2)

/-- A job after the time of a reserve is not taken by it. -/
theorem not_takes_of_lt {jobId : Bytes} {score : ℤ}
    (hscore : s.scheduled.score jobId = some score) (hlater : args.nowUs < score) :
    ¬ Takes (s.taken args) .scheduled jobId := by
  rintro ⟨candidate, hmem, hsource, rfl⟩
  rcases mem_eligible.mp (List.mem_of_mem_take hmem) with ⟨hready, _⟩ | ⟨_, hfound, hdue⟩
  · cases hsource.symm.trans hready
  · cases hscore.symm.trans hfound
    exact absurd hdue hlater.not_ge

/-- The jobs that a reserve takes are not after its time. -/
theorem future_takeAll_taken (s : Store) (args : ReserveArgs) :
    (s.takeAll (s.taken args)).Future args.nowUs = s.Future args.nowUs := by
  ext score
  constructor
  · rintro ⟨jobId, hscore, hlater⟩
    rw [scheduled_takeAll] at hscore
    split_ifs at hscore
    exact ⟨jobId, hscore, hlater⟩
  · rintro ⟨jobId, hscore, hlater⟩
    refine ⟨jobId, ?_, hlater⟩
    rw [scheduled_takeAll, if_neg (not_takes_of_lt hscore hlater)]
    exact hscore

/-- A reserve that succeeds is not refused. -/
theorem not_refuses_of_parseReserveResponse (hcapacity : availableCapacity ≠ 0)
    {workerId : Bytes} {batch : ReserveBatch} (hparse : parseReserveResponse workerId
      (s.reply (.reserve config availableCapacity now leaseTokens)) = .ok batch) :
    ¬ s.registry.Refuses config.retryPolicyKey := by
  intro hrefuses
  have hreply : s.reply (.reserve config availableCapacity now leaseTokens) =
      Reply.policyMismatch := by
    rw [reply, exec_reserve_of_refuses hcapacity hrefuses]
  rw [hreply] at hparse
  cases hparse

/-- The client reads the announced activation. -/
theorem announced_of_parseReserveResponse {workerId : Bytes} {batch : ReserveBatch}
    (hparse : parseReserveResponse workerId (s.reserveReply args) = .ok batch) :
    (batch.nextScheduleAt = none ∧ (s.announced args = none ∨ s.announced args = some 0)) ∨
      ∃ score time, s.announced args = some score ∧ score ≠ 0 ∧
        batch.nextScheduleAt = some time ∧ time.val = score * 1000 := by
  unfold parseReserveResponse reserveReply at hparse
  rw [if_neg (by simp)] at hparse
  obtain ⟨next, hnext, hparse⟩ := bind_eq_ok_iff.mp hparse
  obtain ⟨_, _, hbatch⟩ := bind_eq_ok_iff.mp hparse
  cases hbatch
  exact parseNextSchedule_eq hnext

/-- A reserve that succeeds announces the next activation exactly when no scheduled job that
it leaves is after only one of its time and its printed time, and the next activation is not
the epoch itself. -/
theorem announces_exactly_iff (hwf : s.WellFormed) (hcapacity : 1 ≤ availableCapacity)
    {batch : ReserveBatch}
    (hparse : parseReserveResponse config.workerId
      (s.reply (.reserve config availableCapacity now leaseTokens)) = .ok batch) :
    (s.next (.reserve config availableCapacity now leaseTokens)).AnnouncesExactly
        (Double.ofInt (micros now)) batch.nextScheduleAt ↔
      (∀ jobId score, s.scheduled.score jobId = some score →
        ¬ Takes (s.taken (reserveArgs config availableCapacity now leaseTokens)) .scheduled
          jobId →
            (printedTime (Double.ofInt (micros now)) < score ↔
              Double.ofInt (micros now) < score)) ∧
        ¬ IsLeast (s.Future (Double.ofInt (micros now))) 0 := by
  obtain ⟨jobs, hrefines⟩ := hwf.exists_refines
  let args := reserveArgs config availableCapacity now leaseTokens
  let left := s.takeAll (s.taken args)
  have hrefuses := not_refuses_of_parseReserveResponse (by omega) hparse
  rw [reply_of_not_refuses hrefines hrefuses (by omega)] at hparse
  have hscheduled := scheduled_next_reserve hrefines hrefuses availableCapacity now leaseTokens
  have hexactly : (s.next (.reserve config availableCapacity now leaseTokens)).AnnouncesExactly
      args.nowUs batch.nextScheduleAt ↔ left.AnnouncesExactly args.nowUs batch.nextScheduleAt := by
    have hfuture : (s.next (.reserve config availableCapacity now leaseTokens)).Future args.nowUs =
        left.Future args.nowUs := by
      unfold Future
      rw [hscheduled]
    exact ⟨fun h => h.of_future_eq hfuture, fun h => h.of_future_eq hfuture.symm⟩
  refine hexactly.trans ?_
  rw [announcesExactly_iff_of_least printedTime_nonneg (fun _ => announced_eq_some_iff)
    announced_eq_none_iff (announced_of_parseReserveResponse hparse), future_eq_iff,
    future_takeAll_taken]
  apply and_congr_left
  intro _
  refine forall₂_congr fun jobId score => ?_
  rw [scheduled_takeAll]
  constructor
  · intro hagree hscore htaken
    exact hagree ((if_neg htaken).trans hscore)
  · intro hagree hscore
    split_ifs at hscore with htaken
    exact hagree hscore htaken

/-- A job that waits for 20 microseconds more is not announced. -/
theorem soon_job_not_announced :
    let s := empty.run [.enqueue ⟨"job", some soonTime, .always, false⟩ (.ofSeconds 1)]
    let op : Op := .reserve sampleConfig 1 latePrintedTime ["token"]
    s.WellFormed ∧ parseReserveResponse sampleConfig.workerId (s.reply op) = .ok ⟨[], none⟩ ∧
      (s.next op).scheduled.score "job" = some 1700000000000080 ∧
        Double.ofInt (micros latePrintedTime) < 1700000000000080 := by
  exact ⟨(storesWf_run (by decide)).wellFormed, by decide, by decide, by decide⟩

/-- A job that is scheduled at five seconds is announced at two seconds. -/
theorem announces_exactly_sample :
    let s := empty.run [.enqueue ⟨"job", some (.ofSeconds 5), .always, false⟩ (.ofSeconds 1)]
    (s.next (.reserve sampleConfig 1 (.ofSeconds 2) ["token"])).AnnouncesExactly
      (Double.ofInt (micros (.ofSeconds 2))) (some (.ofSeconds 5)) := by
  intro s
  have hparse : parseReserveResponse sampleConfig.workerId
      (s.reply (.reserve sampleConfig 1 (.ofSeconds 2) ["token"])) =
        .ok ⟨[], some (.ofSeconds 5)⟩ := by decide
  have hprinted : printedTime (Double.ofInt (micros (.ofSeconds 2))) =
      Double.ofInt (micros (.ofSeconds 2)) := by decide
  apply (announces_exactly_iff (storesWf_run (by decide)).wellFormed le_rfl hparse).mpr
  rw [hprinted]
  constructor
  · intro _ _ _ _
    exact Iff.rfl
  · rintro ⟨⟨_, _, hlater⟩, _⟩
    exact absurd hlater (by decide)

end Store

end Redloop
