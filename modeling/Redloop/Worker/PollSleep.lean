/-
# The poll sleep

After a reserve that found nothing the worker sleeps before the next one. The
sleep future is made anew at every entry into the select, from a duration that is
stored once. So the sleep keeps its deadline exactly when the select is entered
again at the instant of its first entry only: every later entry, after a
heartbeat, a reap, a join or a backoff, starts the full duration again.
-/

import Redloop.Worker.Steps

namespace Redloop

/-- The poll sleep an effect asks for. -/
def Effect.pollSleep? : Effect → Option Duration
  | pollSleep duration => some duration
  | _ => none

/-- The poll sleeps that the effects of a step ask for. -/
def pollSleeps (effects : List Effect) : List Duration := effects.filterMap Effect.pollSleep?

namespace Worker

variable {w w' : Worker} {now : Timestamp} {moment : Moment} {event : Event}
  {effects : List Effect}

/-! ## The stored duration -/

/-- The ways a step can change the poll delay and the reserve sleep. -/
inductive SleepChange (w : Worker) (now : Timestamp) (w' : Worker) : Prop
  | kept (hdelay : w'.pollDelay = w.pollDelay) (hsleep : w'.reserveSleep = w.reserveSleep)
  | granted (hbefore : w.reserveSleep = none) (hdelay : w'.pollDelay = w.config.pollIntervalMin)
      (hsleep : w'.reserveSleep = none)
  | empty {nextScheduleAt : Option Timestamp} (hbefore : w.reserveSleep = none)
      (hdelay : w'.pollDelay = w.pollDelay)
      (hsleep : w'.reserveSleep = some (sleepDuration now w.pollDelay nextScheduleAt, true))
  | failed (hbefore : w.reserveSleep = none)
      (hdelay : w'.pollDelay = nextPollDelay w.pollDelay w.config.pollIntervalMax)
      (hsleep : w'.reserveSleep = some (w.pollDelay, false))
  | woke (hdelay : w'.pollDelay = w.pollDelay ∨
        w'.pollDelay = nextPollDelay w.pollDelay w.config.pollIntervalMax)
      (hsleep : w'.reserveSleep = none)

/-- Every reaction changes the delay and the sleep in one of the ways. -/
theorem Reacts.sleepChange (hreacts : w.Reacts now event w' effects) :
    w.SleepChange now w' := by
  cases hreacts with
  | turn =>
      obtain ⟨_, _, heq⟩ := resolvePendingCompleted_frame _ _ _
      rw [Worker.turn, heq]
      exact .kept rfl rfl
  | join =>
      unfold joinNext
      split
      · exact .kept rfl rfl
      · split <;> exact .kept rfl rfl
  | heartbeatTick =>
      obtain ⟨_, heq⟩ := heartbeatActive_frame _ _ _
      rw [heq]
      exact .kept rfl rfl
  | reserve _ _ henabled _ =>
      have hbefore := Option.isNone_iff_eq_none.mp henabled.2.1
      unfold resumeReserve
      split
      · dsimp only
        split_ifs
        · rw [foldl_spawnJob]
          exact .granted hbefore rfl hbefore
        · exact .empty hbefore rfl rfl
      · split_ifs
        · exact .failed hbefore rfl rfl
        · exact .kept rfl rfl
  | pollSleep =>
      refine .woke ?_ rfl
      unfold wakePollSleep
      dsimp only
      split_ifs
      · exact Or.inr rfl
      · exact Or.inl rfl
  | wait =>
      unfold startSelect
      split <;> exact .kept rfl rfl
  | completion =>
      unfold resumeCompletion
      split
      · obtain ⟨_, _, heq⟩ := resolvePendingCompleted_frame _ _ _
        rw [heq]
        exact .kept rfl rfl
      · obtain ⟨_, _, heq⟩ := resolvePendingCompleted_frame _ _ _
        rw [heq]
        exact .kept rfl rfl
      · split_ifs <;> exact .kept rfl rfl
  | heartbeat =>
      unfold resumeHeartbeat
      split
      · obtain ⟨_, heq⟩ := heartbeatActive_frame _ _ _
        rw [heq]
        exact .kept rfl rfl
      · obtain ⟨_, heq⟩ := heartbeatActive_frame _ _ _
        rw [heq]
        exact .kept rfl rfl
      · split_ifs <;> exact .kept rfl rfl
  | reap =>
      unfold resumeReap
      split
      · exact .kept rfl rfl
      · split_ifs <;> exact .kept rfl rfl
  | _ => exact .kept rfl rfl

/-- A delay that is positive and within the configured maximum. -/
def PollRange (config : WorkerConfig) (duration : Duration) : Prop :=
  0 < duration.val ∧ duration ≤ config.pollIntervalMax

theorem PollRange.nextPollDelay {config : WorkerConfig} {delay : Duration}
    (hdelay : PollRange config delay) :
    PollRange config (nextPollDelay delay config.pollIntervalMax) := by
  refine ⟨?_, min_le_right _ _⟩
  unfold Redloop.nextPollDelay
  rcases min_choice (delay.saturatingMul 2) config.pollIntervalMax with heq | heq
  · have hle := delay.property
    have hpos := hdelay.1
    rw [heq]
    simp only [Duration.saturatingMul, lt_min_iff, maxDurationNanos] at hle ⊢
    omega
  · rw [heq]
    exact hdelay.1.trans_le hdelay.2

theorem PollRange.sleepDuration {config : WorkerConfig} {delay : Duration}
    (hdelay : PollRange config delay) (nextScheduleAt : Option Timestamp) :
    PollRange config (sleepDuration now delay nextScheduleAt) := by
  unfold Redloop.sleepDuration
  split
  · next scheduleAt =>
      split_ifs with hlater
      · refine ⟨?_, (min_le_right _ _).trans hdelay.2⟩
        rcases min_choice (scheduleAt.durationUntil now) delay with heq | heq
        · have hlater : now.val < scheduleAt.val := hlater
          rw [heq]
          simp only [Timestamp.durationUntil]
          omega
        · rw [heq]
          exact hdelay.1
      · exact hdelay
  · exact hdelay

/-- The poll delay and the stored sleep are in range. -/
structure BoundedSleep (w : Worker) : Prop where
  delay : PollRange w.config w.pollDelay
  sleep : ∀ sleep, w.reserveSleep = some sleep → PollRange w.config sleep.1

/-- Every step keeps the delay and the sleep in range. -/
theorem BoundedSleep.of_reacts (hbounded : w.BoundedSleep)
    (hmin : PollRange w.config w.config.pollIntervalMin)
    (hreacts : w.Reacts now event w' effects) : w'.BoundedSleep := by
  suffices PollRange w.config w'.pollDelay ∧
      ∀ sleep, w'.reserveSleep = some sleep → PollRange w.config sleep.1 by
    rw [← hreacts.config_eq.1] at this
    exact ⟨this.1, this.2⟩
  cases hreacts.sleepChange with
  | kept hdelay hsleep =>
      rw [hdelay, hsleep]
      exact ⟨hbounded.delay, hbounded.sleep⟩
  | granted _ hdelay hsleep =>
      rw [hdelay, hsleep]
      exact ⟨hmin, nofun⟩
  | empty _ hdelay hsleep =>
      rw [hdelay, hsleep]
      refine ⟨hbounded.delay, ?_⟩
      rintro sleep ⟨⟩
      exact hbounded.delay.sleepDuration _
  | failed _ hdelay hsleep =>
      rw [hdelay, hsleep]
      refine ⟨hbounded.delay.nextPollDelay, ?_⟩
      rintro sleep ⟨⟩
      exact hbounded.delay
  | woke hdelay hsleep =>
      rw [hsleep]
      refine ⟨?_, nofun⟩
      rcases hdelay with hdelay | hdelay
      · rw [hdelay]
        exact hbounded.delay
      · rw [hdelay]
        exact hbounded.delay.nextPollDelay

/-! ## Poll-sleep calls -/

/-- The poll-sleep calls made while the reserve sleep stays pending: when each is
made, and for how long. -/
def pollSleepCalls (w : Worker) : List (Moment × Event) → List (Instant × Duration)
  | [] => []
  | (moment, event) :: rest =>
      match w.step moment event with
      | none => []
      | some (w', effects) =>
          (pollSleeps effects).map (moment.instant, ·) ++
            if w'.reserveSleep.isSome then w'.pollSleepCalls rest else []

/-- An event enters a select in which the poll sleep takes part. -/
def EntersPollSleep (w : Worker) : Event → Prop
  | .enter _ => w.PollSleepEnabled w.capacity
  | _ => False

instance (w : Worker) : (event : Event) → Decidable (w.EntersPollSleep event)
  | .enter _ => inferInstanceAs (Decidable (w.PollSleepEnabled w.capacity))
  | .finish _ | .turn _ | .poll _ | .resume _ => instDecidableFalse

/-- When the select is entered with the poll sleep taking part, while the reserve
sleep stays pending. -/
def pollSleepEntries (w : Worker) : List (Moment × Event) → List Instant
  | [] => []
  | (moment, event) :: rest =>
      match w.next (moment, event) with
      | none => []
      | some w' =>
          (if w.EntersPollSleep event then [moment.instant] else []) ++
            if w'.reserveSleep.isSome then w'.pollSleepEntries rest else []

theorem pollSleeps_resolvePendingCompleted (w : Worker) (now : Timestamp)
    (order : List LeaseAttemptKey) : pollSleeps (w.resolvePendingCompleted now order).2 = [] := by
  rcases w.resolvePendingCompleted_cases now order with heq | ⟨_, _, _, _, heq⟩ <;> rw [heq] <;> rfl

theorem pollSleeps_heartbeatActive (w : Worker) (now : Timestamp) (order : List LeaseAttemptKey) :
    pollSleeps (w.heartbeatActive now order).2 = [] := by
  cases order <;> rfl

/-- Nothing but an entry asks for a poll sleep. -/
theorem Reacts.pollSleeps_eq_nil (hreacts : w.Reacts now event w' effects)
    (hother : ¬ w.EntersPollSleep event) : pollSleeps effects = [] := by
  cases hreacts with
  | @enter leaseTokens _ _ =>
      have hdisabled : ¬ w.PollSleepEnabled (w.newSelect now leaseTokens).capacity := hother
      unfold Worker.enter
      dsimp only
      rw [if_neg hdisabled]
      split_ifs <;> rfl
  | turn => exact pollSleeps_resolvePendingCompleted _ _ _
  | heartbeatTick => exact pollSleeps_heartbeatActive _ _ _
  | reserve =>
      unfold resumeReserve
      split
      · next batch =>
          dsimp only
          split_ifs
          · simp [pollSleeps, List.filterMap_map, Function.comp_def, Effect.pollSleep?]
          · rfl
      · split_ifs <;> rfl
  | wait =>
      unfold startSelect
      split
      · rfl
      · dsimp only
        split_ifs <;> rfl
  | completion =>
      unfold resumeCompletion
      split
      · exact pollSleeps_resolvePendingCompleted _ _ _
      · exact pollSleeps_resolvePendingCompleted _ _ _
      · split_ifs <;> rfl
  | heartbeat =>
      unfold resumeHeartbeat
      split
      · exact pollSleeps_heartbeatActive _ _ _
      · exact pollSleeps_heartbeatActive _ _ _
      · split_ifs <;> rfl
  | _ => rfl

/-- An entry asks for the stored duration, whatever has passed of it. -/
theorem Reacts.pollSleeps_eq_singleton (hreacts : w.Reacts now event w' effects)
    (henters : w.EntersPollSleep event) {sleep : Duration × Bool}
    (hsleep : w.reserveSleep = some sleep) : pollSleeps effects = [sleep.1] := by
  cases hreacts with
  | @enter leaseTokens _ _ =>
      have henabled : w.PollSleepEnabled (w.newSelect now leaseTokens).capacity := henters
      have hfor : (w.newSelect now leaseTokens).sleepFor = sleep.1 := by simp [newSelect, hsleep]
      unfold Worker.enter
      dsimp only
      rw [if_pos henabled, hfor]
      split_ifs <;> rfl
  | _ => cases henters

/-- While a reserve sleep is pending, every entry asks for its whole duration. -/
theorem pollSleepCalls_eq {sleep : Duration × Bool} (hsleep : w.reserveSleep = some sleep)
    (labels : List (Moment × Event)) :
    w.pollSleepCalls labels = (w.pollSleepEntries labels).map (·, sleep.1) := by
  induction labels generalizing w with
  | nil => rfl
  | cons label rest ih =>
      obtain ⟨moment, event⟩ := label
      rw [pollSleepCalls, pollSleepEntries, next]
      cases hstep : w.step moment event with
      | none => rfl
      | some result =>
          obtain ⟨w', effects⟩ := result
          obtain ⟨_, hreacts⟩ := step_eq_some hstep
          have hentry : (pollSleeps effects).map (moment.instant, ·) =
              (if w.EntersPollSleep event then [moment.instant] else []).map (·, sleep.1) := by
            split_ifs with henters
            · rw [hreacts.pollSleeps_eq_singleton henters hsleep]
              rfl
            · rw [hreacts.pollSleeps_eq_nil henters]
              rfl
          dsimp only [Option.map_some]
          rw [List.map_append, hentry]
          congr 1
          split_ifs with hpending
          · cases hreacts.sleepChange with
            | kept _ hkept => exact ih (hkept.trans hsleep)
            | granted hbefore => cases hsleep.symm.trans hbefore
            | empty hbefore => cases hsleep.symm.trans hbefore
            | failed hbefore => cases hsleep.symm.trans hbefore
            | woke _ hwoke => simp [hwoke] at hpending
          · rfl

/-- The entries come in the order of time, none before the clock of the worker. -/
theorem le_of_mem_pollSleepEntries {labels : List (Moment × Event)} {instant : Instant}
    (hmem : instant ∈ w.pollSleepEntries labels) : w.instant ≤ instant := by
  induction labels generalizing w with
  | nil => cases hmem
  | cons label rest ih =>
      obtain ⟨moment, event⟩ := label
      rw [pollSleepEntries, next] at hmem
      cases hstep : w.step moment event with
      | none => simp [hstep] at hmem
      | some result =>
          obtain ⟨w', effects⟩ := result
          obtain ⟨hle, hreacts⟩ := step_eq_some hstep
          simp only [hstep, Option.map_some, List.mem_append] at hmem
          rcases hmem with hmem | hmem <;> split_ifs at hmem
          · rw [List.mem_singleton] at hmem
            exact hmem ▸ hle
          · cases hmem
          · have hinstant : w'.instant = moment.instant := hreacts.config_eq.2
            exact hle.trans (hinstant ▸ ih hmem)
          · cases hmem

/-- The entries come in the order of time. -/
theorem pairwise_pollSleepEntries (labels : List (Moment × Event)) :
    (w.pollSleepEntries labels).Pairwise (· ≤ ·) := by
  induction labels generalizing w with
  | nil => exact .nil
  | cons label rest ih =>
      obtain ⟨moment, event⟩ := label
      rw [pollSleepEntries, next]
      cases hstep : w.step moment event with
      | none => exact .nil
      | some result =>
          obtain ⟨w', effects⟩ := result
          have hinstant : w'.instant = moment.instant := (step_eq_some hstep).2.config_eq.2
          dsimp only [Option.map_some]
          rw [List.pairwise_append]
          refine ⟨by split_ifs <;> simp, by split_ifs <;> simp [ih], ?_⟩
          intro entered hentered later hlater
          split_ifs at hentered hlater
          · rw [List.mem_singleton] at hentered
            exact hentered ▸ hinstant ▸ le_of_mem_pollSleepEntries hlater
          · cases hlater
          · cases hentered
          · cases hentered

/-! ## The deadline -/

/-- A label sets a reserve sleep, and the run goes on from there. -/
def SetsReserveSleep (w : Worker) (labels : List (Moment × Event)) (w₁ : Worker)
    (rest : List (Moment × Event)) : Prop :=
  ∃ first label w₀, labels = first ++ label :: rest ∧ w.run first = some w₀ ∧
    w₀.reserveSleep = none ∧ w₀.next label = some w₁ ∧ w₁.reserveSleep.isSome

/-- Along the labels every poll sleep keeps the deadline of its first call, and
ends within the configured maximum from then. -/
def KeepsPollDeadline (w : Worker) (labels : List (Moment × Event)) : Prop :=
  ∀ w₁ rest, w.SetsReserveSleep labels w₁ rest →
    ∀ t₀ d later, w₁.pollSleepCalls rest = (t₀, d) :: later → ∀ call ∈ later,
      call.2.val ≤ t₀ + d.val - call.1 ∧
        call.1 + call.2.val ≤ t₀ + w.config.pollIntervalMax.val

/-- While a poll sleep is pending, the select is entered with it at one instant
alone. -/
def EntersAtOnce (w : Worker) (labels : List (Moment × Event)) : Prop :=
  ∀ w₁ rest, w.SetsReserveSleep labels w₁ rest →
    ∀ t₀ later, w₁.pollSleepEntries rest = t₀ :: later → ∀ t ∈ later, t = t₀

/-- The delays of a worker stay in range along its runs. -/
theorem BoundedSleep.of_run {labels : List (Moment × Event)} (hbounded : w.BoundedSleep)
    (hmin : PollRange w.config w.config.pollIntervalMin) (hrun : w.run labels = some w') :
    w'.BoundedSleep ∧ w'.config = w.config := by
  apply runTrace_invariant (motive := fun v => v.BoundedSleep ∧ v.config = w.config)
    ⟨hbounded, rfl⟩ _ hrun
  rintro v ⟨moment, event⟩ v' ⟨hv, hconfig⟩ hnext
  obtain ⟨⟨_, effects⟩, hstep, rfl⟩ := Option.map_eq_some_iff.mp hnext
  obtain ⟨_, hreacts⟩ := step_eq_some hstep
  have hbefore : { v with instant := moment.instant }.BoundedSleep := ⟨hv.delay, hv.sleep⟩
  exact ⟨hbefore.of_reacts (hconfig ▸ hmin) hreacts, hreacts.config_eq.1.trans hconfig⟩

/-- Every configuration that validates has a positive delay within its maximum. -/
theorem boundedSleep_of_start {namespaceName : Bytes} {config : WorkerConfig} {instant : Instant}
    (hstart : Worker.start namespaceName config instant = .ok w) :
    w.BoundedSleep ∧ PollRange w.config w.config.pollIntervalMin := by
  obtain ⟨_, hvalid, hinitial⟩ := bind_eq_ok_iff.mp hstart
  cases hinitial
  obtain ⟨_, _, _, _, _, hmin, hle⟩ := WorkerConfig.of_validate_eq_ok hvalid
  have hrange : PollRange config config.pollIntervalMin := by
    refine ⟨Nat.pos_of_ne_zero fun hzero => hmin (Subtype.ext hzero), hle⟩
  exact ⟨⟨hrange, nofun⟩, hrange⟩

/-- A reserve sleep that a step sets is in range. -/
theorem SetsReserveSleep.range {labels rest : List (Moment × Event)} {w₁ : Worker}
    (hsets : w.SetsReserveSleep labels w₁ rest) (hbounded : w.BoundedSleep)
    (hmin : PollRange w.config w.config.pollIntervalMin) :
    ∃ sleep, w₁.reserveSleep = some sleep ∧ PollRange w.config sleep.1 := by
  obtain ⟨first, label, w₀, _, hrun, _, hnext, hpending⟩ := hsets
  obtain ⟨sleep, hsleep⟩ := Option.isSome_iff_exists.mp hpending
  have hrun₁ : w.run (first ++ [label]) = some w₁ :=
    runTrace_concat_eq_some.mpr ⟨w₀, hrun, hnext⟩
  obtain ⟨hbounded₁, hconfig⟩ := hbounded.of_run hmin hrun₁
  exact ⟨sleep, hsleep, hconfig ▸ hbounded₁.sleep sleep hsleep⟩

/-- A positive sleep that starts again later ends after the first deadline. -/
theorem eq_of_deadline {first later duration : ℕ} (hpos : 0 < duration) (hle : first ≤ later)
    (hdeadline : duration ≤ first + duration - later) : later = first := by
  omega

/-- A poll sleep keeps its deadline exactly when it is never started again at a
later instant. -/
theorem keepsPollDeadline_iff {namespaceName : Bytes} {config : WorkerConfig} {instant : Instant}
    (hstart : Worker.start namespaceName config instant = .ok w)
    (labels : List (Moment × Event)) : w.KeepsPollDeadline labels ↔ w.EntersAtOnce labels := by
  obtain ⟨hbounded, hmin⟩ := boundedSleep_of_start hstart
  constructor
  · intro hkeeps w₁ rest hsets t₀ later hentries t hmem
    obtain ⟨sleep, hsleep, hpos, _⟩ := hsets.range hbounded hmin
    have hcalls : w₁.pollSleepCalls rest = (t₀, sleep.1) :: later.map (·, sleep.1) := by
      rw [pollSleepCalls_eq hsleep, hentries]
      rfl
    obtain ⟨hdeadline, _⟩ := hkeeps w₁ rest hsets _ _ _ hcalls _ (List.mem_map_of_mem hmem)
    have hordered := w₁.pairwise_pollSleepEntries rest
    rw [hentries] at hordered
    have hle : t₀ ≤ t := List.rel_of_pairwise_cons hordered hmem
    exact eq_of_deadline hpos hle hdeadline
  · intro honce w₁ rest hsets t₀ d later hcalls call hmem
    obtain ⟨sleep, hsleep, _, hmax⟩ := hsets.range hbounded hmin
    rw [pollSleepCalls_eq hsleep] at hcalls
    obtain ⟨_, _, hentries, hfirst, rfl⟩ := List.map_eq_cons_iff.mp hcalls
    cases hfirst
    obtain ⟨t, ht, rfl⟩ := List.mem_map.mp hmem
    rw [honce w₁ rest hsets _ _ hentries t ht]
    exact ⟨by simp, Nat.add_le_add_left hmax _⟩

/-- The sample configuration with a reap interval shorter than the poll delay. -/
def shortReapConfig : WorkerConfig := { sampleConfig with reapInterval := .ofMillis 50 }

/-- After an empty reserve at 6 ms the poll sleep of 100 ms starts; the reap tick at
54 ms ends the select, and the loop enters it again at 55 ms. -/
def shortReapRun : List (Moment × Event) :=
  [(.ofMillis 4, .turn []), (.ofMillis 4, .enter ["token"]),
    (.ofMillis 4, .poll { reapTick := true }),
    (.ofMillis 5, .resume (.ok ())), (.ofMillis 5, .turn []), (.ofMillis 5, .enter ["token"]),
    (.ofMillis 5, .poll {}), (.ofMillis 6, .poll { reserved := some (.ok ⟨[], none⟩) }),
    (.ofMillis 6, .turn []), (.ofMillis 6, .enter ["token"]), (.ofMillis 6, .poll {}),
    (.ofMillis 54, .poll { reapTick := true }), (.ofMillis 55, .resume (.ok ())),
    (.ofMillis 55, .turn []), (.ofMillis 55, .enter ["token"])]

theorem shortReap_start :
    Worker.start "jobs" shortReapConfig 0 = .ok (.initial "jobs" shortReapConfig 0) := by
  have hvalid : shortReapConfig.validate = .ok () := by decide
  rw [Worker.start, hvalid]
  rfl

/-- After the reap tick the worker sleeps for the full delay again. -/
theorem poll_sleep_restarted_by_reap :
    Worker.start "jobs" shortReapConfig 0 = .ok (.initial "jobs" shortReapConfig 0) ∧
      ((Worker.initial "jobs" shortReapConfig 0).run shortReapRun).isSome ∧
      ¬ (Worker.initial "jobs" shortReapConfig 0).KeepsPollDeadline shortReapRun := by
  refine ⟨shortReap_start, by decide, ?_⟩
  intro hkeeps
  have hset : ((Worker.initial "jobs" shortReapConfig 0).run (shortReapRun.take 7)).any
      (fun w => w.reserveSleep.isNone ∧
        (w.next (.ofMillis 6, .poll { reserved := some (.ok ⟨[], none⟩) })).any fun w₁ =>
          w₁.reserveSleep.isSome ∧ w₁.pollSleepCalls (shortReapRun.drop 8) =
            [(6000000, .ofMillis 100), (55000000, .ofMillis 100)]) := by decide
  obtain ⟨w₀, hrun, hset⟩ := Option.any_eq_true _ _ |>.mp hset
  obtain ⟨hnone, hset⟩ := of_decide_eq_true hset
  obtain ⟨w₁, hnext, hset⟩ := Option.any_eq_true _ _ |>.mp hset
  obtain ⟨hsome, hcalls⟩ := of_decide_eq_true hset
  have hsets : SetsReserveSleep _ shortReapRun w₁ (shortReapRun.drop 8) :=
    ⟨shortReapRun.take 7, _, w₀, rfl, hrun, Option.isNone_iff_eq_none.mp hnone, hnext, hsome⟩
  have hdeadline := (hkeeps w₁ _ hsets _ _ _ hcalls _ List.mem_cons_self).1
  revert hdeadline
  decide

/-- A worker enters the select once with each sleep when it does so for every label that sets
one. -/
theorem entersAtOnce_of_splits {labels : List (Moment × Event)}
    (hsplits : ∀ i < labels.length, ∀ w₀ ∈ w.run (labels.take i), ∀ label ∈ labels[i]?,
      w₀.reserveSleep.isNone → ∀ w₁ ∈ w₀.next label, w₁.reserveSleep.isSome →
        ∀ t ∈ (w₁.pollSleepEntries (labels.drop (i + 1))).tail,
          some t = (w₁.pollSleepEntries (labels.drop (i + 1))).head?) :
    w.EntersAtOnce labels := by
  rintro w₁ rest ⟨first, label, w₀, rfl, hrun, hnone, hnext, hsome⟩ t₀ later hentries t hmem
  have hsplit := hsplits first.length (by simp) w₀ (by simpa using hrun) label (by simp)
    (Option.isNone_iff_eq_none.mpr hnone) w₁ hnext hsome
  have hrest : (first ++ label :: rest).drop (first.length + 1) = rest := by
    rw [← List.drop_drop, List.drop_left, List.drop_one, List.tail_cons]
  rw [hrest, hentries] at hsplit
  exact Option.some.inj (hsplit t hmem)

/-- After an empty reserve at 6 ms the poll sleep of 100 ms starts, and nothing else ends the
select before it. -/
def keptSleepRun : List (Moment × Event) :=
  shortReapRun.take 11 ++
    [(.ofMillis 106, .poll { pollSleep := true }), (.ofMillis 106, .turn []),
      (.ofMillis 106, .enter ["token"])]

/-- A sleep that runs to its end keeps its deadline. -/
theorem keepsPollDeadline_sample :
    (sampleWorker.run keptSleepRun).isSome ∧ sampleWorker.KeepsPollDeadline keptSleepRun := by
  refine ⟨by decide, (keepsPollDeadline_iff sampleWorker_start keptSleepRun).mpr ?_⟩
  exact entersAtOnce_of_splits (by decide)

end Worker

end Redloop
