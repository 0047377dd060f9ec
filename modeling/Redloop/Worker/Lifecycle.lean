/-
# The life of a lease attempt in a worker

Along every run of the worker loop the active attempts are those of the handlers
that are not joined and of the completed results that are not resolved. An
attempt leaves only when its completion was answered, a recoverable error keeps
it, a lost heartbeat only ends its heartbeats, and no attempt touches another.
The worker relies on reserves that stay within the requested capacity and report
fresh tokens.
-/

import Redloop.Worker.Changes

namespace Redloop

/-- The tokens that the reserve replies of a run report. -/
def grantedTokens (labels : List (Moment × Event)) : List Bytes :=
  labels.flatMap fun label => label.2.granted.map ReservedJob.leaseToken

namespace Worker

variable {w w' start : Worker} {now : Timestamp} {moment : Moment} {event : Event}
  {effects : List Effect} {key : LeaseAttemptKey}

/-- What the worker relies on: reserves report fresh tokens, and no more jobs than
the capacity they were asked for. -/
structure ReserveContract (start : Worker) (labels : List (Moment × Event)) : Prop where
  fresh : (grantedTokens labels).Nodup
  capacity : ∀ first moment event rest w select, labels = first ++ (moment, event) :: rest →
    start.run first = some w → w.phase = .selecting select →
      event.granted.length ≤ select.capacity

/-! ## Steps -/

/-- The capacity of a select is what the active attempts leave of the concurrency. -/
structure Fits (w : Worker) : Prop where
  len_le : w.active.len ≤ w.config.concurrency.toNat
  capacity_eq : ∀ select, w.phase = .selecting select → select.capacity = w.capacity

/-- Reserved jobs add at most their number of attempts. -/
theorem ActiveLeases.len_foldl_addReserved_le (jobs : List ReservedJob) (active : ActiveLeases) :
    (jobs.foldl ActiveLeases.addReserved active).len ≤ active.len + jobs.length := by
  induction jobs generalizing active with
  | nil => simp
  | cons job rest ih =>
      have hinsert : (active.addReserved job).len ≤ active.len + 1 := by
        unfold ActiveLeases.len ActiveLeases.addReserved
        rw [ActiveLeases.keys_add]
        exact Finset.card_insert_le _ _
      rw [List.foldl_cons, List.length_cons]
      exact (ih _).trans (by omega)

/-- A step within the requested capacity keeps the attempts within the concurrency. -/
theorem Fits.of_reacts (hfits : w.Fits)
    (hgranted : ∀ select, w.phase = .selecting select → event.granted.length ≤ select.capacity)
    (hreacts : w.Reacts now event w' effects) : w'.Fits := by
  have hconfig := hreacts.config_eq.1
  constructor
  · have hlen := hfits.len_le
    rw [hconfig]
    cases hreacts.activeChange with
    | kept hactive _ => rwa [hactive]
    | spawned hphase hactive _ =>
        have hcapacity := hgranted _ hphase
        rw [hfits.capacity_eq _ hphase, capacity] at hcapacity
        rw [hactive]
        exact (ActiveLeases.len_foldl_addReserved_le _ _).trans (by omega)
    | resolved _ _ hactive _ =>
        unfold ActiveLeases.len at hlen ⊢
        rw [hactive, Finmap.keys_erase]
        exact (Finset.card_erase_le).trans hlen
    | lost _ hactive _ =>
        unfold ActiveLeases.len at hlen ⊢
        rwa [hactive, ActiveLeases.keys_disableHeartbeat]
  · intro select hphase
    unfold capacity
    rw [hconfig]
    cases hreacts.phaseChange with
    | kept hsame hactive =>
        rw [hactive]
        exact hfits.capacity_eq select (hsame ▸ hphase)
    | outside houtside =>
        rw [hphase] at houtside
        exact houtside.elim
    | entered _ hafter hactive =>
        rw [hphase] at hafter
        cases hafter
        rw [hactive]
        rfl
    | started hbefore hafter hactive =>
        rw [hphase] at hafter
        cases hafter
        rw [hactive]
        exact (hfits.capacity_eq _ hbefore :)
    | round _ hafter _ => simp [hphase] at hafter
    | heartbeat _ hafter _ => simp [hphase] at hafter

/-- A heartbeat round visits active attempts, each once. -/
def InRound (w : Worker) : Prop :=
  ∀ sentAt key rest, w.phase = .heartbeating sentAt key rest →
    (key :: rest).Nodup ∧ ∀ other ∈ key :: rest, other ∈ w.active

theorem InRound.of_reacts (hround : w.InRound) (hreacts : w.Reacts now event w' effects) :
    w'.InRound := by
  intro sentAt key rest hphase
  cases hreacts.phaseChange with
  | kept hsame hactive =>
      rw [hactive]
      exact hround sentAt key rest (hsame ▸ hphase)
  | outside houtside =>
      rw [hphase] at houtside
      exact houtside.elim
  | entered _ hafter _ => simp [hphase] at hafter
  | started _ hafter _ => simp [hphase] at hafter
  | round horder hafter hactive =>
      rw [hphase] at hafter
      cases hafter
      refine ⟨horder.1, fun other hother => ?_⟩
      have hmem := horder.2 ▸ List.mem_toFinset.mpr hother
      rw [hactive]
      exact Finmap.mem_keys.mp (Finset.mem_filter.mp hmem).1
  | heartbeat hbefore hafter hkeys =>
      rw [hphase] at hafter
      cases hafter
      obtain ⟨hnodup, hmem⟩ := hround _ _ _ hbefore
      refine ⟨(List.nodup_cons.mp hnodup).2, fun other hother => ?_⟩
      rw [← Finmap.mem_keys, hkeys, Finmap.mem_keys]
      exact hmem other (List.mem_cons_of_mem _ hother)

/-- An attempt that is not heartbeated, now or later in the round. -/
structure Quiet (w : Worker) (key : LeaseAttemptKey) : Prop where
  disabled : ¬ w.active.HeartbeatEnabled key
  round : ∀ sentAt other rest, w.phase = .heartbeating sentAt other rest → key ∉ other :: rest

/-- A quiet attempt stays quiet unless it is granted again. -/
theorem Quiet.of_reacts (hquiet : w.Quiet key)
    (hgranted : ∀ lease ∈ event.granted, lease.attemptKey ≠ key)
    (hreacts : w.Reacts now event w' effects) : w'.Quiet key := by
  have hdisabled : ¬ w'.active.HeartbeatEnabled key := by
    intro henabled
    refine hquiet.disabled ?_
    cases hreacts.activeChange with
    | kept hactive _ => exact hactive ▸ henabled
    | spawned _ hactive _ =>
        rw [hactive] at henabled
        rwa [ActiveLeases.HeartbeatEnabled,
          ActiveLeases.lookup_foldl_addReserved_of_ne hgranted] at henabled
    | resolved _ _ hactive _ =>
        rw [hactive] at henabled
        exact henabled.of_erase
    | lost _ hactive _ =>
        rw [hactive] at henabled
        exact henabled.of_disableHeartbeat
  refine ⟨hdisabled, fun sentAt other rest hphase => ?_⟩
  cases hreacts.phaseChange with
  | kept hsame _ => exact hquiet.round sentAt other rest (hsame ▸ hphase)
  | outside houtside =>
      rw [hphase] at houtside
      exact houtside.elim
  | entered _ hafter _ => simp [hphase] at hafter
  | started _ hafter _ => simp [hphase] at hafter
  | round horder hafter hactive =>
      rw [hphase] at hafter
      cases hafter
      intro hmem
      have hkey := horder.2 ▸ List.mem_toFinset.mpr hmem
      exact hquiet.disabled (Finset.mem_filter.mp hkey).2
  | heartbeat hbefore hafter _ =>
      rw [hphase] at hafter
      cases hafter
      exact fun hmem => hquiet.round _ _ _ hbefore (List.mem_cons_of_mem _ hmem)

/-- A step sends a heartbeat for an attempt. -/
def HeartbeatsIn (effects : List Effect) (key : LeaseAttemptKey) : Prop :=
  ∃ workerId now leaseDuration,
    Effect.call (.heartbeat workerId key.jobId key.leaseToken now leaseDuration) ∈ effects

/-- No heartbeat is sent for a quiet attempt. -/
theorem Quiet.not_heartbeatsIn (hquiet : w'.Quiet key)
    (hreacts : w.Reacts now event w' effects) : ¬ HeartbeatsIn effects key := by
  rintro ⟨workerId, sentAt, leaseDuration, hmem⟩
  have hcall : Op.heartbeat workerId key.jobId key.leaseToken sentAt leaseDuration ∈
      calls effects := List.mem_filterMap.mpr ⟨_, hmem, rfl⟩
  rcases hreacts.callsOrIdles with ⟨op, hcalls, hawaits⟩ | ⟨hcalls, _⟩
  · rw [hcalls, List.mem_singleton] at hcall
    subst hcall
    unfold Awaits at hawaits
    split at hawaits
    · next completed rest _ =>
        obtain ⟨_, hop⟩ := hawaits
        unfold resolveCompleted at hop
        split at hop <;> cases hop
    · next sentAt' other rest hphase =>
        obtain ⟨jobId, leaseToken⟩ := key
        obtain ⟨otherJob, otherToken⟩ := other
        cases hawaits
        exact hquiet.round _ _ _ hphase List.mem_cons_self
    · obtain ⟨_, hop⟩ := hawaits
      cases hop
    · cases hawaits.2.2
    · exact hawaits
  · rw [hcalls] at hcall
    cases hcall

/-! ## Runs -/

theorem grantedTokens_append (first second : List (Moment × Event)) :
    grantedTokens (first ++ second) = grantedTokens first ++ grantedTokens second :=
  List.flatMap_append

/-- What a run has done so far: the active attempts were granted, and the results
are those of handlers that ended. -/
structure History (first : List (Moment × Event)) (w : Worker) : Prop where
  granted : ∀ key ∈ w.active, key.leaseToken ∈ grantedTokens first
  finished : ∀ completed, w.HoldsResult completed →
    ∃ moment, (moment, Event.finish completed.task) ∈ first

/-- A reserve that reports fresh tokens grants new attempts. -/
theorem History.grantsNew {first rest : List (Moment × Event)} (hhistory : History first w)
    (hfresh : (grantedTokens (first ++ (moment, event) :: rest)).Nodup) : w.GrantsNew event := by
  rw [grantedTokens_append, List.nodup_append'] at hfresh
  obtain ⟨_, hnew, hdisjoint⟩ := hfresh
  have htokens : event.granted.map ReservedJob.leaseToken =
      (event.granted.map ReservedJob.attemptKey).map LeaseAttemptKey.leaseToken := by
    rw [List.map_map]
    rfl
  have hsplit : grantedTokens ((moment, event) :: rest) =
      event.granted.map ReservedJob.leaseToken ++ grantedTokens rest := rfl
  rw [hsplit] at hnew hdisjoint
  refine ⟨List.Nodup.of_map _ (htokens ▸ (List.nodup_append'.mp hnew).1), ?_⟩
  intro lease hlease hmem
  have hbefore := hhistory.granted lease.attemptKey hmem
  exact hdisjoint hbefore (List.mem_append_left _ (List.mem_map_of_mem hlease))

/-- A step extends the history. -/
theorem History.of_reacts {first : List (Moment × Event)} (hhistory : History first w)
    (hreacts : w.Reacts now event w' effects) : History (first ++ [(moment, event)]) w' := by
  constructor
  · intro key hkey
    rw [grantedTokens_append]
    cases hreacts.activeChange with
    | kept hactive _ => exact List.mem_append_left _ (hhistory.granted key (hactive ▸ hkey))
    | spawned _ hactive _ =>
        by_cases hgranted : ∀ job ∈ event.granted, job.attemptKey ≠ key
        · rw [hactive, ← Finmap.lookup_isSome,
            ActiveLeases.lookup_foldl_addReserved_of_ne hgranted, Finmap.lookup_isSome] at hkey
          exact List.mem_append_left _ (hhistory.granted key hkey)
        · push Not at hgranted
          obtain ⟨job, hjob, rfl⟩ := hgranted
          refine List.mem_append_right _ ?_
          exact List.mem_flatMap.mpr ⟨_, List.mem_singleton_self _, List.mem_map_of_mem hjob⟩
    | resolved _ _ hactive _ =>
        rw [hactive, Finmap.mem_erase] at hkey
        exact List.mem_append_left _ (hhistory.granted key hkey.2)
    | lost _ hactive _ =>
        rw [hactive, ← Finmap.mem_keys, ActiveLeases.keys_disableHeartbeat, Finmap.mem_keys] at hkey
        exact List.mem_append_left _ (hhistory.granted key hkey)
  · intro completed hholds
    rcases hreacts.holdsResult hholds with hbefore | rfl
    · obtain ⟨moment, hmem⟩ := hhistory.finished completed hbefore
      exact ⟨moment, List.mem_append_left _ hmem⟩
    · exact ⟨moment, List.mem_append_right _ (List.mem_singleton_self _)⟩

/-- What holds of the attempts wherever a run ends. -/
structure Attempts (config : WorkerConfig) (first : List (Moment × Event)) (w : Worker) : Prop where
  config_eq : w.config = config
  tracks : w.Runs → w.Tracks
  fits : w.Fits
  inRound : w.InRound
  history : History first w

/-- A worker starts without attempts. -/
theorem Attempts.of_start {namespaceName : Bytes} {config : WorkerConfig} {instant : Instant}
    (hstart : Worker.start namespaceName config instant = .ok start) :
    Attempts config [] start := by
  obtain ⟨_, _, hstart⟩ := bind_eq_ok_iff.mp hstart
  cases hstart
  refine ⟨rfl, fun _ => rfl, ⟨Nat.zero_le _, fun _ hphase => ?_⟩, fun _ _ _ hphase => ?_,
    ⟨fun _ hkey => ?_, ?_⟩⟩
  · cases hphase
  · cases hphase
  · cases hkey
  · rintro completed (hfinished | hget | ⟨_, hphase⟩)
    · cases hfinished
    · cases hget
    · cases hphase

/-- The attempts do not depend on the clock. -/
theorem Attempts.tick {config : WorkerConfig} {first : List (Moment × Event)}
    (hattempts : Attempts config first w) (instant : Instant) :
    Attempts config first { w with instant := instant } :=
  ⟨hattempts.config_eq, hattempts.tracks, ⟨hattempts.fits.len_le, hattempts.fits.capacity_eq⟩,
    hattempts.inRound, ⟨hattempts.history.granted, hattempts.history.finished⟩⟩

/-- One step keeps track of the attempts. -/
theorem Attempts.of_step {config : WorkerConfig} {first rest : List (Moment × Event)}
    (hreserve : ReserveContract start (first ++ (moment, event) :: rest))
    (hrun : start.run first = some w) (hattempts : Attempts config first w)
    (hstep : w.step moment event = some (w', effects)) :
    Attempts config (first ++ [(moment, event)]) w' := by
  obtain ⟨_, hreacts⟩ := step_eq_some hstep
  have hcapacity (select : Select) (hphase : w.phase = .selecting select) :=
    hreserve.capacity first moment event rest w select rfl hrun hphase
  have hnew := hattempts.history.grantsNew hreserve.fresh
  have hbefore := hattempts.tick moment.instant
  exact
    { config_eq := hreacts.config_eq.1.trans hattempts.config_eq
      tracks := fun hruns => (hbefore.tracks hreacts.runs).of_reacts hnew hreacts hruns
      fits := hbefore.fits.of_reacts hcapacity hreacts
      inRound := hbefore.inRound.of_reacts hreacts
      history := hbefore.history.of_reacts hreacts }

/-- The attempts are tracked wherever a run ends. -/
theorem Attempts.of_run {config : WorkerConfig} (hstart : Attempts config [] start)
    {first rest : List (Moment × Event)} (hreserve : ReserveContract start (first ++ rest))
    (hrun : start.run first = some w) : Attempts config first w := by
  refine runTrace_induction (motive := fun first w =>
    ∀ rest, ReserveContract start (first ++ rest) → Attempts config first w)
    (fun _ _ => hstart) ?_ hrun rest hreserve
  rintro first w ⟨moment, event⟩ w' hrun ih hnext rest hreserve
  obtain ⟨⟨_, effects⟩, hstep, rfl⟩ := Option.map_eq_some_iff.mp hnext
  rw [List.append_assoc] at hreserve
  exact Attempts.of_step hreserve hrun (ih _ hreserve) hstep

/-- An attempt that has become quiet and was granted stays quiet along a run. -/
theorem Quiet.of_run {labels : List (Moment × Event)} (hquiet : w.Quiet key)
    (htoken : key.leaseToken ∉ grantedTokens labels) (hrun : w.run labels = some w') :
    w'.Quiet key := by
  refine runTrace_induction (motive := fun labels w' =>
    key.leaseToken ∉ grantedTokens labels → w'.Quiet key) (fun _ => hquiet) ?_ hrun htoken
  rintro first middle ⟨moment, event⟩ w' _ ih hnext htoken
  obtain ⟨⟨_, effects⟩, hstep, rfl⟩ := Option.map_eq_some_iff.mp hnext
  rw [grantedTokens_append, List.mem_append, not_or] at htoken
  have hmiddle := ih htoken.1
  have hquiet : Quiet { middle with instant := moment.instant } key :=
    ⟨hmiddle.disabled, hmiddle.round⟩
  refine hquiet.of_reacts ?_ (step_eq_some hstep).2
  rintro lease hlease rfl
  exact htoken.2 (List.mem_flatMap.mpr ⟨_, List.mem_singleton_self _, List.mem_map_of_mem hlease⟩)

/-- What a run guarantees about the attempts in a state it reaches. At the top of
the loop they are the tasks that are not joined together with the completed
attempts, and after the drain the handlers that still run together with those. -/
structure AttemptState (w : Worker) : Prop where
  top : w.phase = .top →
    w.active.keys.val = w.joinSet.keys + w.pendingCompleted.keys.val
  drained : ∀ pending, w.phase = .top →
    drainJoinedJobs w.pendingCompleted w.joinSet.finished = .ok pending →
      w.active.keys.val = ↑(w.joinSet.running.map ReservedJob.attemptKey) + pending.keys.val
  active_le : w.active.len ≤ w.config.concurrency.toNat
  running_le : w.Runs → w.joinSet.running.length ≤ w.active.len

/-- What a run guarantees about the attempts at one of its steps, between the
steps before and the steps after it. -/
structure AttemptStep (before : List (Moment × Event)) (w : Worker) (event : Event)
    (w' : Worker) (effects : List Effect) (after : List (Moment × Event)) : Prop where
  leaves : ∀ key ∈ w.active, key ∉ w'.active → ∃ completed rest reply,
    w.phase = .completing completed rest ∧ completed.attemptKey = key ∧ event = .resume reply ∧
      Resolves reply ∧ ∃ moment, (moment, Event.finish completed.task) ∈ before
  recoverable : ∀ completed rest error, w.phase = .completing completed rest →
    event = .resume (.error error) → error.isRecoverableWorkerRuntime →
      w'.active = w.active ∧ completed.attemptKey ∈ w'.active ∧
        w'.pendingCompleted = w.pendingCompleted.add completed
  heartbeatLost : ∀ sentAt key rest jobId, w.phase = .heartbeating sentAt key rest →
    event = .resume (.error (.leaseMismatch jobId)) →
      (∃ phase, w' = { w with
        active := w.active.disableHeartbeat key, phase := phase, instant := w'.instant }) ∧
      ¬ HeartbeatsIn effects key ∧
      ∀ middle moment later rest v v' effects', after = middle ++ (moment, later) :: rest →
        w'.run middle = some v → v.step moment later = some (v', effects') →
          ¬ HeartbeatsIn effects' key
  ownActive : ∀ key, w'.active.lookup key ≠ w.active.lookup key →
    (∃ lease ∈ event.granted, lease.attemptKey = key ∧ key ∉ w.active) ∨
      (∃ completed rest, w.phase = .completing completed rest ∧ completed.attemptKey = key) ∨
        ∃ sentAt rest, w.phase = .heartbeating sentAt key rest
  ownPending : ∀ key, w'.pendingCompleted.get key ≠ w.pendingCompleted.get key →
    (∃ task ∈ w.joinSet.finished, task.attemptKey = key) ∨ key ∈ w.resolving ∨
      key ∈ w'.resolving

theorem AttemptState.of_attempts {config : WorkerConfig} {first : List (Moment × Event)}
    (hattempts : Attempts config first w) : AttemptState w := by
  have hsettled (htop : w.phase = .top) : w.Settled := by
    refine (tracks_iff_settled ?_).mp (hattempts.tracks ?_)
    · simp [resolving, htop]
    · simp [Runs, htop]
  refine ⟨hsettled, fun pending htop => (hsettled htop).drain, hattempts.fits.len_le, ?_⟩
  intro hruns
  have hcard := congrArg Multiset.card (hattempts.tracks hruns)
  simp only [JoinSet.keys, Multiset.card_add, Multiset.coe_card, List.length_map] at hcard
  unfold ActiveLeases.len Finset.card
  omega

section Steps

variable {first rest : List (Moment × Event)} {config : WorkerConfig}

/-- An attempt leaves only when the completion of its ended handler is answered. -/
theorem Attempts.leaves (hattempts : Attempts config first w)
    (hreacts : w.Reacts now event w' effects) (hkey : key ∈ w.active) (hgone : key ∉ w'.active) :
    ∃ completed rest reply, w.phase = .completing completed rest ∧ completed.attemptKey = key ∧
      event = .resume reply ∧ Resolves reply ∧
        ∃ moment, (moment, Event.finish completed.task) ∈ first := by
  cases hreacts.activeChange with
  | kept hactive _ => exact absurd hkey (hactive ▸ hgone)
  | spawned _ hactive _ =>
      rw [hactive] at hgone
      exact absurd (ActiveLeases.mem_foldl_addReserved hkey) hgone
  | @resolved completed rest reply hphase hreply hactive _ =>
      rw [hactive, Finmap.mem_erase, not_and] at hgone
      have hself : completed.attemptKey = key := by
        by_contra hne
        exact hgone (Ne.symm hne) hkey
      exact ⟨completed, rest, reply, hphase, hself, rfl, hreply,
        hattempts.history.finished completed (Or.inr (Or.inr ⟨rest, hphase⟩))⟩
  | lost _ hactive _ =>
      rw [hactive, ← Finmap.mem_keys, ActiveLeases.keys_disableHeartbeat, Finmap.mem_keys] at hgone
      exact absurd hkey hgone

/-- The reply that a completion waits for. -/
theorem step_of_completing {completed : CompletedLease} {keys : List LeaseAttemptKey}
    {reply : Except Error Unit} (hphase : w.phase = .completing completed keys)
    (hstep : w.step moment (.resume reply) = some (w', effects)) :
    (w', effects) =
      { w with instant := moment.instant }.resumeCompletion moment.now completed keys reply := by
  unfold step at hstep
  split_ifs at hstep
  simp only [react, hphase, Option.some.injEq] at hstep
  rw [hphase]
  exact hstep.symm

/-- The reply that a heartbeat waits for. -/
theorem step_of_heartbeating {sentAt : Timestamp} {keys : List LeaseAttemptKey}
    {reply : Except Error Unit} (hphase : w.phase = .heartbeating sentAt key keys)
    (hstep : w.step moment (.resume reply) = some (w', effects)) :
    (w', effects) =
      { w with instant := moment.instant }.resumeHeartbeat sentAt key keys reply := by
  unfold step at hstep
  split_ifs at hstep
  simp only [react, hphase, Option.some.injEq] at hstep
  rw [hphase]
  exact hstep.symm

/-- A recoverable completion error keeps the attempt and its result. -/
theorem Attempts.recoverable (hattempts : Attempts config first w) {completed : CompletedLease}
    {keys : List LeaseAttemptKey} {error : Error} (hphase : w.phase = .completing completed keys)
    (hrecoverable : error.isRecoverableWorkerRuntime)
    (hstep : w.step moment (.resume (.error error)) = some (w', effects)) :
    w'.active = w.active ∧ completed.attemptKey ∈ w'.active ∧
      w'.pendingCompleted = w.pendingCompleted.add completed := by
  have hresult := step_of_completing hphase hstep
  have hkept : w'.active = w.active ∧
      w'.pendingCompleted = w.pendingCompleted.add completed := by
    cases error <;> simp_all [resumeCompletion, backOff, Error.isRecoverableWorkerRuntime]
  have hmem : completed.attemptKey ∈ w.active := by
    have hruns : w.Runs := by simp [Runs, hphase]
    rw [← Finmap.mem_keys, ← Finset.mem_val, hattempts.tracks hruns]
    simp [resolving, hphase]
  exact ⟨hkept.1, hkept.1 ▸ hmem, hkept.2⟩

/-- A lost heartbeat ends the heartbeats of its attempt and changes nothing else. -/
theorem Attempts.heartbeatLost (hattempts : Attempts config first w)
    (hfresh : (grantedTokens (first ++ (moment, event) :: rest)).Nodup)
    {sentAt : Timestamp} {keys : List LeaseAttemptKey} {jobId : Bytes}
    (hphase : w.phase = .heartbeating sentAt key keys)
    (hevent : event = .resume (.error (.leaseMismatch jobId)))
    (hstep : w.step moment event = some (w', effects)) :
    (∃ phase, w' = { w with
      active := w.active.disableHeartbeat key, phase := phase, instant := w'.instant }) ∧
    w'.Quiet key ∧ key.leaseToken ∉ grantedTokens rest := by
  subst hevent
  have hresult := step_of_heartbeating hphase hstep
  obtain ⟨hnodup, hactive⟩ := hattempts.inRound _ _ _ hphase
  have hkey : key ∉ keys := (List.nodup_cons.mp hnodup).1
  have htoken := hattempts.history.granted key (hactive key List.mem_cons_self)
  rw [grantedTokens_append, List.nodup_append'] at hfresh
  refine ⟨?_, ?_, fun hlater => hfresh.2.2 htoken (List.mem_append_right _ hlater)⟩
  · cases keys <;> cases hresult <;> exact ⟨_, rfl⟩
  · cases keys with
    | nil =>
        cases hresult
        refine ⟨ActiveLeases.not_heartbeatEnabled_disableHeartbeat, ?_⟩
        intro _ _ _ htop
        cases htop
    | cons next keys =>
        cases hresult
        refine ⟨ActiveLeases.not_heartbeatEnabled_disableHeartbeat, ?_⟩
        intro _ _ _ hnext
        cases hnext
        exact hkey

/-- A change to an active attempt is its own. -/
theorem Reacts.ownActive (hreacts : w.Reacts now event w' effects) (hnew : w.GrantsNew event)
    (hchanged : w'.active.lookup key ≠ w.active.lookup key) :
    (∃ lease ∈ event.granted, lease.attemptKey = key ∧ key ∉ w.active) ∨
      (∃ completed rest, w.phase = .completing completed rest ∧ completed.attemptKey = key) ∨
        ∃ sentAt rest, w.phase = .heartbeating sentAt key rest := by
  cases hreacts.activeChange with
  | kept hactive _ => exact absurd (by rw [hactive]) hchanged
  | spawned _ hactive _ =>
      left
      by_contra hother
      push Not at hother
      refine hchanged ?_
      rw [hactive, ActiveLeases.lookup_foldl_addReserved_of_ne]
      rintro lease hlease rfl
      exact hnew.2 lease hlease (hother lease hlease rfl)
  | @resolved completed rest _ hphase _ hactive _ =>
      refine Or.inr (Or.inl ⟨completed, rest, hphase, ?_⟩)
      by_contra hne
      exact hchanged (by rw [hactive, Finmap.lookup_erase_ne (Ne.symm hne)])
  | @lost sentAt other rest _ hphase hactive _ =>
      refine Or.inr (Or.inr ?_)
      by_cases hkey : key = other
      · exact ⟨sentAt, rest, hkey ▸ hphase⟩
      · exact absurd (by rw [hactive, ActiveLeases.lookup_disableHeartbeat_of_ne hkey]) hchanged

/-- A change to a completed attempt is its own. -/
theorem Reacts.ownPending (hreacts : w.Reacts now event w' effects)
    (hchanged : w'.pendingCompleted.get key ≠ w.pendingCompleted.get key) :
    (∃ task ∈ w.joinSet.finished, task.attemptKey = key) ∨ key ∈ w.resolving ∨
      key ∈ w'.resolving := by
  by_contra hother
  push Not at hother
  exact hchanged (hreacts.get_pendingCompleted hother.1 hother.2.1 hother.2.2)

end Steps

/-- In every run of a worker whose reserves stay within the requested capacity and
report fresh tokens, attempts are tracked in every state and change at every step
as described. -/
theorem attempt_lifecycle {namespaceName : Bytes} {config : WorkerConfig} {instant : Instant}
    {labels : List (Moment × Event)}
    (hstart : Worker.start namespaceName config instant = .ok start)
    (hreserve : ReserveContract start labels) :
    (∀ first rest w, labels = first ++ rest → start.run first = some w →
      w.config = config ∧ AttemptState w) ∧
    (∀ first moment event rest w w' effects, labels = first ++ (moment, event) :: rest →
      start.run first = some w → w.step moment event = some (w', effects) →
        AttemptStep first w event w' effects rest) := by
  have hrun (first rest : List (Moment × Event)) (w : Worker) (hlabels : labels = first ++ rest)
      (hrun : start.run first = some w) : Attempts config first w :=
    (Attempts.of_start hstart).of_run (hlabels ▸ hreserve) hrun
  constructor
  · intro first rest w hlabels hfirst
    have hattempts := hrun first rest w hlabels hfirst
    exact ⟨hattempts.config_eq, .of_attempts hattempts⟩
  · intro first moment event rest w w' effects hlabels hfirst hstep
    have hattempts := hrun first _ w hlabels hfirst
    have hfresh := hlabels ▸ hreserve.fresh
    have hbefore := hattempts.tick moment.instant
    obtain ⟨_, hreacts⟩ := step_eq_some hstep
    exact
      { leaves := fun key hkey hgone => hbefore.leaves hreacts hkey hgone
        recoverable := fun completed keys error hphase hevent hrecoverable =>
          hattempts.recoverable hphase hrecoverable (hevent ▸ hstep)
        heartbeatLost := by
          intro sentAt key keys jobId hphase hevent
          obtain ⟨hsame, hquiet, htoken⟩ := hattempts.heartbeatLost hfresh hphase hevent hstep
          refine ⟨hsame, hquiet.not_heartbeatsIn hreacts, ?_⟩
          intro middle moment later last v v' effects' hrest hmiddle hlater
          have hrun : w'.run (middle ++ [(moment, later)]) = some v' :=
            runTrace_concat_eq_some.mpr ⟨v, hmiddle, Option.map_eq_some_iff.mpr ⟨_, hlater, rfl⟩⟩
          have hsplit : rest = middle ++ [(moment, later)] ++ last := by simp [hrest]
          rw [hsplit, grantedTokens_append, List.mem_append, not_or] at htoken
          exact (hquiet.of_run htoken.1 hrun).not_heartbeatsIn (step_eq_some hlater).2
        ownActive := fun key hchanged =>
          hreacts.ownActive (hbefore.history.grantsNew hfresh) hchanged
        ownPending := fun key hchanged => hreacts.ownPending hchanged }

/-- The capacity that the select of a worker asks for. -/
def askedCapacity (w : Worker) : ℕ :=
  match w.phase with
  | .selecting select => select.capacity
  | _ => 0

/-- Reserves keep their contract when they do so at every label. -/
theorem reserveContract_of_splits {labels : List (Moment × Event)}
    (hfresh : (grantedTokens labels).Nodup)
    (hsplits : ∀ i < labels.length, ∀ w ∈ start.run (labels.take i), ∀ label ∈ labels[i]?,
      label.2.granted.length ≤ w.askedCapacity) : ReserveContract start labels := by
  refine ⟨hfresh, ?_⟩
  rintro first moment event rest w select rfl hrun hphase
  have hsplit := hsplits first.length (by simp) w (by simpa using hrun) (moment, event) (by simp)
  rwa [askedCapacity, hphase] at hsplit

/-- The sample worker heartbeats its attempt, joins its handler and sends its ack. -/
def sampleCompletionRun : List (Moment × Event) :=
  sampleWorkerRun ++
    [(.ofMillis 107, .turn []), (.ofMillis 108, .enter []),
      (.ofMillis 109, .poll { heartbeatTick := true, heartbeatOrder := [⟨"job", "token"⟩] }),
      (.ofMillis 110, .resume (.ok ())),
      (.ofMillis 111, .finish ⟨⟨"job", "token"⟩, some (.ok .complete)⟩),
      (.ofMillis 112, .turn [⟨"job", "token"⟩]), (.ofMillis 113, .resume (.ok ()))]

/-- The attempt is active until the reply to its ack, and leaves the worker with it. -/
theorem attempt_lifecycle_sample :
    ∃ w w' effects, sampleWorker.run (sampleCompletionRun.take 10) = some w ∧
      w.step (.ofMillis 113) (.resume (.ok ())) = some (w', effects) ∧
      AttemptState w ∧ w.active.keys = {⟨"job", "token"⟩} ∧ w'.active.keys = ∅ ∧
      AttemptStep (sampleCompletionRun.take 10) w (.resume (.ok ())) w' effects [] := by
  have hreserve : ReserveContract sampleWorker sampleCompletionRun :=
    reserveContract_of_splits (by decide) (by decide)
  have hends : (sampleWorker.run (sampleCompletionRun.take 10)).any fun w =>
      w.active.keys = {⟨"job", "token"⟩} ∧
        (w.step (.ofMillis 113) (.resume (.ok ()))).any fun result =>
          result.1.active.keys = ∅ := by decide
  obtain ⟨w, hrun, hfacts⟩ := Option.any_eq_true _ _ |>.mp hends
  obtain ⟨hactive, hfacts⟩ := of_decide_eq_true hfacts
  obtain ⟨⟨w', effects⟩, hstep, hleft⟩ := Option.any_eq_true _ _ |>.mp hfacts
  obtain ⟨hstates, hsteps⟩ := attempt_lifecycle sampleWorker_start hreserve
  exact ⟨w, w', effects, hrun, hstep, (hstates _ _ w (List.take_append_drop 10 _).symm hrun).2,
    hactive, of_decide_eq_true hleft, hsteps _ _ _ [] w w' effects rfl hrun hstep⟩

end Worker

end Redloop
