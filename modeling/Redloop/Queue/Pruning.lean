/-
# Pruned workers

A pruning may only remove workers that have not been seen for more than a day and
for more than ten lease durations. It decides from two reads and deletes later, and it
takes a missing registration record for a sign of staleness whatever the time the
worker was last seen. It spares the active workers exactly when, at its reads, each of
them was on record and within the window of that record.
-/

import Redloop.Queue.LeaseCounters
import Redloop.Queue.Policy
import Redloop.Store.Workers

namespace Redloop

/-! ## Registrations -/

/-- The configuration with which an operation registers the given worker. -/
def Op.registrationOf (op : Op) (s : Store) (workerId : Bytes) : Option WorkerConfig :=
  (op.registration s).filter (·.workerId = workerId)

/-- The last registration of a worker after some operations, given the last one
before them. -/
def registrationAfter (workerId : Bytes) :
    Store → Option WorkerConfig → List Op → Option WorkerConfig
  | _, found, [] => found
  | s, found, op :: ops =>
      registrationAfter workerId (s.next op) ((op.registrationOf s workerId).or found) ops

/-- The last registration of a worker in a run from the empty namespace. -/
def lastRegistration (ops : List Op) (workerId : Bytes) : Option WorkerConfig :=
  registrationAfter workerId Store.empty none ops

theorem registrationAfter_append (workerId : Bytes) (s : Store) (found : Option WorkerConfig)
    (first second : List Op) :
    registrationAfter workerId s found (first ++ second) =
      registrationAfter workerId (s.run first) (registrationAfter workerId s found first)
        second := by
  induction first generalizing s found with
  | nil => rfl
  | cons op rest ih => exact ih _ _

/-- A worker that is registered stays so. -/
theorem isSome_registrationAfter {workerId : Bytes} {s : Store} {found : Option WorkerConfig}
    (hfound : found.isSome) (ops : List Op) :
    (registrationAfter workerId s found ops).isSome := by
  induction ops generalizing s found with
  | nil => exact hfound
  | cons op rest ih => exact ih (by rw [Option.isSome_or, hfound, Bool.or_true])

/-- The registrations of a run with one more operation. -/
theorem lastRegistration_concat (ops : List Op) (op : Op) (workerId : Bytes) :
    lastRegistration (ops ++ [op]) workerId =
      (op.registrationOf (Store.empty.run ops) workerId).or (lastRegistration ops workerId) :=
  registrationAfter_append _ _ _ _ _

namespace Store

variable {s s' : Store} {workerId : Bytes}

/-- The holder of a lease has registered. -/
theorem registered_of_holdsLease {ops : List Op} {jobId leaseToken : Bytes}
    (hholds : (empty.run ops).HoldsLease jobId workerId leaseToken) :
    (lastRegistration ops workerId).isSome := by
  obtain ⟨jobs, hrefines⟩ := exists_refines_run ops
  have hcurrent := hrefines.currentLease_iff.mpr
    ((holdsLease_iff (hrefines.slot_eq jobId)).mp hholds)
  obtain ⟨earlier, op, later, rfl, hgrants⟩ := granted_of_currentLease hcurrent
  cases op with
  | reserve config availableCapacity now leaseTokens =>
      obtain ⟨hcapacity, hrefuses⟩ := not_refuses_of_grants hgrants
      rw [lastRegistration, registrationAfter_append]
      refine isSome_registrationAfter ?_ later
      rw [Op.registrationOf, Op.registration, if_pos ⟨hcapacity, hrefuses⟩]
      simp [hgrants.1]
  | _ => exact hgrants.elim

/-- What a run keeps of a worker: whoever was seen has registered, and there are a
registration record and a lease counter only of workers that were seen. -/
structure KeepsRegistry (s : Store) (registration : Option WorkerConfig) (workerId : Bytes) :
    Prop where
  seen : (s.workersLastSeen.score workerId).isSome → registration.isSome
  config : (s.workersConfig.lookup workerId).isSome →
    (s.workersLastSeen.score workerId).isSome
  leases : (s.workersLeases.lookup workerId).isSome →
    (s.workersLastSeen.score workerId).isSome

/-- Moves of leases create lease counters of the grantee only. -/
theorem isSome_workersLeases_of_moves {grantee : Option Bytes}
    (hmoves : LeaseMoves grantee s s') (hcounter : (s'.workersLeases.lookup workerId).isSome) :
    grantee = some workerId ∨ (s.workersLeases.lookup workerId).isSome := by
  induction hmoves with
  | refl => exact Or.inr hcounter
  | tail _ hmove ih =>
      cases hmove with
      | kept _ _ hcount => exact ih (hcount ▸ hcounter)
      | extended _ _ _ hcount => exact ih (hcount ▸ hcounter)
      | granted hgrantee _ _ _ hcount =>
          rw [hcount, Hash.lookup_incrBy] at hcounter
          split_ifs at hcounter with hworker
          · exact Or.inl (hworker ▸ hgrantee)
          · exact ih hcounter
      | ended _ _ _ _ hcount =>
          rw [hcount, Hash.lookup_decrement] at hcounter
          split_ifs at hcounter with hworker hzero
          · cases hcounter
          · rw [Hash.counter, ← hworker] at hzero
            refine ih ?_
            rw [Option.isSome_iff_ne_none]
            intro hnone
            simp [hnone] at hzero
          · exact ih hcounter

namespace KeepsRegistry

variable {registration : Option WorkerConfig}

/-- An operation that leaves the registry of the worker alone. -/
theorem of_registry (hkeeps : s.KeepsRegistry registration workerId)
    (hregistry : s'.registry = s.registry)
    (hleases : (s'.workersLeases.lookup workerId).isSome →
      (s.workersLeases.lookup workerId).isSome) :
    s'.KeepsRegistry registration workerId := by
  have hseen : s'.workersLastSeen = s.workersLastSeen :=
    congrArg Registry.workersLastSeen hregistry
  have hconfig : s'.workersConfig = s.workersConfig := congrArg Registry.workersConfig hregistry
  refine ⟨?_, ?_, fun hcounter => ?_⟩
  · rw [hseen]
    exact hkeeps.seen
  · rw [hseen, hconfig]
    exact hkeeps.config
  · rw [hseen]
    exact hkeeps.leases (hleases hcounter)

/-- A worker that is seen has registered. -/
theorem of_seen {nowUs : ℤ} {holder : Bytes} (hkeeps : s.KeepsRegistry registration workerId)
    (hregistered : holder = workerId → registration.isSome)
    (hseen : s'.workersLastSeen = s.workersLastSeen.add holder nowUs)
    (hconfig : holder ≠ workerId → (s'.workersConfig.lookup workerId).isSome →
      (s.workersConfig.lookup workerId).isSome)
    (hleases : holder ≠ workerId → (s'.workersLeases.lookup workerId).isSome →
      (s.workersLeases.lookup workerId).isSome) :
    s'.KeepsRegistry registration workerId := by
  by_cases hholder : holder = workerId
  · have hsome : (s'.workersLastSeen.score workerId).isSome := by
      rw [hseen, hholder, SortedSet.score_add_self]
      rfl
    exact ⟨fun _ => hregistered hholder, fun _ => hsome, fun _ => hsome⟩
  · have hscore : s'.workersLastSeen.score workerId = s.workersLastSeen.score workerId := by
      rw [hseen, SortedSet.score_add_of_ne _ _ (Ne.symm hholder)]
    refine ⟨?_, fun h => ?_, fun h => ?_⟩
    · rw [hscore]
      exact hkeeps.seen
    · rw [hscore]
      exact hkeeps.config (hconfig hholder h)
    · rw [hscore]
      exact hkeeps.leases (hleases hholder h)

/-- A pruning forgets everything about a worker. -/
theorem workersCleanup (hkeeps : s.KeepsRegistry registration workerId)
    (workerIds : List Bytes) :
    (s.workersCleanup workerIds).KeepsRegistry registration workerId := by
  have hseen : (s.workersCleanup workerIds).workersLastSeen.score workerId =
      if workerId ∈ workerIds then none else s.workersLastSeen.score workerId :=
    SortedSet.score_foldl_erase _ _ _
  have hconfig : (s.workersCleanup workerIds).workersConfig.lookup workerId =
      if workerId ∈ workerIds then none else s.workersConfig.lookup workerId :=
    Hash.lookup_foldl_erase _ _ _
  have hleases : (s.workersCleanup workerIds).workersLeases.lookup workerId =
      if workerId ∈ workerIds then none else s.workersLeases.lookup workerId :=
    Hash.lookup_foldl_erase _ _ _
  refine ⟨?_, ?_, ?_⟩ <;> rw [hseen]
  · split_ifs
    · simp
    · exact hkeeps.seen
  · rw [hconfig]
    split_ifs
    · exact id
    · exact hkeeps.config
  · rw [hleases]
    split_ifs
    · exact id
    · exact hkeeps.leases

theorem mono {later : Option WorkerConfig} (hkeeps : s.KeepsRegistry registration workerId) :
    s.KeepsRegistry (later.or registration) workerId :=
  ⟨fun hseen => by rw [Option.isSome_or, hkeeps.seen hseen, Bool.or_true], hkeeps.config,
    hkeeps.leases⟩

/-- Every operation keeps what a run knows of a worker. -/
theorem next {jobs : Bytes → Job} (hkeeps : s.KeepsRegistry registration workerId)
    (hrefines : Refines s jobs)
    (hholds : ∀ jobId leaseToken, s.HoldsLease jobId workerId leaseToken → registration.isSome)
    (op : Op) :
    (s.next op).KeepsRegistry ((op.registrationOf s workerId).or registration) workerId := by
  by_cases hop : ∃ workerIds, op = .workersCleanup workerIds
  · obtain ⟨workerIds, rfl⟩ := hop
    exact (hkeeps.workersCleanup workerIds).mono
  · have hregistry := registry_next s op
    have hleases (hcounter : ((s.next op).workersLeases.lookup workerId).isSome) :=
      isSome_workersLeases_of_moves (leaseMoves_next hrefines (not_exists.mp hop)) hcounter
    have hother (hnone : op.registration s = none)
        (hcounter : ((s.next op).workersLeases.lookup workerId).isSome) :
        (s.workersLeases.lookup workerId).isSome := by
      simpa [hnone] using hleases hcounter
    cases op with
    | workersCleanup workerIds => exact absurd ⟨workerIds, rfl⟩ hop
    | reserve config availableCapacity now leaseTokens =>
        dsimp only at hregistry
        split_ifs at hregistry with hrefused
        · refine (hkeeps.of_registry hregistry (hother ?_)).mono
          exact if_neg (by rwa [← not_or, not_not])
        · have hregistration : (Op.reserve config availableCapacity now leaseTokens).registration
              s = some config := if_pos (by rwa [← not_or])
          rw [hregistration, Option.map_some] at hleases
          have hconfigs : (s.next (.reserve config availableCapacity now leaseTokens)).workersConfig
              = Finmap.insert config.workerId (packWorkerConfigRecord config) s.workersConfig :=
            congrArg Registry.workersConfig hregistry
          refine of_seen hkeeps.mono (fun hworker : config.workerId = workerId => ?_)
            (congrArg Registry.workersLastSeen hregistry)
            (fun (hworker : config.workerId ≠ workerId) hconfig => ?_)
            (fun (hworker : config.workerId ≠ workerId) hcounter => ?_)
          · simp [Op.registrationOf, hregistration, hworker]
          · rwa [hconfigs, Hash.lookup_insert, if_neg (Ne.symm hworker)] at hconfig
          · simpa [hworker] using hleases hcounter
    | heartbeat holder jobId leaseToken now leaseDuration =>
        dsimp only at hregistry
        split_ifs at hregistry with hheld
        · refine of_seen hkeeps.mono (fun hworker => ?_)
            (congrArg Registry.workersLastSeen hregistry) (fun _ hconfig => ?_)
            (fun _ hcounter => hother rfl hcounter)
          · rw [Option.isSome_or, hholds jobId leaseToken (hworker ▸ hheld), Bool.or_true]
          · have hconfigs : (s.next (.heartbeat holder jobId leaseToken now
                leaseDuration)).workersConfig = s.workersConfig :=
              congrArg Registry.workersConfig hregistry
            rwa [hconfigs] at hconfig
        · exact (hkeeps.of_registry hregistry (hother rfl)).mono
    | _ => exact (hkeeps.of_registry hregistry (hother rfl)).mono

end KeepsRegistry

/-- What every run keeps of a worker. -/
theorem keepsRegistry_run (ops : List Op) (workerId : Bytes) :
    (empty.run ops).KeepsRegistry (lastRegistration ops workerId) workerId := by
  induction ops using List.reverseRecOn with
  | nil => exact ⟨by simp [empty], by simp [empty], by simp [empty]⟩
  | append_singleton ops op ih =>
      obtain ⟨jobs, hrefines⟩ := exists_refines_run ops
      rw [run_append, run_cons, run_nil, lastRegistration_concat]
      exact ih.next hrefines (fun _ _ hheld => registered_of_holdsLease hheld) op

/-! ## Reading -/

/-- The two reads of a pruning succeed: every score fits into the digits that are
printed, and every record of a listed worker can be read. -/
structure ReadsWorkers (seen configs : Store) : Prop where
  score : ∀ workerId lastSeen, seen.workersLastSeen.score workerId = some lastSeen →
    lastSeen.natAbs < 10 ^ 17
  record : ∀ workerId record, (seen.workersLastSeen.score workerId).isSome →
    configs.workersConfig.lookup workerId = some record →
      ∃ stored, parseWorkerConfigRecord record = .ok stored

/-- The listed workers with the times they were seen. -/
theorem mem_listed {seen : Store} {lastSeen : ℤ} :
    (workerId, lastSeen) ∈ seen.workersLastSeen.entries.map
        (fun entry => ((ofLex entry).2, (ofLex entry).1)) ↔
      seen.workersLastSeen.score workerId = some lastSeen := by
  rw [List.mem_map, SortedSet.score_eq_some_iff]
  constructor
  · rintro ⟨entry, hmem, hpair⟩
    cases hpair
    exact hmem
  · exact fun hmem => ⟨_, hmem, rfl⟩

/-- A pruning finds a worker stale when it was listed and its record is missing or says
so. -/
theorem mem_staleWorkers {seen configs : Store} {now : Timestamp} {stale : List Bytes}
    (hstale : seen.staleWorkers configs now = .ok stale) :
    workerId ∈ stale ↔ ∃ seenAt, seen.workersLastSeen.score workerId = some seenAt ∧
      ∀ record, configs.workersConfig.lookup workerId = some record →
        ∃ stored, parseWorkerConfigRecord record = .ok stored ∧ IsStale now seenAt stored := by
  obtain ⟨workers, hworkers, hfound⟩ := bind_eq_ok_iff.mp hstale
  obtain ⟨rfl, _⟩ := readScores_eq_ok.mp hworkers
  simp only [mem_findStale hfound, mem_listed]

/-- A pruning comes to a decision when its reads succeed. -/
theorem exists_staleWorkers_iff {seen configs : Store} {now : Timestamp} :
    (∃ stale, seen.staleWorkers configs now = .ok stale) ↔ ReadsWorkers seen configs := by
  simp only [staleWorkers, bind_eq_ok_iff, readScores_eq_ok]
  constructor
  · rintro ⟨stale, _, ⟨rfl, hscores⟩, hfound⟩
    have hrecords := exists_findStale_iff.mp ⟨stale, hfound⟩
    refine ⟨fun workerId lastSeen hseen => ?_, fun workerId record hseen hrecord => ?_⟩
    · exact hscores _ (SortedSet.score_eq_some_iff.mp hseen)
    · obtain ⟨lastSeen, hlastSeen⟩ := Option.isSome_iff_exists.mp hseen
      exact hrecords (workerId, lastSeen) (mem_listed.mpr hlastSeen) record hrecord
  · intro hreads
    have hrecords : ∀ worker ∈ seen.workersLastSeen.entries.map
        (fun entry => ((ofLex entry).2, (ofLex entry).1)), ∀ record,
          configs.workersConfig.lookup worker.1 = some record →
            ∃ stored, parseWorkerConfigRecord record = .ok stored := by
      rintro ⟨workerId, lastSeen⟩ hmem record hrecord
      exact hreads.record workerId record (by rw [mem_listed.mp hmem]; rfl) hrecord
    obtain ⟨stale, hfound⟩ := exists_findStale_iff.mpr hrecords
    refine ⟨stale, _, ⟨rfl, fun entry hmem => ?_⟩, hfound⟩
    exact hreads.score _ _ (SortedSet.mem_entries_iff.mp hmem)

/-! ## The pruning rule -/

/-- A worker last seen at the given microsecond may be pruned: it is out of sight for
more than a day and more than ten lease durations. -/
def Outdated (now : Timestamp) (lastSeen : ℤ) (leaseDuration : Duration) : Prop :=
  ((max (24 * 60 * 60 * 1000000000) (10 * leaseDuration.val) : ℕ) : ℤ) <
    now.val - lastSeen * 1000

/-- A worker loses one of its entries. -/
def Removed (before after : Store) (workerId : Bytes) : Prop :=
  after.workersLastSeen.score workerId ≠ before.workersLastSeen.score workerId ∨
    after.workersConfig.lookup workerId ≠ before.workersConfig.lookup workerId ∨
      after.workersLeases.lookup workerId ≠ before.workersLeases.lookup workerId

/-- What a pruning at the end of a run owes to the workers: it removes only those that
may be pruned. -/
def SparesActive (history : List Op) (now : Timestamp) (before after : Store) : Prop :=
  ∀ workerId, Removed before after workerId →
    ∃ lastSeen config, before.workersLastSeen.score workerId = some lastSeen ∧
      lastRegistration history workerId = some config ∧
        Outdated now lastSeen config.leaseDuration

/-- Every worker that is active when the transaction runs and was listed by the first
read had a record at the second, and was within the window of that record. -/
def RecordsActive (history : List Op) (now : Timestamp) (seen configs before : Store) : Prop :=
  ∀ workerId seenAt lastSeen config, seen.workersLastSeen.score workerId = some seenAt →
    before.workersLastSeen.score workerId = some lastSeen →
      lastRegistration history workerId = some config →
        ¬ Outdated now lastSeen config.leaseDuration →
          ∃ record, configs.workersConfig.lookup workerId = some record ∧
            ∀ stored, parseWorkerConfigRecord record = .ok stored → ¬ IsStale now seenAt stored

/-- A worker without entries loses none. -/
theorem isSome_of_removed {before after : Store} {workerIds : List Bytes}
    {registration : Option WorkerConfig} (hkeeps : before.KeepsRegistry registration workerId)
    (hafter : after = before.workersCleanup workerIds)
    (hremoved : Removed before after workerId) :
    (before.workersLastSeen.score workerId).isSome ∧ workerId ∈ workerIds := by
  have hseen : after.workersLastSeen.score workerId =
      if workerId ∈ workerIds then none else before.workersLastSeen.score workerId :=
    hafter ▸ SortedSet.score_foldl_erase _ _ _
  have hconfig : after.workersConfig.lookup workerId =
      if workerId ∈ workerIds then none else before.workersConfig.lookup workerId :=
    hafter ▸ Hash.lookup_foldl_erase _ _ _
  have hleases : after.workersLeases.lookup workerId =
      if workerId ∈ workerIds then none else before.workersLeases.lookup workerId :=
    hafter ▸ Hash.lookup_foldl_erase _ _ _
  rw [Removed, hseen, hconfig, hleases] at hremoved
  by_cases hmem : workerId ∈ workerIds
  · refine ⟨?_, hmem⟩
    simp only [hmem, if_true] at hremoved
    rcases hremoved with hsome | hsome | hsome
    · exact Option.isSome_iff_ne_none.mpr hsome.symm
    · exact hkeeps.config (Option.isSome_iff_ne_none.mpr hsome.symm)
    · exact hkeeps.leases (Option.isSome_iff_ne_none.mpr hsome.symm)
  · simp [hmem] at hremoved

/-- A pruning deletes the workers it found stale. -/
theorem pruneStaleWorkers_of_ok {now : Timestamp} {betweenReads beforeDelete : List Op}
    {stale : List Bytes} (hstale : s.staleWorkers (s.run betweenReads) now = .ok stale) :
    s.pruneStaleWorkers now betweenReads beforeDelete =
      ((s.run betweenReads).run beforeDelete).workersCleanup stale := by
  simp only [pruneStaleWorkers, hstale]

/-- A pruning whose reads fail deletes nothing. -/
theorem pruneStaleWorkers_of_error {now : Timestamp} {betweenReads beforeDelete : List Op}
    {error : Error} (hstale : s.staleWorkers (s.run betweenReads) now = .error error) :
    s.pruneStaleWorkers now betweenReads beforeDelete =
      (s.run betweenReads).run beforeDelete := by
  simp only [pruneStaleWorkers, hstale]

/-- A pruning spares the active workers exactly when its reads fail or they show every
active worker that they list on record and within its window. -/
theorem pruneStaleWorkers_spares_iff (ops : List Op) (now : Timestamp)
    (betweenReads beforeDelete : List Op) :
    let seen := empty.run ops
    let configs := seen.run betweenReads
    let before := configs.run beforeDelete
    let history := ops ++ betweenReads ++ beforeDelete
    SparesActive history now before (seen.pruneStaleWorkers now betweenReads beforeDelete) ↔
      (ReadsWorkers seen configs → RecordsActive history now seen configs before) := by
  intro seen configs before history
  have hkeeps (workerId : Bytes) :
      before.KeepsRegistry (lastRegistration history workerId) workerId := by
    have hkept := keepsRegistry_run history workerId
    rwa [run_append, run_append] at hkept
  constructor
  · intro hspares hreads workerId seenAt lastSeen config hseenAt hlastSeen hconfig hactive
    obtain ⟨stale, hstale⟩ := exists_staleWorkers_iff.mpr hreads
    rw [pruneStaleWorkers_of_ok hstale] at hspares
    by_contra hunrecorded
    push Not at hunrecorded
    have hmem : workerId ∈ stale := (mem_staleWorkers hstale).mpr ⟨seenAt, hseenAt, hunrecorded⟩
    have hremoved : Removed before (before.workersCleanup stale) workerId := by
      refine Or.inl ?_
      rw [hlastSeen, workersCleanup, SortedSet.score_foldl_erase, if_pos hmem]
      simp
    obtain ⟨_, _, hsame, hsameConfig, houtdated⟩ := hspares workerId hremoved
    rw [hlastSeen] at hsame
    rw [hconfig] at hsameConfig
    cases hsame
    cases hsameConfig
    exact hactive houtdated
  · intro hrecords workerId hremoved
    cases hstale : seen.staleWorkers (seen.run betweenReads) now with
    | error error =>
        rw [pruneStaleWorkers_of_error hstale] at hremoved
        simp [Removed, before, configs] at hremoved
    | ok stale =>
        rw [pruneStaleWorkers_of_ok hstale] at hremoved
        obtain ⟨hsome, hmem⟩ := isSome_of_removed (hkeeps workerId) rfl hremoved
        obtain ⟨lastSeen, hlastSeen⟩ := Option.isSome_iff_exists.mp hsome
        obtain ⟨config, hconfig⟩ := Option.isSome_iff_exists.mp ((hkeeps workerId).seen hsome)
        refine ⟨lastSeen, config, hlastSeen, hconfig, ?_⟩
        by_contra hactive
        obtain ⟨seenAt, hseenAt, hfound⟩ := (mem_staleWorkers hstale).mp hmem
        obtain ⟨record, hrecord, hwindow⟩ := hrecords (exists_staleWorkers_iff.mp ⟨stale, hstale⟩)
          workerId seenAt lastSeen config hseenAt hlastSeen hconfig hactive
        obtain ⟨stored, hstored, hisStale⟩ := hfound record hrecord
        exact hwindow stored hstored hisStale

/-- A worker that is pruned while it holds a lease sends a heartbeat for it. -/
def samplePrunedRun : List Op :=
  sampleLeaseRun ++
    [.workersCleanup ["worker"],
      .heartbeat "worker" "job" "token" (.ofSeconds 100000) sampleConfig.leaseDuration]

/-- A worker is removed one second after its heartbeat, since the heartbeat did not
restore its record. -/
theorem heartbeat_worker_pruned :
    ¬ SparesActive samplePrunedRun (.ofSeconds 100001) (empty.run samplePrunedRun)
      ((empty.run samplePrunedRun).pruneStaleWorkers (.ofSeconds 100001) [] []) := by
  intro hspares
  have hremoved : Removed (empty.run samplePrunedRun)
      ((empty.run samplePrunedRun).pruneStaleWorkers (.ofSeconds 100001) [] []) "worker" :=
    Or.inl (by decide)
  obtain ⟨lastSeen, config, hlastSeen, _, houtdated⟩ := hspares "worker" hremoved
  have hscore : (empty.run samplePrunedRun).workersLastSeen.score "worker" =
      some 100000000000 := by decide
  rw [hscore] at hlastSeen
  cases hlastSeen
  unfold Outdated Timestamp.ofSeconds at houtdated
  simp only at houtdated
  omega

end Store

end Redloop
