/-
# Registration records

A worker registers with a record of its configuration, and whoever lists the workers of
its namespace reads the record back. The record is written with durations of any length,
read with 64 bits, and its lease duration is then taken for a signed number. It serves
its purpose for lease durations below `2 ^ 63` milliseconds and for no others.
-/

import Redloop.Queue.Pruning
import Redloop.Store.Listing

namespace Redloop

/-! ## The record -/

/-- A registration record starts with the concurrency and the lease duration. -/
theorem packWorkerConfigRecord_eq (config : WorkerConfig) :
    ∃ rest, packWorkerConfigRecord config =
      decimal config.concurrency.toNat ++
        colon :: (decimal config.leaseDuration.asMillis ++ colon :: rest) := by
  have hcolon : utf8 ":" = [colon] := by decide
  unfold packWorkerConfigRecord
  simp only [hcolon, List.append_assoc, List.singleton_append]
  exact ⟨_, rfl⟩

/-- What is read from a registration record. -/
theorem parse_packWorkerConfigRecord (config : WorkerConfig) :
    parseWorkerConfigRecord (packWorkerConfigRecord config) =
      if config.leaseDuration.asMillis ≤ u64Max then
        .ok ⟨config.concurrency.toNat, config.leaseDuration.asMillis⟩
      else .error (.invalidData "workers:config.lease_duration_ms") := by
  obtain ⟨rest, hrecord⟩ := packWorkerConfigRecord_eq config
  have hconcurrency : parseUnsigned u64Max (decimal config.concurrency.toNat) =
      some config.concurrency.toNat := by
    rw [parseUnsigned_decimal, if_pos]
    exact Nat.le_sub_one_of_lt config.concurrency.toNat_lt
  unfold parseWorkerConfigRecord
  rw [hrecord, takeWhile_append_mark (colon_not_mem_decimal _),
    dropWhile_append_mark (colon_not_mem_decimal _)]
  dsimp only
  rw [takeWhile_append_mark (colon_not_mem_decimal _), parseCount_of_parseUnsigned hconcurrency]
  unfold parseCount
  rw [Option.bind_some, parseUnsigned_decimal]
  split_ifs <;> rfl

/-! ## The window -/

/-- The staleness window that a lease duration in milliseconds asks for: a day or ten lease
durations, whichever is longer, within 64 bits of microseconds. -/
def staleWindow (leaseDurationMs : ℕ) : ℤ :=
  min i64Max (max (24 * 60 * 60 * 1000000) (10 * (leaseDurationMs * 1000)))

/-- A number below `2 ^ 63` keeps its value in a signed cast. -/
theorem castI64_of_le {value : ℕ} (hle : (value : ℤ) ≤ i64Max) : castI64 value = value := by
  unfold i64Max at hle
  unfold castI64
  apply Int.bmod_eq_of_le <;> omega

/-- An unsigned number of 64 bits from `2 ^ 63` on becomes negative. -/
theorem castI64_neg {value : ℕ} (hgt : i64Max < value) (hle : value ≤ u64Max) :
    castI64 value < 0 := by
  unfold i64Max at hgt
  unfold u64Max at hle
  unfold castI64
  rw [Int.bmod_def]
  omega

/-- The window of a record is the one that its lease duration asks for, below `2 ^ 63`
milliseconds. -/
theorem staleAfter_eq_staleWindow_iff {stored : StoredWorkerConfig}
    (hstored : stored.leaseDurationMs ≤ u64Max) :
    staleAfter stored = staleWindow stored.leaseDurationMs ↔
      (stored.leaseDurationMs : ℤ) ≤ i64Max := by
  constructor
  · intro hwindow
    by_contra hgt
    have hneg := castI64_neg (not_le.mp hgt) hstored
    unfold staleAfter staleWindow saturate at hwindow
    unfold i64Max i64Min at *
    omega
  · intro hle
    unfold staleAfter staleWindow saturate
    rw [castI64_of_le hle]
    unfold i64Max i64Min at *
    omega

/-! ## The listing -/

/-- What is listed can be shown when every record and every time can be read. -/
theorem exists_workerInfos_iff {configs : Hash Bytes}
    {workers : List ((Bytes × ℤ) × Option ℕ)} :
    (∃ infos, workerInfos configs workers = .ok infos) ↔
      ∀ worker ∈ workers, ∀ record, configs.lookup worker.1.1 = some record →
        (∃ stored, parseWorkerConfigRecord record = .ok stored) ∧
          ∃ time, fromMicros worker.1.2 = .ok time := by
  induction workers with
  | nil => simp [workerInfos]
  | cons worker rest ih =>
      obtain ⟨⟨workerId, lastSeen⟩, leasedCount⟩ := worker
      rw [List.forall_mem_cons, ← ih, workerInfos]
      cases hrecord : configs.lookup workerId with
      | none => simp
      | some record =>
          simp only [bind_eq_ok_iff, Option.some.injEq, forall_eq']
          constructor
          · rintro ⟨infos, stored, hstored, time, htime, others, hothers, _⟩
            exact ⟨⟨⟨stored, hstored⟩, time, htime⟩, others, hothers⟩
          · rintro ⟨⟨⟨stored, hstored⟩, time, htime⟩, others, hothers⟩
            exact ⟨_, stored, hstored, time, htime, others, hothers, rfl⟩

/-- The workers are shown with what was read under their ids. -/
theorem exists_workerInfos_zip_iff {configs : Hash Bytes} {workers : List (Bytes × ℤ)}
    (leasedCount : Bytes → Option ℕ) :
    (∃ infos, workerInfos configs
        (workers.zip ((workers.map Prod.fst).map leasedCount)) = .ok infos) ↔
      ∀ worker ∈ workers, ∀ record, configs.lookup worker.1 = some record →
        (∃ stored, parseWorkerConfigRecord record = .ok stored) ∧
          ∃ time, fromMicros worker.2 = .ok time := by
  rw [List.map_map, ← List.map_prod_left_eq_zip, exists_workerInfos_iff, List.forall_mem_map]

namespace Store

variable {s : Store}

/-- The reads of a listing find times of at most 17 digits, lease counts of 64 bits and
registration records that satisfy the given predicate. -/
structure ReadsListing (s : Store) (between : BetweenListing) (now : Timestamp)
    (readable : Bytes → Prop) : Prop where
  seenBefore : ∀ workerId lastSeen, s.workersLastSeen.score workerId = some lastSeen →
    lastSeen.natAbs < 10 ^ 17
  recordBefore : ∀ workerId record, (s.workersLastSeen.score workerId).isSome →
    (s.run between.betweenReads).workersConfig.lookup workerId = some record → readable record
  seen : ∀ workerId lastSeen,
    (s.atSeen between now).workersLastSeen.score workerId = some lastSeen →
      lastSeen.natAbs < 10 ^ 17
  record : ∀ workerId record, ((s.atSeen between now).workersLastSeen.score workerId).isSome →
    (s.atConfigs between now).workersConfig.lookup workerId = some record → readable record
  leases : ∀ workerId count, ((s.atSeen between now).workersLastSeen.score workerId).isSome →
    (s.atLeases between now).workersLeases.lookup workerId = some count →
      0 ≤ count ∧ count ≤ u64Max

/-- Reads that find certain records find records of every weaker kind. -/
theorem ReadsListing.mono {between : BetweenListing} {now : Timestamp}
    {readable readable' : Bytes → Prop} (hreads : s.ReadsListing between now readable)
    (hweaker : ∀ record, readable record → readable' record) :
    s.ReadsListing between now readable' where
  seenBefore := hreads.seenBefore
  recordBefore workerId record hsome hrecord :=
    hweaker record (hreads.recordBefore workerId record hsome hrecord)
  seen := hreads.seen
  record workerId record hsome hrecord :=
    hweaker record (hreads.record workerId record hsome hrecord)
  leases := hreads.leases

/-- A listing succeeds when its reads find what can be read. -/
theorem exists_listWorkersDuring_iff (s : Store) (between : BetweenListing) (now : Timestamp) :
    (∃ infos, s.listWorkersDuring between now = .ok infos) ↔
      s.ReadsListing between now fun record =>
        ∃ stored, parseWorkerConfigRecord record = .ok stored := by
  simp only [listWorkersDuring, bind_eq_ok_iff, readScores_eq_ok, hmget_eq_ok_iff]
  constructor
  · rintro ⟨infos, stale, hstale, workers, ⟨hworkers, hseen⟩, _, ⟨rfl, hleases⟩, hinfos⟩
    have hpruned := exists_staleWorkers_iff.mp ⟨stale, hstale⟩
    have hshown := (exists_workerInfos_zip_iff _).mp ⟨infos, hinfos⟩
    have hlisted {workerId : Bytes} {lastSeen : ℤ}
        (hscore : (s.atSeen between now).workersLastSeen.score workerId = some lastSeen) :
        (workerId, lastSeen) ∈ workers := hworkers ▸ mem_listed.mpr hscore
    refine ⟨hpruned.score, hpruned.record, ?_, ?_, ?_⟩
    · intro workerId lastSeen hscore
      exact hseen _ (SortedSet.score_eq_some_iff.mp hscore)
    · intro workerId record hsome hrecord
      obtain ⟨lastSeen, hscore⟩ := Option.isSome_iff_exists.mp hsome
      exact (hshown _ (hlisted hscore) record hrecord).1
    · intro workerId count hsome hcount
      obtain ⟨lastSeen, hscore⟩ := Option.isSome_iff_exists.mp hsome
      exact hleases workerId (List.mem_map_of_mem (hlisted hscore)) count hcount
  · intro hreads
    let workers := (s.atSeen between now).workersLastSeen.entries.map
      fun entry => ((ofLex entry).2, (ofLex entry).1)
    obtain ⟨stale, hstale⟩ :=
      exists_staleWorkers_iff.mpr ⟨hreads.seenBefore, hreads.recordBefore⟩
    have hshown : ∀ worker ∈ workers, ∀ record,
        (s.atConfigs between now).workersConfig.lookup worker.1 = some record →
          (∃ stored, parseWorkerConfigRecord record = .ok stored) ∧
            ∃ time, fromMicros worker.2 = .ok time := by
      rintro ⟨workerId, lastSeen⟩ hmem record hrecord
      have hscore := mem_listed.mp hmem
      exact ⟨hreads.record workerId record (Option.isSome_of_eq_some hscore) hrecord,
        _, fromMicros_eq_ok (hreads.seen workerId lastSeen hscore)⟩
    obtain ⟨infos, hinfos⟩ := (exists_workerInfos_zip_iff fun workerId =>
      ((s.atLeases between now).workersLeases.lookup workerId).map Int.toNat).mpr hshown
    refine ⟨infos, stale, hstale, workers, ⟨rfl, fun entry hmem => ?_⟩, _, ⟨rfl, ?_⟩, hinfos⟩
    · exact hreads.seen _ _ (SortedSet.mem_entries_iff.mp hmem)
    · intro workerId hmem count hcount
      obtain ⟨⟨_, lastSeen⟩, hworker, rfl⟩ := List.mem_map.mp hmem
      have hscore := mem_listed.mp hworker
      exact hreads.leases _ count (Option.isSome_of_eq_some hscore) hcount

end Store

/-! ## What a registration owes -/

/-- A registration record serves its purpose: it is read back, its window is the one that
the lease duration asks for, and no listing of workers fails because of it. -/
structure ServesListing (config : WorkerConfig) : Prop where
  decoded : parseWorkerConfigRecord (packWorkerConfigRecord config) =
    .ok ⟨config.concurrency.toNat, config.leaseDuration.asMillis⟩
  window : ∀ stored, parseWorkerConfigRecord (packWorkerConfigRecord config) = .ok stored →
    staleAfter stored = staleWindow config.leaseDuration.asMillis
  listed : ∀ (s : Store) (between : BetweenListing) (now : Timestamp),
    (s.ReadsListing between now fun record => record = packWorkerConfigRecord config ∨
      ∃ stored, parseWorkerConfigRecord record = .ok stored) →
        ∃ infos, s.listWorkersDuring between now = .ok infos

/-- A registration record serves its purpose exactly when the lease duration is below
`2 ^ 63` milliseconds. -/
theorem servesListing_iff (config : WorkerConfig) :
    ServesListing config ↔ (config.leaseDuration.asMillis : ℤ) ≤ i64Max := by
  have hparse := parse_packWorkerConfigRecord config
  constructor
  · intro hserves
    rw [hserves.decoded] at hparse
    split_ifs at hparse with hfits
    · have hwindow := hserves.window _ hserves.decoded
      exact (staleAfter_eq_staleWindow_iff hfits).mp hwindow
  · intro hle
    have hfits : config.leaseDuration.asMillis ≤ u64Max := by
      unfold i64Max at hle
      unfold u64Max
      omega
    rw [if_pos hfits] at hparse
    refine ⟨hparse, fun stored hstored => ?_, fun s between now hreads => ?_⟩
    · cases hparse.symm.trans hstored
      exact (staleAfter_eq_staleWindow_iff hfits).mpr hle
    · apply (s.exists_listWorkersDuring_iff between now).mpr
      apply hreads.mono
      rintro record (hown | hstored)
      · rw [hown]
        exact ⟨_, hparse⟩
      · exact hstored

/-- A valid configuration with a lease duration of `2 ^ 64` milliseconds. -/
def longLeaseConfig : WorkerConfig :=
  { sampleConfig with leaseDuration := ⟨2 ^ 64 * 1000000, by unfold maxDurationNanos; omega⟩ }

/-- A worker with this configuration keeps every worker of its namespace from being listed. -/
theorem long_lease_not_listed :
    let s := Store.empty.run
      [.enqueue ⟨"job", none, .always, true⟩ (.ofSeconds 1),
        .reserve longLeaseConfig 1 (.ofSeconds 2) ["token"]]
    longLeaseConfig.validate = .ok () ∧
      s.listWorkers (.ofSeconds 3) = .error (.invalidData "workers:config.lease_duration_ms") ∧
        ¬ ServesListing longLeaseConfig := by
  exact ⟨by decide, by decide, fun hserves => absurd hserves.decoded (by decide)⟩

end Redloop
