/-
# Pruning stale workers

Listing the workers of a namespace first prunes the stale ones. It reads when each
worker was last seen, then the registration records of those workers, and deletes
the stale ones in a third round trip. A score or a record that cannot be read ends
the listing before anything is deleted.
-/

import Redloop.Store.Decode

namespace Redloop

/-- The nearest signed 64-bit integer. -/
def saturate (value : ℤ) : ℤ := max i64Min (min i64Max value)

/-- The signed 64-bit integer with the bits of an unsigned one. -/
def castI64 (value : ℕ) : ℤ := Int.bmod value (2 ^ 64)

/-- The time in microseconds after which a worker with the given registration counts
as stale. -/
def staleAfter (stored : StoredWorkerConfig) : ℤ :=
  max (saturate (saturate (castI64 stored.leaseDurationMs * 10) * 1000))
    (24 * 60 * 60 * 1000000)

/-- Whether a worker with the given registration is stale. -/
def IsStale (now : Timestamp) (lastSeen : ℤ) (stored : StoredWorkerConfig) : Prop :=
  staleAfter stored < saturate (micros now - lastSeen)

instance (now : Timestamp) (lastSeen : ℤ) (stored : StoredWorkerConfig) :
    Decidable (IsStale now lastSeen stored) :=
  inferInstanceAs (Decidable (_ < _))

/-- Read members with their scores. -/
def readScores (operation : String) : List (ℤ ×ₗ Bytes) → Except Error (List (Bytes × ℤ))
  | [] => .ok []
  | entry :: rest => do
      let score ← decodeScore operation (ofLex entry).1
      let others ← readScores operation rest
      pure (((ofLex entry).2, score) :: others)

/-- The stale ones of some workers. A worker without a registration record counts as
stale. -/
def findStale (now : Timestamp) (configs : Hash Bytes) :
    List (Bytes × ℤ) → Except Error (List Bytes)
  | [] => .ok []
  | (workerId, lastSeen) :: rest =>
      match configs.lookup workerId with
      | none => do
          let others ← findStale now configs rest
          pure (workerId :: others)
      | some record => do
          let stored ← parseWorkerConfigRecord record
          let others ← findStale now configs rest
          pure (if IsStale now lastSeen stored then workerId :: others else others)

namespace Store

/-- The workers that a pruning finds stale, from a read of the times they were last
seen and a later read of their registration records. -/
def staleWorkers (seen configs : Store) (now : Timestamp) : Except Error (List Bytes) := do
  let workers ← readScores "workers_zrange" seen.workersLastSeen.entries
  findStale now configs.workersConfig workers

/-- The store after a pruning, with the operations that other clients run between its
two reads and between the second read and its delete transaction. -/
def pruneStaleWorkers (s : Store) (now : Timestamp) (betweenReads beforeDelete : List Op) :
    Store :=
  let configs := s.run betweenReads
  match s.staleWorkers configs now with
  | .ok workerIds => (configs.run beforeDelete).workersCleanup workerIds
  | .error _ => configs.run beforeDelete

end Store

/-! ## What is found stale -/

theorem readScores_eq_ok {operation : String} {entries : List (ℤ ×ₗ Bytes)}
    {workers : List (Bytes × ℤ)} :
    readScores operation entries = .ok workers ↔
      workers = entries.map (fun entry => ((ofLex entry).2, (ofLex entry).1)) ∧
        ∀ entry ∈ entries, (ofLex entry).1.natAbs < 10 ^ 17 := by
  induction entries generalizing workers with
  | nil => simp [readScores, eq_comm]
  | cons entry rest ih =>
      simp only [readScores, bind_eq_ok_iff, decodeScore_eq, ih]
      constructor
      · rintro ⟨score, hscore, others, ⟨rfl, hrest⟩, hworkers⟩
        split_ifs at hscore with hfits
        cases hscore
        cases hworkers
        exact ⟨rfl, List.forall_mem_cons.mpr ⟨hfits, hrest⟩⟩
      · rintro ⟨rfl, hfits⟩
        obtain ⟨hfirst, hrest⟩ := List.forall_mem_cons.mp hfits
        exact ⟨_, if_pos hfirst, _, ⟨rfl, hrest⟩, rfl⟩

/-- A worker is found stale when its record is missing or says so. -/
theorem mem_findStale {now : Timestamp} {configs : Hash Bytes} {workers : List (Bytes × ℤ)}
    {stale : List Bytes} (hfound : findStale now configs workers = .ok stale)
    {workerId : Bytes} :
    workerId ∈ stale ↔ ∃ lastSeen, (workerId, lastSeen) ∈ workers ∧
      ∀ record, configs.lookup workerId = some record →
        ∃ stored, parseWorkerConfigRecord record = .ok stored ∧ IsStale now lastSeen stored := by
  induction workers generalizing stale with
  | nil =>
      cases hfound
      simp
  | cons worker rest ih =>
      obtain ⟨seenId, seenAt⟩ := worker
      unfold findStale at hfound
      cases hrecord : configs.lookup seenId with
      | none =>
          rw [hrecord] at hfound
          obtain ⟨others, hothers, hstale⟩ := bind_eq_ok_iff.mp hfound
          cases hstale
          simp only [List.mem_cons, ih hothers, Prod.mk.injEq]
          constructor
          · rintro (rfl | ⟨lastSeen, hmem, hstale⟩)
            · exact ⟨seenAt, Or.inl ⟨rfl, rfl⟩, by simp [hrecord]⟩
            · exact ⟨lastSeen, Or.inr hmem, hstale⟩
          · rintro ⟨lastSeen, ⟨rfl, _⟩ | hmem, hstale⟩
            · exact Or.inl rfl
            · exact Or.inr ⟨lastSeen, hmem, hstale⟩
      | some record =>
          rw [hrecord] at hfound
          obtain ⟨stored, hstored, hfound⟩ := bind_eq_ok_iff.mp hfound
          obtain ⟨others, hothers, hstale⟩ := bind_eq_ok_iff.mp hfound
          cases hstale
          have hmem : workerId ∈ (if IsStale now seenAt stored then seenId :: others else others) ↔
              (workerId = seenId ∧ IsStale now seenAt stored) ∨ workerId ∈ others := by
            split_ifs with hisStale <;> simp [hisStale]
          rw [hmem, ih hothers]
          simp only [List.mem_cons, Prod.mk.injEq]
          constructor
          · rintro (⟨rfl, hisStale⟩ | ⟨lastSeen, hmem, hstale⟩)
            · refine ⟨seenAt, Or.inl ⟨rfl, rfl⟩, fun found hfound => ?_⟩
              rw [hrecord] at hfound
              cases hfound
              exact ⟨stored, hstored, hisStale⟩
            · exact ⟨lastSeen, Or.inr hmem, hstale⟩
          · rintro ⟨lastSeen, ⟨rfl, rfl⟩ | hmem, hstale⟩
            · obtain ⟨found, hfound, hisStale⟩ := hstale record hrecord
              rw [hstored] at hfound
              cases hfound
              exact Or.inl ⟨rfl, hisStale⟩
            · exact Or.inr ⟨lastSeen, hmem, hstale⟩

/-- The stale workers are found when every record can be read. -/
theorem exists_findStale_iff {now : Timestamp} {configs : Hash Bytes}
    {workers : List (Bytes × ℤ)} :
    (∃ stale, findStale now configs workers = .ok stale) ↔
      ∀ worker ∈ workers, ∀ record, configs.lookup worker.1 = some record →
        ∃ stored, parseWorkerConfigRecord record = .ok stored := by
  induction workers with
  | nil => simp [findStale]
  | cons worker rest ih =>
      obtain ⟨seenId, seenAt⟩ := worker
      rw [List.forall_mem_cons, ← ih, findStale]
      cases hrecord : configs.lookup seenId with
      | none => simp [bind_eq_ok_iff, pure, Except.pure]
      | some record => simp [bind_eq_ok_iff, pure, Except.pure]

end Redloop
