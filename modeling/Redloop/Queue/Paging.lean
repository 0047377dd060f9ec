/-
# Paging through failed jobs

Failed jobs are listed in pages, each from the namespace as it is when it is read. While
jobs only fail, and later than all that have failed before, the pages together list every
failed job once and in order, provided that every row that they read can be decoded.
-/

import Redloop.Data.Paging
import Redloop.Queue.Conservation
import Redloop.Store.Listing

namespace Redloop

/-! ## Jobs that fail meanwhile -/

/-- An operation that leaves the failed jobs as they are and fails other jobs only later
than all of them. -/
structure Op.FailsLater (op : Op) (s : Store) : Prop where
  kept : ∀ entry ∈ s.failed.entries, entry ∈ (s.next op).failed.entries
  later : ∀ entry ∈ (s.next op).failed.entries, entry ∉ s.failed.entries →
    ∀ existing ∈ s.failed.entries, (ofLex existing).1 < (ofLex entry).1

instance (op : Op) (s : Store) : Decidable (op.FailsLater s) :=
  decidable_of_iff
    ((∀ entry ∈ s.failed.entries, entry ∈ (s.next op).failed.entries) ∧
      ∀ entry ∈ (s.next op).failed.entries, entry ∉ s.failed.entries →
        ∀ existing ∈ s.failed.entries, (ofLex existing).1 < (ofLex entry).1)
    ⟨fun hboth => ⟨hboth.1, hboth.2⟩, fun hlater => ⟨hlater.kept, hlater.later⟩⟩

/-- Every operation of a run fails jobs only later than all that have failed before. -/
def RunFailsLater : Store → List Op → Prop
  | _, [] => True
  | s, op :: ops => op.FailsLater s ∧ RunFailsLater (s.next op) ops

instance : (s : Store) → (ops : List Op) → Decidable (RunFailsLater s ops)
  | _, [] => .isTrue trivial
  | s, op :: ops =>
      have := instDecidableRunFailsLater (s.next op) ops
      inferInstanceAs (Decidable (op.FailsLater s ∧ RunFailsLater (s.next op) ops))

/-- The operations that other clients run while failed jobs are listed. -/
structure BetweenPages where
  /-- Between the two reads of a page. -/
  betweenReads : ℕ → List Op
  /-- After the reads of a page. -/
  afterPage : ℕ → List Op

namespace Store

/-- The store in which the failed jobs of a page are read. -/
def atPage (s : Store) (between : BetweenPages) : ℕ → Store
  | 0 => s
  | page + 1 =>
      ((s.atPage between page).run (between.betweenReads page)).run (between.afterPage page)

variable (s : Store) (between : BetweenPages)

/-- The store in which the failure counts of a page are read. -/
def atCounts (page : ℕ) : Store := (s.atPage between page).run (between.betweenReads page)

/-- While failed jobs are listed no job leaves failed, and jobs fail later than all that
have failed before, finitely many in total. -/
structure OnlyFails : Prop where
  betweenReads : ∀ page, RunFailsLater (s.atPage between page) (between.betweenReads page)
  afterPage : ∀ page, RunFailsLater (s.atCounts between page) (between.afterPage page)
  bounded : ∃ bound, ∀ page, (s.atPage between page).failed.card ≤ bound

/-- List all failed jobs: follow the cursors from a page on until there is none. Without
enough fuel the listing has no result. -/
def listAllFailed (limit : UInt64) :
    ℕ → ℕ → Option Bytes → Option (Except Error (List FailedJobsPage))
  | 0, _, _ => none
  | fuel + 1, page, cursor =>
      match listFailed (s.atPage between page) (s.atCounts between page) ⟨cursor, limit⟩ with
      | .error error => some (.error error)
      | .ok found =>
          match found.nextCursor with
          | none => some (.ok [found])
          | some next =>
              (listAllFailed limit fuel (page + 1) (some next)).map (Except.map (found :: ·))

end Store

/-! ## How the failed jobs grow -/

/-- The jobs that fail later are listed after those that have failed before. -/
theorem Op.FailsLater.isPrefix {op : Op} {s : Store} (hlater : op.FailsLater s) :
    s.failed.entries <+: (s.next op).failed.entries := by
  refine prefix_of_later s.failed.sorted (s.next op).failed.sorted hlater.kept ?_
  intro entry hmem hnew existing hexisting
  exact Prod.Lex.toLex_lt_toLex.mpr (Or.inl (hlater.later entry hmem hnew existing hexisting))

/-- A run that fails jobs later only continues the list of failed jobs. -/
theorem RunFailsLater.isPrefix {s : Store} {ops : List Op} (hrun : RunFailsLater s ops) :
    s.failed.entries <+: (s.run ops).failed.entries := by
  induction ops generalizing s with
  | nil => exact List.prefix_rfl
  | cons op ops ih => exact hrun.1.isPrefix.trans (ih hrun.2)

/-- A transition takes a failed job out of failed. -/
theorem Op.not_failed_of_outcome {op : Op} {job job' : Job} {score : ℤ}
    (hfailed : job.placement = .failed score) (houtcome : op.outcome job = some job')
    (score' : ℤ) : job'.placement ≠ .failed score' := by
  have htarget (target : Target) : target.placement ≠ .failed score' := by
    rcases target.placement_cases with hready | hscheduled
    · simp [hready]
    · simp [hscheduled]
  obtain ⟨placement, failures⟩ := job
  dsimp only at hfailed
  subst hfailed
  cases op with
  | enqueue request now =>
      rcases outcome_enqueue_cases houtcome with ⟨nowUs, rfl⟩ | ⟨target, mode, hscheduled⟩
      · simp [Job.enqueueImmediate]
      · cases hscheduled
        exact htarget target
  | operator command target now =>
      cases command <;> simp only [outcome, Job.operator, Option.some.injEq, reduceCtorEq]
        at houtcome <;> simp [← houtcome, Job.absent]
  | _ => cases houtcome

/-- A failed job that is still failed after an operation is unchanged. -/
theorem JobStep.eq_of_failed {op : Op} {reply : Reply} {jobId : Bytes} {job job' : Job}
    (hstep : JobStep op reply jobId job job') {score score' : ℤ}
    (hbefore : job.placement = .failed score) (hafter : job'.placement = .failed score') :
    job' = job := by
  have hidle : ¬ job.IsWaiting := by simp [Job.IsWaiting, hbefore]
  cases hstep.change with
  | kept hkept => exact hkept
  | transition _ houtcome => exact absurd hafter (Op.not_failed_of_outcome hbefore houtcome _)
  | leased hwaiting => exact absurd hwaiting hidle
  | lost hwaiting => exact absurd hwaiting hidle
  | reaped hreap =>
      obtain ⟨_, _, _, _, hleased, _⟩ := Job.reap_eq_some_iff.mp hreap
      simp [hbefore] at hleased
  | purged _ hpurged => simp [hpurged, Job.purge, hbefore, Job.absent] at hafter

/-- The store refines an assignment with the given job. -/
def Store.StoresJob (s : Store) (jobId : Bytes) (job : Job) : Prop :=
  ∃ jobs, Refines s jobs ∧ jobs jobId = job

/-- A run that only fails other jobs later leaves a failed job unchanged. -/
theorem RunFailsLater.storesJob {s : Store} {ops : List Op} (hrun : RunFailsLater s ops)
    {jobId : Bytes} {job : Job} {score : ℤ} (hfailed : job.placement = .failed score)
    (hstores : s.StoresJob jobId job) : (s.run ops).StoresJob jobId job := by
  induction ops generalizing s with
  | nil => exact hstores
  | cons op ops ih =>
      obtain ⟨jobs, hrefines, rfl⟩ := hstores
      obtain ⟨jobs', hrefines', hstep⟩ := Store.exec_refines hrefines op
      obtain ⟨failedAt, hscore⟩ :=
        Option.isSome_iff_exists.mp ((hrefines.failed_isSome_iff jobId).mpr ⟨score, hfailed⟩)
      have hstays := Option.isSome_of_eq_some
        (SortedSet.score_eq_some_of_isPrefix hrun.1.isPrefix hscore)
      obtain ⟨_, hafter⟩ := (hrefines'.failed_isSome_iff jobId).mp hstays
      exact ih hrun.2 ⟨jobs', hrefines', (hstep jobId).eq_of_failed hfailed hafter⟩

/-! ## One page -/

/-- The cursor with which a page is asked for. -/
def pageCursor (limit : UInt64) (page : ℕ) : Option Bytes :=
  if page = 0 then none else some (decimal (page * limit.toNat))

namespace Store

/-- The record of a failed job, with its failure count in the given store. -/
def failedJob (counted : Store) (entry : ℤ ×ₗ Bytes) : JobRecord :=
  failedRecord ((ofLex entry).2, (ofLex entry).1)
    ((counted.failures.lookup (ofLex entry).2).map Int.toNat)

/-- The page of failed jobs with a given number. -/
def failedPage (failed counted : Store) (limit : UInt64) (page : ℕ) : FailedJobsPage where
  jobs := (pageOf failed.failed.entries limit.toNat page).map counted.failedJob
  nextCursor :=
    if (page + 1) * limit.toNat < failed.failed.card then pageCursor limit (page + 1) else none

/-- The entries that a page reads, one more than it lists. -/
def readEntries (failed : Store) (limit : UInt64) (page : ℕ) : List (ℤ ×ₗ Bytes) :=
  (failed.failed.entries.drop (page * limit.toNat)).take (limit.toNat + 1)

/-- The entries that a page reads have times of at most 17 digits, and the failure counts of
the listed jobs are unsigned 32-bit integers. -/
structure ReadsPage (failed counted : Store) (limit : UInt64) (page : ℕ) : Prop where
  times : ∀ entry ∈ failed.readEntries limit page, (ofLex entry).1.natAbs < 10 ^ 17
  counts : ∀ entry ∈ pageOf failed.failed.entries limit.toNat page,
    ∀ count ∈ counted.failures.lookup (ofLex entry).2, 0 ≤ count ∧ count ≤ u32Max

instance (failed counted : Store) (limit : UInt64) (page : ℕ) :
    Decidable (ReadsPage failed counted limit page) :=
  decidable_of_iff
    ((∀ entry ∈ failed.readEntries limit page, (ofLex entry).1.natAbs < 10 ^ 17) ∧
      ∀ entry ∈ pageOf failed.failed.entries limit.toNat page,
        ∀ count ∈ counted.failures.lookup (ofLex entry).2, 0 ≤ count ∧ count ≤ u32Max)
    ⟨fun hboth => ⟨hboth.1, hboth.2⟩, fun hreads => ⟨hreads.times, hreads.counts⟩⟩

variable {failed counted : Store} {limit : UInt64} {page : ℕ}

/-- The cursor of a page is read as the number of the entries before it. -/
theorem offset_pageCursor (hfits : (((page + 1) * limit.toNat : ℕ) : ℤ) ≤ i64Max) :
    (FailedJobsQuery.mk (pageCursor limit page) limit).offset =
      .ok (UInt64.ofNat (page * limit.toNat)) := by
  have hsize : (page + 1) * limit.toNat = page * limit.toNat + limit.toNat := Nat.succ_mul _ _
  have hrange : page * limit.toNat ≤ u64Max := by
    unfold i64Max at hfits
    unfold u64Max
    omega
  unfold pageCursor FailedJobsQuery.offset
  by_cases hpage : page = 0
  · rw [if_pos hpage, hpage, Nat.zero_mul]
    rfl
  · rw [if_neg hpage]
    dsimp only
    rw [parseCursor, parseUnsigned_decimal, if_pos hrange]

/-- The index at which a page starts. -/
theorem toNat_offset (hfits : (((page + 1) * limit.toNat : ℕ) : ℤ) ≤ i64Max) :
    (UInt64.ofNat (page * limit.toNat)).toNat = page * limit.toNat := by
  have hsize : (page + 1) * limit.toNat = page * limit.toNat + limit.toNat := Nat.succ_mul _ _
  unfold i64Max at hfits
  exact UInt64.toNat_ofNat_of_lt' (by rw [UInt64.size]; omega)

/-- The index at which a page stops is that at which the next page starts. -/
theorem toNat_stop (hfits : (((page + 1) * limit.toNat : ℕ) : ℤ) ≤ i64Max) :
    (UInt64.ofNat (page * limit.toNat) + limit).toNat = (page + 1) * limit.toNat := by
  have hsize : (page + 1) * limit.toNat = page * limit.toNat + limit.toNat := Nat.succ_mul _ _
  rw [UInt64.toNat_add, toNat_offset hfits, ← hsize, Nat.mod_eq_of_lt]
  unfold i64Max at hfits
  omega

/-- The first of the entries that a page reads are those that it lists. -/
theorem take_readEntries :
    (failed.readEntries limit page).take limit.toNat =
      pageOf failed.failed.entries limit.toNat page := by
  rw [readEntries, List.take_take, Nat.min_eq_left (Nat.le_succ _), pageOf]

/-- A page reads more than it lists exactly when there are failed jobs after it. -/
theorem lt_length_readEntries_iff :
    limit.toNat < (failed.readEntries limit page).length ↔
      (page + 1) * limit.toNat < failed.failed.card := by
  rw [readEntries, List.length_take, List.length_drop, Nat.succ_mul, SortedSet.card]
  omega

/-- The rows of a page are read when their scores can be decoded. -/
theorem failedRows_eq_ok_iff (hfits : (((page + 1) * limit.toNat : ℕ) : ℤ) ≤ i64Max)
    {rows : List (Bytes × ℤ)} :
    failed.failedRows (UInt64.ofNat (page * limit.toNat))
        (UInt64.ofNat (page * limit.toNat) + limit) = .ok rows ↔
      rows = (failed.readEntries limit page).map
          (fun entry => ((ofLex entry).2, (ofLex entry).1)) ∧
        ∀ entry ∈ failed.readEntries limit page, (ofLex entry).1.natAbs < 10 ^ 17 := by
  have hsize : (page + 1) * limit.toNat = page * limit.toNat + limit.toNat := Nat.succ_mul _ _
  have hrange : ¬ (i64Max < ((page * limit.toNat : ℕ) : ℤ) ∨
      i64Max < (((page + 1) * limit.toNat : ℕ) : ℤ)) := by
    omega
  have hrows : (page + 1) * limit.toNat + 1 - page * limit.toNat = limit.toNat + 1 := by
    omega
  rw [failedRows, toNat_offset hfits, toNat_stop hfits, if_neg hrange, readScores_eq_ok, zrange,
    List.drop_take, hrows, readEntries]

/-- The counts that are read under the ids of some rows belong to these rows. -/
theorem zipWith_failedRecord (entries : List (ℤ ×ₗ Bytes)) :
    (entries.map fun entry => ((ofLex entry).2, (ofLex entry).1)).zipWith failedRecord
        (((entries.map fun entry => ((ofLex entry).2, (ofLex entry).1)).map Prod.fst).map
          fun jobId => (counted.failures.lookup jobId).map Int.toNat) =
      entries.map counted.failedJob := by
  rw [List.map_map, List.map_map, List.zipWith_map, List.zipWith_self]
  rfl

/-- A page is listed when its rows can be decoded, and only then. -/
theorem listFailed_eq_ok_iff (hlimit : limit ≠ 0)
    (hfits : (((page + 1) * limit.toNat : ℕ) : ℤ) ≤ i64Max) {found : FailedJobsPage} :
    listFailed failed counted ⟨pageCursor limit page, limit⟩ = .ok found ↔
      ReadsPage failed counted limit page ∧ found = failedPage failed counted limit page := by
  have hlisted : ((failed.readEntries limit page).map
      fun entry => ((ofLex entry).2, (ofLex entry).1)).take limit.toNat =
        (pageOf failed.failed.entries limit.toNat page).map
          fun entry => ((ofLex entry).2, (ofLex entry).1) := by
    rw [← List.map_take, take_readEntries]
  have hpage : failedPage failed counted limit page =
      { jobs := (pageOf failed.failed.entries limit.toNat page).map counted.failedJob
        nextCursor := if limit.toNat < (failed.readEntries limit page).length then
          some (decimal ((page + 1) * limit.toNat)) else none } := by
    simp only [lt_length_readEntries_iff]
    rfl
  simp only [listFailed, offset_pageCursor hfits, bind_eq_ok_iff, Except.ok.injEq,
    exists_eq_left', if_neg hlimit, failedRows_eq_ok_iff hfits, hmget_eq_ok_iff, toNat_stop hfits]
  constructor
  · rintro ⟨_, ⟨rfl, htimes⟩, _, ⟨rfl, hcounts⟩, hfound⟩
    rw [hlisted, List.map_map, List.forall_mem_map] at hcounts
    rw [hlisted, zipWith_failedRecord, List.length_map, ← hpage] at hfound
    exact ⟨⟨htimes, hcounts⟩, (Except.ok.inj hfound).symm⟩
  · rintro ⟨hreads, rfl⟩
    refine ⟨_, ⟨rfl, hreads.times⟩, _, ⟨rfl, ?_⟩, ?_⟩
    · rw [hlisted, List.map_map, List.forall_mem_map]
      exact hreads.counts
    · rw [hlisted, zipWith_failedRecord, List.length_map, hpage]
      rfl

/-! ## All pages -/

section Walk

variable {s : Store} {between : BetweenPages} {last : ℕ}

/-- A listing reads a page and then, if the page has a cursor, the pages after it. -/
theorem listAllFailed_succ_eq_ok_iff {fuel : ℕ} {cursor : Option Bytes}
    {pages : List FailedJobsPage} :
    s.listAllFailed between limit (fuel + 1) page cursor = some (.ok pages) ↔
      ∃ found, listFailed (s.atPage between page) (s.atCounts between page) ⟨cursor, limit⟩ =
        .ok found ∧ ((found.nextCursor = none ∧ pages = [found]) ∨
          ∃ next others, found.nextCursor = some next ∧
            s.listAllFailed between limit fuel (page + 1) (some next) = some (.ok others) ∧
              pages = found :: others) := by
  rw [listAllFailed]
  cases listFailed (s.atPage between page) (s.atCounts between page) ⟨cursor, limit⟩ with
  | error error => simp
  | ok found =>
      cases hcursor : found.nextCursor with
      | none => simp [hcursor, eq_comm]
      | some next =>
          cases hrest : s.listAllFailed between limit fuel (page + 1) (some next) with
          | none => simp [hcursor, hrest]
          | some rest =>
              cases rest with
              | error error => simp [hcursor, hrest, Except.map]
              | ok others => simp [hcursor, hrest, Except.map, eq_comm]

/-- The rows that a page of a listing reads can be decoded. -/
def CanRead (s : Store) (between : BetweenPages) (limit : UInt64) (page : ℕ) : Prop :=
  ReadsPage (s.atPage between page) (s.atCounts between page) limit page

instance (s : Store) (between : BetweenPages) (limit : UInt64) (page : ℕ) :
    Decidable (s.CanRead between limit page) := by
  unfold CanRead
  infer_instance

/-- What a page of a listing shows. -/
def shownPage (s : Store) (between : BetweenPages) (limit : UInt64) (page : ℕ) :
    FailedJobsPage :=
  failedPage (s.atPage between page) (s.atCounts between page) limit page

/-- A listing from a page on shows this page and, if there are failed jobs after it, what a
listing from the next page on shows. -/
theorem exists_listAllFailed_step (hlimit : limit ≠ 0)
    (hfits : (((page + 1) * limit.toNat : ℕ) : ℤ) ≤ i64Max) {pages : List FailedJobsPage} :
    (∃ fuel, s.listAllFailed between limit fuel page (pageCursor limit page) =
        some (.ok pages)) ↔
      s.CanRead between limit page ∧
        if (page + 1) * limit.toNat < (s.atPage between page).failed.card then
          ∃ others, (∃ fuel, s.listAllFailed between limit fuel (page + 1)
              (pageCursor limit (page + 1)) = some (.ok others)) ∧
            pages = s.shownPage between limit page :: others
        else pages = [s.shownPage between limit page] := by
  have hread {found : FailedJobsPage} :
      listFailed (s.atPage between page) (s.atCounts between page) ⟨pageCursor limit page, limit⟩ =
        .ok found ↔ s.CanRead between limit page ∧ found = s.shownPage between limit page :=
    listFailed_eq_ok_iff hlimit hfits
  have hcursor : (s.shownPage between limit page).nextCursor =
      if (page + 1) * limit.toNat < (s.atPage between page).failed.card then
        pageCursor limit (page + 1) else none := rfl
  split_ifs at hcursor ⊢ with hmore
  · constructor
    · rintro ⟨_ | fuel, hlist⟩
      · cases hlist
      · obtain ⟨found, hfound, hend⟩ := listAllFailed_succ_eq_ok_iff.mp hlist
        obtain ⟨hreads, rfl⟩ := hread.mp hfound
        rcases hend with ⟨hnone, _⟩ | ⟨next, others, hnext, hothers, hpages⟩
        · exact absurd (hcursor.symm.trans hnone) (Option.some_ne_none _)
        · rw [← hnext, hcursor] at hothers
          exact ⟨hreads, others, ⟨fuel, hothers⟩, hpages⟩
    · rintro ⟨hreads, others, ⟨fuel, hothers⟩, hpages⟩
      refine ⟨fuel + 1, listAllFailed_succ_eq_ok_iff.mpr ⟨_, hread.mpr ⟨hreads, rfl⟩, ?_⟩⟩
      exact Or.inr ⟨_, others, hcursor, hothers, hpages⟩
  · constructor
    · rintro ⟨_ | fuel, hlist⟩
      · cases hlist
      · obtain ⟨found, hfound, hend⟩ := listAllFailed_succ_eq_ok_iff.mp hlist
        obtain ⟨hreads, rfl⟩ := hread.mp hfound
        rcases hend with ⟨_, hpages⟩ | ⟨next, _, hnext, _⟩
        · exact ⟨hreads, hpages⟩
        · exact absurd (hcursor.symm.trans hnext) (Option.some_ne_none next).symm
    · rintro ⟨hreads, hpages⟩
      refine ⟨1, listAllFailed_succ_eq_ok_iff.mpr ⟨_, hread.mpr ⟨hreads, rfl⟩, ?_⟩⟩
      exact Or.inl ⟨hcursor, hpages⟩

/-- From any page on, a listing ends with the last page when every page can be read. -/
theorem exists_listAllFailed_iff (hlimit : limit ≠ 0)
    (hlast : IsLeast {page | (s.atPage between page).failed.card ≤ (page + 1) * limit.toNat} last)
    (hfits : (((last + 1) * limit.toNat : ℕ) : ℤ) ≤ i64Max) {rest : ℕ}
    (hrest : page + rest = last) {pages : List FailedJobsPage} :
    (∃ fuel, s.listAllFailed between limit fuel page (pageCursor limit page) =
        some (.ok pages)) ↔
      (∀ later ∈ List.range' page (rest + 1), s.CanRead between limit later) ∧
        pages = (List.range' page (rest + 1)).map (s.shownPage between limit) := by
  have hpageFits {page : ℕ} (hle : page ≤ last) :
      (((page + 1) * limit.toNat : ℕ) : ℤ) ≤ i64Max :=
    (Int.ofNat_le.mpr (Nat.mul_le_mul_right _ (Nat.succ_le_succ hle))).trans hfits
  -- by induction on the number of pages after this one
  induction rest generalizing page pages with
  | zero =>
      obtain rfl : page = last := hrest
      rw [exists_listAllFailed_step hlimit (hpageFits le_rfl), if_neg (not_lt.mpr hlast.1),
        List.range'_one, List.map_singleton, List.forall_mem_singleton]
  | succ rest ih =>
      have hlt : page < last := by omega
      have hrest' : page + 1 + rest = last := by omega
      have hmore : (page + 1) * limit.toNat < (s.atPage between page).failed.card :=
        lt_length_of_lt_last hlast hlt
      rw [exists_listAllFailed_step hlimit (hpageFits hlt.le), if_pos hmore, List.range'_succ,
        List.map_cons, List.forall_mem_cons, and_assoc]
      refine and_congr_right fun _ => ?_
      constructor
      · rintro ⟨others, hothers, rfl⟩
        obtain ⟨hlater, rfl⟩ := (ih hrest').mp hothers
        exact ⟨hlater, rfl⟩
      · rintro ⟨hlater, rfl⟩
        exact ⟨_, (ih hrest').mpr ⟨hlater, rfl⟩, rfl⟩

/-! ## What the pages list -/

/-- The list of failed jobs only grows at its end from page to page. -/
theorem OnlyFails.grows (honly : s.OnlyFails between) (page : ℕ) :
    (s.atPage between page).failed.entries <+: (s.atPage between (page + 1)).failed.entries :=
  (honly.betweenReads page).isPrefix.trans (honly.afterPage page).isPrefix

/-- A job that had failed at the start is unchanged when a page is read. -/
theorem OnlyFails.storesJob (honly : s.OnlyFails between) {jobId : Bytes} {job : Job}
    {score : ℤ} (hfailed : job.placement = .failed score) (hstores : s.StoresJob jobId job)
    (page : ℕ) : (s.atPage between page).StoresJob jobId job := by
  induction page with
  | zero => exact hstores
  | succ page ih =>
      have hreads := (honly.betweenReads page).storesJob hfailed ih
      exact (honly.afterPage page).storesJob hfailed hreads

/-- In a well-formed store, a job that had failed at the start still has its failure count
when the counts of a page are read. -/
theorem OnlyFails.failures_eq (honly : s.OnlyFails between) (hwf : s.WellFormed)
    {jobId : Bytes} (hfailed : (s.failed.score jobId).isSome) (page : ℕ) :
    (s.atCounts between page).failures.lookup jobId = s.failures.lookup jobId := by
  obtain ⟨jobs, hrefines⟩ := hwf.exists_refines
  obtain ⟨_, hplacement⟩ := (hrefines.failed_isSome_iff jobId).mp hfailed
  obtain ⟨counted, hcounted, hkept⟩ := (honly.betweenReads page).storesJob hplacement
    (honly.storesJob hplacement ⟨jobs, hrefines, rfl⟩ page)
  rw [atCounts, hcounted.failures_eq, hkept, hrefines.failures_eq]

/-- Where a job stands among the failed jobs: by time, then by id. -/
def failedKey (record : JobRecord) : ℤ ×ₗ Bytes :=
  toLex ((record.failedAt.map micros).getD 0, record.jobId)

/-- The time at which a listed job failed. -/
theorem failedAt_failedJob (counted : Store) {entry : ℤ ×ₗ Bytes}
    (hfits : (ofLex entry).1.natAbs < 10 ^ 17) :
    (counted.failedJob entry).failedAt.map micros = some (ofLex entry).1 := by
  simp [failedJob, failedRecord, fromMicros_eq_ok hfits, Except.toOption]

/-- A listed job stands where its entry stands. -/
theorem failedKey_failedJob (counted : Store) {entry : ℤ ×ₗ Bytes}
    (hfits : (ofLex entry).1.natAbs < 10 ^ 17) :
    failedKey (counted.failedJob entry) = entry := by
  rw [failedKey, failedAt_failedJob counted hfits]
  rfl

/-- What is owed by the pages of a listing. -/
structure ListsFailed (s : Store) (between : BetweenPages) (limit : UInt64)
    (pages : List FailedJobsPage) : Prop where
  /-- Every page but the last is full. -/
  full : ∀ page ∈ pages.dropLast, page.jobs.length = limit.toNat
  /-- The jobs are listed by time, then by id. -/
  ordered : (pages.flatMap FailedJobsPage.jobs).Pairwise fun first second =>
    failedKey first < failedKey second
  /-- No job is listed twice. -/
  once : ((pages.flatMap FailedJobsPage.jobs).map JobRecord.jobId).Nodup
  /-- Every job that had failed at the start is listed with its time. -/
  complete : ∀ jobId failedAt, s.failed.score jobId = some failedAt →
    ∃ record ∈ pages.flatMap FailedJobsPage.jobs,
      record.jobId = jobId ∧ record.failedAt.map micros = some failedAt
  /-- Every job is listed with the failure count that it has when it is read. -/
  counted : ∀ number page, pages[number]? = some page → ∀ record ∈ page.jobs,
    (record.failureCount : ℤ) = Hash.counter (s.atCounts between number).failures record.jobId
  /-- In a well-formed store this is the failure count that it had at the start. -/
  counted_at_start : s.WellFormed → ∀ record ∈ pages.flatMap FailedJobsPage.jobs,
    (s.failed.score record.jobId).isSome →
      (record.failureCount : ℤ) = Hash.counter s.failures record.jobId

/-- The entries that a page lists are among those whose times it reads. -/
theorem ReadsPage.natAbs_lt (hreads : ReadsPage failed counted limit page) {entry : ℤ ×ₗ Bytes}
    (hmem : entry ∈ pageOf failed.failed.entries limit.toNat page) :
    (ofLex entry).1.natAbs < 10 ^ 17 :=
  hreads.times entry (List.take_subset_take_left _ (Nat.le_succ _) hmem)

/-- A count of a listed job is the failure count that was read. -/
theorem ReadsPage.failureCount_eq (hreads : ReadsPage failed counted limit page)
    {entry : ℤ ×ₗ Bytes} (hmem : entry ∈ pageOf failed.failed.entries limit.toNat page) :
    ((counted.failedJob entry).failureCount : ℤ) =
      Hash.counter counted.failures (counted.failedJob entry).jobId := by
  have hcount := hreads.counts entry hmem
  unfold failedJob failedRecord Hash.counter
  dsimp only
  cases hlookup : counted.failures.lookup (ofLex entry).2 with
  | none => rfl
  | some count => exact Int.toNat_of_nonneg (hcount count hlookup).1

/-- The keys of the listed jobs are the entries of the failed jobs at the last page. -/
theorem map_failedKey_jobs (honly : s.OnlyFails between)
    (hlast : IsLeast {page | (s.atPage between page).failed.card ≤ (page + 1) * limit.toNat} last)
    (hreads : ∀ page ≤ last, s.CanRead between limit page) :
    ((((List.range (last + 1)).map (s.shownPage between limit)).flatMap
      FailedJobsPage.jobs).map failedKey) = (s.atPage between last).failed.entries := by
  have hpages : ∀ page ∈ List.range (last + 1),
      (s.shownPage between limit page).jobs.map failedKey =
        pageOf (s.atPage between page).failed.entries limit.toNat page := by
    intro page hmem
    have hread := hreads page (Nat.lt_succ_iff.mp (List.mem_range.mp hmem))
    rw [shownPage, failedPage, List.map_map]
    exact (List.map_congr_left fun entry hentry =>
      failedKey_failedJob _ (hread.natAbs_lt hentry)).trans (List.map_id _)
  rw [List.flatMap_map, List.map_flatMap, List.flatMap_congr hpages]
  exact flatMap_pageOf_growing honly.grows hlast

/-- The pages up to the last one list the failed jobs when every page can be read. -/
theorem listsFailed_shownPages (honly : s.OnlyFails between)
    (hlast : IsLeast {page | (s.atPage between page).failed.card ≤ (page + 1) * limit.toNat} last)
    (hreads : ∀ page ≤ last, s.CanRead between limit page) :
    s.ListsFailed between limit ((List.range (last + 1)).map (s.shownPage between limit)) := by
  have hkeys := map_failedKey_jobs honly hlast hreads
  have hcount {page : ℕ} (hle : page ≤ last) {record : JobRecord}
      (hrecord : record ∈ (s.shownPage between limit page).jobs) :
      (record.failureCount : ℤ) =
        Hash.counter (s.atCounts between page).failures record.jobId := by
    obtain ⟨entry, hentry, rfl⟩ := List.mem_map.mp hrecord
    exact (hreads page hle).failureCount_eq hentry
  refine ⟨?full, ?ordered, ?once, ?complete, ?counted, ?counted_at_start⟩
  case full =>
    intro page hmem
    rw [List.range_succ, List.map_append, List.map_singleton, List.dropLast_concat] at hmem
    obtain ⟨number, hnumber, rfl⟩ := List.mem_map.mp hmem
    rw [shownPage, failedPage, List.length_map]
    exact length_pageOf (lt_length_of_lt_last hlast (List.mem_range.mp hnumber)).le
  case ordered =>
    rw [← List.pairwise_map, hkeys]
    exact (s.atPage between last).failed.sorted
  case once =>
    have hids := (s.atPage between last).failed.members_nodup
    rw [← hkeys, List.map_map] at hids
    exact hids
  case complete =>
    intro jobId failedAt hscore
    have hentry := (prefix_of_le honly.grows (Nat.zero_le last)).subset
      (SortedSet.score_eq_some_iff.mp hscore)
    rw [← flatMap_pageOf_growing honly.grows hlast] at hentry
    obtain ⟨page, hpage, hentry⟩ := List.mem_flatMap.mp hentry
    have hread := hreads page (Nat.lt_succ_iff.mp (List.mem_range.mp hpage))
    exact ⟨(s.atCounts between page).failedJob (toLex (failedAt, jobId)),
      List.mem_flatMap.mpr ⟨_, List.mem_map_of_mem hpage, List.mem_map_of_mem hentry⟩,
      rfl, failedAt_failedJob _ (hread.natAbs_lt hentry)⟩
  case counted =>
    intro number page hnumber record hrecord
    rw [List.getElem?_map, Option.map_eq_some_iff] at hnumber
    obtain ⟨_, hnumber, rfl⟩ := hnumber
    obtain ⟨hlt, rfl⟩ := List.getElem?_eq_some_iff.mp hnumber
    rw [List.getElem_range] at hrecord
    rw [List.length_range] at hlt
    exact hcount (Nat.lt_succ_iff.mp hlt) hrecord
  case counted_at_start =>
    intro hwf record hrecord hfailed
    obtain ⟨page, hpage, hrecord⟩ := List.mem_flatMap.mp hrecord
    obtain ⟨number, hnumber, rfl⟩ := List.mem_map.mp hpage
    rw [hcount (Nat.lt_succ_iff.mp (List.mem_range.mp hnumber)) hrecord, Hash.counter,
      Hash.counter, honly.failures_eq hwf hfailed]

end Walk

/-- While jobs only fail, and later than all before, a listing of all failed jobs ends and
lists them as it should exactly when every page up to the first that reaches the end can
be read. -/
theorem listAllFailed_lists_iff (s : Store) (between : BetweenPages)
    (honly : s.OnlyFails between) (limit : UInt64) (hlimit : limit ≠ 0) :
    ∃ last,
      IsLeast {page | (s.atPage between page).failed.card ≤ (page + 1) * limit.toNat} last ∧
        ((((last + 1) * limit.toNat : ℕ) : ℤ) ≤ i64Max →
          ((∃ fuel pages, s.listAllFailed between limit fuel 0 none = some (.ok pages) ∧
              s.ListsFailed between limit pages) ↔
            ∀ page ≤ last, s.CanRead between limit page)) := by
  have hpositive : 0 < limit.toNat :=
    Nat.pos_of_ne_zero fun hzero => hlimit (UInt64.toNat_inj.mp hzero)
  obtain ⟨last, hlast⟩ := exists_isLeast_lastPage hpositive honly.bounded
  refine ⟨last, hlast, fun hfits => ?_⟩
  have hrange : (∀ page ≤ last, s.CanRead between limit page) ↔
      ∀ page ∈ List.range' 0 (last + 1), s.CanRead between limit page := by
    rw [← List.range_eq_range']
    exact forall_congr' fun page => by rw [List.mem_range, Nat.lt_succ_iff]
  have hwalk {pages : List FailedJobsPage} :
      (∃ fuel, s.listAllFailed between limit fuel 0 none = some (.ok pages)) ↔
        (∀ page ∈ List.range' 0 (last + 1), s.CanRead between limit page) ∧
          pages = (List.range' 0 (last + 1)).map (s.shownPage between limit) :=
    exists_listAllFailed_iff hlimit hlast hfits (Nat.zero_add last)
  constructor
  · rintro ⟨fuel, pages, hlist, _⟩
    exact hrange.mpr (hwalk.mp ⟨fuel, hlist⟩).1
  · intro hreads
    obtain ⟨fuel, hlist⟩ := hwalk.mpr ⟨hrange.mp hreads, rfl⟩
    refine ⟨fuel, _, hlist, ?_⟩
    rw [← List.range_eq_range']
    exact listsFailed_shownPages honly hlast hreads

/-- A job fails after the first page has been read. -/
def sampleBetweenPages : BetweenPages where
  betweenReads _ := []
  afterPage page :=
    if page = 0 then
      [.failOrRetry ⟨"worker", "second", "other", .terminal, .count 1 .none, .ofSeconds 35⟩]
    else []

/-- One job has failed and another is leased. -/
def sampleListingRun : List Op :=
  [.enqueue ⟨"first", none, .always, true⟩ (.ofSeconds 31),
    .enqueue ⟨"second", none, .always, true⟩ (.ofSeconds 32),
    .reserve sampleConfig 2 (.ofSeconds 33) ["token", "other"],
    .failOrRetry ⟨"worker", "first", "token", .terminal, .count 1 .none, .ofSeconds 34⟩]

/-- Two pages of one job each are listed. -/
theorem listAllFailed_lists_sample :
    ∃ fuel pages,
      (empty.run sampleListingRun).listAllFailed sampleBetweenPages 1 fuel 0 none =
          some (.ok pages) ∧
        (empty.run sampleListingRun).ListsFailed sampleBetweenPages 1 pages := by
  let s := empty.run sampleListingRun
  have hstays (page : ℕ) : s.atPage sampleBetweenPages (page + 1) =
      s.atPage sampleBetweenPages 1 := by
    induction page with
    | zero => rfl
    | succ page ih => exact ih
  have honly : s.OnlyFails sampleBetweenPages := by
    refine ⟨fun _ => trivial, fun page => ?_, 2, fun page => ?_⟩
    · cases page with
      | zero => decide
      | succ page => trivial
    · cases page with
      | zero => decide
      | succ page =>
          rw [hstays]
          decide
  obtain ⟨last, hlast, hiff⟩ := listAllFailed_lists_iff s sampleBetweenPages honly 1 (by decide)
  have hle : last ≤ 1 := hlast.2 (show (s.atPage sampleBetweenPages 1).failed.card ≤ 2 by decide)
  have hreads : ∀ page ≤ 1, s.CanRead sampleBetweenPages 1 page := by decide
  refine (hiff ?_).mpr fun page hpage => hreads page (hpage.trans hle)
  rw [show (1 : UInt64).toNat = 1 by decide]
  unfold i64Max
  omega

/-- A job that fails in a time of 18 digits keeps failed jobs from being listed. -/
theorem far_failure_not_listed :
    let s := empty.run
      [.enqueue ⟨"job", none, .always, true⟩ (.ofSeconds 1),
        .reserve sampleConfig 1 (.ofSeconds 2) ["token"],
        .failOrRetry
          ⟨"worker", "job", "token", .terminal, .count 1 .none, .ofSeconds 100000000000⟩]
    s.OnlyFails ⟨fun _ => [], fun _ => []⟩ ∧ s.failed.card = 1 ∧
      listFailed s s ⟨none, 1⟩ = .error (decodeError "list_failed") ∧
        ¬ ∃ fuel pages,
          s.listAllFailed ⟨fun _ => [], fun _ => []⟩ 1 fuel 0 none = some (.ok pages) := by
  intro s
  have hread : listFailed s s ⟨none, 1⟩ = .error (decodeError "list_failed") := by decide
  refine ⟨⟨fun _ => trivial, fun _ => trivial, 1, fun page => ?_⟩, by decide, hread, ?_⟩
  · induction page with
    | zero => decide
    | succ page ih => exact ih
  · rintro ⟨_ | fuel, pages, hlist⟩
    · cases hlist
    · obtain ⟨found, hfound, _⟩ := listAllFailed_succ_eq_ok_iff.mp hlist
      exact absurd (hread.symm.trans hfound) (by simp)

end Store

end Redloop
