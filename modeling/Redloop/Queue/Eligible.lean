/-
# Eligible jobs

A reserve may take every ready job and every scheduled job that is due. It takes them
in the order of their activation, ready before scheduled on a tie, one in each round,
and one more than it has tokens when its capacity allows. What it takes and what it
leaves waiting is determined by the store before the call.
-/

import Redloop.Job.Run

namespace Redloop

/-- A job that a reserve may take: its activation time, the set it waits in and its id. -/
structure Candidate where
  score : ℤ
  source : JobState
  jobId : Bytes
  deriving DecidableEq

/-- The candidate of a sorted-set entry. -/
def Candidate.ofEntry (source : JobState) (entry : ℤ ×ₗ Bytes) : Candidate :=
  ⟨(ofLex entry).1, source, (ofLex entry).2⟩

/-- Candidates take a job out of the set it waits in. -/
def Takes (taken : List Candidate) (source : JobState) (jobId : Bytes) : Prop :=
  ∃ candidate ∈ taken, candidate.source = source ∧ candidate.jobId = jobId

instance (taken : List Candidate) (source : JobState) (jobId : Bytes) :
    Decidable (Takes taken source jobId) :=
  inferInstanceAs (Decidable (∃ candidate ∈ taken, _))

@[simp]
theorem not_takes_nil (source : JobState) (jobId : Bytes) : ¬ Takes [] source jobId := by
  rintro ⟨_, hmem, _⟩
  cases hmem

theorem takes_cons {candidate : Candidate} {rest : List Candidate} {source : JobState}
    {jobId : Bytes} :
    Takes (candidate :: rest) source jobId ↔
      candidate.source = source ∧ candidate.jobId = jobId ∨ Takes rest source jobId :=
  List.exists_mem_cons_iff _ _ _

namespace Store

variable {s : Store}

/-- The jobs a reserve may take, in the order in which it takes them. -/
def eligible (s : Store) (nowUs : ℤ) : List Candidate :=
  List.merge (s.ready.entries.map (.ofEntry .ready))
    ((s.scheduled.rangeByScore (· ≤ nowUs)).map (.ofEntry .scheduled))
    fun first second => first.score ≤ second.score

/-- Take candidates out of the sets they wait in. -/
def takeAll (s : Store) (taken : List Candidate) : Store :=
  taken.foldl (fun s candidate => s.removeWaiting candidate.source candidate.jobId) s

/-- The jobs a reserve takes out of their sets: with too few tokens, the last of them
without a lease. -/
def taken (s : Store) (args : ReserveArgs) : List Candidate :=
  (s.eligible args.nowUs).take (min args.capacity (args.leaseTokens.length + 1))

theorem mem_eligible {nowUs : ℤ} {candidate : Candidate} :
    candidate ∈ s.eligible nowUs ↔
      (candidate.source = .ready ∧ s.ready.score candidate.jobId = some candidate.score) ∨
        candidate.source = .scheduled ∧
          s.scheduled.score candidate.jobId = some candidate.score ∧ candidate.score ≤ nowUs := by
  simp only [eligible, List.mem_merge, List.mem_map, SortedSet.rangeByScore, List.mem_filter,
    decide_eq_true_eq, SortedSet.mem_entries_iff]
  obtain ⟨score, source, jobId⟩ := candidate
  constructor
  · rintro (⟨entry, hscore, hentry⟩ | ⟨entry, ⟨hscore, hdue⟩, hentry⟩)
    · cases hentry
      exact Or.inl ⟨rfl, hscore⟩
    · cases hentry
      exact Or.inr ⟨rfl, hscore, hdue⟩
  · rintro (⟨hsource, hscore⟩ | ⟨hsource, hscore, hdue⟩)
    · cases hsource
      exact Or.inl ⟨toLex (score, jobId), hscore, rfl⟩
    · cases hsource
      exact Or.inr ⟨toLex (score, jobId), ⟨hscore, hdue⟩, rfl⟩

/-- The eligible jobs are the ready jobs and the scheduled jobs that are due. -/
theorem eligible_perm (s : Store) (nowUs : ℤ) :
    (s.eligible nowUs).Perm (s.ready.entries.map (.ofEntry .ready) ++
      (s.scheduled.rangeByScore (· ≤ nowUs)).map (.ofEntry .scheduled)) :=
  List.merge_perm_append _

/-- A round chooses the first eligible job. -/
theorem chooseCandidate_eq (s : Store) (nowUs : ℤ) :
    chooseCandidate s.ready.entries.head? (s.dueCandidate nowUs) =
      (s.eligible nowUs).head?.map fun candidate => (candidate.source, candidate.jobId) := by
  unfold eligible dueCandidate
  cases s.ready.entries with
  | nil => cases s.scheduled.rangeByScore (· ≤ nowUs) <;> simp [chooseCandidate, Candidate.ofEntry]
  | cons ready readies =>
      cases s.scheduled.rangeByScore (· ≤ nowUs) with
      | nil => simp [chooseCandidate, Candidate.ofEntry]
      | cons scheduled others =>
          by_cases hle : (ofLex ready).1 ≤ (ofLex scheduled).1 <;>
            simp [chooseCandidate, Candidate.ofEntry, hle]

/-- A round leaves the other eligible jobs. -/
theorem eligible_removeWaiting {nowUs : ℤ} {candidate : Candidate} {rest : List Candidate}
    (hfirst : s.eligible nowUs = candidate :: rest) :
    (s.removeWaiting candidate.source candidate.jobId).eligible nowUs = rest := by
  have hready {entry : ℤ ×ₗ Bytes} {entries : List (ℤ ×ₗ Bytes)}
      (hentries : s.ready.entries = entry :: entries) :
      (s.ready.erase (ofLex entry).2).entries = entries := by
    rw [← SortedSet.rangeByScore_true] at hentries ⊢
    exact SortedSet.rangeByScore_erase_of_cons hentries
  unfold eligible at hfirst
  cases hreadies : s.ready.entries with
  | nil =>
      cases hdue : s.scheduled.rangeByScore (· ≤ nowUs) with
      | nil => simp [hreadies, hdue] at hfirst
      | cons scheduled others =>
          simp only [hreadies, hdue, List.map_nil, List.nil_merge, List.map_cons,
            List.cons.injEq] at hfirst
          obtain ⟨rfl, rfl⟩ := hfirst
          simp [eligible, removeWaiting, Candidate.ofEntry, hreadies,
            SortedSet.rangeByScore_erase_of_cons hdue]
  | cons ready readies =>
      cases hdue : s.scheduled.rangeByScore (· ≤ nowUs) with
      | nil =>
          simp only [hreadies, hdue, List.map_nil, List.merge_right, List.map_cons,
            List.cons.injEq] at hfirst
          obtain ⟨rfl, rfl⟩ := hfirst
          simp [eligible, removeWaiting, Candidate.ofEntry, hready hreadies, hdue]
      | cons scheduled others =>
          simp only [hreadies, hdue, List.map_cons, List.cons_merge_cons] at hfirst
          split_ifs at hfirst
          · obtain ⟨rfl, rfl⟩ := List.cons.inj hfirst
            simp [eligible, removeWaiting, Candidate.ofEntry, hready hreadies, hdue]
          · obtain ⟨rfl, rfl⟩ := List.cons.inj hfirst
            simp [eligible, removeWaiting, Candidate.ofEntry, hreadies,
              SortedSet.rangeByScore_erase_of_cons hdue]

/-- What is left waiting depends on the waiting jobs only. -/
theorem takeAll_congr (s s' : Store) (hready : s.ready = s'.ready)
    (hscheduled : s.scheduled = s'.scheduled) (taken : List Candidate) :
    (s.takeAll taken).ready = (s'.takeAll taken).ready ∧
      (s.takeAll taken).scheduled = (s'.takeAll taken).scheduled := by
  induction taken generalizing s s' with
  | nil => exact ⟨hready, hscheduled⟩
  | cons candidate taken ih =>
      obtain ⟨score, source, jobId⟩ := candidate
      refine ih _ _ ?_ ?_ <;> cases source <;> simp [removeWaiting, hready, hscheduled]

/-- The ready jobs that are left. -/
theorem ready_takeAll (taken : List Candidate) (jobId : Bytes) :
    (s.takeAll taken).ready.score jobId =
      if Takes taken .ready jobId then none else s.ready.score jobId := by
  induction taken generalizing s with
  | nil => simp [takeAll]
  | cons candidate rest ih =>
      obtain ⟨score, source, taken⟩ := candidate
      show ((s.removeWaiting source taken).takeAll rest).ready.score jobId = _
      rw [ih]
      simp only [takes_cons]
      cases source with
      | ready =>
          by_cases hjob : jobId = taken
          · simp [removeWaiting, hjob]
          · simp [removeWaiting, hjob, Ne.symm hjob]
      | _ => simp [removeWaiting]

/-- The scheduled jobs that are left. -/
theorem scheduled_takeAll (taken : List Candidate) (jobId : Bytes) :
    (s.takeAll taken).scheduled.score jobId =
      if Takes taken .scheduled jobId then none else s.scheduled.score jobId := by
  induction taken generalizing s with
  | nil => simp [takeAll]
  | cons candidate rest ih =>
      obtain ⟨score, source, taken⟩ := candidate
      show ((s.removeWaiting source taken).takeAll rest).scheduled.score jobId = _
      rw [ih]
      simp only [takes_cons]
      cases source with
      | scheduled =>
          by_cases hjob : jobId = taken
          · simp [removeWaiting, hjob]
          · simp [removeWaiting, hjob, Ne.symm hjob]
      | _ => simp [removeWaiting]

/-- Which jobs are eligible depends on the waiting jobs only. -/
theorem eligible_congr {s' : Store} (hready : s.ready = s'.ready)
    (hscheduled : s.scheduled = s'.scheduled) (nowUs : ℤ) :
    s.eligible nowUs = s'.eligible nowUs := by
  unfold eligible
  rw [hready, hscheduled]

end Store

end Redloop
