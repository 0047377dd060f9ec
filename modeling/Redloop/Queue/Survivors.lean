/-
# Duplicates that survive a reserve

A reserve looks for due duplicates only at the front of the scheduled set, once in each
round. A duplicate that stands behind another due job survives when no round before the
last takes that job. A job that is leased from the ready set can so keep a due scheduled
entry, and it runs again when that lease is acked.
-/

import Redloop.Queue.Grants

namespace Redloop

namespace Store

variable {s : Store} {args : ReserveArgs} {nowUs : ℤ} {jobId : Bytes}
  {entry : ℤ ×ₗ Bytes} {candidate : Candidate} {rest : List Candidate}
  {granted : List GrantedLease}

/-- A scheduled entry that is no duplicate stands before the given one, and is not among the
first candidates of the given number. -/
def Hidden (s : Store) (nowUs : ℤ) (count : ℕ) (entry : ℤ ×ₗ Bytes) : Prop :=
  ∃ first ∈ s.scheduled.entries, ¬ s.Current (ofLex first).2 ∧ first < entry ∧
    Candidate.ofEntry .scheduled first ∉ (s.candidates nowUs).take count

instance (s : Store) (nowUs : ℤ) (count : ℕ) (entry : ℤ ×ₗ Bytes) :
    Decidable (s.Hidden nowUs count entry) :=
  inferInstanceAs (Decidable (∃ first ∈ s.scheduled.entries, _))

theorem Hidden.keptDue {count : ℕ} (hhidden : s.Hidden nowUs count entry) : s.KeptDue entry := by
  obtain ⟨first, hmem, hfree, hlt, _⟩ := hhidden
  exact ⟨_, _, SortedSet.mem_entries_iff.mp hmem, hfree, hlt.le⟩

/-- Dropping keeps a duplicate that is hidden from it. -/
theorem keptDue_iff_hidden (hcurrent : s.Current (ofLex entry).2) :
    s.KeptDue entry ↔ s.Hidden nowUs 0 entry := by
  constructor
  · rintro ⟨other, score, hscore, hfree, hle⟩
    refine ⟨toLex (score, other), SortedSet.score_eq_some_iff.mp hscore, hfree, ?_, by simp⟩
    apply lt_of_le_of_ne hle
    rintro rfl
    exact hfree hcurrent
  · exact Hidden.keptDue

/-- What a round takes hides nothing from the next one. -/
theorem hidden_grantLease (hfirst : s.candidates nowUs = candidate :: rest)
    {lease : GrantedLease} (hlease : lease.jobId = candidate.jobId) (workerId : Bytes)
    (count : ℕ) :
    Hidden ((s.takeCandidate nowUs candidate).grantLease workerId lease) nowUs count entry ↔
      s.Hidden nowUs (count + 1) entry := by
  have hmem : candidate ∈ s.candidates nowUs := hfirst ▸ List.mem_cons_self
  unfold Hidden
  simp only [candidates_grantLease hfirst hlease, current_grantLease hlease, hfirst,
    List.take_succ_cons, List.mem_cons, SortedSet.mem_entries_iff]
  constructor
  · rintro ⟨first, hscore, hfree, hlt, hlater⟩
    obtain ⟨_, hbefore, _⟩ := scheduled_takeCandidate.mp hscore
    refine ⟨first, hbefore, fun hcurrent => hfree (Or.inl hcurrent), hlt, not_or.mpr ⟨?_, hlater⟩⟩
    rintro rfl
    exact hfree (Or.inr rfl)
  · rintro ⟨first, hscore, hfree, hlt, hlater⟩
    have hother : ¬ (candidate.source = .scheduled ∧ candidate.jobId = (ofLex first).2) := by
      rintro ⟨hsource, hjob⟩
      apply hlater
      left
      obtain ⟨score, source, taken⟩ := candidate
      cases hsource
      cases hjob
      rcases mem_candidates.mp hmem with ⟨hready, _⟩ | ⟨_, hcandidate, _⟩
      · cases hready
      · cases hscore.symm.trans hcandidate
        rfl
    refine ⟨first, ?_, ?_, hlt, fun hmem => hlater (Or.inr hmem)⟩
    · exact scheduled_takeCandidate.mpr ⟨hother, hscore, fun _ => ⟨_, _, hscore, hfree, le_rfl⟩⟩
    · rintro (hcurrent | hjob)
      · exact hfree hcurrent
      · rcases mem_candidates.mp hmem with ⟨_, hready⟩ | ⟨hsource, _⟩
        · exact hfree (Or.inl (by simp [hjob, hready]))
        · exact hother ⟨hsource, hjob.symm⟩

/-- With enough tokens, the due entry of a job with a current copy survives the loop exactly
when it is hidden until the last round. -/
theorem scheduled_reserveLoop_of_current {rounds : ℕ} {value : ℤ} (hcurrent : s.Current jobId)
    (hscore : s.scheduled.score jobId = some value) (hdue : value ≤ args.nowUs)
    (htokens : granted.length + (rounds + 1) ≤ args.leaseTokens.length) :
    (reserveLoop args (rounds + 1) s granted).1.scheduled.score jobId = some value ↔
      s.Hidden args.nowUs rounds (toLex (value, jobId)) := by
  induction rounds generalizing s granted with
  | zero =>
      rw [← keptDue_iff_hidden hcurrent]
      cases hfirst : s.candidates args.nowUs with
      | nil =>
          rw [reserveLoop_of_nil hfirst, score_dropDuplicates le_rfl]
          exact ⟨fun hleft => hleft.2 hdue, fun hkept => ⟨hscore, fun _ => hkept⟩⟩
      | cons candidate rest =>
          obtain ⟨token, htoken⟩ : ∃ token, args.leaseTokens[granted.length]? = some token :=
            ⟨_, List.getElem?_eq_getElem (by omega)⟩
          rw [reserveLoop_of_token hfirst htoken]
          show (s.takeCandidate args.nowUs candidate).scheduled.score jobId = some value ↔ _
          rw [scheduled_takeCandidate]
          refine ⟨fun hleft => hleft.2.2 hdue, fun hkept => ⟨?_, hscore, fun _ => hkept⟩⟩
          rintro ⟨hsource, rfl⟩
          rcases mem_candidates.mp (hfirst ▸ List.mem_cons_self) with ⟨hready, _⟩ | ⟨_, _, _, hfree⟩
          · cases hsource.symm.trans hready
          · exact hfree hcurrent
  | succ rounds ih =>
      cases hfirst : s.candidates args.nowUs with
      | nil =>
          rw [reserveLoop_of_nil hfirst, score_dropDuplicates le_rfl, keptDue_iff_hidden hcurrent]
          unfold Hidden
          rw [hfirst, List.take_nil, List.take_nil]
          exact ⟨fun hleft => hleft.2 hdue, fun hkept => ⟨hscore, fun _ => hkept⟩⟩
      | cons candidate rest =>
          obtain ⟨token, htoken⟩ : ∃ token, args.leaseTokens[granted.length]? = some token :=
            ⟨_, List.getElem?_eq_getElem (by omega)⟩
          have hother : ¬ (candidate.source = .scheduled ∧ candidate.jobId = jobId) := by
            rintro ⟨hsource, rfl⟩
            rcases mem_candidates.mp (hfirst ▸ List.mem_cons_self) with
              ⟨hready, _⟩ | ⟨_, _, _, hfree⟩
            · cases hsource.symm.trans hready
            · exact hfree hcurrent
          have hlease : (leaseOf args candidate token).jobId = candidate.jobId := rfl
          rw [reserveLoop_of_token hfirst htoken, ← hidden_grantLease hfirst hlease args.workerId]
          by_cases hleft : s.KeptDue (toLex (value, jobId))
          · apply ih
            · exact (current_grantLease hlease _).mpr (Or.inl hcurrent)
            · exact scheduled_takeCandidate.mpr ⟨hother, hscore, fun _ => hleft⟩
            · rw [List.length_append, List.length_singleton]
              omega
          · apply iff_of_false
            · intro hsurvives
              have htaken := scheduled_of_reserveLoop hsurvives
              exact hleft ((scheduled_takeCandidate.mp htaken).2.2 hdue)
            · rw [hidden_grantLease hfirst hlease]
              exact fun hhidden => hleft hhidden.keptDue

/-! ## A reserve -/

/-- With enough tokens, the due entry of a job with a current copy survives a reserve exactly
when it is hidden until the last round. -/
theorem scheduled_next_reserve_of_current {config : WorkerConfig} {rounds : ℕ} {now : Timestamp}
    {leaseTokens : List Bytes} (hrefuses : ¬ s.registry.Refuses config.retryPolicyKey)
    (htokens : rounds + 1 ≤ leaseTokens.length) (hcurrent : s.Current jobId) {score : ℤ}
    (hscore : s.scheduled.score jobId = some score) (hdue : score ≤ Double.ofInt (micros now)) :
    (s.next (.reserve config (rounds + 1) now leaseTokens)).scheduled.score jobId = some score ↔
      s.Hidden (Double.ofInt (micros now)) rounds (toLex (score, jobId)) := by
  obtain ⟨cfg, lastSeen, configs, _, hscheduled, _⟩ :=
    exists_reserveLoop hrefuses (rounds + 1) now leaseTokens
  let base : Store :=
    { s with cfg := cfg, workersLastSeen := lastSeen, workersConfig := configs }
  have hcurrent : base.Current jobId := hcurrent
  rw [hscheduled]
  exact scheduled_reserveLoop_of_current hcurrent hscore hdue
    (by rwa [List.length_nil, zero_add])

/-- A reserve adds no scheduled entry. -/
theorem scheduled_of_next_reserve {config : WorkerConfig} {availableCapacity : ℕ}
    {now : Timestamp} {leaseTokens : List Bytes}
    (hrefuses : ¬ s.registry.Refuses config.retryPolicyKey) {score : ℤ}
    (hleft : (s.next (.reserve config availableCapacity now leaseTokens)).scheduled.score jobId =
      some score) : s.scheduled.score jobId = some score := by
  obtain ⟨cfg, lastSeen, configs, _, hscheduled, _⟩ :=
    exists_reserveLoop hrefuses availableCapacity now leaseTokens
  let base : Store :=
    { s with cfg := cfg, workersLastSeen := lastSeen, workersConfig := configs }
  rw [hscheduled] at hleft
  have hscore : base.scheduled.score jobId = some score := scheduled_of_reserveLoop hleft
  exact hscore

/-- After a reserve with enough tokens, no job that it leased has a due scheduled entry,
exactly when no duplicate of a job that it leases from the ready set is hidden until its
last round. -/
theorem due_duplicates_dropped_iff (s : Store) {config : WorkerConfig} {availableCapacity : ℕ}
    {now : Timestamp} {leaseTokens : List Bytes}
    (hrefuses : ¬ s.registry.Refuses config.retryPolicyKey)
    (htokens : availableCapacity ≤ leaseTokens.length) :
    (∀ lease ∈ (s.reply (.reserve config availableCapacity now leaseTokens)).leases,
        ∀ score, (s.next (.reserve config availableCapacity now leaseTokens)).scheduled.score
          lease.1 = some score → Double.ofInt (micros now) < score) ↔
      ∀ candidate ∈ (s.candidates (Double.ofInt (micros now))).take availableCapacity,
        candidate.source = .ready →
          ∀ score, s.scheduled.score candidate.jobId = some score →
            score ≤ Double.ofInt (micros now) →
              ¬ s.Hidden (Double.ofInt (micros now)) (availableCapacity - 1)
                (toLex (score, candidate.jobId)) := by
  have hjobs (motive : Bytes → Prop) :
      (∀ lease ∈ (s.reply (.reserve config availableCapacity now leaseTokens)).leases,
        motive lease.1) ↔
        ∀ candidate ∈ (s.candidates (Double.ofInt (micros now))).take availableCapacity,
          motive candidate.jobId := by
    rw [← List.forall_mem_map (P := motive), jobIds_leases hrefuses, List.forall_mem_map,
      min_eq_left htokens]
  refine (hjobs fun jobId => ∀ score,
    (s.next (.reserve config availableCapacity now leaseTokens)).scheduled.score jobId =
      some score → Double.ofInt (micros now) < score).trans ?_
  refine forall₂_congr fun candidate hmem => ?_
  cases availableCapacity with
  | zero => cases hmem
  | succ rounds =>
      rcases mem_candidates.mp (List.mem_of_mem_take hmem) with
        ⟨hsource, hready⟩ | ⟨hsource, _, _, hfree⟩
      · have hcurrent : s.Current candidate.jobId := Or.inl (by simp [hready])
        have hsurvives {score : ℤ} (hscore : s.scheduled.score candidate.jobId = some score)
            (hdue : score ≤ Double.ofInt (micros now)) :=
          scheduled_next_reserve_of_current hrefuses htokens hcurrent hscore hdue
        constructor
        · intro hlate _ score hscore hdue hhidden
          exact absurd (hlate score ((hsurvives hscore hdue).mpr hhidden)) hdue.not_gt
        · intro hvisible score hleft
          have hscore := scheduled_of_next_reserve hrefuses hleft
          by_contra hdue
          rw [not_lt] at hdue
          exact hvisible hsource score hscore hdue ((hsurvives hscore hdue).mp hleft)
      · have hnone : (s.next (.reserve config (rounds + 1) now leaseTokens)).scheduled.score
            candidate.jobId = none := by
          rw [scheduled_score_next_reserve hrefuses _ _ _ hfree, if_pos]
          refine ⟨candidate, ?_, hsource, rfl⟩
          have hcount : rounds + 1 ≤ leaseTokens.length - 0 + 1 := by omega
          show candidate ∈ (s.candidates _).take (min (rounds + 1) (leaseTokens.length - 0 + 1))
          rw [min_eq_left hcount]
          exact hmem
        apply iff_of_true
        · intro score hleft
          cases hnone.symm.trans hleft
        · intro hready
          cases hsource.symm.trans hready

/-- A store in which a ready job also has a due scheduled entry, behind another due job. -/
def hiddenDuplicate : Store :=
  { empty with
    ready := (∅ : ZSet).add "job" 1
    scheduled := ((∅ : ZSet).add "other" 2).add "job" 3 }

/-- The ready job is leased, and its due scheduled entry is still there. -/
theorem hidden_duplicate_survives :
    let op : Op := .reserve sampleConfig 1 (.ofSeconds 8) ["token"]
    (utf8 "job", utf8 "token") ∈ (hiddenDuplicate.reply op).leases ∧
      (hiddenDuplicate.next op).scheduled.score "job" = some 3 ∧
        (3 : ℤ) ≤ Double.ofInt (micros (.ofSeconds 8)) := by
  decide

/-- A store in which a ready job also has a due scheduled entry. -/
def frontDuplicate : Store :=
  { empty with
    ready := (∅ : ZSet).add "job" 4
    scheduled := (∅ : ZSet).add "job" 5 }

/-- The ready job is leased, and its scheduled entry is dropped. -/
theorem due_duplicates_dropped_sample :
    (frontDuplicate.reply (.reserve sampleConfig 1 (.ofSeconds 8) ["token"])).leases =
        [(utf8 "job", utf8 "token")] ∧
      ∀ lease ∈ (frontDuplicate.reply (.reserve sampleConfig 1 (.ofSeconds 8) ["token"])).leases,
        ∀ score, (frontDuplicate.next
          (.reserve sampleConfig 1 (.ofSeconds 8) ["token"])).scheduled.score lease.1 =
            some score → Double.ofInt (micros (.ofSeconds 8)) < score := by
  have hcopies : ∀ first ∈ frontDuplicate.scheduled.entries,
      frontDuplicate.Current (ofLex first).2 := by decide
  refine ⟨by decide,
    (due_duplicates_dropped_iff frontDuplicate (by decide) (by decide)).mpr ?_⟩
  rintro candidate _ _ score _ _ ⟨first, hmem, hfree, _⟩
  exact hfree (hcopies first hmem)

end Store

end Redloop
