/-
# Running out of tokens

A round of a reserve takes its job out of the set it waits in before it looks for a token.
With a token for every job that it may lease, every job that leaves its set is leased, apart
from duplicates of jobs that still have a copy. With fewer tokens the first job without one
is neither leased nor waiting any more.
-/

import Redloop.Queue.Policy
import Redloop.Queue.Survivors

namespace Redloop

/-- A candidate waits in the set it was found in. -/
def Candidate.WaitsIn (candidate : Candidate) (s : Store) : Prop :=
  match candidate.source with
  | .ready => s.ready.score candidate.jobId = some candidate.score
  | _ => s.scheduled.score candidate.jobId = some candidate.score

namespace Store

variable {s : Store} {args : ReserveArgs} {jobId : Bytes} {granted : List GrantedLease}
  {rounds : ℕ} {config : WorkerConfig} {availableCapacity : ℕ} {now : Timestamp}
  {leaseTokens : List Bytes}

/-- No job is a candidate twice. -/
theorem nodup_candidates (s : Store) (nowUs : ℤ) :
    ((s.candidates nowUs).map Candidate.jobId).Nodup := by
  rw [candidates, ((eligible_perm (s.deduplicated nowUs) nowUs).map _).nodup_iff, List.map_append,
    List.map_map, List.map_map]
  apply List.Nodup.append
  · exact s.ready.members_nodup
  · exact (s.deduplicated nowUs).scheduled.members_nodup.sublist (List.filter_sublist.map _)
  · intro jobId hready hscheduled
    obtain ⟨ready, hreadyMem, rfl⟩ := List.mem_map.mp hready
    obtain ⟨scheduled, hscheduledMem, hsame⟩ := List.mem_map.mp hscheduled
    obtain ⟨hentry, hdue⟩ := List.mem_filter.mp hscheduledMem
    rw [SortedSet.mem_entries_iff, score_deduplicated] at hentry
    apply hentry.2 (of_decide_eq_true hdue)
    left
    have hscore := SortedSet.mem_entries_iff.mp hreadyMem
    have hsame : (ofLex scheduled).2 = (ofLex ready).2 := hsame
    rw [hsame]
    exact Option.isSome_of_eq_some hscore

/-! ## Leases stay -/

/-- A job is leased and has a lease record. -/
def HasLease (s : Store) (jobId : Bytes) : Prop :=
  (s.leased.score jobId).isSome ∧ (s.leaseMeta.lookup jobId).isSome

/-- Granting a lease gives it a record and keeps the leased jobs and the records. -/
theorem grantLease_keeps (s : Store) (workerId : Bytes) (lease : GrantedLease)
    (jobId : Bytes) :
    (s.grantLease workerId lease).HasLease lease.jobId ∧
      ((s.leased.score jobId).isSome → ((s.grantLease workerId lease).leased.score jobId).isSome) ∧
        ((s.leaseMeta.lookup jobId).isSome →
          ((s.grantLease workerId lease).leaseMeta.lookup jobId).isSome) := by
  unfold HasLease grantLease
  by_cases hjob : jobId = lease.jobId <;> simp [hjob, Hash.lookup_insert]

/-- The loop keeps the leased jobs and the lease records. -/
theorem reserveLoop_keeps (args : ReserveArgs) (rounds : ℕ) (s : Store)
    (granted : List GrantedLease) (jobId : Bytes) :
    ((s.leased.score jobId).isSome →
      ((reserveLoop args rounds s granted).1.leased.score jobId).isSome) ∧
      ((s.leaseMeta.lookup jobId).isSome →
        ((reserveLoop args rounds s granted).1.leaseMeta.lookup jobId).isSome) := by
  induction rounds generalizing s granted with
  | zero => exact ⟨id, id⟩
  | succ rounds ih =>
      cases hfirst : s.candidates args.nowUs with
      | nil =>
          obtain ⟨scheduled, heq⟩ := dropDuplicates_frame args.nowUs s.scheduled.card s
          rw [reserveLoop_of_nil hfirst, heq]
          exact ⟨id, id⟩
      | cons candidate rest =>
          obtain ⟨hleased, hmeta⟩ := takeCandidate_frame s args.nowUs candidate
          cases htoken : args.leaseTokens[granted.length]? with
          | none =>
              rw [reserveLoop_of_no_token hfirst htoken, hleased, hmeta]
              exact ⟨id, id⟩
          | some token =>
              obtain ⟨_, hgrantLeased, hgrantMeta⟩ :=
                (s.takeCandidate args.nowUs candidate).grantLease_keeps args.workerId
                  (leaseOf args candidate token) jobId
              rw [hleased] at hgrantLeased
              rw [hmeta] at hgrantMeta
              rw [reserveLoop_of_token hfirst htoken]
              exact (ih _ _).imp (· ∘ hgrantLeased) (· ∘ hgrantMeta)

/-- Every lease that the loop grants is there at its end. -/
theorem hasLease_of_granted {lease : GrantedLease}
    (hmem : lease ∈ (reserveLoop args rounds s granted).2) :
    lease ∈ granted ∨ (reserveLoop args rounds s granted).1.HasLease lease.jobId := by
  induction rounds generalizing s granted with
  | zero => exact Or.inl hmem
  | succ rounds ih =>
      cases hfirst : s.candidates args.nowUs with
      | nil =>
          rw [reserveLoop_of_nil hfirst] at hmem
          exact Or.inl hmem
      | cons candidate rest =>
          cases htoken : args.leaseTokens[granted.length]? with
          | none =>
              rw [reserveLoop_of_no_token hfirst htoken] at hmem
              exact Or.inl hmem
          | some token =>
              rw [reserveLoop_of_token hfirst htoken] at hmem ⊢
              rcases ih hmem with hbefore | hleased
              · rcases List.mem_append.mp hbefore with hold | hnew
                · exact Or.inl hold
                · cases List.mem_singleton.mp hnew
                  have hgranted := ((s.takeCandidate args.nowUs candidate).grantLease_keeps
                    args.workerId (leaseOf args candidate token) candidate.jobId).1
                  obtain ⟨hkeptLeased, hkeptMeta⟩ := reserveLoop_keeps args rounds
                    ((s.takeCandidate args.nowUs candidate).grantLease args.workerId
                      (leaseOf args candidate token))
                    (granted ++ [leaseOf args candidate token]) candidate.jobId
                  exact Or.inr ⟨hkeptLeased hgranted.1, hkeptMeta hgranted.2⟩
              · exact Or.inr hleased

/-! ## A reserve -/

/-- What a reserve does when it loses no job. -/
structure LosesNoJob (s : Store) (config : WorkerConfig) (availableCapacity : ℕ)
    (now : Timestamp) (leaseTokens : List Bytes) : Prop where
  /-- Every job that leaves the ready set is leased. -/
  ready : ∀ jobId, (s.ready.score jobId).isSome →
    (s.next (.reserve config availableCapacity now leaseTokens)).ready.score jobId = none →
      (s.next (.reserve config availableCapacity now leaseTokens)).HasLease jobId
  /-- Every job that leaves the scheduled set is leased, or was a duplicate of a copy and
  still has one. -/
  scheduled : ∀ jobId, (s.scheduled.score jobId).isSome →
    (s.next (.reserve config availableCapacity now leaseTokens)).scheduled.score jobId = none →
      (s.next (.reserve config availableCapacity now leaseTokens)).HasLease jobId ∨
        s.Current jobId ∧
          (s.next (.reserve config availableCapacity now leaseTokens)).Current jobId
  /-- Unless it is refused, it leases as many jobs as its capacity, its tokens and the
  eligible jobs allow. -/
  count : ¬ s.registry.Refuses config.retryPolicyKey →
    (s.reply (.reserve config availableCapacity now leaseTokens)).leases.length =
      min (min availableCapacity leaseTokens.length)
        (s.candidates (Double.ofInt (micros now))).length
  /-- The eligible jobs that it does not lease stay where they were. -/
  kept : ∀ candidate ∈ s.candidates (Double.ofInt (micros now)),
    (∀ token, (candidate.jobId, token) ∉
      (s.reply (.reserve config availableCapacity now leaseTokens)).leases) →
        candidate.WaitsIn (s.next (.reserve config availableCapacity now leaseTokens))

/-- Where a candidate waits before the call. -/
theorem waitsIn_of_mem_candidates {candidate : Candidate} {nowUs : ℤ}
    (hmem : candidate ∈ s.candidates nowUs) : candidate.WaitsIn s := by
  unfold Candidate.WaitsIn
  rcases mem_candidates.mp hmem with ⟨hsource, hscore⟩ | ⟨hsource, hscore, _⟩
  · rw [hsource]
    exact hscore
  · rw [hsource]
    exact hscore

/-- A refused reserve loses no job. -/
theorem losesNoJob_of_refuses (hrefuses : s.registry.Refuses config.retryPolicyKey) :
    s.LosesNoJob config availableCapacity now leaseTokens := by
  have hnext : s.next (.reserve config availableCapacity now leaseTokens) = s := by
    by_cases hcapacity : availableCapacity = 0
    · rw [next, exec, if_pos hcapacity]
    · rw [next, exec_reserve_of_refuses hcapacity hrefuses]
  refine ⟨?_, ?_, fun hok => absurd hrefuses hok, ?_⟩
  · rw [hnext]
    intro jobId hsome hnone
    simp [hnone] at hsome
  · rw [hnext]
    intro jobId hsome hnone
    simp [hnone] at hsome
  · rw [hnext]
    intro candidate hmem _
    exact waitsIn_of_mem_candidates hmem

/-- The jobs that a reserve leases have a lease afterwards. -/
theorem hasLease_of_mem_leases (hrefuses : ¬ s.registry.Refuses config.retryPolicyKey)
    {lease : Bytes × Bytes}
    (hmem : lease ∈ (s.reply (.reserve config availableCapacity now leaseTokens)).leases) :
    (s.next (.reserve config availableCapacity now leaseTokens)).HasLease lease.1 := by
  obtain ⟨_, _, _, _, _, hleased, hmeta, hleases⟩ :=
    exists_reserveLoop hrefuses availableCapacity now leaseTokens
  rw [hleases] at hmem
  obtain ⟨granted, hgranted, rfl⟩ := List.mem_map.mp hmem
  rcases hasLease_of_granted hgranted with hnone | hlease
  · cases hnone
  · unfold HasLease
    rw [hleased, hmeta]
    exact hlease

/-- With a token for every job that it may lease, a reserve leases what it takes out. -/
theorem hasLease_of_takes (hrefuses : ¬ s.registry.Refuses config.retryPolicyKey)
    (htokens : min availableCapacity (s.candidates (Double.ofInt (micros now))).length ≤
      leaseTokens.length) {source : JobState} {jobId : Bytes}
    (htakes : Takes (s.takes (reserveArgs config availableCapacity now leaseTokens)
      availableCapacity 0) source jobId) :
    (∃ leaseToken, (jobId, leaseToken) ∈
        (s.reply (.reserve config availableCapacity now leaseTokens)).leases) ∧
      (s.next (.reserve config availableCapacity now leaseTokens)).HasLease jobId := by
  obtain ⟨candidate, hmem, _, rfl⟩ := htakes
  have hcount : s.takes (reserveArgs config availableCapacity now leaseTokens)
      availableCapacity 0 = (s.candidates (Double.ofInt (micros now))).take
        (min availableCapacity leaseTokens.length) := by
    apply List.take_eq_take_iff.mpr
    show min (min availableCapacity (leaseTokens.length - 0 + 1))
        (s.candidates (Double.ofInt (micros now))).length =
      min (min availableCapacity leaseTokens.length)
        (s.candidates (Double.ofInt (micros now))).length
    omega
  rw [hcount] at hmem
  have hleases : candidate.jobId ∈
      (s.reply (.reserve config availableCapacity now leaseTokens)).leases.map Prod.fst := by
    rw [jobIds_leases hrefuses]
    exact List.mem_map_of_mem hmem
  obtain ⟨⟨_, leaseToken⟩, hlease, hjob⟩ := List.mem_map.mp hleases
  cases hjob
  exact ⟨⟨leaseToken, hlease⟩, hasLease_of_mem_leases hrefuses hlease⟩

/-- With a token for every job that it may lease, a reserve loses no job. -/
theorem losesNoJob_of_le (hrefuses : ¬ s.registry.Refuses config.retryPolicyKey)
    (htokens : min availableCapacity (s.candidates (Double.ofInt (micros now))).length ≤
      leaseTokens.length) : s.LosesNoJob config availableCapacity now leaseTokens := by
  have hready := ready_score_next_reserve hrefuses availableCapacity now leaseTokens
  have hscheduled {jobId : Bytes} (hfree : ¬ s.Current jobId) :=
    scheduled_score_next_reserve hrefuses availableCapacity now leaseTokens hfree
  have hgone {jobId : Bytes} (hsome : (s.ready.score jobId).isSome)
      (hnone : (s.next (.reserve config availableCapacity now leaseTokens)).ready.score jobId =
        none) : (s.next (.reserve config availableCapacity now leaseTokens)).HasLease jobId := by
    rw [hready] at hnone
    split_ifs at hnone with htakes
    · exact (hasLease_of_takes hrefuses htokens htakes).2
    · cases hnone ▸ hsome
  refine ⟨fun jobId => hgone, fun jobId hsome hnone => ?_, fun _ => ?_, ?_⟩
  · by_cases hcurrent : s.Current jobId
    · right
      refine ⟨hcurrent, ?_⟩
      rcases hcurrent with hcopy | hcopy
      · cases hleft : (s.next (.reserve config availableCapacity now
          leaseTokens)).ready.score jobId with
        | some score => exact Or.inl (Option.isSome_of_eq_some hleft)
        | none => exact Or.inr (hgone hcopy hleft).1
      · right
        obtain ⟨_, _, _, _, _, hleased, _⟩ :=
          exists_reserveLoop hrefuses availableCapacity now leaseTokens
        rw [hleased]
        exact (reserveLoop_keeps _ availableCapacity _ [] jobId).1 hcopy
    · left
      rw [hscheduled hcurrent] at hnone
      split_ifs at hnone with htakes
      · exact (hasLease_of_takes hrefuses htokens htakes).2
      · cases hnone ▸ hsome
  · rw [← List.length_map Prod.fst, jobIds_leases hrefuses, List.length_map, List.length_take]
  · intro candidate hmem hnot
    have hstays {source : JobState} :
        ¬ Takes (s.takes (reserveArgs config availableCapacity now leaseTokens)
          availableCapacity 0) source candidate.jobId := by
      intro htakes
      obtain ⟨leaseToken, hlease⟩ := (hasLease_of_takes hrefuses htokens htakes).1
      exact hnot leaseToken hlease
    unfold Candidate.WaitsIn
    rcases mem_candidates.mp hmem with ⟨hsource, hscore⟩ | ⟨hsource, hscore, _, hfree⟩
    · rw [hsource]
      exact ((hready _).trans (if_neg hstays)).trans hscore
    · rw [hsource]
      exact ((hscheduled hfree).trans (if_neg hstays)).trans hscore

/-- With a token too few, a reserve removes an eligible job that it does not lease. -/
theorem exists_lost (hrefuses : ¬ s.registry.Refuses config.retryPolicyKey)
    (hshort : leaseTokens.length <
      min availableCapacity (s.candidates (Double.ofInt (micros now))).length) :
    ∃ candidate ∈ s.candidates (Double.ofInt (micros now)),
      (∀ token, (candidate.jobId, token) ∉
        (s.reply (.reserve config availableCapacity now leaseTokens)).leases) ∧
        ¬ candidate.WaitsIn (s.next (.reserve config availableCapacity now leaseTokens)) := by
  let args := reserveArgs config availableCapacity now leaseTokens
  obtain ⟨hcapacity, hlength⟩ := lt_min_iff.mp hshort
  have hlength : leaseTokens.length < (s.candidates args.nowUs).length := hlength
  let candidate := (s.candidates args.nowUs)[leaseTokens.length]
  have hmem : candidate ∈ s.candidates args.nowUs := List.getElem_mem hlength
  -- the round after the last token takes it
  have htakes : Takes (s.takes args availableCapacity 0) candidate.source candidate.jobId := by
    refine ⟨candidate, ?_, rfl, rfl⟩
    show candidate ∈ (s.candidates args.nowUs).take
      (min availableCapacity (leaseTokens.length - 0 + 1))
    apply List.mem_take_iff_getElem.mpr
    refine ⟨leaseTokens.length, ?_, rfl⟩
    exact lt_min (lt_min hcapacity (Nat.lt_succ_self _)) hlength
  refine ⟨candidate, hmem, ?_, ?_⟩
  · intro token hlease
    have hjob := List.mem_map_of_mem (f := Prod.fst) hlease
    rw [jobIds_leases hrefuses, min_eq_right hcapacity.le] at hjob
    obtain ⟨leased, hleased, hsame⟩ := List.mem_map.mp hjob
    have hnodup := s.nodup_candidates args.nowUs
    obtain rfl : leased = candidate :=
      List.inj_on_of_nodup_map hnodup (List.mem_of_mem_take hleased) hmem hsame
    obtain ⟨index, hindex, hlast⟩ := List.mem_take_iff_getElem.mp hleased
    have hequal := hnodup.of_map.getElem_inj_iff.mp hlast
    omega
  · unfold Candidate.WaitsIn
    rcases mem_candidates.mp hmem with ⟨hsource, _⟩ | ⟨hsource, _, _, hfree⟩
    · rw [hsource] at htakes ⊢
      have hnone := (ready_score_next_reserve hrefuses availableCapacity now leaseTokens
        candidate.jobId).trans (if_pos htakes)
      intro hscore
      cases hnone.symm.trans hscore
    · rw [hsource] at htakes ⊢
      have hnone := (scheduled_score_next_reserve hrefuses availableCapacity now leaseTokens
        hfree).trans (if_pos htakes)
      intro hscore
      cases hnone.symm.trans hscore

/-- A reserve loses no job exactly when it is refused or has a token for every job that it
may lease. -/
theorem losesNoJob_iff (s : Store) (config : WorkerConfig) (availableCapacity : ℕ)
    (now : Timestamp) (leaseTokens : List Bytes) :
    s.LosesNoJob config availableCapacity now leaseTokens ↔
      s.registry.Refuses config.retryPolicyKey ∨
        min availableCapacity (s.candidates (Double.ofInt (micros now))).length ≤
          leaseTokens.length := by
  constructor
  · intro hloses
    by_contra hshort
    obtain ⟨hrefuses, hshort⟩ := not_or.mp hshort
    obtain ⟨candidate, hmem, hnone, hgone⟩ := exists_lost hrefuses (not_le.mp hshort)
    exact hgone (hloses.kept candidate hmem hnone)
  · rintro (hrefuses | htokens)
    · exact losesNoJob_of_refuses hrefuses
    · by_cases hrefuses : s.registry.Refuses config.retryPolicyKey
      · exact losesNoJob_of_refuses hrefuses
      · exact losesNoJob_of_le hrefuses htokens

/-- A store with two ready jobs. -/
def twoReady : Store :=
  { empty with ready := ((∅ : ZSet).add "first" 1).add "second" 2 }

/-- With capacity for two and one token, the second job leaves the ready set without a
lease. -/
theorem second_job_lost :
    ¬ twoReady.LosesNoJob sampleConfig 2 (.ofSeconds 8) ["token"] := by
  intro hloses
  have hlease := (hloses.ready "second" (by decide) (by decide)).1
  have hnone : (twoReady.next
      (.reserve sampleConfig 2 (.ofSeconds 8) ["token"])).leased.score "second" = none := by
    decide
  rw [hnone] at hlease
  cases hlease

end Store

end Redloop
