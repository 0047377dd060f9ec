/-
# The oldest jobs first

The eligible jobs of a store are its ready jobs and its due scheduled jobs, ordered by their
activation time, ready before scheduled on a tie, and then by their ids. From a well-formed
store, a reserve with enough tokens leases exactly the first of them, in this order, and the
client reads exactly these leases from its reply.
-/

import Redloop.Queue.Reporting

namespace Redloop

/-! ## Merging -/

/-- Two lists in order are merged into one, when the comparison respects the order between
them. -/
theorem pairwise_merge_of_respects {α : Type*} {order : α → α → Prop} {compare : α → α → Bool}
    (htrans : ∀ first second third, order first second → order second third →
      order first third) {left right : List α} (hleft : left.Pairwise order)
    (hright : right.Pairwise order)
    (hle : ∀ first ∈ left, ∀ second ∈ right, compare first second → order first second)
    (hgt : ∀ first ∈ left, ∀ second ∈ right, ¬ compare first second → order second first) :
    (left.merge right compare).Pairwise order := by
  induction left generalizing right with
  | nil => rwa [List.nil_merge]
  | cons first left ihLeft =>
      induction right with
      | nil => rwa [List.merge_right]
      | cons second right ihRight =>
          obtain ⟨hfirst, htail⟩ := List.pairwise_cons.mp hleft
          obtain ⟨hsecond, hothers⟩ := List.pairwise_cons.mp hright
          rw [List.cons_merge_cons]
          split_ifs with hcompare
          · have hbefore := hle first List.mem_cons_self second List.mem_cons_self hcompare
            apply List.pairwise_cons.mpr
            constructor
            · intro other hmem
              rcases List.mem_merge.mp hmem with hmem | hmem
              · exact hfirst other hmem
              · rcases List.mem_cons.mp hmem with rfl | hmem
                · exact hbefore
                · exact htrans _ _ _ hbefore (hsecond other hmem)
            · apply ihLeft htail hright
              · exact fun other hmem => hle other (List.mem_cons_of_mem _ hmem)
              · exact fun other hmem => hgt other (List.mem_cons_of_mem _ hmem)
          · have hbefore := hgt first List.mem_cons_self second List.mem_cons_self hcompare
            apply List.pairwise_cons.mpr
            constructor
            · intro other hmem
              rcases List.mem_merge.mp hmem with hmem | hmem
              · rcases List.mem_cons.mp hmem with rfl | hmem
                · exact hbefore
                · exact htrans _ _ _ hbefore (hfirst other hmem)
              · exact hsecond other hmem
            · apply ihRight hothers
              · exact fun other hmem later hlater => hle other hmem later
                  (List.mem_cons_of_mem _ hlater)
              · exact fun other hmem later hlater => hgt other hmem later
                  (List.mem_cons_of_mem _ hlater)

/-! ## The order of the eligible jobs -/

/-- A candidate goes before another: by its activation time, ready before scheduled on a tie,
and then by its id. -/
def Candidate.Before (first second : Candidate) : Prop :=
  first.score < second.score ∨ first.score = second.score ∧
    (first.source = .ready ∧ second.source = .scheduled ∨
      first.source = second.source ∧ first.jobId < second.jobId)

/-- What goes before something goes before everything after it. -/
theorem Candidate.Before.trans {first second third : Candidate} (hfirst : first.Before second)
    (hsecond : second.Before third) : first.Before third := by
  unfold Before at *
  rcases hfirst with hlt | ⟨hscore, hfirst⟩
  · rcases hsecond with hlater | ⟨hsame, _⟩
    · exact Or.inl (hlt.trans hlater)
    · exact Or.inl (hsame ▸ hlt)
  · rcases hsecond with hlater | ⟨hsame, hsecond⟩
    · exact Or.inl (hscore ▸ hlater)
    · right
      refine ⟨hscore.trans hsame, ?_⟩
      rcases hfirst with ⟨hready, hscheduled⟩ | ⟨hsource, hlt⟩
      · rcases hsecond with ⟨hready', _⟩ | ⟨hsource, _⟩
        · cases hscheduled.symm.trans hready'
        · exact Or.inl ⟨hready, hsource ▸ hscheduled⟩
      · rcases hsecond with ⟨hready, hscheduled⟩ | ⟨hsame, hlater⟩
        · exact Or.inl ⟨hsource.trans hready, hscheduled⟩
        · exact Or.inr ⟨hsource.trans hsame, hlt.trans hlater⟩

namespace Store

variable {s : Store} {jobs : Bytes → Job}

/-- The eligible jobs of a store, oldest first. -/
structure OldestFirst (s : Store) (nowUs : ℤ) (eligible : List Candidate) : Prop where
  /-- They are the ready jobs and the scheduled jobs whose time is at most now. -/
  mem_iff : ∀ candidate, candidate ∈ eligible ↔
    (candidate.source = .ready ∧ s.ready.score candidate.jobId = some candidate.score) ∨
      candidate.source = .scheduled ∧
        s.scheduled.score candidate.jobId = some candidate.score ∧ candidate.score ≤ nowUs
  /-- Each goes before all those after it. -/
  ordered : eligible.Pairwise Candidate.Before

/-- The entries of one set are in the order of the candidates. -/
theorem pairwise_ofEntry (source : JobState) {entries : List (ℤ ×ₗ Bytes)}
    (hsorted : entries.Pairwise (· < ·)) :
    (entries.map (Candidate.ofEntry source)).Pairwise Candidate.Before := by
  apply List.Pairwise.map _ _ hsorted
  intro first second hlt
  rcases Prod.Lex.lt_iff.mp hlt with hscore | ⟨hscore, hmember⟩
  · exact Or.inl hscore
  · exact Or.inr ⟨hscore, Or.inr ⟨rfl, hmember⟩⟩

/-- The eligible jobs are listed oldest first. -/
theorem oldestFirst_eligible (s : Store) (nowUs : ℤ) : s.OldestFirst nowUs (s.eligible nowUs) where
  mem_iff _ := mem_eligible
  ordered := by
    show (List.merge _ _ _).Pairwise Candidate.Before
    apply pairwise_merge_of_respects
    · exact fun _ _ _ => Candidate.Before.trans
    · exact pairwise_ofEntry .ready s.ready.sorted
    · exact pairwise_ofEntry .scheduled (s.scheduled.sorted.filter _)
    · intro first hfirst second hsecond hle
      obtain ⟨_, _, rfl⟩ := List.mem_map.mp hfirst
      obtain ⟨_, _, rfl⟩ := List.mem_map.mp hsecond
      rcases (of_decide_eq_true hle).lt_or_eq with hlt | hscore
      · exact Or.inl hlt
      · exact Or.inr ⟨hscore, Or.inl ⟨rfl, rfl⟩⟩
    · intro first _ second _ hgt
      exact Or.inl (not_le.mp fun hle => hgt (decide_eq_true hle))

/-! ## The reply -/

/-- An announced activation is the score of a scheduled job. -/
theorem exists_scheduled_of_announced {args : ReserveArgs} {score : ℤ}
    (hannounced : s.announced args = some score) :
    ∃ jobId, s.scheduled.score jobId = some score := by
  obtain ⟨entry, hfirst, rfl⟩ := Option.map_eq_some_iff.mp hannounced
  obtain ⟨hscore, _⟩ := SortedSet.head?_rangeByScore_eq_some_iff.mp hfirst
  rw [scheduled_takeAll] at hscore
  split_ifs at hscore
  exact ⟨_, hscore⟩

/-- What the client reads from a reply whose numbers it can read. -/
theorem parse_reserveReply {args : ReserveArgs}
    (hannounced : ∀ score, s.announced args = some score → score.natAbs < 10 ^ 17)
    (hdeadline : i64Min ≤ args.deadline ∧ args.deadline ≤ i64Max) (workerId : Bytes) :
    ∃ next, parseReserveResponse workerId (s.reserveReply args) =
      .ok ⟨(s.grants args).map fun lease => ⟨lease.jobId, lease.leaseToken⟩, next⟩ := by
  obtain ⟨next, hnext⟩ := exists_parseNextSchedule_announced_iff.mpr hannounced
  have hdeadlines : ∀ lease ∈ s.grants args,
      i64Min ≤ lease.deadline ∧ lease.deadline ≤ i64Max := by
    intro lease hmem
    rw [deadline_of_mem_grants hmem]
    exact hdeadline
  obtain ⟨jobs, hjobs⟩ := exists_parseReservedJobs_iff.mpr hdeadlines
  have hparse : parseReserveResponse workerId (s.reserveReply args) = .ok ⟨jobs, next⟩ := by
    unfold parseReserveResponse reserveReply
    rw [if_neg (by simp)]
    apply bind_eq_ok_iff.mpr
    exact ⟨next, hnext, bind_eq_ok_iff.mpr ⟨jobs, hjobs, rfl⟩⟩
  have hleases := leases_of_parseReserveResponse hparse
  rw [leases_reserveReply] at hleases
  have hpair : Function.Injective fun job : ReservedJob => (job.jobId, job.leaseToken) := by
    rintro ⟨⟩ ⟨⟩ hsame
    cases hsame
    rfl
  have hgranted : jobs = (s.grants args).map fun lease => ⟨lease.jobId, lease.leaseToken⟩ := by
    apply hpair.list_map
    rw [← hleases, List.map_map]
    rfl
  exact ⟨next, hgranted ▸ hparse⟩

/-! ## A reserve -/

/-- What a reserve does with the eligible jobs when it leases them oldest first. -/
structure LeasesOldest (s : Store) (config : WorkerConfig) (availableCapacity : ℕ)
    (now : Timestamp) (leaseTokens : List Bytes) (eligible : List Candidate) : Prop where
  /-- The client reads the first eligible jobs, each with the next token. -/
  decoded : ∃ next, parseReserveResponse config.workerId
    (s.reply (.reserve config availableCapacity now leaseTokens)) =
      .ok ⟨List.zipWith (fun (candidate : Candidate) token => ⟨candidate.jobId, token⟩)
        (eligible.take availableCapacity) leaseTokens, next⟩
  /-- These jobs leave the set they waited in and are leased to the worker under their
  tokens until the lease duration has passed. -/
  leased : ∀ (index : ℕ) (candidate : Candidate) token,
    (eligible.take availableCapacity)[index]? = some candidate → leaseTokens[index]? = some token →
      (s.next (.reserve config availableCapacity now leaseTokens)).slot candidate.jobId =
        { leased := some (micros now + durationMicros config.leaseDuration)
          leaseMeta := some (packMeta config.workerId token)
          failures := s.failures.lookup candidate.jobId }
  /-- The other jobs stay as they are. -/
  kept : ∀ jobId, (∀ candidate ∈ eligible.take availableCapacity, candidate.jobId ≠ jobId) →
    (s.next (.reserve config availableCapacity now leaseTokens)).slot jobId = s.slot jobId
  /-- No failure count changes. -/
  failures : (s.next (.reserve config availableCapacity now leaseTokens)).failures = s.failures
  /-- No rerun marker changes. -/
  rerun : (s.next (.reserve config availableCapacity now leaseTokens)).rerun = s.rerun

variable {config : WorkerConfig} {availableCapacity : ℕ} {now : Timestamp}
  {leaseTokens : List Bytes} {jobId token : Bytes}

/-- A job that a reserve leases has the lease and nothing else, apart from its failures. -/
theorem slot_of_mem_leases (hrefines : Refines s jobs)
    (hlease : (jobId, token) ∈
      (s.reply (.reserve config availableCapacity now leaseTokens)).leases) :
    (s.next (.reserve config availableCapacity now leaseTokens)).slot jobId =
      { leased := some (reserveArgs config availableCapacity now leaseTokens).deadline
        leaseMeta := some (packMeta config.workerId token)
        failures := s.failures.lookup jobId } := by
  obtain ⟨jobs', hrefined, hstep⟩ :=
    exec_refines hrefines (.reserve config availableCapacity now leaseTokens)
  rw [hrefined.slot_eq jobId, hrefines.failures_eq jobId]
  rcases hstep jobId with ⟨_, hnone⟩ | ⟨_, found, _, _, honly, hleased⟩ | ⟨_, _, hnone, _⟩
  · exact absurd hlease (hnone token)
  · obtain rfl := honly token hlease
    rw [hleased]
    rfl
  · exact absurd hlease (hnone token)

/-- A job that a reserve leases was not marked for a rerun. -/
theorem not_mem_rerun_of_mem_leases (hrefines : Refines s jobs)
    (hlease : (jobId, token) ∈
      (s.reply (.reserve config availableCapacity now leaseTokens)).leases) :
    jobId ∉ s.rerun := by
  obtain ⟨_, _, hstep⟩ :=
    exec_refines hrefines (.reserve config availableCapacity now leaseTokens)
  have hslot := hrefines.slot_eq jobId
  rcases hstep jobId with ⟨_, hnone⟩ | ⟨hwaiting, _⟩ | ⟨_, _, hnone, _⟩
  · exact absurd hlease (hnone token)
  · unfold Job.IsWaiting at hwaiting
    cases hplacement : (jobs jobId).placement <;>
      simp_all [Slot.ext_iff, slot, Job.toSlot]
  · exact absurd hlease (hnone token)

/-- With enough tokens, a job that a reserve does not lease stays as it is. -/
theorem slot_of_not_mem_leases (hrefines : Refines s jobs)
    (htokens : availableCapacity ≤ leaseTokens.length)
    (hnone : ∀ token, (jobId, token) ∉
      (s.reply (.reserve config availableCapacity now leaseTokens)).leases) :
    (s.next (.reserve config availableCapacity now leaseTokens)).slot jobId = s.slot jobId := by
  obtain ⟨jobs', hrefined, hstep⟩ :=
    exec_refines hrefines (.reserve config availableCapacity now leaseTokens)
  rw [hrefined.slot_eq jobId, hrefines.slot_eq jobId]
  rcases hstep jobId with ⟨hkept, _⟩ | ⟨_, found, _, hlease, _⟩ | ⟨_, _, _, hshort⟩
  · rw [hkept]
  · exact absurd hlease (hnone found)
  · exact absurd htokens (not_le.mpr hshort)

/-- The reply of a reserve that is not refused. -/
theorem reply_of_not_refuses (hrefines : Refines s jobs)
    (hrefuses : ¬ s.registry.Refuses config.retryPolicyKey) (hcapacity : availableCapacity ≠ 0)
    (now : Timestamp) (leaseTokens : List Bytes) :
    s.reply (.reserve config availableCapacity now leaseTokens) =
      s.reserveReply (reserveArgs config availableCapacity now leaseTokens) := by
  have hargs : ¬ s.registry.Refuses
    (reserveArgs config availableCapacity now leaseTokens).retryPolicyKey := hrefuses
  rw [reply, exec, if_neg hcapacity, reply_reserve hrefines, if_neg hargs]

/-- The leases of a reserve are those of the first eligible jobs, under the next tokens. -/
theorem leases_reply_reserve (hrefines : Refines s jobs)
    (hrefuses : ¬ s.registry.Refuses config.retryPolicyKey) (hcapacity : availableCapacity ≠ 0)
    (now : Timestamp) (leaseTokens : List Bytes) :
    (s.reply (.reserve config availableCapacity now leaseTokens)).leases =
      (((s.eligible (Double.ofInt (micros now))).take availableCapacity).map
        Candidate.jobId).zip leaseTokens := by
  rw [reply_of_not_refuses hrefines hrefuses hcapacity, leases_reserveReply, grants,
    List.map_zipWith, List.zip, List.zipWith_map_left]
  rfl

/-- With enough tokens, a reserve changes no failure count. -/
theorem failures_next_reserve (hrefines : Refines s jobs)
    (htokens : availableCapacity ≤ leaseTokens.length) :
    (s.next (.reserve config availableCapacity now leaseTokens)).failures = s.failures := by
  apply Finmap.ext_lookup
  intro jobId
  by_cases hlease : ∃ token, (jobId, token) ∈
      (s.reply (.reserve config availableCapacity now leaseTokens)).leases
  · obtain ⟨token, hlease⟩ := hlease
    exact congrArg Slot.failures (slot_of_mem_leases hrefines hlease)
  · rw [not_exists] at hlease
    exact congrArg Slot.failures (slot_of_not_mem_leases hrefines htokens hlease)

/-- With enough tokens, a reserve changes no rerun marker. -/
theorem rerun_next_reserve (hrefines : Refines s jobs)
    (htokens : availableCapacity ≤ leaseTokens.length) :
    (s.next (.reserve config availableCapacity now leaseTokens)).rerun = s.rerun := by
  ext jobId
  by_cases hlease : ∃ token, (jobId, token) ∈
      (s.reply (.reserve config availableCapacity now leaseTokens)).leases
  · obtain ⟨token, hlease⟩ := hlease
    have hmarked := congrArg Slot.rerun (slot_of_mem_leases hrefines hlease)
    exact iff_of_false (of_decide_eq_false hmarked) (not_mem_rerun_of_mem_leases hrefines hlease)
  · rw [not_exists] at hlease
    have hmarked := congrArg Slot.rerun (slot_of_not_mem_leases hrefines htokens hlease)
    exact decide_eq_decide.mp hmarked

/-- The deadline of a lease is exact below `2 ^ 53` microseconds. -/
theorem deadline_reserveArgs (hnow : (micros now).natAbs < 2 ^ 53)
    (hduration : durationMicros config.leaseDuration < 2 ^ 53)
    (hdeadline : micros now + durationMicros config.leaseDuration < 2 ^ 53) :
    (reserveArgs config availableCapacity now leaseTokens).deadline =
      micros now + durationMicros config.leaseDuration := by
  have hnonneg := durationMicros_nonneg config.leaseDuration
  have hexact : Double.ofInt (durationMicros config.leaseDuration) =
      durationMicros config.leaseDuration := Double.ofInt_of_natAbs_lt (by omega)
  show Double.ofInt (Double.ofInt (micros now) +
    Double.ofInt (durationMicros config.leaseDuration)) = _
  rw [Double.ofInt_of_natAbs_lt hnow, hexact]
  exact Double.ofInt_of_natAbs_lt (by omega)

/-- A reserve that is not refused leases the oldest eligible jobs. -/
theorem reserve_leases_oldest (hwf : s.WellFormed)
    (hrefuses : ¬ s.registry.Refuses config.retryPolicyKey) (hcapacity : 1 ≤ availableCapacity)
    (htokens : availableCapacity ≤ leaseTokens.length)
    (hscores : ∀ jobId score, s.scheduled.score jobId = some score → score.natAbs < 2 ^ 53)
    (hnow : (micros now).natAbs < 2 ^ 53) (hduration : durationMicros config.leaseDuration < 2 ^ 53)
    (hdeadline : micros now + durationMicros config.leaseDuration < 2 ^ 53) :
    ∃ eligible, s.OldestFirst (micros now) eligible ∧
      s.LeasesOldest config availableCapacity now leaseTokens eligible ∧
        ∀ leased ∈ eligible.take availableCapacity, ∀ left ∈ eligible.drop availableCapacity,
          leased.score ≤ left.score := by
  obtain ⟨jobs, hrefines⟩ := hwf.exists_refines
  let args := reserveArgs config availableCapacity now leaseTokens
  have hnowUs : Double.ofInt (micros now) = micros now := Double.ofInt_of_natAbs_lt hnow
  have hdeadlineUs : args.deadline = micros now + durationMicros config.leaseDuration :=
    deadline_reserveArgs hnow hduration hdeadline
  have hleases := leases_reply_reserve hrefines hrefuses (by omega : availableCapacity ≠ 0) now
    leaseTokens
  rw [hnowUs] at hleases
  have hordered := (s.oldestFirst_eligible (micros now)).ordered
  refine ⟨s.eligible (micros now), s.oldestFirst_eligible _, ?_, ?_⟩
  · constructor
    case decoded =>
      have hannounced : ∀ score, s.announced args = some score → score.natAbs < 10 ^ 17 := by
        intro score hannounced
        obtain ⟨jobId, hscore⟩ := exists_scheduled_of_announced hannounced
        exact (hscores jobId score hscore).trans (by norm_num)
      have hrange : i64Min ≤ args.deadline ∧ args.deadline ≤ i64Max := by
        have hnonneg := durationMicros_nonneg config.leaseDuration
        rw [hdeadlineUs]
        unfold i64Min i64Max
        omega
      obtain ⟨next, hparse⟩ := parse_reserveReply hannounced hrange config.workerId
      have hgrants : s.grants args = List.zipWith (leaseOf args)
          ((s.eligible (micros now)).take availableCapacity) leaseTokens := by
        rw [← hnowUs]
        rfl
      rw [hgrants, List.map_zipWith] at hparse
      rw [reply_of_not_refuses hrefines hrefuses (by omega)]
      exact ⟨next, hparse⟩
    case leased =>
      intro index candidate token hcandidate htoken
      have hmem : (candidate.jobId, token) ∈
          (s.reply (.reserve config availableCapacity now leaseTokens)).leases := by
        rw [hleases]
        apply List.mem_of_getElem? (i := index)
        rw [List.zip, List.getElem?_zipWith, List.getElem?_map, hcandidate, htoken]
        rfl
      rw [slot_of_mem_leases hrefines hmem, hdeadlineUs]
    case kept =>
      intro jobId hother
      apply slot_of_not_mem_leases hrefines htokens
      intro token hmem
      rw [hleases] at hmem
      obtain ⟨candidate, hcandidate, hjob⟩ := List.mem_map.mp (List.of_mem_zip hmem).1
      exact hother candidate hcandidate hjob
    case failures => exact failures_next_reserve hrefines htokens
    case rerun => exact rerun_next_reserve hrefines htokens
  · intro leased hleased left hleft
    rw [← List.take_append_drop availableCapacity (s.eligible (micros now))] at hordered
    rcases (List.pairwise_append.mp hordered).2.2 leased hleased left hleft with hlt | ⟨hscore, _⟩
    · exact hlt.le
    · exact hscore.le

/-- A ready job and a scheduled job that is due are leased before a later one. -/
theorem reserve_leases_oldest_sample :
    let s := empty.run
      [.enqueue ⟨"late", none, .always, true⟩ (.ofSeconds 5),
        .enqueue ⟨"due", some (.ofSeconds 4), .always, false⟩ (.ofSeconds 1),
        .enqueue ⟨"early", none, .always, true⟩ (.ofSeconds 2)]
    ∃ eligible, s.OldestFirst (micros (.ofSeconds 8)) eligible ∧
      s.LeasesOldest sampleConfig 2 (.ofSeconds 8) ["first", "second"] eligible ∧
        ∀ leased ∈ eligible.take 2, ∀ left ∈ eligible.drop 2, leased.score ≤ left.score := by
  intro s
  have hwf : s.WellFormed := (storesWf_run (by decide)).wellFormed
  have hscores : ∀ entry ∈ s.scheduled.entries, (ofLex entry).1.natAbs < 2 ^ 53 := by decide
  apply reserve_leases_oldest hwf (by decide) (by decide) (by decide)
    (fun jobId score hscore => hscores _ (SortedSet.score_eq_some_iff.mp hscore)) (by decide)
    (by decide) (by decide)

end Store

end Redloop
