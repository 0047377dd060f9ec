/-
# Due duplicates

A scheduled entry that is due is a duplicate when its job is ready or leased. A round of a
reserve drops the duplicates before the first due entry that is none, so they never decide
which job it takes. From every stored state, also from one that no run of the scripts
reaches, the loop takes the eligible jobs that are left without duplicates, in order.
-/

import Redloop.Queue.Eligible

namespace Redloop

namespace Store

variable {s : Store} {jobs : Bytes → Job} {args : ReserveArgs} {nowUs : ℤ} {jobId : Bytes}

/-- A job has a current copy when it is ready or leased. -/
def Current (s : Store) (jobId : Bytes) : Prop :=
  (s.ready.score jobId).isSome ∨ (s.leased.score jobId).isSome

instance (s : Store) : DecidablePred s.Current := fun _ => inferInstanceAs (Decidable (_ ∨ _))

/-- The jobs with a current copy whose scheduled entry is due. -/
def duplicates (s : Store) (nowUs : ℤ) : List Bytes :=
  ((s.scheduled.rangeByScore (· ≤ nowUs)).filter fun entry => s.Current (ofLex entry).2).map
    fun entry => (ofLex entry).2

/-- The store without its due duplicates. -/
def deduplicated (s : Store) (nowUs : ℤ) : Store :=
  { s with scheduled := (s.duplicates nowUs).foldl SortedSet.erase s.scheduled }

/-- The jobs a reserve may take from any stored state, in order. -/
def candidates (s : Store) (nowUs : ℤ) : List Candidate := (s.deduplicated nowUs).eligible nowUs

/-- The scheduled entries that are not due duplicates. -/
theorem score_deduplicated {value : ℤ} :
    (s.deduplicated nowUs).scheduled.score jobId = some value ↔
      s.scheduled.score jobId = some value ∧ (value ≤ nowUs → ¬ s.Current jobId) := by
  have hmem : jobId ∈ s.duplicates nowUs ↔
      s.Current jobId ∧ ∃ score, s.scheduled.score jobId = some score ∧ score ≤ nowUs := by
    simp only [duplicates, SortedSet.rangeByScore, List.mem_map, List.mem_filter,
      decide_eq_true_eq, SortedSet.mem_entries_iff]
    constructor
    · rintro ⟨entry, ⟨⟨hscore, hdue⟩, hcurrent⟩, rfl⟩
      exact ⟨hcurrent, _, hscore, hdue⟩
    · rintro ⟨hcurrent, score, hscore, hdue⟩
      exact ⟨toLex (score, jobId), ⟨⟨hscore, hdue⟩, hcurrent⟩, rfl⟩
  show ((s.duplicates nowUs).foldl SortedSet.erase s.scheduled).score jobId = some value ↔ _
  rw [SortedSet.score_foldl_erase]
  split_ifs with hduplicate
  · obtain ⟨hcurrent, score, hscore, hdue⟩ := hmem.mp hduplicate
    simp only [hscore, Option.some.injEq, false_iff, not_and]
    rintro rfl hnone
    exact hnone hdue hcurrent
  · constructor
    · intro hscore
      refine ⟨hscore, fun hdue hcurrent => ?_⟩
      exact hduplicate (hmem.mpr ⟨hcurrent, value, hscore, hdue⟩)
    · exact And.left

theorem mem_candidates {candidate : Candidate} :
    candidate ∈ s.candidates nowUs ↔
      (candidate.source = .ready ∧ s.ready.score candidate.jobId = some candidate.score) ∨
        candidate.source = .scheduled ∧ s.scheduled.score candidate.jobId = some candidate.score ∧
          candidate.score ≤ nowUs ∧ ¬ s.Current candidate.jobId := by
  rw [candidates, mem_eligible, score_deduplicated]
  constructor
  · rintro (hready | ⟨hsource, ⟨hscore, hcurrent⟩, hdue⟩)
    · exact Or.inl hready
    · exact Or.inr ⟨hsource, hscore, hdue, hcurrent hdue⟩
  · rintro (hready | ⟨hsource, hscore, hdue, hcurrent⟩)
    · exact Or.inl hready
    · exact Or.inr ⟨hsource, ⟨hscore, fun _ => hcurrent⟩, hdue⟩

/-! ## Dropping duplicates -/

/-- Without a due entry nothing is dropped. -/
theorem dropDuplicates_of_none (hnone : s.dueCandidate nowUs = none) (rounds : ℕ) :
    dropDuplicates nowUs rounds s = s := by
  cases rounds with
  | zero => rfl
  | succ rounds =>
      unfold dropDuplicates
      rw [hnone]

/-- A first due entry that is no duplicate ends the loop. -/
theorem dropDuplicates_of_not_current {candidate : ℤ ×ₗ Bytes}
    (hfirst : s.dueCandidate nowUs = some candidate) (hcurrent : ¬ s.Current (ofLex candidate).2)
    (rounds : ℕ) : dropDuplicates nowUs rounds s = s := by
  cases rounds with
  | zero => rfl
  | succ rounds =>
      unfold dropDuplicates
      rw [hfirst]
      exact if_neg hcurrent

/-- A first due entry that is a duplicate is dropped. -/
theorem dropDuplicates_of_current {candidate : ℤ ×ₗ Bytes}
    (hfirst : s.dueCandidate nowUs = some candidate) (hcurrent : s.Current (ofLex candidate).2)
    (rounds : ℕ) : dropDuplicates nowUs (rounds + 1) s =
      dropDuplicates nowUs rounds
        { s with scheduled := s.scheduled.erase (ofLex candidate).2 } := by
  rw [dropDuplicates, hfirst]
  exact if_pos hcurrent

/-- Dropping duplicates changes the scheduled set only. -/
theorem dropDuplicates_frame (nowUs : ℤ) (rounds : ℕ) (s : Store) :
    ∃ scheduled, dropDuplicates nowUs rounds s = { s with scheduled := scheduled } := by
  induction rounds generalizing s with
  | zero => exact ⟨s.scheduled, rfl⟩
  | succ rounds ih =>
      cases hfirst : s.dueCandidate nowUs with
      | none => exact ⟨s.scheduled, dropDuplicates_of_none hfirst _⟩
      | some candidate =>
          by_cases hcurrent : s.Current (ofLex candidate).2
          · rw [dropDuplicates_of_current hfirst hcurrent]
            exact ih _
          · exact ⟨s.scheduled, dropDuplicates_of_not_current hfirst hcurrent _⟩

/-- A due entry stays when an entry at or before it is no duplicate. -/
def KeptDue (s : Store) (entry : ℤ ×ₗ Bytes) : Prop :=
  ∃ other score, s.scheduled.score other = some score ∧ ¬ s.Current other ∧
    toLex (score, other) ≤ entry

/-- The first due entry, when it is a duplicate, decides nothing about the others. -/
theorem keptDue_erase {candidate entry : ℤ ×ₗ Bytes}
    (hcurrent : s.Current (ofLex candidate).2) :
    KeptDue { s with scheduled := s.scheduled.erase (ofLex candidate).2 } entry ↔
      s.KeptDue entry := by
  constructor
  · rintro ⟨other, score, hother, hfree, hle⟩
    rw [SortedSet.score_erase] at hother
    split_ifs at hother
    exact ⟨other, score, hother, hfree, hle⟩
  · rintro ⟨other, score, hother, hfree, hle⟩
    refine ⟨other, score, ?_, hfree, hle⟩
    rw [SortedSet.score_erase_of_ne, hother]
    rintro rfl
    exact hfree hcurrent

/-- A due entry is dropped unless an entry at or before it is no duplicate. -/
theorem score_dropDuplicates {rounds : ℕ} (hrounds : s.scheduled.card ≤ rounds) {value : ℤ} :
    (dropDuplicates nowUs rounds s).scheduled.score jobId = some value ↔
      s.scheduled.score jobId = some value ∧
        (value ≤ nowUs → s.KeptDue (toLex (value, jobId))) := by
  induction rounds generalizing s with
  | zero =>
      have hempty : s.scheduled.entries = [] := List.length_eq_zero_iff.mp (Nat.le_zero.mp hrounds)
      have hnone : s.scheduled.score jobId ≠ some value := by
        rw [ne_eq, SortedSet.score_eq_some_iff, hempty]
        exact List.not_mem_nil
      exact iff_of_false hnone fun hscore => hnone hscore.1
  | succ rounds ih =>
      cases hfirst : s.dueCandidate nowUs with
      | none =>
          rw [dropDuplicates_of_none hfirst]
          have hlate := SortedSet.head?_rangeByScore_eq_none_iff.mp hfirst
          refine (and_iff_left_of_imp fun hscore hdue => ?_).symm
          simpa [hdue] using hlate jobId value hscore
      | some candidate =>
          obtain ⟨hscore, hdue, hleast⟩ := SortedSet.head?_rangeByScore_eq_some_iff.mp hfirst
          by_cases hcurrent : s.Current (ofLex candidate).2
          · have hcard := SortedSet.card_erase_lt hscore
            rw [dropDuplicates_of_current hfirst hcurrent,
              ih (Nat.le_of_lt_succ (hcard.trans_le hrounds)), keptDue_erase hcurrent,
              SortedSet.score_erase]
            split_ifs with hjob
            · subst hjob
              -- nothing that is no duplicate is due at or before the first due entry
              refine iff_of_false (fun hnone => nomatch hnone.1) fun ⟨hvalue, hkept⟩ => ?_
              obtain rfl : (ofLex candidate).1 = value := Option.some.inj (hscore.symm.trans hvalue)
              obtain ⟨other, score, hother, hfree, hle⟩ := hkept (of_decide_eq_true hdue)
              have hotherDue : score ≤ nowUs :=
                (Prod.Lex.monotone_fst _ _ hle).trans (of_decide_eq_true hdue)
              have hequal := le_antisymm hle (hleast other score hother (decide_eq_true hotherDue))
              rw [← (Prod.mk.inj (toLex.injective hequal)).2] at hcurrent
              exact hfree hcurrent
            · rfl
          · rw [dropDuplicates_of_not_current hfirst hcurrent]
            refine (and_iff_left_of_imp fun hvalue hle => ?_).symm
            exact ⟨_, _, hscore, hcurrent, hleast jobId value hvalue (decide_eq_true hle)⟩

/-- Behind the duplicates the loop finds the first due entry that is none. -/
theorem dueCandidate_dropDuplicates (s : Store) (nowUs : ℤ) :
    (dropDuplicates nowUs s.scheduled.card s).dueCandidate nowUs =
      (s.deduplicated nowUs).dueCandidate nowUs := by
  apply Option.ext
  intro entry
  unfold dueCandidate
  simp only [SortedSet.head?_rangeByScore_eq_some_iff, score_dropDuplicates le_rfl,
    score_deduplicated, decide_eq_true_eq]
  constructor
  · rintro ⟨⟨hscore, hkept⟩, hdue, hleast⟩
    obtain ⟨other, score, hother, hfree, hle⟩ := hkept hdue
    have hotherDue : score ≤ nowUs := (Prod.Lex.monotone_fst _ _ hle).trans hdue
    have hfirst := hleast other score ⟨hother, fun _ => ⟨other, score, hother, hfree, le_rfl⟩⟩
      hotherDue
    obtain rfl := (Prod.mk.inj (toLex.injective (le_antisymm hle hfirst))).2
    refine ⟨⟨hscore, fun _ => hfree⟩, hdue, ?_⟩
    rintro member value ⟨hmember, hmemberFree⟩ hvalue
    exact hleast member value
      ⟨hmember, fun _ => ⟨member, value, hmember, hmemberFree hvalue, le_rfl⟩⟩ hvalue
  · rintro ⟨⟨hscore, hfree⟩, hdue, hleast⟩
    refine ⟨⟨hscore, fun _ => ⟨_, _, hscore, hfree hdue, le_rfl⟩⟩, hdue, ?_⟩
    rintro member value ⟨hmember, hkept⟩ hvalue
    obtain ⟨other, score, hother, hotherFree, hle⟩ := hkept hvalue
    have hotherDue : score ≤ nowUs := (Prod.Lex.monotone_fst _ _ hle).trans hvalue
    exact (hleast other score ⟨hother, fun _ => hotherFree⟩ hotherDue).trans hle

/-! ## One round -/

theorem score_dropDuplicates_of_not_current (hfree : ¬ s.Current jobId) :
    (dropDuplicates nowUs s.scheduled.card s).scheduled.score jobId = s.scheduled.score jobId := by
  apply Option.ext
  intro value
  rw [score_dropDuplicates le_rfl]
  exact and_iff_left_of_imp fun hvalue _ => ⟨jobId, value, hvalue, hfree, le_rfl⟩

/-- A round takes the first candidate. -/
theorem chooseCandidate_dropDuplicates (s : Store) (nowUs : ℤ) :
    chooseCandidate s.ready.entries.head?
        ((dropDuplicates nowUs s.scheduled.card s).dueCandidate nowUs) =
      (s.candidates nowUs).head?.map fun candidate => (candidate.source, candidate.jobId) := by
  rw [dueCandidate_dropDuplicates]
  exact chooseCandidate_eq (s.deduplicated nowUs) nowUs

/-- The store in which a round has taken its candidate. -/
def takeCandidate (s : Store) (nowUs : ℤ) (candidate : Candidate) : Store :=
  (dropDuplicates nowUs s.scheduled.card s).removeWaiting candidate.source candidate.jobId

/-- The lease that a round gives to its candidate. -/
def leaseOf (args : ReserveArgs) (candidate : Candidate) (token : Bytes) : GrantedLease :=
  ⟨candidate.jobId, token, args.deadline⟩

/-- The jobs that are leased are those of the first candidates, as far as the tokens go. -/
theorem jobIds_zipWith_leaseOf (taken : List Candidate) (tokens : List Bytes) :
    (List.zipWith (leaseOf args) taken tokens).map GrantedLease.jobId =
      (taken.take tokens.length).map Candidate.jobId := by
  induction taken generalizing tokens with
  | nil => simp
  | cons candidate rest ih =>
      cases tokens with
      | nil => rfl
      | cons token tokens => exact congrArg (List.cons candidate.jobId) (ih tokens)

variable {candidate : Candidate} {rest : List Candidate} {granted : List GrantedLease}
  {rounds : ℕ} {token : Bytes}

/-- Without candidates the loop ends. -/
theorem reserveLoop_of_nil (hnil : s.candidates args.nowUs = []) :
    reserveLoop args (rounds + 1) s granted =
      (dropDuplicates args.nowUs s.scheduled.card s, granted) := by
  simp only [reserveLoop, chooseCandidate_dropDuplicates, hnil, List.head?_nil, Option.map_none]

/-- Without a token the loop ends with the candidate taken. -/
theorem reserveLoop_of_no_token (hfirst : s.candidates args.nowUs = candidate :: rest)
    (htoken : args.leaseTokens[granted.length]? = none) :
    reserveLoop args (rounds + 1) s granted = (s.takeCandidate args.nowUs candidate, granted) := by
  simp only [reserveLoop, chooseCandidate_dropDuplicates, hfirst, List.head?_cons,
    Option.map_some, htoken]
  rfl

/-- With a token the candidate is leased and the loop goes on. -/
theorem reserveLoop_of_token (hfirst : s.candidates args.nowUs = candidate :: rest)
    (htoken : args.leaseTokens[granted.length]? = some token) :
    reserveLoop args (rounds + 1) s granted =
      reserveLoop args rounds
        ((s.takeCandidate args.nowUs candidate).grantLease args.workerId
          (leaseOf args candidate token))
        (granted ++ [leaseOf args candidate token]) := by
  simp only [reserveLoop, chooseCandidate_dropDuplicates, hfirst, List.head?_cons,
    Option.map_some, htoken]
  rfl

/-- The ready jobs after a round. -/
theorem ready_takeCandidate :
    (s.takeCandidate nowUs candidate).ready.score jobId =
      if candidate.source = .ready ∧ candidate.jobId = jobId then none
      else s.ready.score jobId := by
  obtain ⟨scheduled, heq⟩ := dropDuplicates_frame nowUs s.scheduled.card s
  unfold takeCandidate
  rw [heq]
  cases candidate.source with
  | ready => simp [removeWaiting, SortedSet.score_erase, eq_comm]
  | _ => simp [removeWaiting]

/-- The scheduled jobs after a round. -/
theorem scheduled_takeCandidate {value : ℤ} :
    (s.takeCandidate nowUs candidate).scheduled.score jobId = some value ↔
      ¬ (candidate.source = .scheduled ∧ candidate.jobId = jobId) ∧
        s.scheduled.score jobId = some value ∧
          (value ≤ nowUs → s.KeptDue (toLex (value, jobId))) := by
  rw [← score_dropDuplicates le_rfl]
  unfold takeCandidate
  cases candidate.source with
  | scheduled => simp [removeWaiting, SortedSet.score_erase, eq_comm]
  | _ => simp [removeWaiting]

/-- A round changes neither the leased jobs nor their records before it grants its lease. -/
theorem takeCandidate_frame (s : Store) (nowUs : ℤ) (candidate : Candidate) :
    (s.takeCandidate nowUs candidate).leased = s.leased ∧
      (s.takeCandidate nowUs candidate).leaseMeta = s.leaseMeta := by
  obtain ⟨scheduled, heq⟩ := dropDuplicates_frame nowUs s.scheduled.card s
  unfold takeCandidate
  rw [heq]
  cases candidate.source <;> exact ⟨rfl, rfl⟩

/-- After a round the leased job has a current copy, and no other job's copy is gone. -/
theorem current_grantLease {lease : GrantedLease} (hlease : lease.jobId = candidate.jobId)
    (workerId : Bytes) :
    ((s.takeCandidate nowUs candidate).grantLease workerId lease).Current jobId ↔
      s.Current jobId ∨ jobId = candidate.jobId := by
  have hleased : ((s.takeCandidate nowUs candidate).grantLease workerId lease).leased =
      s.leased.add candidate.jobId lease.deadline := by
    show (s.takeCandidate nowUs candidate).leased.add lease.jobId lease.deadline = _
    rw [(takeCandidate_frame s nowUs candidate).1, hlease]
  have hready : ((s.takeCandidate nowUs candidate).grantLease workerId lease).ready.score jobId =
      if candidate.source = .ready ∧ candidate.jobId = jobId then none
      else s.ready.score jobId := ready_takeCandidate
  unfold Current
  rw [hleased, hready, SortedSet.score_add]
  by_cases hjob : jobId = candidate.jobId
  · simp [hjob]
  · simp [hjob, Ne.symm hjob]

/-- A round leaves the other candidates. -/
theorem candidates_grantLease (hfirst : s.candidates nowUs = candidate :: rest)
    {lease : GrantedLease} (hlease : lease.jobId = candidate.jobId) (workerId : Bytes) :
    ((s.takeCandidate nowUs candidate).grantLease workerId lease).candidates nowUs = rest := by
  have hmem : candidate ∈ s.candidates nowUs := hfirst ▸ List.mem_cons_self
  rw [← eligible_removeWaiting hfirst]
  apply eligible_congr
  · apply SortedSet.ext_score
    intro jobId
    show (s.takeCandidate nowUs candidate).ready.score jobId = _
    rw [ready_takeCandidate]
    cases candidate.source with
    | ready => simp [removeWaiting, SortedSet.score_erase, deduplicated, eq_comm]
    | _ => simp [removeWaiting, deduplicated]
  · apply SortedSet.ext_score
    intro jobId
    apply Option.ext
    intro value
    rw [score_deduplicated, current_grantLease hlease]
    show (s.takeCandidate nowUs candidate).scheduled.score jobId = some value ∧ _ ↔ _
    rw [scheduled_takeCandidate]
    have hremoved : ((s.deduplicated nowUs).removeWaiting candidate.source
        candidate.jobId).scheduled.score jobId = some value ↔
          ¬ (candidate.source = .scheduled ∧ candidate.jobId = jobId) ∧
            (s.deduplicated nowUs).scheduled.score jobId = some value := by
      cases candidate.source with
      | scheduled => simp [removeWaiting, SortedSet.score_erase, eq_comm]
      | _ => simp [removeWaiting]
    rw [hremoved, score_deduplicated]
    rcases mem_candidates.mp hmem with ⟨hsource, hready⟩ | ⟨hsource, hscheduled, hdue, hfree⟩
    · have hcurrent : s.Current candidate.jobId := Or.inl (by simp [hready])
      constructor
      · rintro ⟨⟨hother, hvalue, _⟩, hfree⟩
        exact ⟨hother, hvalue, fun hle hcopy => hfree hle (Or.inl hcopy)⟩
      · rintro ⟨hother, hvalue, hfree⟩
        refine ⟨⟨hother, hvalue, fun hle => ⟨_, _, hvalue, hfree hle, le_rfl⟩⟩, fun hle => ?_⟩
        rintro (hcopy | rfl)
        · exact hfree hle hcopy
        · exact hfree hle hcurrent
    · constructor
      · rintro ⟨⟨hother, hvalue, _⟩, hnone⟩
        exact ⟨hother, hvalue, fun hle hcopy => hnone hle (Or.inl hcopy)⟩
      · rintro ⟨hother, hvalue, hnone⟩
        refine ⟨⟨hother, hvalue, fun hle => ⟨_, _, hvalue, hnone hle, le_rfl⟩⟩, fun hle => ?_⟩
        rintro (hcopy | rfl)
        · exact hnone hle hcopy
        · exact hother ⟨hsource, rfl⟩

/-! ## The loop -/

/-- The loop adds no scheduled entry. -/
theorem scheduled_of_reserveLoop {value : ℤ}
    (hscore : (reserveLoop args rounds s granted).1.scheduled.score jobId = some value) :
    s.scheduled.score jobId = some value := by
  induction rounds generalizing s granted with
  | zero => exact hscore
  | succ rounds ih =>
      cases hfirst : s.candidates args.nowUs with
      | nil =>
          rw [reserveLoop_of_nil hfirst] at hscore
          exact ((score_dropDuplicates le_rfl).mp hscore).1
      | cons candidate rest =>
          cases htoken : args.leaseTokens[granted.length]? with
          | none =>
              rw [reserveLoop_of_no_token hfirst htoken] at hscore
              exact (scheduled_takeCandidate.mp hscore).2.1
          | some token =>
              rw [reserveLoop_of_token hfirst htoken] at hscore
              have htaken := ih hscore
              exact (scheduled_takeCandidate.mp htaken).2.1

/-- The candidates that the loop takes: with too few tokens, the last without a lease. -/
def takes (s : Store) (args : ReserveArgs) (rounds count : ℕ) : List Candidate :=
  (s.candidates args.nowUs).take (min rounds (args.leaseTokens.length - count + 1))

theorem takes_of_token (hfirst : s.candidates args.nowUs = candidate :: rest)
    (htoken : args.leaseTokens[granted.length]? = some token) :
    s.takes args (rounds + 1) granted.length =
      candidate ::
        ((s.takeCandidate args.nowUs candidate).grantLease args.workerId
          (leaseOf args candidate token)).takes args rounds
            (granted ++ [leaseOf args candidate token]).length := by
  obtain ⟨hlt, _⟩ := List.getElem?_eq_some_iff.mp htoken
  have hcount : min (rounds + 1) (args.leaseTokens.length - granted.length + 1) =
      min rounds (args.leaseTokens.length - (granted.length + 1) + 1) + 1 := by
    omega
  unfold takes
  rw [candidates_grantLease hfirst rfl, hfirst, hcount, List.take_succ_cons, List.length_append,
    List.length_singleton]

theorem takes_of_no_token (hfirst : s.candidates args.nowUs = candidate :: rest)
    (htoken : args.leaseTokens[granted.length]? = none) :
    s.takes args (rounds + 1) granted.length = [candidate] := by
  have hshort := List.getElem?_eq_none_iff.mp htoken
  have hcount : min (rounds + 1) (args.leaseTokens.length - granted.length + 1) = 1 := by omega
  rw [takes, hfirst, hcount, List.take_succ_cons, List.take_zero]

theorem takes_of_nil (hnil : s.candidates args.nowUs = []) (count : ℕ) :
    s.takes args rounds count = [] := by
  rw [takes, hnil, List.take_nil]

/-- The ready jobs that the loop leaves. -/
theorem ready_reserveLoop :
    (reserveLoop args rounds s granted).1.ready.score jobId =
      if Takes (s.takes args rounds granted.length) .ready jobId then none
      else s.ready.score jobId := by
  induction rounds generalizing s granted with
  | zero => simp [reserveLoop, takes]
  | succ rounds ih =>
      cases hfirst : s.candidates args.nowUs with
      | nil =>
          obtain ⟨scheduled, heq⟩ := dropDuplicates_frame args.nowUs s.scheduled.card s
          rw [reserveLoop_of_nil hfirst, takes_of_nil hfirst, heq]
          simp
      | cons candidate rest =>
          cases htoken : args.leaseTokens[granted.length]? with
          | none =>
              rw [reserveLoop_of_no_token hfirst htoken, takes_of_no_token hfirst htoken]
              simp only [ready_takeCandidate, takes_cons, not_takes_nil, or_false]
          | some token =>
              rw [reserveLoop_of_token hfirst htoken, takes_of_token hfirst htoken, ih]
              show (if _ then none
                else (s.takeCandidate args.nowUs candidate).ready.score jobId) = _
              rw [ready_takeCandidate]
              simp only [takes_cons]
              split_ifs <;> simp_all

/-- The scheduled jobs without a current copy that the loop leaves. -/
theorem scheduled_reserveLoop (hfree : ¬ s.Current jobId) :
    (reserveLoop args rounds s granted).1.scheduled.score jobId =
      if Takes (s.takes args rounds granted.length) .scheduled jobId then none
      else s.scheduled.score jobId := by
  have htaken {s : Store} {candidate : Candidate} (hfree : ¬ s.Current jobId) :
      (s.takeCandidate args.nowUs candidate).scheduled.score jobId =
        if candidate.source = .scheduled ∧ candidate.jobId = jobId then none
        else s.scheduled.score jobId := by
    apply Option.ext
    intro value
    rw [scheduled_takeCandidate]
    split_ifs with htakes
    · simp [htakes]
    · simp only [htakes, not_false_eq_true, true_and]
      exact and_iff_left_of_imp fun hvalue _ => ⟨jobId, value, hvalue, hfree, le_rfl⟩
  induction rounds generalizing s granted with
  | zero => simp [reserveLoop, takes]
  | succ rounds ih =>
      cases hfirst : s.candidates args.nowUs with
      | nil =>
          rw [reserveLoop_of_nil hfirst, takes_of_nil hfirst,
            score_dropDuplicates_of_not_current hfree]
          simp
      | cons candidate rest =>
          cases htoken : args.leaseTokens[granted.length]? with
          | none =>
              rw [reserveLoop_of_no_token hfirst htoken, takes_of_no_token hfirst htoken]
              simp only [htaken hfree, takes_cons, not_takes_nil, or_false]
          | some token =>
              rw [reserveLoop_of_token hfirst htoken, takes_of_token hfirst htoken]
              by_cases hjob : jobId = candidate.jobId
              · -- the candidate was scheduled, and the loop adds no entry
                have hsource : candidate.source = .scheduled := by
                  rcases mem_candidates.mp (hfirst ▸ List.mem_cons_self) with
                    ⟨_, hready⟩ | ⟨hsource, _⟩
                  · exact absurd (Or.inl (by simp [hjob, hready])) hfree
                  · exact hsource
                have hnone :
                    (s.takeCandidate args.nowUs candidate).scheduled.score jobId = none := by
                  rw [htaken hfree, if_pos ⟨hsource, hjob.symm⟩]
                rw [if_pos (takes_cons.mpr (Or.inl ⟨hsource, hjob.symm⟩))]
                apply Option.eq_none_iff_forall_ne_some.mpr
                intro value hvalue
                have hbefore := scheduled_of_reserveLoop hvalue
                cases hnone.symm.trans hbefore
              · have hlater : ¬ ((s.takeCandidate args.nowUs candidate).grantLease args.workerId
                    (leaseOf args candidate token)).Current jobId := by
                  rw [current_grantLease rfl]
                  exact not_or.mpr ⟨hfree, hjob⟩
                rw [ih hlater]
                show (if _ then none
                  else (s.takeCandidate args.nowUs candidate).scheduled.score jobId) = _
                rw [htaken hfree]
                simp only [takes_cons, Ne.symm hjob, and_false, false_or, if_false]

/-- The loop leases the first candidates under the next tokens, in order. -/
theorem granted_reserveLoop :
    (reserveLoop args rounds s granted).2 =
      granted ++ List.zipWith (leaseOf args) ((s.candidates args.nowUs).take rounds)
        (args.leaseTokens.drop granted.length) := by
  induction rounds generalizing s granted with
  | zero => simp [reserveLoop]
  | succ rounds ih =>
      cases hfirst : s.candidates args.nowUs with
      | nil =>
          rw [reserveLoop_of_nil hfirst]
          simp
      | cons candidate rest =>
          cases htoken : args.leaseTokens[granted.length]? with
          | none =>
              rw [reserveLoop_of_no_token hfirst htoken,
                List.drop_eq_nil_of_le (List.getElem?_eq_none_iff.mp htoken)]
              simp
          | some token =>
              obtain ⟨hlt, hget⟩ := List.getElem?_eq_some_iff.mp htoken
              rw [reserveLoop_of_token hfirst htoken, ih, candidates_grantLease hfirst rfl,
                List.drop_eq_getElem_cons hlt, hget, List.take_succ_cons, List.zipWith_cons_cons,
                List.length_append, List.length_singleton, List.append_assoc,
                List.singleton_append]

/-! ## Refined stores -/

/-- A scheduled job of a refined store has no current copy. -/
theorem not_current_of_scheduled (hrefines : Refines s jobs) {value : ℤ}
    (hscore : s.scheduled.score jobId = some value) : ¬ s.Current jobId := by
  have hslot := hrefines.slot_eq jobId
  cases hplacement : (jobs jobId).placement <;>
    simp_all [Slot.ext_iff, slot, Job.toSlot, Current]

/-- A refined store has no duplicates. -/
theorem deduplicated_eq_self (hrefines : Refines s jobs) (nowUs : ℤ) :
    s.deduplicated nowUs = s := by
  have hscheduled : (s.deduplicated nowUs).scheduled = s.scheduled := by
    apply SortedSet.ext_score
    intro jobId
    apply Option.ext
    intro value
    rw [score_deduplicated]
    apply and_iff_left_of_imp
    intro hvalue _ hcurrent
    exact not_current_of_scheduled hrefines hvalue hcurrent
  show { s with scheduled := (s.deduplicated nowUs).scheduled } = s
  rw [hscheduled]

theorem candidates_eq_eligible (hrefines : Refines s jobs) (nowUs : ℤ) :
    s.candidates nowUs = s.eligible nowUs := by
  rw [candidates, deduplicated_eq_self hrefines]

/-- The loop leases the first eligible jobs under the next tokens, in order, and leaves
the others waiting. -/
theorem reserveLoop_takes (args : ReserveArgs) (rounds : ℕ) (hrefines : Refines s jobs)
    (granted : List GrantedLease) :
    let looped := reserveLoop args rounds s granted
    let left := s.takeAll ((s.eligible args.nowUs).take
      (min rounds (args.leaseTokens.length - granted.length + 1)))
    looped.1.ready = left.ready ∧ looped.1.scheduled = left.scheduled ∧
      looped.2 = granted ++ List.zipWith
        (fun candidate token => ⟨candidate.jobId, token, args.deadline⟩)
        ((s.eligible args.nowUs).take rounds) (args.leaseTokens.drop granted.length) := by
  intro looped left
  have htakes : s.takes args rounds granted.length = (s.eligible args.nowUs).take
      (min rounds (args.leaseTokens.length - granted.length + 1)) := by
    rw [takes, candidates_eq_eligible hrefines]
  refine ⟨?_, ?_, ?_⟩
  · apply SortedSet.ext_score
    intro jobId
    rw [ready_reserveLoop, ready_takeAll, htakes]
  · apply SortedSet.ext_score
    intro jobId
    by_cases hcurrent : s.Current jobId
    · have hnone : s.scheduled.score jobId = none := by
        apply Option.eq_none_iff_forall_ne_some.mpr
        intro value hvalue
        exact not_current_of_scheduled hrefines hvalue hcurrent
      rw [scheduled_takeAll, hnone, ite_self]
      apply Option.eq_none_iff_forall_ne_some.mpr
      intro value hvalue
      cases hnone.symm.trans (scheduled_of_reserveLoop hvalue)
    · rw [scheduled_reserveLoop hcurrent, scheduled_takeAll, htakes]
  · rw [← candidates_eq_eligible hrefines]
    exact granted_reserveLoop

end Store

end Redloop
