import Mathlib
import KarmaCore.Lib.ExceptTriple
import KarmaCore.Credit.ChainParameters
import KarmaCore.Proposal.ProposalRun

/-!
# Proposals that need the committee

A proposal that needs the committee account must leave the committee a review
period, and its expiration lies no further ahead than the maximum lifetime.
`chain_parameters::validate` compares the two after an unsigned subtraction, so
that it also accepts a review period no proposal can have.
-/

namespace KarmaCore.Proposals

open Authorities

inductive CreateError
  | assertion (message : String)
  | reviewPeriodRequired (min : ℕ)
  | reviewPeriodInsufficient (t min : ℕ)
  deriving DecidableEq, Repr

/-- `HARDFORK_CORE_429_TIME`. -/
def hardforkCore429Time : ℕ := 1512747600

variable {Rest Body : Type}

mutual

/-- `hf_429_visitor`, what it makes of an operation of another evaluator as a
parameter. -/
def Operation.hf429 (allowed : Body → Bool) : Operation Body → Bool
  | .create _ proposedOps _ _ => hf429All allowed proposedOps
  | .update _ => true
  | .delete _ => true
  | .other body => allowed body

def hf429All (allowed : Body → Bool) : List (Operation Body) → Bool
  | [] => true
  | op :: ops => op.hf429 allowed && hf429All allowed ops

end

/-- The operations name the committee account among their authorities. -/
def NeedsCommittee (env : Env Rest Body) (proposedOps : List (Operation Body)) : Prop :=
  committeeAccount ∈ requiredActive (proposedOps.map (Operation.required env)) ∨
    committeeAccount ∈ requiredOwner (proposedOps.map (Operation.required env))

instance (env : Env Rest Body) (proposedOps : List (Operation Body)) :
    Decidable (NeedsCommittee env proposedOps) :=
  inferInstanceAs (Decidable (_ ∨ _))

/-- `FC_ASSERT` and `GRAPHENE_ASSERT`. -/
def assertOr (condition : Prop) [Decidable condition] (error : CreateError) :
    Except CreateError Unit :=
  if condition then .ok () else .error error

@[simp] theorem assertOr_eq_ok {condition : Prop} [Decidable condition] {error : CreateError}
    {u : Unit} : assertOr condition error = .ok u ↔ condition := by
  by_cases h : condition <;> simp [assertOr, h]

/-- What a proposal that needs the committee must say of its review period. -/
def assertReviewPeriod (env : Env Rest Body) (parameters : ChainParameters)
    (proposedOps : List (Operation Body)) (reviewPeriodSeconds : Option ℕ) :
    Except CreateError Unit :=
  if NeedsCommittee env proposedOps then
    match reviewPeriodSeconds with
    | none => .error (.reviewPeriodRequired parameters.committeeProposalReviewPeriod)
    | some r =>
      assertOr (parameters.committeeProposalReviewPeriod ≤ r)
        (.reviewPeriodInsufficient r parameters.committeeProposalReviewPeriod)
  else .ok ()

/-- `proposal_create_evaluator::do_evaluate` with its errors.  A time plus a
number of seconds is a `uint32_t`, a difference of times has microseconds. -/
def createDoEvaluate (env : Env Rest Body) (allowed : Body → Bool) (parameters : ChainParameters)
    (proposedOps : List (Operation Body)) (expirationTime : ℕ) (reviewPeriodSeconds : Option ℕ)
    (headBlockTime : ℕ) : Except CreateError Unit := do
  assertOr (headBlockTime < expirationTime)
    (.assertion "Proposal has already expired on creation.")
  assertOr (expirationTime ≤ wrap32 (headBlockTime + parameters.maximumProposalLifetime))
    (.assertion "Proposal expiration time is too far in the future.")
  assertOr (∀ r ∈ reviewPeriodSeconds,
      (r : ℤ) * 1000000 < (expirationTime : ℤ) * 1000000 - headBlockTime * 1000000)
    (.assertion "Proposal review period must be less than its overall lifetime.")
  assertOr ((requiredOther (proposedOps.map (Operation.required env))).length = 0)
    (.assertion "other.size() == 0")
  assertReviewPeriod env parameters proposedOps reviewPeriodSeconds
  assertOr (0 < proposedOps.length)
    (.assertion "A transaction must have at least one operation")
  assertOr (validAll env proposedOps = true) (.assertion "operation_validate")
  assertOr (headBlockTime ≤ hardforkCore429Time → hf429All allowed proposedOps = true)
    (.assertion "hf_429")

variable {env : Env Rest Body} {allowed : Body → Bool} {parameters : ChainParameters}
  {proposedOps : List (Operation Body)} {expirationTime headBlockTime : ℕ}
  {reviewPeriodSeconds : Option ℕ}

/-! ## What the evaluator accepts -/

theorem assertReviewPeriod_eq_ok {u : Unit} :
    assertReviewPeriod env parameters proposedOps reviewPeriodSeconds = .ok u ↔
      (NeedsCommittee env proposedOps →
        ∃ r ∈ reviewPeriodSeconds, parameters.committeeProposalReviewPeriod ≤ r) := by
  by_cases hneeds : NeedsCommittee env proposedOps
  · cases reviewPeriodSeconds with
    | none => simp [assertReviewPeriod, hneeds]
    | some r => simp [assertReviewPeriod, hneeds]
  · simp [assertReviewPeriod, hneeds]

/-- The checks on the operations themselves. -/
structure OpsAccepted (env : Env Rest Body) (allowed : Body → Bool)
    (proposedOps : List (Operation Body)) (headBlockTime : ℕ) : Prop where
  other : requiredOther (proposedOps.map (Operation.required env)) = []
  nonempty : proposedOps ≠ []
  valid : validAll env proposedOps = true
  hf429 : headBlockTime ≤ hardforkCore429Time → hf429All allowed proposedOps = true

/-- The checks on the expiration time and the review period. -/
structure TimesAccepted (env : Env Rest Body) (parameters : ChainParameters)
    (proposedOps : List (Operation Body)) (expirationTime : ℕ) (reviewPeriodSeconds : Option ℕ)
    (headBlockTime : ℕ) : Prop where
  unexpired : headBlockTime < expirationTime
  within : expirationTime ≤ wrap32 (headBlockTime + parameters.maximumProposalLifetime)
  review : ∀ r ∈ reviewPeriodSeconds, headBlockTime + r < expirationTime
  committee : NeedsCommittee env proposedOps →
    ∃ r ∈ reviewPeriodSeconds, parameters.committeeProposalReviewPeriod ≤ r

theorem createDoEvaluate_eq_ok :
    createDoEvaluate env allowed parameters proposedOps expirationTime reviewPeriodSeconds
        headBlockTime = .ok () ↔
      TimesAccepted env parameters proposedOps expirationTime reviewPeriodSeconds headBlockTime ∧
        OpsAccepted env allowed proposedOps headBlockTime := by
  have hreview : (∀ r ∈ reviewPeriodSeconds,
      (r : ℤ) * 1000000 < (expirationTime : ℤ) * 1000000 - headBlockTime * 1000000) ↔
        ∀ r ∈ reviewPeriodSeconds, headBlockTime + r < expirationTime := by
    apply forall₂_congr
    intro r _
    omega
  simp only [createDoEvaluate, Except.bind_eq_ok, assertOr_eq_ok, assertReviewPeriod_eq_ok,
    hreview, List.length_eq_zero_iff, List.length_pos_iff]
  constructor
  · rintro ⟨_, hunexpired, _, hwithin, _, hreview, _, hother, _, hcommittee, _, hnonempty, _,
      hvalid, h429⟩
    exact ⟨⟨hunexpired, hwithin, hreview, hcommittee⟩, ⟨hother, hnonempty, hvalid, h429⟩⟩
  · rintro ⟨htimes, hops⟩
    exact ⟨(), htimes.unexpired, (), htimes.within, (), htimes.review, (), hops.other, (),
      htimes.committee, (), hops.nonempty, (), hops.valid, hops.hf429⟩

theorem wrap32_add {m n : ℕ} (h : m + n < 2 ^ 32) : wrap32 ((m : ℤ) + n) = m + n := by
  simp only [wrap32]
  omega

/-- In range, the evaluator of the proposal model accepts the same proposals. -/
theorem createEvaluate_iff {db : Db Rest Body}
    (hlifetime : env.maximumProposalLifetime db.rest = parameters.maximumProposalLifetime)
    (hreview : env.committeeProposalReviewPeriod db.rest = parameters.committeeProposalReviewPeriod)
    (hrange : db.headBlockTime + parameters.maximumProposalLifetime < 2 ^ 32)
    (h429 : db.headBlockTime ≤ hardforkCore429Time → hf429All allowed proposedOps = true) :
    db.createEvaluate env proposedOps expirationTime reviewPeriodSeconds = true ↔
      createDoEvaluate env allowed parameters proposedOps expirationTime reviewPeriodSeconds
        db.headBlockTime = .ok () := by
  have hwrap := wrap32_add hrange
  have hneeds : ¬NeedsCommittee env proposedOps ↔
      committeeAccount ∉ requiredActive (proposedOps.map (Operation.required env)) ∧
        committeeAccount ∉ requiredOwner (proposedOps.map (Operation.required env)) := by
    rw [NeedsCommittee, not_or]
  have hany : reviewPeriodSeconds.any (fun r ↦ parameters.committeeProposalReviewPeriod ≤ r) ↔
      ∃ r ∈ reviewPeriodSeconds, parameters.committeeProposalReviewPeriod ≤ r := by
    cases reviewPeriodSeconds <;> simp
  rw [createDoEvaluate_eq_ok]
  simp only [Db.createEvaluate, Bool.and_eq_true, Bool.or_eq_true, decide_eq_true_eq, hlifetime,
    hreview, ← hneeds]
  constructor
  · rintro ⟨⟨⟨⟨⟨⟨hunexpired, hwithin⟩, hperiod⟩, hother⟩, hcommittee⟩, hnonempty⟩, hvalid⟩
    refine ⟨⟨hunexpired, hwrap ▸ hwithin, ?_, ?_⟩, ⟨?_, ?_, hvalid, h429⟩⟩
    · intro r hr
      have := (Option.all_eq_true _ _).mp hperiod r hr
      simp only [decide_eq_true_eq] at this
      omega
    · intro hneed
      rcases hcommittee with hnot | hsome
      · exact absurd hneed hnot
      · exact hany.mp hsome
    · simpa using hother
    · simpa using hnonempty
  · rintro ⟨htimes, hops⟩
    refine ⟨⟨⟨⟨⟨⟨htimes.unexpired, hwrap ▸ htimes.within⟩, ?_⟩, ?_⟩, ?_⟩, ?_⟩, hops.valid⟩
    · rw [Option.all_eq_true]
      intro r hr
      have := htimes.review r hr
      simp only [decide_eq_true_eq]
      omega
    · simpa using hops.other
    · by_cases hneed : NeedsCommittee env proposedOps
      · exact .inr (hany.mpr (htimes.committee hneed))
      · exact .inl hneed
    · simpa using hops.nonempty

/-! ## The parameters that leave room for a proposal -/

/-- Of the two periods, `validate` knows their difference as a `uint32_t` only. -/
theorem blockInterval_lt_of_validate (h : parameters.validate = .ok ()) :
    0 < parameters.blockInterval ∧ parameters.blockInterval <
      wrap32 (parameters.maximumProposalLifetime - parameters.committeeProposalReviewPeriod) := by
  simp only [ChainParameters.validate, Checked.bind_eq_ok, require_eq_ok] at h
  obtain ⟨_, -, _, -, _, -, _, -, _, -, _, -, _, hpositive, _, -, _, -, _, -, _, -, _, -, _,
    hperiods, -⟩ := h
  exact ⟨hpositive, hperiods⟩

/-- Accepted parameters whose review period does not exceed the lifetime. -/
theorem reviewPeriod_lt_of_validate (h : parameters.validate = .ok ())
    (hle : parameters.committeeProposalReviewPeriod ≤ parameters.maximumProposalLifetime) :
    parameters.committeeProposalReviewPeriod < parameters.maximumProposalLifetime := by
  obtain ⟨hpositive, hperiods⟩ := blockInterval_lt_of_validate h
  apply lt_of_le_of_ne hle
  intro heq
  rw [heq, sub_self] at hperiods
  exact absurd hperiods (by simp [wrap32])

/-- Between the head time and the latest expiration time the review period must fit. -/
theorem TimesAccepted.reviewPeriod_lt (hneeds : NeedsCommittee env proposedOps)
    (h : TimesAccepted env parameters proposedOps expirationTime reviewPeriodSeconds
      headBlockTime) :
    headBlockTime + parameters.committeeProposalReviewPeriod <
      wrap32 (headBlockTime + parameters.maximumProposalLifetime) := by
  obtain ⟨r, hr, hle⟩ := h.committee hneeds
  have := h.review r hr
  exact lt_of_lt_of_le (by omega) h.within

/-- With accepted parameters, a proposal that needs the committee can be made
exactly if the review period does not exceed the lifetime and the end of the
lifetime is a time. -/
theorem committeeProposal_accepted_iff (hvalid : parameters.validate = .ok ())
    (hlifetime : parameters.maximumProposalLifetime < 2 ^ 32) (hhead : headBlockTime < 2 ^ 32)
    (hneeds : NeedsCommittee env proposedOps)
    (hops : OpsAccepted env allowed proposedOps headBlockTime) :
    (∃ expirationTime < 2 ^ 32, ∃ reviewPeriodSeconds < 2 ^ 32,
        createDoEvaluate env allowed parameters proposedOps expirationTime
          (some reviewPeriodSeconds) headBlockTime = .ok ()) ↔
      parameters.committeeProposalReviewPeriod ≤ parameters.maximumProposalLifetime ∧
        headBlockTime + parameters.maximumProposalLifetime < 2 ^ 32 := by
  constructor
  · rintro ⟨e, -, r, -, h⟩
    have hlt := (createDoEvaluate_eq_ok.mp h).1.reviewPeriod_lt hneeds
    -- past the last time the sum wraps to one before the head
    have hrange : headBlockTime + parameters.maximumProposalLifetime < 2 ^ 32 := by
      by_contra hover
      have : wrap32 (headBlockTime + parameters.maximumProposalLifetime) =
          headBlockTime + parameters.maximumProposalLifetime - 2 ^ 32 := by
        simp only [wrap32]
        omega
      omega
    have hwrap := wrap32_add hrange
    exact ⟨by omega, hrange⟩
  · rintro ⟨hle, hrange⟩
    have hlt := reviewPeriod_lt_of_validate hvalid hle
    refine ⟨headBlockTime + parameters.maximumProposalLifetime, hrange,
      parameters.committeeProposalReviewPeriod, by omega, ?_⟩
    apply createDoEvaluate_eq_ok.mpr
    refine ⟨⟨by omega, ?_, ?_, ?_⟩, hops⟩
    · exact (wrap32_add hrange).ge
    · rintro r ⟨⟩
      omega
    · exact fun _ ↦ ⟨_, rfl, le_rfl⟩

/-- The other operation changes the global parameters, for the committee. -/
def committeeEnv : Env Unit Unit :=
  { bareEnv with required := fun _ ↦ { feePayer := committeeAccount } }

theorem committeeProposal_accepted_default :
    ∃ expirationTime < 2 ^ 32, ∃ reviewPeriodSeconds < 2 ^ 32,
      createDoEvaluate committeeEnv (fun _ ↦ true) {} [.other ()] expirationTime
        (some reviewPeriodSeconds) 1600000000 = .ok () := by
  have hops : OpsAccepted committeeEnv (fun _ ↦ true) [.other ()] 1600000000 :=
    ⟨by decide, by decide, by decide, by decide⟩
  exact (committeeProposal_accepted_iff (by decide) (by decide) (by decide) (by decide) hops).mpr
    (by decide)

/-- A review period of two days in a lifetime of one. -/
def lockedParameters : ChainParameters :=
  { maximumProposalLifetime := 86400, committeeProposalReviewPeriod := 172800 }

theorem lockedParameters_no_proposal :
    lockedParameters.validate = .ok () ∧
      ¬∃ expirationTime < 2 ^ 32, ∃ reviewPeriodSeconds < 2 ^ 32,
        createDoEvaluate committeeEnv (fun _ ↦ true) lockedParameters [.other ()] expirationTime
          (some reviewPeriodSeconds) 1600000000 = .ok () := by
  refine ⟨by decide, ?_⟩
  rintro ⟨e, -, r, -, h⟩
  have hlt := (createDoEvaluate_eq_ok.mp h).1.reviewPeriod_lt (by decide)
  exact absurd hlt (by decide)

end KarmaCore.Proposals
