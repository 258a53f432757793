import Mathlib
import KarmaCore.Proposal.Execution

/-!
# Runs over the proposals

Transactions and the clearing of expired proposals, in any order and with
anything in between that leaves the proposals alone.
-/

namespace KarmaCore.Proposals

open Authorities

variable {Rest Body : Type} {env : Env Rest Body}

namespace Db

/-- The proposals that have expired. -/
def expiredIds (db : Db Rest Body) : Finset ProposalId :=
  ((db.proposals.filter fun p ↦ p.expirationTime ≤ db.headBlockTime).map (·.id)).toFinset

theorem mem_expiredIds {db : Db Rest Body} {id : ProposalId} :
    id ∈ db.expiredIds ↔ ∃ p ∈ db.proposals, p.expirationTime ≤ db.headBlockTime ∧ p.id = id := by
  simp [expiredIds, and_assoc]

theorem Keeps.expiredIds_subset {executing : List ProposalId} {a b : Db Rest Body}
    (h : Keeps executing a b) : b.expiredIds ⊆ a.expiredIds := by
  intro id hid
  obtain ⟨q, hq, hexp, rfl⟩ := mem_expiredIds.mp hid
  obtain ⟨p, hp, hpid, hptime⟩ := h.expired q hq hexp
  exact mem_expiredIds.mpr ⟨p, hp, by rw [hptime, ← h.time]; exact hexp, hpid⟩

end Db

namespace Chain

variable {s : Chain Rest Body} {depth n : ℕ}

theorem extends_applyTopLevel (op : Operation Body) (s : Chain Rest Body) :
    Extends s (applyTopLevel env depth op s).state :=
  (extends_record [] op s).trans
    (extends_applyOperation (extends_pushProposal depth []) [] op s)

theorem extends_transaction (ops : List (Operation Body)) (s : Chain Rest Body) :
    Extends s (Outcome.forEach (applyTopLevel env depth) ops s).state := by
  induction ops generalizing s with
  | nil => exact .refl s
  | cons op ops ih => exact extends_andThen (extends_applyTopLevel op s) ih

theorem applies_transaction {ops : List (Operation Body)} (hwf : s.db.WellFormed [])
    (hready : s.Ready) (hdepth : s.db.pool [] + createsAll ops ≤ depth) :
    Applies [] (createsAll ops) s (Outcome.forEach (applyTopLevel env depth) ops s) := by
  induction ops generalizing s with
  | nil => exact .returned (.refl _ s) ⟨.refl hwf, Nat.le_add_right _ _⟩
  | cons op ops ih =>
      rw [createsAll] at hdepth ⊢
      have hop : Applies [] op.creates s (applyTopLevel env depth op s) :=
        applies_applyOperation (pushProposal_spec depth []) (extends_pushProposal depth [])
          hwf hready (by omega)
      apply Spec.andThen hop (extends_transaction ops)
      rintro t hbalanced ⟨hkeeps, hle⟩
      apply (ih hkeeps.wellFormed (hbalanced.ready hready) (by omega)).mono _ fun _ _ ↦ trivial
      rintro u ⟨hkeeps', hle'⟩
      exact ⟨hkeeps.trans hkeeps', by omega⟩

/-! ## Expired proposals -/

theorem extends_clearProposal (p : ProposalObject Body) (s : Chain Rest Body) :
    Extends s (s.clearProposal env depth p).state := by
  have hpush : Extends s (pushProposal env depth [] p.id s).state :=
    extends_pushProposal depth [] p.id s
  unfold clearProposal
  split_ifs
  · generalize pushProposal env depth [] p.id s = x at hpush
    match x, hpush with
    | .returned t, hpush => exact hpush
    | .threw .exception t, hpush => exact hpush.trans (extends_removeProposal p.id t)
    | .threw .danglingProposal t, hpush => exact hpush
    | .threw .noUndoState t, hpush => exact hpush
    | .threw .tooDeep t, hpush => exact hpush
  · exact extends_removeProposal p.id s

theorem extends_clearExpiredProposals (s : Chain Rest Body) :
    Extends s (s.clearExpiredProposals env depth n).state := by
  induction n generalizing s with
  | zero =>
      unfold clearExpiredProposals
      split_ifs
      · exact .refl s
      · exact .refl s
  | succ n ih =>
      unfold clearExpiredProposals
      split
      · exact .refl s
      · exact extends_andThen (extends_clearProposal _ s) ih

/-- A call that keeps the proposals well formed and never throws. -/
def Completes (s : Chain Rest Body) (returns : Chain Rest Body → Prop) :
    Result Rest Body → Prop :=
  Spec 1 s (fun t ↦ Db.Keeps [] s.db t.db ∧ t.db.pool [] ≤ s.db.pool [] ∧ returns t) fun _ ↦ False

theorem completes_removeProposal {id : ProposalId} (hwf : s.db.WellFormed [])
    (hfound : (s.db.find id).isSome) :
    Completes s (fun t ↦ t.db.find id = none) (s.removeProposal id) := by
  obtain ⟨p, hp⟩ := Option.isSome_iff_exists.mp hfound
  simp only [removeProposal, hp]
  refine .returned ⟨rfl, rfl, rfl⟩ ⟨⟨Db.leaves_remove (by simp), (hwf.cons id).remove⟩, ?_,
    Db.find_remove_self⟩
  rw [Db.pool_remove]
  exact Db.pool_cons_le []

theorem completes_clearProposal {p : ProposalObject Body} (hwf : s.db.WellFormed [])
    (hp : p ∈ s.db.proposals) (hready : s.Ready) (hsize : 0 < s.undo.maxSize)
    (hdepth : s.db.pool [] ≤ depth) :
    Completes s (fun t ↦ t.db.find p.id = none) (s.clearProposal env depth p) := by
  have hfound : (s.db.find p.id).isSome := Db.find_isSome.mpr ⟨p, hp, rfl⟩
  have hpushes : Pushes depth [] (pushProposal env depth []) := pushProposal_spec depth []
  have hpush := hpushes p.id s hwf hfound (by simp) hsize hready
    hdepth
  unfold clearProposal
  split_ifs
  · generalize pushProposal env depth [] p.id s = x at hpush
    match x, hpush with
    | .returned t, hpush => exact hpush
    | .threw .exception t, hpush =>
      intro hclean
      obtain ⟨hbalanced, hdb⟩ := hpush ((extends_removeProposal p.id t).clean hclean)
      have hremoved := completes_removeProposal (s := t) (by rw [hdb]; exact hwf)
        (by rw [hdb]; exact hfound) hclean
      obtain ⟨q, hq⟩ := Option.isSome_iff_exists.mp hfound
      simp only [removeProposal, hdb, hq] at hremoved ⊢
      exact ⟨hbalanced.trans hremoved.1, hremoved.2⟩
    | .threw .danglingProposal t, hpush => exact hpush
    | .threw .noUndoState t, hpush => exact hpush
    | .threw .tooDeep t, hpush => exact hpush
  · exact completes_removeProposal hwf hfound

theorem nextExpired_eq_some {db : Db Rest Body} {p : ProposalObject Body}
    (h : nextExpired db = some p) : p ∈ db.proposals ∧ p.id ∈ db.expiredIds := by
  have hmem := List.argmin_mem h
  obtain ⟨hp, hexp⟩ := List.mem_filter.mp hmem
  exact ⟨hp, Db.mem_expiredIds.mpr ⟨p, hp, by simpa using hexp, rfl⟩⟩

theorem nextExpired_eq_none {db : Db Rest Body} :
    nextExpired db = none ↔ db.expiredIds = ∅ := by
  simp [nextExpired, Db.expiredIds, List.argmin_eq_none]

/-- Every round removes an expired proposal and makes no new one. -/
theorem completes_clearExpiredProposals (hwf : s.db.WellFormed []) (hready : s.Ready)
    (hsize : 0 < s.undo.maxSize) (hdepth : s.db.pool [] ≤ depth)
    (hn : s.db.expiredIds.card ≤ n) :
    Completes s (fun t ↦ t.db.expiredIds = ∅) (s.clearExpiredProposals env depth n) := by
  induction n generalizing s with
  | zero =>
      have hempty : s.db.expiredIds = ∅ := Finset.card_eq_zero.mp (Nat.le_zero.mp hn)
      have hnone := nextExpired_eq_none.mpr hempty
      simp only [clearExpiredProposals, hnone, Option.isSome_none, Bool.false_eq_true, if_false]
      exact .returned (.refl 1 s) ⟨.refl hwf, le_rfl, hempty⟩
  | succ n ih =>
      cases hnext : nextExpired s.db with
      | none =>
          simp only [clearExpiredProposals, hnext]
          exact .returned (.refl 1 s) ⟨.refl hwf, le_rfl, nextExpired_eq_none.mp hnext⟩
      | some p =>
          obtain ⟨hp, hexp⟩ := nextExpired_eq_some hnext
          simp only [clearExpiredProposals, hnext]
          apply (completes_clearProposal hwf hp hready hsize hdepth).andThen
            extends_clearExpiredProposals
          rintro t hbalanced ⟨hkeeps, hpool, hgone⟩
          have hnot : p.id ∉ t.db.expiredIds := fun hmem ↦ by
            obtain ⟨q, hq, -, hid⟩ := Db.mem_expiredIds.mp hmem
            have hsome := Db.find_isSome.mpr ⟨q, hq, hid⟩
            simp [hgone] at hsome
          have hcard : t.db.expiredIds.card < s.db.expiredIds.card := by
            apply Finset.card_lt_card
            exact Finset.ssubset_iff_subset_ne.mpr
              ⟨hkeeps.expiredIds_subset, fun heq ↦ hnot (heq ▸ hexp)⟩
          apply (ih hkeeps.wellFormed (hbalanced.ready hready) (by rwa [hbalanced.maxSize])
            (hpool.trans hdepth) (by omega)).mono _ fun _ h ↦ h
          rintro u ⟨hkeeps', hpool', hdone⟩
          exact ⟨hkeeps.trans hkeeps', hpool'.trans hpool, hdone⟩

end Chain

/-! ## Runs -/

structure Machine (Rest Body : Type) where
  chain : Chain Rest Body
  failure : Option Failure := none

inductive Event (Rest Body : Type)
  | transaction (ops : List (Operation Body))
  | clearExpired
  | between (time : ℕ) (rest : Rest) (undo : SessionStack (Db Rest Body))

namespace Machine

/-- What an event calls, with no depth or number of rounds beyond what the
proposals can need. -/
def call (env : Env Rest Body) (m : Machine Rest Body) :
    Event Rest Body → Chain.Result Rest Body
  | .transaction ops =>
    Outcome.forEach (Chain.applyTopLevel env (m.chain.db.pool [] + createsAll ops)) ops
      { m.chain with trace := [] }
  | .clearExpired =>
    Chain.clearExpiredProposals env (m.chain.db.pool []) m.chain.db.expiredIds.card
      { m.chain with trace := [] }
  | .between time rest undo =>
    .returned { m.chain with db := { m.chain.db with headBlockTime := time, rest }, undo }

/-- A transaction that throws is undone by the session around it. -/
def step (env : Env Rest Body) (m : Machine Rest Body) (event : Event Rest Body) :
    Machine Rest Body :=
  match m.failure, m.call env event with
  | some _, _ => m
  | none, .returned s => { chain := s }
  | none, .threw .exception s => { chain := { s with db := m.chain.db } }
  | none, .threw failure s => { chain := s, failure := some failure }

/-- No operation that is applied touches a proposal that is being executed, and
the undo database has room for the sessions. -/
def Undisturbed (env : Env Rest Body) (m : Machine Rest Body) (event : Event Rest Body) : Prop :=
  match event with
  | .transaction _ => m.chain.Ready ∧ (m.call env event).state.Clean
  | .clearExpired =>
    m.chain.Ready ∧ 0 < m.chain.undo.maxSize ∧ (m.call env event).state.Clean
  | .between .. => True

structure Sound (m : Machine Rest Body) : Prop where
  failure : m.failure = none
  wellFormed : m.chain.db.WellFormed []

theorem Sound.of_result {m : Machine Rest Body} {event : Event Rest Body} (hm : m.Sound)
    {returns : Chain Rest Body → Prop} {k : ℕ} {s : Chain Rest Body}
    (hreturns : ∀ t, returns t → t.db.WellFormed [])
    (hspec : Chain.Spec k s returns (fun _ ↦ True) (m.call env event))
    (hclean : (m.call env event).state.Clean) : (m.step env event).Sound := by
  have hresult := hspec hclean
  unfold step
  rw [hm.failure]
  generalize m.call env event = x at hresult
  match x, hresult with
  | .returned t, hresult => exact ⟨rfl, hreturns t hresult.2⟩
  | .threw .exception t, hresult => exact ⟨rfl, hm.wellFormed⟩

theorem Sound.step {m : Machine Rest Body} {event : Event Rest Body} (hm : m.Sound)
    (hundisturbed : m.Undisturbed env event) : (m.step env event).Sound := by
  cases event with
  | transaction ops =>
      obtain ⟨hready, hclean⟩ := hundisturbed
      exact hm.of_result (fun t ht ↦ ht.1.wellFormed)
        (Chain.applies_transaction (s := { m.chain with trace := [] }) hm.wellFormed hready
          le_rfl) hclean
  | clearExpired =>
      obtain ⟨hready, hsize, hclean⟩ := hundisturbed
      exact hm.of_result (fun t ht ↦ ht.1.wellFormed)
        ((Chain.completes_clearExpiredProposals (s := { m.chain with trace := [] }) hm.wellFormed
          hready hsize le_rfl le_rfl).mono (fun _ h ↦ h) fun _ _ ↦ trivial) hclean
  | between time rest undo =>
      have hwf := hm.wellFormed
      unfold Machine.step
      rw [hm.failure]
      exact ⟨rfl, hwf.nodup, hwf.fresh, hwf.effects_fresh, hwf.effects_nodup, hwf.unexecuted⟩

end Machine

/-- A call of `push_proposal` removes its proposal or leaves no effect. -/
def Resolves (id : ProposalId) (s : Chain Rest Body) (x : Chain.Result Rest Body) : Prop :=
  (∃ t, x = .returned t ∧ t.db.find id = none) ∨ ∃ t, x = .threw .exception t ∧ t.db = s.db

/-- While no operation touches a proposal that is being executed, no execution
reads a proposal that is gone or recurses beyond the proposals there are, each
operation of a proposal takes effect at most once, and an execution that fails,
at any depth, leaves no effect. -/
theorem proposals_executed_once {start m : Machine Rest Body} (hfailure : start.failure = none)
    (hstart : start.chain.db.WellFormed [])
    (h : Run.Reaches (Machine.step env) (Machine.Undisturbed env) start m) :
    m.failure = none ∧ m.chain.db.effects.Nodup ∧
      ∀ (depth : ℕ) (executing : List ProposalId) (id : ProposalId) (s : Chain Rest Body),
        s.db.WellFormed executing → (s.db.find id).isSome → id ∉ executing →
        executing.length < s.undo.maxSize → s.Ready → s.db.pool executing ≤ depth →
        (Chain.pushProposal env depth executing id s).state.Clean →
        Resolves id s (Chain.pushProposal env depth executing id s) := by
  have hsound : m.Sound := h.invariant Machine.Sound ⟨hfailure, hstart⟩
    fun s event hs hguard ↦ hs.step hguard
  refine ⟨hsound.failure, hsound.wellFormed.effects_nodup, ?_⟩
  intro depth executing id s hwf hfound hid hsize hready hdepth hclean
  have hresult := Chain.pushProposal_spec depth executing id s hwf hfound hid hsize hready hdepth
    hclean
  generalize Chain.pushProposal env depth executing id s = x at hresult
  match x, hresult with
  | .returned t, hresult => exact .inl ⟨t, rfl, hresult.2.2.2⟩
  | .threw .exception t, hresult => exact .inr ⟨t, rfl, hresult.2⟩

/-! ## Two runs -/

/-- Nothing but proposals; every account has one key. -/
def bareEnv : Env Unit Unit where
  maximumProposalLifetime _ := 100
  committeeProposalReviewPeriod _ := 10
  maxAuthorityDepth _ := 2
  active _ a := ⟨1, [], [(a, 1)]⟩
  owner _ a := ⟨1, [], [(a, 1)]⟩
  required _ := { feePayer := 7 }
  valid _ := true
  payFee _ rest := some rest
  adjustBalance _ rest := some rest
  applyBody _ rest := some rest

def bareDb : Db Unit Unit where
  proposals := []
  nextId := 0
  headBlockTime := 0
  rest := ()

def bareMachine : Machine Unit Unit where
  chain := { db := bareDb, undo := ⟨[bareDb], 0, 10⟩ }

def propose (ops : List (Operation Unit)) : Event Unit Unit := .transaction [.create 7 ops 10 none]

def approve : Event Unit Unit :=
  .transaction [.update { feePayingAccount := 7, proposal := 0, activeApprovalsToAdd := [7] }]

instance (maxSize : ℕ) (step : Step Body) : Decidable (step.Clean maxSize) := by
  unfold Step.Clean
  split <;> infer_instance

instance (s : Chain Rest Body) : Decidable s.Clean :=
  inferInstanceAs (Decidable (∀ step ∈ s.trace, step.Clean s.undo.maxSize))

theorem bareDb_wellFormed : bareDb.WellFormed [] :=
  ⟨List.nodup_nil, by simp [bareDb], by simp [bareDb], List.nodup_nil, by simp [bareDb]⟩

theorem bareMachine_reaches : Run.Reaches (Machine.step bareEnv) (Machine.Undisturbed bareEnv)
    bareMachine ((bareMachine.step bareEnv (propose [.other ()])).step bareEnv approve) := by
  apply Run.Reaches.next
  · apply Run.Reaches.next
    · exact .refl
    · exact ⟨.inl (by simp [bareMachine]), by decide⟩
  · exact ⟨.inr rfl, by decide⟩

theorem proposals_executed_once_approved :
    ((bareMachine.step bareEnv (propose [.other ()])).step bareEnv approve).failure = none ∧
      ((bareMachine.step bareEnv (propose [.other ()])).step bareEnv approve).chain.db.effects =
        [(0, 0)] :=
  ⟨(proposals_executed_once rfl bareDb_wellFormed bareMachine_reaches).1, by decide⟩

/-- A proposal may delete itself. -/
def selfDeleting : Machine Unit Unit :=
  (bareMachine.step bareEnv
    (propose [.delete { feePayingAccount := 7, proposal := 0 }])).step bareEnv approve

theorem selfDeleting_dangles :
    Run.Reaches (Machine.step bareEnv) (fun _ _ ↦ True) bareMachine selfDeleting ∧
      selfDeleting.failure = some .danglingProposal :=
  ⟨.next _ (.next _ .refl trivial) trivial, by decide⟩

end KarmaCore.Proposals
