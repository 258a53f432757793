import Mathlib
import KarmaCore.Credit.ChainParameters
import KarmaCore.Market.SupplyRun

/-!
# The way of a fee

A fee is converted to core and put aside when it is paid, and split among the
network, the referrers and the registrar when it is paid out.  The percentages
of the split are those an account gets when it is created or upgraded.
-/

namespace KarmaCore.Market

open Transfer (get get_eq_ok)
open Books ObjectIndex

/-! ## The percentages of an account -/

/-- What `account_create` says of the referrer. -/
structure ReferralTerms where
  registrar : AccountId
  referrer : AccountId
  referrerPercent : ℕ

namespace ReferralTerms

def hardfork453Time : ℕ := 1450288800

def validate (op : ReferralTerms) : Checked Unit :=
  require (op.referrerPercent ≤ percent100) "referrer_percent <= GRAPHENE_100_PERCENT"

/-- Up to the hard fork a small percentage of another referrer was meant in whole percents. -/
def HasSmallPercent (headBlockTime : ℕ) (op : ReferralTerms) : Prop :=
  headBlockTime ≤ hardfork453Time ∧ op.referrer ≠ op.registrar ∧ op.referrerPercent ≠ 0 ∧
    op.referrerPercent ≤ 0x100

instance (headBlockTime : ℕ) (op : ReferralTerms) : Decidable (op.HasSmallPercent headBlockTime) :=
  inferInstanceAs (Decidable (_ ∧ _))

def referrerRewardsPercentage (headBlockTime : ℕ) (op : ReferralTerms) : ℕ :=
  if op.HasSmallPercent headBlockTime then min (op.referrerPercent * 100) percent100
  else op.referrerPercent

end ReferralTerms

namespace AccountObject

/-- The percentages `account_create` gives a new account. -/
def setPercentages (p : KarmaCore.ChainParameters) (op : ReferralTerms) (headBlockTime : ℕ)
    (a : AccountObject) : AccountObject :=
  { a with
    networkFeePercentage := p.networkPercentOfFee
    lifetimeReferrerFeePercentage := p.lifetimeReferrerPercentOfFee
    referrerRewardsPercentage := op.referrerRewardsPercentage headBlockTime }

/-- `account_upgrade` to a lifetime member. -/
def upgrade (id : AccountId) (a : AccountObject) : AccountObject :=
  { a with
    membershipExpirationDate := 2 ^ 32 - 1
    referrer := id
    registrar := id
    lifetimeReferrer := id
    lifetimeReferrerFeePercentage := percent100 - a.networkFeePercentage }

/-- The percentages an account can have under validated parameters: those of the accounts of the
chain itself, those of `account_create`, and what later operations make of them. -/
inductive HasPercentages : AccountObject → Prop
  | genesis (a : AccountObject) (hnetwork : a.networkFeePercentage = 2000 ∨ a.networkFeePercentage = 0)
      (hlifetime : a.lifetimeReferrerFeePercentage = percent100 - a.networkFeePercentage)
      (hreferrer : a.referrerRewardsPercentage = 0) : HasPercentages a
  | created (a : AccountObject) (p : KarmaCore.ChainParameters) (op : ReferralTerms)
      (headBlockTime : ℕ) (hp : p.validate = .ok ()) (hop : op.validate = .ok ()) :
      HasPercentages (a.setPercentages p op headBlockTime)
  | upgraded (a : AccountObject) (id : AccountId) (ha : HasPercentages a) :
      HasPercentages (a.upgrade id)
  | updated (a a' : AccountObject) (ha : HasPercentages a)
      (hnetwork : a'.networkFeePercentage = a.networkFeePercentage)
      (hlifetime : a'.lifetimeReferrerFeePercentage = a.lifetimeReferrerFeePercentage)
      (hreferrer : a'.referrerRewardsPercentage = a.referrerRewardsPercentage) : HasPercentages a'

theorem HasPercentages.bounds {a : AccountObject} (h : a.HasPercentages) :
    a.networkFeePercentage + a.lifetimeReferrerFeePercentage ≤ percent100 ∧
      a.referrerRewardsPercentage ≤ percent100 := by
  induction h with
  | genesis a hnetwork hlifetime hreferrer =>
      rw [hlifetime, hreferrer]
      rcases hnetwork with hnetwork | hnetwork <;> rw [hnetwork] <;> decide
  | created a p op headBlockTime hp hop =>
      simp only [KarmaCore.ChainParameters.validate, Checked.bind_eq_ok, require_eq_ok] at hp
      obtain ⟨_, -, _, -, _, -, _, hsum, -⟩ := hp
      have hpercent : op.referrerPercent ≤ percent100 := require_eq_ok.mp hop
      refine ⟨hsum, ?_⟩
      change op.referrerRewardsPercentage headBlockTime ≤ percent100
      unfold ReferralTerms.referrerRewardsPercentage
      split_ifs
      exacts [min_le_right _ _, hpercent]
  | upgraded a id _ ih =>
      refine ⟨?_, ih.2⟩
      change a.networkFeePercentage + (percent100 - a.networkFeePercentage) ≤ percent100
      omega
  | updated a a' _ hnetwork hlifetime hreferrer ih =>
      rw [hnetwork, hlifetime, hreferrer]
      exact ih

end AccountObject

/-! ## The parts of a fee -/

/-- A cut is a part of the amount: what the percentage makes of it, rounded down. -/
theorem cutFee_nonneg {a : ℤ} (ha : 0 ≤ a) (p : ℕ) : 0 ≤ cutFee a p := by
  unfold cutFee
  split_ifs
  · exact le_rfl
  · exact ha
  · exact Int.ediv_nonneg (mul128_nonneg _ _) (Int.natCast_nonneg _)

theorem cutFee_le_percent {a : ℤ} (ha : 0 ≤ a) (p : ℕ) : cutFee a p * percent100 ≤ a * p := by
  unfold cutFee
  split_ifs with hzero hall
  · rw [zero_mul]
    positivity
  · rw [hall]
  · have hdiv := Int.ediv_mul_le (mul128 a p) (show (percent100 : ℤ) ≠ 0 by decide)
    exact hdiv.trans (mul128_le (by positivity))

theorem cutFee_le {a : ℤ} (ha : 0 ≤ a) {p : ℕ} (hp : p ≤ percent100) : cutFee a p ≤ a := by
  have hcut := cutFee_le_percent ha p
  have hpart : a * p ≤ a * percent100 := mul_le_mul_of_nonneg_left (by exact_mod_cast hp) ha
  exact le_of_mul_le_mul_right (hcut.trans hpart) (by decide)

/-- Two cuts of at most everything together fit into the amount. -/
theorem cutFee_add_le {a : ℤ} (ha : 0 ≤ a) {p q : ℕ} (hpq : p + q ≤ percent100) :
    cutFee a p + cutFee a q ≤ a := by
  have hp := cutFee_le_percent ha p
  have hq := cutFee_le_percent ha q
  have hpart : a * (p + q : ℕ) ≤ a * percent100 :=
    mul_le_mul_of_nonneg_left (by exact_mod_cast hpq) ha
  have hboth : (cutFee a p + cutFee a q) * percent100 ≤ a * percent100 := by
    push_cast at hpart
    linarith
  exact le_of_mul_le_mul_right hboth (by decide)

structure FeeParts where
  network : ℤ
  lifetime : ℤ
  referrer : ℤ
  registrar : ℤ
  deriving DecidableEq

/-- The parts `pay_out_fees` splits an amount into. -/
def AccountObject.feeParts (coreFeeTotal : ℤ) (a : AccountObject) : FeeParts :=
  let network := cutFee coreFeeTotal a.networkFeePercentage
  let lifetime := cutFee coreFeeTotal a.lifetimeReferrerFeePercentage
  let referral := coreFeeTotal - network - lifetime
  let referrer := cutFee referral a.referrerRewardsPercentage
  ⟨network, lifetime, referrer, referral - referrer⟩

/-- Non-negative parts that add up to the amount. -/
structure FeeParts.Splits (total : ℤ) (f : FeeParts) : Prop where
  network : 0 ≤ f.network
  lifetime : 0 ≤ f.lifetime
  referrer : 0 ≤ f.referrer
  registrar : 0 ≤ f.registrar
  sum : f.network + f.lifetime + f.referrer + f.registrar = total

theorem AccountObject.splits_of_bounds {a : AccountObject}
    (hshares : a.networkFeePercentage + a.lifetimeReferrerFeePercentage ≤ percent100)
    (hreferrer : a.referrerRewardsPercentage ≤ percent100) {total : ℤ} (htotal : 0 ≤ total) :
    (a.feeParts total).Splits total := by
  have hcuts := cutFee_add_le htotal hshares
  have hreferral : 0 ≤ total - cutFee total a.networkFeePercentage -
      cutFee total a.lifetimeReferrerFeePercentage := by linarith
  exact
    { network := cutFee_nonneg htotal _
      lifetime := cutFee_nonneg htotal _
      referrer := cutFee_nonneg hreferral _
      registrar := sub_nonneg.mpr (cutFee_le hreferral hreferrer)
      sum := by
        simp only [AccountObject.feeParts]
        ring }

theorem AccountObject.HasPercentages.splits {a : AccountObject} (h : a.HasPercentages) {total : ℤ}
    (htotal : 0 ≤ total) : (a.feeParts total).Splits total :=
  AccountObject.splits_of_bounds h.bounds.1 h.bounds.2 htotal

example : ({ referrerRewardsPercentage := 3333 } : AccountObject).feeParts 101 = ⟨20, 30, 16, 35⟩ := by
  decide

/-! ## Where the parts go -/

/-- The accounts of the chain itself, which get no cashback. -/
def systemAccounts : List AccountId :=
  [committeeAccount, witnessAccount, relaxedCommitteeAccount, nullAccount, tempAccount]

/-- What of some deposits is taken out of the supply. -/
def burnt (cashback : List (AccountId × ℤ)) : ℤ :=
  ((cashback.filter (·.1 ∈ systemAccounts)).map Prod.snd).sum

/-- What of some deposits goes to the vesting balances of an owner. -/
def vestedPart (owner : AccountId) (cashback : List (AccountId × ℤ)) : ℤ :=
  ((cashback.filter fun c ↦ c.1 = owner ∧ c.1 ∉ systemAccounts).map Prod.snd).sum

theorem burnt_append (c c' : List (AccountId × ℤ)) : burnt (c ++ c') = burnt c + burnt c' := by
  simp [burnt]

theorem vestedPart_append (owner : AccountId) (c c' : List (AccountId × ℤ)) :
    vestedPart owner (c ++ c') = vestedPart owner c + vestedPart owner c' := by
  simp [vestedPart]

theorem burnt_single (acct : AccountId) (x : ℤ) :
    burnt [(acct, x)] = if acct ∈ systemAccounts then x else 0 := by
  by_cases hsystem : acct ∈ systemAccounts <;> simp [burnt, hsystem]

theorem vestedPart_single (owner acct : AccountId) (x : ℤ) :
    vestedPart owner [(acct, x)] = if acct = owner ∧ acct ∉ systemAccounts then x else 0 := by
  unfold vestedPart
  rw [List.filter_singleton]
  by_cases howner : acct = owner ∧ acct ∉ systemAccounts
  · rw [decide_eq_true howner, if_pos howner]
    exact List.sum_singleton
  · rw [decide_eq_false howner, if_neg howner]
    rfl

/-- All of an account but its vesting balance for cashback. -/
def AccountObject.bare (a : AccountObject) : AccountObject := { a with cashbackVb := none }

namespace MarketState

variable {s s' : MarketState} {acct : AccountId} {amount : ℤ}

/-- The core in the vesting balances of an owner. -/
def vestedOf (owner : AccountId) (s : MarketState) : ℤ :=
  s.vestingBalances.total fun _ v ↦ if v.owner = owner then v.balance.part coreAsset else 0

/-- What the network collects, what is burnt and what is vested of some deposits. -/
structure Flows (network : ℤ) (cashback : List (AccountId × ℤ)) (s s' : MarketState) : Prop where
  accumulated : s'.accumulatedFees coreAsset = s.accumulatedFees coreAsset + network
  supply : s'.currentSupply coreAsset = s.currentSupply coreAsset - burnt cashback
  vested : ∀ owner, s'.vestedOf owner = s.vestedOf owner + vestedPart owner cashback

theorem Flows.trans {s'' : MarketState} {n n' : ℤ} {c c' : List (AccountId × ℤ)}
    (h : Flows n c s s') (h' : Flows n' c' s' s'') : Flows (n + n') (c ++ c') s s'' where
  accumulated := by rw [h'.accumulated, h.accumulated, add_assoc]
  supply := by
    rw [h'.supply, h.supply, burnt_append]
    ring
  vested owner := by rw [h'.vested, h.vested, vestedPart_append, add_assoc]

/-- Everything that collecting for the network and depositing cashback do. -/
structure Distributes (network : ℤ) (cashback : List (AccountId × ℤ)) (s s' : MarketState) : Prop
    extends Flows network cashback s s' where
  books : s'.books = s.books + held coreAsset (network + (cashback.map Prod.snd).sum)
  accounts : ∀ id, (s'.accounts.find id).map AccountObject.bare =
    (s.accounts.find id).map AccountObject.bare
  headBlockTime : s'.headBlockTime = s.headBlockTime

theorem Distributes.refl (s : MarketState) : Distributes 0 [] s s where
  accumulated := (add_zero _).symm
  supply := (sub_zero _).symm
  vested _ := (add_zero _).symm
  books := by simp
  accounts _ := rfl
  headBlockTime := rfl

theorem Distributes.trans {s'' : MarketState} {n n' : ℤ} {c c' : List (AccountId × ℤ)}
    (h : Distributes n c s s') (h' : Distributes n' c' s' s'') :
    Distributes (n + n') (c ++ c') s s'' where
  toFlows := h.toFlows.trans h'.toFlows
  books := by
    rw [h'.books, h.books, add_assoc, ← map_add]
    congr 2
    simp only [List.map_append, List.sum_append]
    ring
  accounts id := (h'.accounts id).trans (h.accounts id)
  headBlockTime := h'.headBlockTime.trans h.headBlockTime

theorem distributes_of_network
    (h : s.modifyDynamicData coreAsset (fun d ↦ do
      return { d with accumulatedFees := ← checkedShare (d.accumulatedFees + amount) }) = .ok s') :
    Distributes amount [] s s' := by
  obtain ⟨a, d, ha, hd, rfl⟩ := modifyDynamicData_cases h
  simp only [Checked.bind_eq_ok, Checked.pure_eq_ok, checkedShare_eq_ok] at hd
  obtain ⟨_, ⟨-, rfl⟩, rfl⟩ := hd
  refine ⟨⟨?_, ?_, fun _ ↦ (add_zero _).symm⟩, ?_, fun _ ↦ rfl, rfl⟩
  · rw [accumulatedFees_setAsset ha, if_pos rfl, accumulatedFees_of_find ha]
  · rw [currentSupply_setAsset ha, if_pos rfl, currentSupply_of_find ha]
    exact (sub_zero _).symm
  · rw [books_setAsset ha]
    simp only [AssetObject.books, AssetObject.fund, AssetDynamicData.books, map_add, map_sub,
      List.map_nil, List.sum_nil, map_zero]
    abel

theorem distributes_of_burn (hsystem : acct ∈ systemAccounts)
    (h : s.modifyDynamicData coreAsset (·.subSupply amount) = .ok s') :
    Distributes 0 [(acct, amount)] s s' := by
  obtain ⟨a, d, ha, hd, rfl⟩ := modifyDynamicData_cases h
  simp only [AssetDynamicData.subSupply, Checked.bind_eq_ok, Checked.pure_eq_ok,
    checkedShare_eq_ok] at hd
  obtain ⟨_, ⟨-, rfl⟩, rfl⟩ := hd
  refine ⟨⟨?_, ?_, fun owner ↦ ?_⟩, ?_, fun _ ↦ rfl, rfl⟩
  · rw [accumulatedFees_setAsset ha, if_pos rfl, accumulatedFees_of_find ha, add_zero]
  · rw [currentSupply_setAsset ha, if_pos rfl, currentSupply_of_find ha]
    rw [burnt_single, if_pos hsystem]
  · rw [vestedPart_single, if_neg (fun h ↦ h.2 hsystem), add_zero]
    rfl
  · rw [books_setAsset ha]
    simp only [AssetObject.books, AssetObject.fund, AssetDynamicData.books, map_add, map_sub,
      List.map_cons, List.map_nil, List.sum_cons, List.sum_nil, map_zero]
    abel

/-- A deposit into the vesting balances of an owner that leaves all else alone. -/
theorem distributes_of_vested {ix : ObjectIndex VestingBalanceObject}
    (hsystem : acct ∉ systemAccounts)
    (hvested : ∀ owner, ({ s with vestingBalances := ix } : MarketState).vestedOf owner =
      s.vestedOf owner + if acct = owner then amount else 0)
    (hbooks : ({ s with vestingBalances := ix } : MarketState).books =
      s.books + held coreAsset amount) :
    Distributes 0 [(acct, amount)] s { s with vestingBalances := ix } := by
  refine ⟨⟨(add_zero _).symm, ?_, fun owner ↦ ?_⟩, ?_, fun _ ↦ rfl, rfl⟩
  · rw [burnt_single, if_neg hsystem, sub_zero]
    rfl
  · simp only [hvested, vestedPart_single, hsystem, not_false_eq_true, and_true]
  · rw [hbooks]
    simp

theorem distributes_of_depositVesting {key : ℕ} {vbo : VestingBalanceObject}
    (hsystem : acct ∉ systemAccounts) (hvbo : s.vestingBalances.find key = some vbo)
    (howner : vbo.owner = acct) (h : s.depositVesting key vbo amount = .ok s') :
    Distributes 0 [(acct, amount)] s s' := by
  simp only [depositVesting, Checked.bind_eq_ok, Checked.pure_eq_ok] at h
  obtain ⟨balance, hbalance, rfl⟩ := h
  obtain ⟨hcore, -, rfl⟩ := Asset.add_eq_ok.mp hbalance
  dsimp only at hcore
  refine distributes_of_vested hsystem (fun owner ↦ ?_) ?_
  · simp only [vestedOf, total_set hvbo, howner, hcore, Asset.part]
    split_ifs <;> omega
  · simp only [books, total_set hvbo, hcore, map_add]
    abel

theorem distributes_of_depositLazyVesting {vbid created : Option ℕ} {vestingSeconds : ℕ}
    (hsystem : acct ∉ systemAccounts) (hamount : amount ≠ 0)
    (h : s.depositLazyVesting vbid amount vestingSeconds acct = .ok (created, s')) :
    Distributes 0 [(acct, amount)] s s' := by
  unfold depositLazyVesting at h
  simp only [if_neg hamount, Checked.bind_eq_ok] at h
  obtain ⟨target, htarget, h⟩ := h
  cases target with
  | none =>
      obtain ⟨-, rfl⟩ := Prod.mk.inj (Except.ok.inj h)
      refine distributes_of_vested hsystem (fun owner ↦ ?_) (books_createVesting _)
      simp only [vestedOf, total_create, Asset.part_mk]
      rfl
  | some target =>
      obtain ⟨key, vbo⟩ := target
      simp only [Checked.bind_eq_ok, Checked.pure_eq_ok] at h
      obtain ⟨s₁, hdeposit, heq⟩ := h
      obtain ⟨-, rfl⟩ := Prod.mk.inj heq
      unfold lazyVestingTarget at htarget
      cases vbid with
      | none => cases htarget
      | some id =>
          simp only [Checked.bind_eq_ok, get_eq_ok, Checked.pure_eq_ok] at htarget
          obtain ⟨vbo', hvbo, heq⟩ := htarget
          split_ifs at heq with hreusable
          obtain ⟨rfl, rfl⟩ := Prod.mk.inj (Option.some.inj heq)
          exact distributes_of_depositVesting hsystem hvbo hreusable.1 hdeposit

/-- A write of an account that leaves everything but its cashback balance alone. -/
theorem distributes_of_setCashbackVb {vbid : Option ℕ} (h : s.setCashbackVb acct vbid = .ok s') :
    Distributes 0 [] s s' := by
  unfold setCashbackVb at h
  split at h
  · simp only [modifyAccount, Checked.bind_eq_ok, Checked.pure_eq_ok, get_eq_ok] at h
    obtain ⟨a, ha, a', ha', rfl⟩ := h
    obtain rfl := Except.ok.inj ha'
    refine { Distributes.refl s with
      books := by rw [(payment_of_setAccount ha).books, sub_self]; simp
      accounts := fun id ↦ ?_ }
    rw [find_set ha]
    split_ifs with hid
    · rw [hid, ha]
      rfl
    · rfl
  · obtain rfl := Except.ok.inj h
    exact .refl s

theorem distributes_of_depositCashback (h : s.depositCashback acct amount = .ok s') :
    Distributes 0 [(acct, amount)] s s' := by
  simp only [depositCashback, Checked.bind_eq_ok] at h
  obtain ⟨account, -, h⟩ := h
  split_ifs at h with hzero hsystem
  · obtain rfl := Checked.pure_eq_ok.mp h
    subst hzero
    exact { Distributes.refl s with
      supply := by rw [burnt_single, ite_self, sub_zero]
      vested := fun owner ↦ by rw [vestedPart_single, ite_self, add_zero]
      books := by simp }
  · exact distributes_of_burn (by simpa [systemAccounts] using hsystem) h
  · simp only [Checked.bind_eq_ok, Prod.exists] at h
    obtain ⟨vbid, s₁, hdeposit, hset⟩ := h
    have hdeposited :=
      distributes_of_depositLazyVesting (by simpa [systemAccounts] using hsystem) hzero hdeposit
    exact hdeposited.trans (distributes_of_setCashbackVb hset)

end MarketState

/-! ## Paying out -/

/-- The referrer who is paid: the lifetime referrer instead of one who is no longer a member. -/
def AccountObject.paidReferrer (s : MarketState) (a : AccountObject) : AccountId :=
  match s.accounts.find a.referrer with
  | some referrer =>
      if referrer.isBasicAccount s.headBlockTime then a.lifetimeReferrer else a.referrer
  | none => a.referrer

/-- Who gets which part. -/
def AccountObject.cashback (referrer : AccountId) (f : FeeParts) (a : AccountObject) :
    List (AccountId × ℤ) :=
  [(a.lifetimeReferrer, f.lifetime), (referrer, f.referrer), (a.registrar, f.registrar)]

/-- The statistics of an account once its pending fees were paid out. -/
def AccountStatistics.paidOut (b : AccountStatistics) : AccountStatistics :=
  { b with
    lifetimeFeesPaid := b.lifetimeFeesPaid + (b.pendingFees + b.pendingVestedFees)
    pendingFees := 0
    pendingVestedFees := 0 }

theorem AccountStatistics.paidOut_of_zero {b : AccountStatistics} (hpending : b.pendingFees = 0)
    (hvested : b.pendingVestedFees = 0) : b.paidOut = b := by
  obtain ⟨totalCoreInOrders, lifetimeFeesPaid, pendingFees, pendingVestedFees⟩ := b
  simp only at hpending hvested
  simp only [paidOut, hpending, hvested, add_zero]

theorem AccountObject.cashback_sum (referrer : AccountId) (total : ℤ) (a : AccountObject) :
    (a.feeParts total).network +
      ((a.cashback referrer (a.feeParts total)).map Prod.snd).sum = total := by
  simp only [AccountObject.cashback, AccountObject.feeParts, List.map_cons, List.map_nil,
    List.sum_cons, List.sum_nil]
  ring

namespace MarketState

variable {s s' t : MarketState} {acct : AccountId} {a : AccountObject} {total : ℤ}

/-- What one call of `pay_out_fees` does. -/
structure PaidOut (acct : AccountId) (a : AccountObject) (total : ℤ) (s s' : MarketState) :
    Prop where
  flows : Flows (a.feeParts total).network (a.cashback (a.paidReferrer s) (a.feeParts total)) s s'
  books : s'.books = s.books + held coreAsset total
  account : ∃ vb, s'.accounts.find acct =
    some { a with referrer := a.paidReferrer s, cashbackVb := vb }
  members : ∀ id, (s'.accounts.find id).map (·.membershipExpirationDate) =
    (s.accounts.find id).map (·.membershipExpirationDate)
  headBlockTime : s'.headBlockTime = s.headBlockTime

theorem updateReferrer_eq_ok (ha : s.accounts.find acct = some a)
    (h : s.updateReferrer acct = .ok t) :
    (t = { s with
      accounts := s.accounts.set acct { a with referrer := a.paidReferrer s } }) ∨
      t = s ∧ a.paidReferrer s = a.referrer := by
  simp only [updateReferrer, Checked.bind_eq_ok, get_eq_ok] at h
  obtain ⟨a₁, ha₁, referrer, hreferrer, h⟩ := h
  obtain rfl := Option.some.inj (ha.symm.trans ha₁)
  unfold AccountObject.paidReferrer
  rw [hreferrer]
  dsimp only
  rcases whenever_eq_ok.mp h with ⟨hbasic, h⟩ | ⟨hmember, rfl⟩
  · left
    simp only [modifyAccount, Checked.bind_eq_ok, Checked.pure_eq_ok, get_eq_ok] at h
    obtain ⟨a₂, ha₂, _, ⟨⟩, rfl⟩ := h
    obtain rfl := Option.some.inj (ha.symm.trans ha₂)
    rw [if_pos hbasic]
  · exact .inr ⟨rfl, if_neg hmember⟩

/-- Replacing the referrer changes nothing that is counted. -/
theorem updateReferrer_spec (ha : s.accounts.find acct = some a)
    (h : s.updateReferrer acct = .ok t) :
    Flows 0 [] s t ∧ t.books = s.books ∧
      t.accounts.find acct = some { a with referrer := a.paidReferrer s } ∧
      (∀ id, (t.accounts.find id).map (·.membershipExpirationDate) =
        (s.accounts.find id).map (·.membershipExpirationDate)) ∧
      t.headBlockTime = s.headBlockTime := by
  obtain rfl | ⟨rfl, hsame⟩ := updateReferrer_eq_ok ha h
  · refine ⟨{ (Distributes.refl s).toFlows with }, ?_, ?_, fun id ↦ ?_, rfl⟩
    · rw [(payment_of_setAccount ha).books, sub_self, add_zero]
    · rw [find_set ha, if_pos rfl]
    · rw [find_set ha]
      split_ifs with hid
      · rw [hid, ha]
        rfl
      · rfl
  · exact ⟨(Distributes.refl t).toFlows, rfl, by rw [ha, hsame], fun _ ↦ rfl, rfl⟩

theorem member_of_bare {x y : Option AccountObject}
    (h : x.map AccountObject.bare = y.map AccountObject.bare) :
    x.map (·.membershipExpirationDate) = y.map (·.membershipExpirationDate) := by
  have hdate := congrArg (Option.map AccountObject.membershipExpirationDate) h
  rw [Option.map_map, Option.map_map] at hdate
  exact hdate

theorem paidOut_of_payOutFees (ha : s.accounts.find acct = some a)
    (h : s.payOutFees acct total = .ok s') : PaidOut acct a total s s' := by
  simp only [payOutFees, Checked.bind_eq_ok, get_eq_ok] at h
  obtain ⟨t, hreferrer, account, haccount, rest, hrest, referral, hreferral, s₂, hnetwork,
    registrarCut, hregistrarCut, s₃, hlifetime, s₄, hreferred, hregistrar⟩ := h
  obtain ⟨hflows, hbooks, ht, hmembers, htime⟩ := updateReferrer_spec ha hreferrer
  obtain rfl := Option.some.inj (ht.symm.trans haccount)
  obtain ⟨-, rfl⟩ := checkedShare_eq_ok.mp hrest
  obtain ⟨-, rfl⟩ := checkedShare_eq_ok.mp hreferral
  obtain ⟨-, rfl⟩ := checkedShare_eq_ok.mp hregistrarCut
  have hdone := (((distributes_of_network hnetwork).trans (distributes_of_depositCashback hlifetime)).trans
    (distributes_of_depositCashback hreferred)).trans (distributes_of_depositCashback hregistrar)
  simp only [add_zero, List.nil_append, List.cons_append] at hdone
  refine ⟨?_, ?_, ?_, fun id ↦ (member_of_bare (hdone.accounts id)).trans (hmembers id),
    hdone.headBlockTime.trans htime⟩
  · have hall := hflows.trans hdone.toFlows
    rw [zero_add, List.nil_append] at hall
    exact hall
  · rw [hdone.books, hbooks]
    congr 2
    exact a.cashback_sum (a.paidReferrer s) total
  · have hbare := hdone.accounts acct
    rw [haccount, Option.map_some, Option.map_eq_some_iff] at hbare
    obtain ⟨a', ha', hsame⟩ := hbare
    refine ⟨a'.cashbackVb, ha'.trans (congrArg some ?_)⟩
    have hrest : ∀ x y : AccountObject, x.bare = y.bare →
        x = { y with cashbackVb := x.cashbackVb } := by
      rintro ⟨⟩ ⟨⟩ hxy
      simp only [AccountObject.bare, AccountObject.mk.injEq] at hxy ⊢
      simp only [hxy, and_self]
    exact hrest a' _ hsame

theorem paidReferrer_eq (s : MarketState) (a : AccountObject) : a.paidReferrer s =
    if ((s.accounts.find a.referrer).map (·.membershipExpirationDate)).any (· < s.headBlockTime) then
      a.lifetimeReferrer
    else a.referrer := by
  unfold AccountObject.paidReferrer
  cases s.accounts.find a.referrer with
  | none => rfl
  | some referrer =>
      simp only [Option.map_some, Option.any_some, decide_eq_true_eq]
      rfl

/-- The second call of `pay_out_fees` pays the same referrer. -/
theorem PaidOut.paidReferrer (h : PaidOut acct a total s s') (vb : Option ℕ) :
    AccountObject.paidReferrer s' { a with referrer := a.paidReferrer s, cashbackVb := vb } =
      a.paidReferrer s := by
  have hs := paidReferrer_eq s a
  rw [paidReferrer_eq, h.members, h.headBlockTime]
  by_cases hbasic :
      ((s.accounts.find a.referrer).map (·.membershipExpirationDate)).any (· < s.headBlockTime)
  · rw [if_pos hbasic] at hs
    simp only [hs, ite_self]
  · rw [if_neg hbasic] at hs
    simp only [hs]
    exact if_neg hbasic

/-- What `process_fees` does: both amounts are split, each part is collected, vested or burnt, and
nothing is created or lost. -/
structure FeesPaidOut (acct : AccountId) (a : AccountObject) (s s' : MarketState) : Prop where
  pending : (a.feeParts a.statistics.pendingFees).Splits a.statistics.pendingFees
  pendingVested :
    (a.feeParts a.statistics.pendingVestedFees).Splits a.statistics.pendingVestedFees
  flows : Flows
    ((a.feeParts a.statistics.pendingFees).network +
      (a.feeParts a.statistics.pendingVestedFees).network)
    (a.cashback (a.paidReferrer s) (a.feeParts a.statistics.pendingFees) ++
      a.cashback (a.paidReferrer s) (a.feeParts a.statistics.pendingVestedFees)) s s'
  statistics : (s'.accounts.find acct).map (·.statistics) = some a.statistics.paidOut
  conserved : ∀ key, s'.totalBalances key - s'.currentSupply key =
    s.totalBalances key - s.currentSupply key

theorem conserved_of_books (h : s'.books = s.books) (key : AssetId) :
    s'.totalBalances key - s'.currentSupply key = s.totalBalances key - s.currentSupply key := by
  rw [← books_held, ← books_held, h]

theorem cashback_zero (referrer : AccountId) :
    (a.feeParts 0).network = 0 ∧ burnt (a.cashback referrer (a.feeParts 0)) = 0 ∧
      ∀ owner, vestedPart owner (a.cashback referrer (a.feeParts 0)) = 0 := by
  have hparts : a.feeParts 0 = ⟨0, 0, 0, 0⟩ := by
    simp [AccountObject.feeParts, cutFee]
  have hsplit : a.cashback referrer (a.feeParts 0) =
      [(a.lifetimeReferrer, 0)] ++ ([(referrer, 0)] ++ [(a.registrar, 0)]) := by
    rw [hparts]
    rfl
  refine ⟨by rw [hparts], ?_, fun owner ↦ ?_⟩
  · simp only [hsplit, burnt_append, burnt_single, ite_self, add_zero]
  · simp only [hsplit, vestedPart_append, vestedPart_single, ite_self, add_zero]

theorem feesPaidOut_of_processFees (ha : s.accounts.find acct = some a) (hpercent : a.HasPercentages)
    (hpending : 0 ≤ a.statistics.pendingFees) (hvested : 0 ≤ a.statistics.pendingVestedFees)
    (h : s.processFees acct = .ok s') : FeesPaidOut acct a s s' := by
  simp only [processFees, Checked.bind_eq_ok, get_eq_ok] at h
  obtain ⟨a₁, ha₁, h⟩ := h
  obtain rfl := Option.some.inj (ha.symm.trans ha₁)
  split_ifs at h with hany
  · simp only [Checked.bind_eq_ok] at h
    obtain ⟨s₁, hfirst, s₂, hsecond, hclear⟩ := h
    have h₁ := paidOut_of_payOutFees ha hfirst
    obtain ⟨vb, haccount⟩ := h₁.account
    have h₂ := paidOut_of_payOutFees haccount hsecond
    obtain ⟨vb', haccount'⟩ := h₂.account
    have hflows := h₁.flows.trans h₂.flows
    rw [h₁.paidReferrer vb] at hflows haccount'
    simp only [modifyStatistics, modifyAccount, Checked.bind_eq_ok, Checked.pure_eq_ok, get_eq_ok,
      checkedShare_eq_ok] at hclear
    obtain ⟨a₂, ha₂, _, ⟨_, ⟨_, ⟨-, rfl⟩, _, ⟨-, rfl⟩, rfl⟩, rfl⟩, rfl⟩ := hclear
    obtain rfl := Option.some.inj (haccount'.symm.trans ha₂)
    refine ⟨hpercent.splits hpending, hpercent.splits hvested, { hflows with }, ?_,
      conserved_of_books ?_⟩
    · rw [find_set ha₂, if_pos rfl]
      rfl
    · rw [(payment_of_setAccount ha₂).books, h₂.books, h₁.books]
      simp only [AccountStatistics.books, map_add, map_zero]
      abel
  · obtain rfl := Checked.pure_eq_ok.mp h
    obtain ⟨hnone, hnone'⟩ := not_or.mp hany
    have hzero : a.statistics.pendingFees = 0 := le_antisymm (not_lt.mp hnone) hpending
    have hzero' : a.statistics.pendingVestedFees = 0 := le_antisymm (not_lt.mp hnone') hvested
    obtain ⟨hnetwork, hburnt, hvest⟩ := cashback_zero (a := a) (a.paidReferrer s)
    refine ⟨hpercent.splits hpending, hpercent.splits hvested, ?_, ?_, fun _ ↦ rfl⟩
    · rw [hzero, hzero', hnetwork]
      refine ⟨(add_zero _).symm, ?_, fun owner ↦ ?_⟩
      · rw [burnt_append, hburnt, add_zero, sub_zero]
      · rw [vestedPart_append, hvest, add_zero, add_zero]
    · rw [ha, Option.map_some, AccountStatistics.paidOut_of_zero hzero hzero']

/-- What a fee promises, from its payment to its payout: a payment moves it, an operation that
takes it as a whole loses nothing either, and a payout splits it. -/
structure FeesConserved (s : MarketState) : Prop where
  paid : ∀ op requiredFee s', s.evaluateAndApply (.feeOnly op) requiredFee = .ok s' → ∀ key,
    s'.totalBalances key - s'.currentSupply key = s.totalBalances key - s.currentSupply key
  applied : ∀ calculateFee start, start.Genesis →
    Run.Reaches (step calculateFee) (fun _ _ ↦ True) start s →
    ∀ op s', op.WellTyped → s.applyOperation calculateFee op = .ok s' → ∀ key,
    s'.totalBalances key - s'.currentSupply key = s.totalBalances key - s.currentSupply key
  paidOut : ∀ acct a s', s.accounts.find acct = some a → a.HasPercentages →
    0 ≤ a.statistics.pendingFees → 0 ≤ a.statistics.pendingVestedFees →
    s.processFees acct = .ok s' → FeesPaidOut acct a s s'

/-- Paying a fee and nothing else. -/
theorem books_of_feeOnly {op : FeeOnlyOperation} {requiredFee : Option ℤ}
    (h : s.evaluateAndApply (.feeOnly op) requiredFee = .ok s') : s'.books = s.books := by
  simp only [evaluateAndApply, Checked.bind_eq_ok] at h
  obtain ⟨coreFee, hprepare, -, -, -, -, s₁, hconvert, s₂, hpay, s₃, hdo, delta, hdelta, hcharge⟩ := h
  obtain rfl := Except.ok.inj hdo
  obtain ⟨hfee, -, hcore⟩ := prepareFee_spec hprepare
  have hput := (payment_of_convertFee hfee hcore hconvert).trans (payment_of_operationFee hpay)
  have hwhole : (MarketOperation.feeOnly op).paidFee coreFee s₁ = coreFee := rfl
  rw [(hput.trans (payment_of_takeBalance hdelta hcharge)).books, hwhole]
  abel

theorem feesConserved (s : MarketState) : FeesConserved s where
  paid op requiredFee s' h := conserved_of_books (books_of_feeOnly h)
  applied calculateFee start hstart hs op s' htyped h := by
    obtain ⟨hsound, hbooks⟩ := sound_of_reaches hstart hs
    have heven : s.SuppliesEven := fun key _ ↦ by
      rw [hbooks]
      rfl
    have hadds := adds_of_applyOperation hsound heven htyped h
    exact conserved_of_books (by rw [hadds.books, add_zero])
  paidOut acct a s' := feesPaidOut_of_processFees

end MarketState

end KarmaCore.Market
