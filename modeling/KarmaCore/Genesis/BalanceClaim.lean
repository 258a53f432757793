import Mathlib
import KarmaCore.Authority.AddressSignature
import KarmaCore.Credit.Ledger
import KarmaCore.Lib.ObjectIndex
import KarmaCore.Lib.Run
import KarmaCore.Vesting.LinearVesting

/-!
# Claims of genesis balances

What the genesis state hands out waits in balance objects until the owner of the
address claims it, all at once or as it vests.
-/

namespace KarmaCore.Genesis

open Authorities (Address AddressHashes PublicKey)
open Transfer (get get_eq_ok)
open Vesting (LinearVestingPolicy)

structure BalanceObject where
  owner : Address
  balance : Asset
  vestingPolicy : Option LinearVestingPolicy := none
  lastClaimDate : ℕ := 0

/-- What the evaluator reads and writes. -/
structure ClaimState where
  balances : ObjectIndex BalanceObject
  accountBalances : List AccountBalance := []
  headBlockTime : ℕ := 0

/-- `GRAPHENE` core asset. -/
def coreAsset : AssetId := 0

def noPublicKey : PublicKey := 0

structure BalanceClaimOperation where
  fee : Asset
  depositToAccount : AccountId
  balanceToClaim : ℕ
  balanceOwnerKey : PublicKey
  totalClaimed : Asset

/-- `fc::days(1)`, in seconds. -/
def oneDay : ℕ := 86400

namespace BalanceClaimOperation

def validate (op : BalanceClaimOperation) : Checked Unit := do
  require (op.fee = ⟨0, coreAsset⟩) "fee == asset()"
  require (op.balanceOwnerKey ≠ noPublicKey) "balance_owner_key != public_key_type()"

/-- The asset of a claim is tested only while signatures are. -/
def doEvaluate (h : AddressHashes) (skipSignatures : Bool) (op : BalanceClaimOperation)
    (s : ClaimState) : Checked BalanceObject := do
  let balance ← get (s.balances.find op.balanceToClaim)
  require (balance.owner ∈ h.addresses op.balanceOwnerKey)
    "Balance owner key was specified as '${op}' but balance's actual owner is '${bal}'"
  require (skipSignatures = false → op.totalClaimed.assetId = balance.balance.assetId)
    "op.total_claimed.asset_id == balance->asset_type()"
  match balance.vestingPolicy with
  | some policy =>
      let allowed ← policy.isWithdrawAllowed balance.balance s.headBlockTime op.totalClaimed
      require (allowed = true)
        "Attempted to claim ${c} from a vesting balance with ${a} available"
      require (balance.lastClaimDate + oneDay ≤ s.headBlockTime)
        "Genesis vesting balances may not be claimed more than once per day."
      return balance
  | none =>
      require (op.totalClaimed = balance.balance) "op.total_claimed == balance->balance"
      return balance

/-- `balance->is_vesting_balance() && op.total_claimed < balance->balance`. -/
def isPart (op : BalanceClaimOperation) (balance : BalanceObject) : Checked Bool :=
  if balance.vestingPolicy.isSome then op.totalClaimed.lt balance.balance else .ok false

/-- The part that is claimed is taken off a vesting balance. -/
def takePart (op : BalanceClaimOperation) (balance : BalanceObject) (s : ClaimState) :
    Checked ClaimState := do
  let rest ← balance.balance.sub op.totalClaimed
  return { s with
    balances := s.balances.set op.balanceToClaim
      { balance with balance := rest, lastClaimDate := s.headBlockTime } }

def take (op : BalanceClaimOperation) (part : Bool) (balance : BalanceObject) (s : ClaimState) :
    Checked ClaimState :=
  if part then op.takePart balance s
  else .ok { s with balances := s.balances.remove op.balanceToClaim }

def doApply (op : BalanceClaimOperation) (balance : BalanceObject) (s : ClaimState) :
    Checked ClaimState := do
  let part ← op.isPart balance
  let s ← op.take part balance s
  let accountBalances ← adjustBalance op.depositToAccount op.totalClaimed s.accountBalances
  return { s with accountBalances }

end BalanceClaimOperation

inductive ClaimEvent
  | claim (op : BalanceClaimOperation) (skipSignatures : Bool)
  | passTime (seconds : ℕ)

namespace ClaimState

def applyClaim (h : AddressHashes) (skipSignatures : Bool) (op : BalanceClaimOperation)
    (s : ClaimState) : Checked ClaimState := do
  op.validate
  let balance ← op.doEvaluate h skipSignatures s
  op.doApply balance s

/-- A claim that fails leaves the state as it is. -/
def step (h : AddressHashes) (s : ClaimState) : ClaimEvent → ClaimState
  | .claim op skipSignatures =>
      match s.applyClaim h skipSignatures op with
      | .ok s' => s'
      | .error _ => s
  | .passTime seconds => { s with headBlockTime := s.headBlockTime + seconds }

/-! ## What a claim does -/

variable {h : AddressHashes} {s s' : ClaimState} {op : BalanceClaimOperation} {skip : Bool}

/-- Everything a claim can do. -/
inductive Claimed (op : BalanceClaimOperation) (s : ClaimState) : ClaimState → Prop
  | whole (o : BalanceObject) (accountBalances : List AccountBalance)
      (hfind : s.balances.find op.balanceToClaim = some o) (hpolicy : o.vestingPolicy = none)
      (hall : op.totalClaimed = o.balance)
      (hpaid : adjustBalance op.depositToAccount op.totalClaimed s.accountBalances =
        .ok accountBalances) :
      Claimed op s
        { s with balances := s.balances.remove op.balanceToClaim, accountBalances }
  | part (o : BalanceObject) (policy : LinearVestingPolicy) (accountBalances : List AccountBalance)
      (hfind : s.balances.find op.balanceToClaim = some o)
      (hpolicy : o.vestingPolicy = some policy)
      (hasset : op.totalClaimed.assetId = o.balance.assetId)
      (hallowed : op.totalClaimed.amount ≤
        (policy.getAllowedWithdraw o.balance s.headBlockTime).amount)
      (hday : o.lastClaimDate + oneDay ≤ s.headBlockTime)
      (hpart : op.totalClaimed.amount < o.balance.amount)
      (hpaid : adjustBalance op.depositToAccount op.totalClaimed s.accountBalances =
        .ok accountBalances) :
      Claimed op s
        { s with
          balances := s.balances.set op.balanceToClaim
            { o with
              balance := ⟨o.balance.amount - op.totalClaimed.amount, o.balance.assetId⟩
              lastClaimDate := s.headBlockTime }
          accountBalances }
  | rest (o : BalanceObject) (policy : LinearVestingPolicy) (accountBalances : List AccountBalance)
      (hfind : s.balances.find op.balanceToClaim = some o)
      (hpolicy : o.vestingPolicy = some policy)
      (hasset : op.totalClaimed.assetId = o.balance.assetId)
      (hallowed : op.totalClaimed.amount ≤
        (policy.getAllowedWithdraw o.balance s.headBlockTime).amount)
      (hday : o.lastClaimDate + oneDay ≤ s.headBlockTime)
      (hrest : o.balance.amount ≤ op.totalClaimed.amount)
      (hpaid : adjustBalance op.depositToAccount op.totalClaimed s.accountBalances =
        .ok accountBalances) :
      Claimed op s
        { s with balances := s.balances.remove op.balanceToClaim, accountBalances }

theorem isWithdrawAllowed_eq_true {policy : LinearVestingPolicy} {balance amount : Asset} {now : ℕ}
    (hallowed : policy.isWithdrawAllowed balance now amount = .ok true) :
    amount.assetId = balance.assetId ∧
      amount.amount ≤ (policy.getAllowedWithdraw balance now).amount := by
  unfold LinearVestingPolicy.isWithdrawAllowed at hallowed
  split_ifs at hallowed with hasset
  · exact ⟨hasset, by simpa using (Asset.le_eq_ok.mp hallowed).2⟩
  · cases hallowed

theorem claimed_of_applyClaim (happly : s.applyClaim h skip op = .ok s') : Claimed op s s' := by
  simp only [applyClaim, BalanceClaimOperation.doEvaluate, Checked.bind_eq_ok, get_eq_ok,
    require_eq_ok] at happly
  obtain ⟨-, -, o, ⟨o', hfind, -, -, -, -, heval⟩, happly⟩ := happly
  simp only [BalanceClaimOperation.doApply, Checked.bind_eq_ok, Checked.pure_eq_ok] at happly
  obtain ⟨part, hpart, t, ht, accountBalances, hpaid, rfl⟩ := happly
  unfold BalanceClaimOperation.isPart at hpart
  cases hpolicy : o'.vestingPolicy with
  | none =>
      simp only [hpolicy, Checked.bind_eq_ok, require_eq_ok, Checked.pure_eq_ok] at heval
      obtain ⟨-, hall, rfl⟩ := heval
      rw [hpolicy] at hpart
      cases hpart
      cases ht
      exact .whole o' accountBalances hfind hpolicy hall hpaid
  | some policy =>
      simp only [hpolicy, Checked.bind_eq_ok, require_eq_ok, Checked.pure_eq_ok] at heval
      obtain ⟨allowed, hallowed, -, rfl, -, hday, rfl⟩ := heval
      obtain ⟨hasset, hle⟩ := isWithdrawAllowed_eq_true hallowed
      simp only [hpolicy, Option.isSome_some, if_true, Asset.lt_eq_ok] at hpart
      obtain ⟨-, hpart⟩ := hpart
      by_cases hlt : op.totalClaimed.amount < o'.balance.amount
      · rw [decide_eq_true hlt] at hpart
        subst hpart
        simp only [BalanceClaimOperation.take, if_true, BalanceClaimOperation.takePart,
          Checked.bind_eq_ok, Asset.sub_eq_ok, Checked.pure_eq_ok] at ht
        obtain ⟨rest, ⟨-, -, rfl⟩, rfl⟩ := ht
        exact .part o' policy accountBalances hfind hpolicy hasset hle hday hlt hpaid
      · rw [decide_eq_false hlt] at hpart
        subst hpart
        cases ht
        exact .rest o' policy accountBalances hfind hpolicy hasset hle hday (not_lt.mp hlt) hpaid

/-! ## Conservation -/

/-- What waits to be claimed of an asset. -/
def unclaimed (a : AssetId) (s : ClaimState) : ℤ :=
  s.balances.total fun _ o ↦ o.balance.part a

/-- No balance is negative, and none vests from a negative one. -/
def Sound (s : ClaimState) : Prop :=
  ∀ id o, s.balances.find id = some o → 0 ≤ o.balance.amount ∧
    ∀ policy, o.vestingPolicy = some policy → 0 ≤ policy.beginBalance

/-- What may be claimed at once is no more than there is. -/
theorem le_balance_of_allowed {policy : LinearVestingPolicy} {balance : Asset} {amount : ℤ}
    {now : ℕ} (hbegin : 0 ≤ policy.beginBalance) (hbalance : 0 ≤ balance.amount)
    (hallowed : amount ≤ (policy.getAllowedWithdraw balance now).amount) :
    amount ≤ balance.amount := by
  rw [LinearVestingPolicy.getAllowedWithdraw_eq] at hallowed
  have hvested := LinearVestingPolicy.vestedBy_le (p := policy) (t := now) hbegin
  dsimp only at hallowed
  split_ifs at hallowed <;> omega

theorem Claimed.conserves (hclaim : Claimed op s s') (hsound : s.Sound) (a : AssetId) :
    s'.unclaimed a + totalOf a s'.accountBalances =
      s.unclaimed a + totalOf a s.accountBalances := by
  cases hclaim with
  | whole o accountBalances hfind hpolicy hall hpaid =>
      simp only [unclaimed, ObjectIndex.total_remove hfind, adjustBalance_totalOf hpaid a, hall]
      ring
  | part o policy accountBalances hfind hpolicy hasset hallowed hday hpart hpaid =>
      simp only [unclaimed, ObjectIndex.total_set hfind, adjustBalance_totalOf hpaid a, Asset.part,
        hasset]
      split_ifs <;> ring
  | rest o policy accountBalances hfind hpolicy hasset hallowed hday hrest hpaid =>
      obtain ⟨hbalance, hbegin⟩ := hsound _ o hfind
      have hle := le_balance_of_allowed (hbegin policy hpolicy) hbalance hallowed
      have hall : op.totalClaimed.amount = o.balance.amount := le_antisymm hle hrest
      simp only [unclaimed, ObjectIndex.total_remove hfind, adjustBalance_totalOf hpaid a,
        Asset.part, hasset, hall]
      ring

theorem Claimed.sound (hclaim : Claimed op s s') (hsound : s.Sound) : s'.Sound := by
  have hremove : Sound { s with balances := s.balances.remove op.balanceToClaim } := by
    intro id o hid
    simp only [ObjectIndex.find_remove] at hid
    split_ifs at hid
    exact hsound id o hid
  cases hclaim with
  | whole o accountBalances hfind hpolicy hall hpaid => exact hremove
  | rest o policy accountBalances hfind hpolicy hasset hallowed hday hrest hpaid => exact hremove
  | part o policy accountBalances hfind hpolicy hasset hallowed hday hpart hpaid =>
      intro id o' hid
      simp only [ObjectIndex.find_set hfind] at hid
      split_ifs at hid with heq
      · cases hid
        exact ⟨(sub_pos.mpr hpart).le, (hsound _ o hfind).2⟩
      · exact hsound id o' hid

/-- What one event does. -/
theorem step_cases (h : AddressHashes) (s : ClaimState) (event : ClaimEvent) :
    s.step h event = s ∨ (∃ seconds, s.step h event =
      { s with headBlockTime := s.headBlockTime + seconds }) ∨
        ∃ op, Claimed op s (s.step h event) := by
  cases event with
  | passTime seconds => exact .inr (.inl ⟨seconds, rfl⟩)
  | claim op skip =>
      simp only [step]
      cases happly : s.applyClaim h skip op with
      | ok s' => exact .inr (.inr ⟨op, claimed_of_applyClaim happly⟩)
      | error _ => exact .inl rfl

theorem step_conserves (hsound : s.Sound) (event : ClaimEvent) (a : AssetId) :
    (s.step h event).Sound ∧
      (s.step h event).unclaimed a + totalOf a (s.step h event).accountBalances =
        s.unclaimed a + totalOf a s.accountBalances := by
  rcases step_cases h s event with heq | ⟨seconds, heq⟩ | ⟨op, hclaim⟩
  · rw [heq]
    exact ⟨hsound, rfl⟩
  · rw [heq]
    exact ⟨hsound, rfl⟩
  · exact ⟨hclaim.sound hsound, hclaim.conserves hsound a⟩

/-! ## Vesting -/

/-- The times of the claims of a balance that succeed. -/
def claimTimes (h : AddressHashes) (id : ℕ) : ClaimState → List ClaimEvent → List ℕ
  | _, [] => []
  | s, .passTime seconds :: events => claimTimes h id (s.step h (.passTime seconds)) events
  | s, .claim op skip :: events =>
      if op.balanceToClaim = id ∧ (s.applyClaim h skip op).toOption.isSome then
        s.headBlockTime :: claimTimes h id (s.step h (.claim op skip)) events
      else claimTimes h id (s.step h (.claim op skip)) events

/-- A balance that is there vests, and was not claimed after a time. -/
def LastClaimed (id d : ℕ) (s : ClaimState) : Prop :=
  ∀ o, s.balances.find id = some o → o.vestingPolicy ≠ none ∧ d ≤ o.lastClaimDate

variable {id d : ℕ}

theorem Claimed.lastClaimed (hclaim : Claimed op s s') (hlast : LastClaimed id d s) :
    LastClaimed id d s' ∧ (op.balanceToClaim = id → d + oneDay ≤ s.headBlockTime ∧
      LastClaimed id s.headBlockTime s') := by
  have hremove : ∀ accountBalances, LastClaimed id d
      { s with balances := s.balances.remove op.balanceToClaim, accountBalances } := by
    intro accountBalances o hid
    simp only [ObjectIndex.find_remove] at hid
    split_ifs at hid
    exact hlast o hid
  have hgone : ∀ accountBalances, op.balanceToClaim = id → LastClaimed id s.headBlockTime
      { s with balances := s.balances.remove op.balanceToClaim, accountBalances } := by
    intro accountBalances heq o hid
    simp [ObjectIndex.find_remove, heq] at hid
  cases hclaim with
  | whole o accountBalances hfind hpolicy hall hpaid =>
      refine ⟨hremove _, fun heq ↦ ?_⟩
      rw [heq] at hfind
      exact absurd hpolicy (hlast o hfind).1
  | rest o policy accountBalances hfind hpolicy hasset hallowed hday hrest hpaid =>
      refine ⟨hremove _, fun heq ↦ ⟨?_, hgone _ heq⟩⟩
      rw [heq] at hfind
      exact (Nat.add_le_add_right (hlast o hfind).2 _).trans hday
  | part o policy accountBalances hfind hpolicy hasset hallowed hday hpart hpaid =>
      refine ⟨?_, fun heq ↦ ⟨?_, ?_⟩⟩
      · intro o' hid
        simp only [ObjectIndex.find_set hfind] at hid
        split_ifs at hid with heq
        · cases hid
          rw [← heq] at hfind
          obtain ⟨hvests, hd⟩ := hlast o hfind
          refine ⟨hvests, ?_⟩
          dsimp only
          omega
        · exact hlast o' hid
      · rw [heq] at hfind
        exact (Nat.add_le_add_right (hlast o hfind).2 _).trans hday
      · intro o' hid
        subst heq
        simp only [ObjectIndex.find_set hfind, if_true, Option.some.injEq] at hid
        subst hid
        exact ⟨by simp [hpolicy], le_rfl⟩

/-- Claims of a vesting balance are a day apart. -/
theorem claimTimes_spaced (events : List ClaimEvent) (hlast : LastClaimed id d s) :
    (∀ t ∈ claimTimes h id s events, d + oneDay ≤ t) ∧
      (claimTimes h id s events).Pairwise (· + oneDay ≤ ·) := by
  induction events generalizing s d with
  | nil => exact ⟨by simp [claimTimes], .nil⟩
  | cons event events ih =>
      cases event with
      | passTime seconds => exact ih hlast
      | claim op skip =>
          simp only [claimTimes]
          cases happly : s.applyClaim h skip op with
          | error _ =>
              have hsame : s.step h (.claim op skip) = s := by simp [step, happly]
              rw [if_neg (by simp [Except.toOption]), hsame]
              exact ih hlast
          | ok s' =>
              have hstep : s.step h (.claim op skip) = s' := by simp [step, happly]
              obtain ⟨hkept, hclaimed⟩ := (claimed_of_applyClaim happly).lastClaimed hlast
              rw [hstep]
              by_cases hid : op.balanceToClaim = id
              · rw [if_pos ⟨hid, rfl⟩]
                obtain ⟨hday, hnow⟩ := hclaimed hid
                obtain ⟨hafter, hspaced⟩ := ih hnow
                refine ⟨?_, List.pairwise_cons.mpr ⟨hafter, hspaced⟩⟩
                intro t ht
                rcases List.mem_cons.mp ht with rfl | ht
                · exact hday
                · exact (hday.trans (Nat.le_add_right _ _)).trans (hafter t ht)
              · rw [if_neg fun hpos ↦ hid hpos.1]
                exact ih hkept

/-- What is not vested yet is still there. -/
def Vests (o : BalanceObject) (policy : LinearVestingPolicy) (id : ℕ) (s : ClaimState) : Prop :=
  (∃ o', s.balances.find id = some o' ∧ o'.vestingPolicy = some policy ∧
    o'.balance.assetId = o.balance.assetId ∧
    min o.balance.amount (policy.beginBalance - policy.vestedBy s.headBlockTime) ≤
      o'.balance.amount) ∨
  s.balances.find id = none ∧ policy.beginBalance ≤ policy.vestedBy s.headBlockTime

variable {o : BalanceObject} {policy : LinearVestingPolicy}

theorem Vests.later (hbegin : 0 ≤ policy.beginBalance) (hvests : Vests o policy id s)
    (seconds : ℕ) : Vests o policy id { s with headBlockTime := s.headBlockTime + seconds } := by
  have hmono := LinearVestingPolicy.vestedBy_mono (p := policy) hbegin
    (Nat.le_add_right s.headBlockTime seconds)
  rcases hvests with ⟨o', hfind, hpolicy, hasset, hle⟩ | ⟨hnone, hall⟩
  · refine .inl ⟨o', hfind, hpolicy, hasset, ?_⟩
    dsimp only
    omega
  · refine .inr ⟨hnone, ?_⟩
    dsimp only
    omega

theorem Claimed.vests (hclaim : Claimed op s s') (hpos : 0 < o.balance.amount)
    (hvests : Vests o policy id s) : Vests o policy id s' := by
  have hother : op.balanceToClaim ≠ id →
      ∀ accountBalances, Vests o policy id
        { s with balances := s.balances.remove op.balanceToClaim, accountBalances } := by
    intro hne accountBalances
    simpa [Vests, ObjectIndex.find_remove, Ne.symm hne] using hvests
  cases hclaim with
  | whole o₁ accountBalances hfind hpolicy hall hpaid =>
      by_cases hid : op.balanceToClaim = id
      · rw [hid] at hfind
        rcases hvests with ⟨o', hfind', hpolicy', -, -⟩ | ⟨hnone, -⟩
        · rw [hfind] at hfind'
          cases hfind'
          rw [hpolicy] at hpolicy'
          cases hpolicy'
        · rw [hfind] at hnone
          cases hnone
      · exact hother hid _
  | rest o₁ policy₁ accountBalances hfind hpolicy hasset hallowed hday hrest hpaid =>
      by_cases hid : op.balanceToClaim = id
      · rw [hid] at hfind
        rcases hvests with ⟨o', hfind', hpolicy', -, hle⟩ | ⟨hnone, -⟩
        · rw [hfind] at hfind'
          cases hfind'
          rw [hpolicy] at hpolicy'
          cases hpolicy'
          refine .inr ⟨by simp [ObjectIndex.find_remove, hid], ?_⟩
          rw [LinearVestingPolicy.getAllowedWithdraw_eq] at hallowed
          dsimp only at hallowed ⊢
          split_ifs at hallowed <;> omega
        · rw [hfind] at hnone
          cases hnone
      · exact hother hid _
  | part o₁ policy₁ accountBalances hfind hpolicy hasset hallowed hday hpart hpaid =>
      by_cases hid : op.balanceToClaim = id
      · subst hid
        rcases hvests with ⟨o', hfind', hpolicy', hasset', hle⟩ | ⟨hnone, -⟩
        · rw [hfind] at hfind'
          cases hfind'
          rw [hpolicy] at hpolicy'
          cases hpolicy'
          have hfound : (s.balances.set op.balanceToClaim
              { o₁ with
                balance := ⟨o₁.balance.amount - op.totalClaimed.amount, o₁.balance.assetId⟩
                lastClaimDate := s.headBlockTime }).find op.balanceToClaim = some
              { o₁ with
                balance := ⟨o₁.balance.amount - op.totalClaimed.amount, o₁.balance.assetId⟩
                lastClaimDate := s.headBlockTime } := by
            rw [ObjectIndex.find_set hfind, if_pos rfl]
          refine .inl ⟨_, hfound, hpolicy, hasset', ?_⟩
          rw [LinearVestingPolicy.getAllowedWithdraw_eq] at hallowed
          dsimp only at hallowed ⊢
          split_ifs at hallowed <;> omega
        · rw [hfind] at hnone
          cases hnone
      · simpa [Vests, ObjectIndex.find_set hfind, Ne.symm hid] using hvests

theorem vests_foldl (hbegin : 0 ≤ policy.beginBalance) (hpos : 0 < o.balance.amount)
    (events : List ClaimEvent) (hvests : Vests o policy id s) :
    Vests o policy id (events.foldl (step h) s) := by
  induction events generalizing s with
  | nil => exact hvests
  | cons event events ih =>
      refine ih ?_
      rcases step_cases h s event with heq | ⟨seconds, heq⟩ | ⟨op, hclaim⟩
      · rwa [heq]
      · rw [heq]
        exact hvests.later hbegin seconds
      · exact hclaim.vests hpos hvests

end ClaimState

open ClaimState

variable {h : AddressHashes} {s : ClaimState} {id : ℕ} {o : BalanceObject}
  {policy : LinearVestingPolicy}

theorem conserves_foldl (hsound : s.Sound) (events : List ClaimEvent) (a : AssetId) :
    (events.foldl (step h) s).Sound ∧
      (events.foldl (step h) s).unclaimed a +
          totalOf a (events.foldl (step h) s).accountBalances =
        s.unclaimed a + totalOf a s.accountBalances := by
  induction events generalizing s with
  | nil => exact ⟨hsound, rfl⟩
  | cons event events ih =>
      obtain ⟨hnext, hsame⟩ := step_conserves (h := h) hsound event a
      obtain ⟨hlater, hrun⟩ := ih hnext
      exact ⟨hlater, hrun.trans hsame⟩

/-- What the accounts have of an asset and what waits to be claimed stay the same together
over any run, and no balance that waits gets negative. -/
theorem claims_conserve (hsound : s.Sound) (events : List ClaimEvent) (a : AssetId) :
    (events.foldl (step h) s).Sound ∧
      (events.foldl (step h) s).unclaimed a +
          totalOf a (events.foldl (step h) s).accountBalances =
        s.unclaimed a + totalOf a s.accountBalances :=
  conserves_foldl hsound events a

/-- A balance of 1000 vests over 100 days and is claimed in two parts. -/
def vestingStart : ClaimState where
  balances := ObjectIndex.empty.create
    { owner := 7, balance := ⟨1000, 0⟩, vestingPolicy := some ⟨100000, 0, 8640000, 1000⟩ }
  headBlockTime := 100000

def identityHashes : AddressHashes := ⟨fun k _ _ ↦ k, fun k ↦ k⟩

def twoClaims : List ClaimEvent :=
  [.passTime 864000, .claim ⟨⟨0, 0⟩, 3, 0, 7, ⟨60, 0⟩⟩ false, .passTime 86400,
    .claim ⟨⟨0, 0⟩, 3, 0, 7, ⟨50, 0⟩⟩ false]

theorem sound_vestingStart : vestingStart.Sound := by
  intro id o hid
  simp only [vestingStart, ObjectIndex.find_create, ObjectIndex.find_empty] at hid
  split_ifs at hid
  cases hid
  refine ⟨by decide, ?_⟩
  rintro policy hpolicy
  cases hpolicy
  decide

theorem claims_conserve_twoClaims :
    (twoClaims.foldl (step identityHashes) vestingStart).Sound ∧
      (twoClaims.foldl (step identityHashes) vestingStart).unclaimed 0 +
          totalOf 0 (twoClaims.foldl (step identityHashes) vestingStart).accountBalances =
        vestingStart.unclaimed 0 + totalOf 0 vestingStart.accountBalances :=
  claims_conserve sound_vestingStart twoClaims 0

end KarmaCore.Genesis
