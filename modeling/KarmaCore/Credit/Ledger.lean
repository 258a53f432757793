import Mathlib
import KarmaCore.Protocol.Asset

/-!
# Account balances

The index of `account_balance_object`s with `adjust_balance`, the supply of
each asset, and the movements the credit code makes between accounts.
-/

namespace KarmaCore

structure AccountBalance where
  owner : AccountId
  assetType : AssetId
  balance : ℕ
  deriving DecidableEq, Repr

/-- An amount taken from an account or given to it. -/
inductive Movement
  | charge (account : AccountId) (sum : Asset)
  | pay (account : AccountId) (sum : Asset)
  deriving DecidableEq, Repr

namespace Movement

def sum : Movement → Asset
  | charge _ sum => sum
  | pay _ sum => sum

/-- What a movement adds to the balances of an asset. -/
def effect (assetId : AssetId) : Movement → ℤ
  | charge _ sum => -sum.part assetId
  | pay _ sum => sum.part assetId

end Movement

/-- What some movements together add to the balances of an asset. -/
def netOf (assetId : AssetId) (ms : List Movement) : ℤ := (ms.map (·.effect assetId)).sum

@[simp] theorem netOf_nil (assetId : AssetId) : netOf assetId [] = 0 := rfl

@[simp] theorem netOf_cons (assetId : AssetId) (m : Movement) (ms : List Movement) :
    netOf assetId (m :: ms) = m.effect assetId + netOf assetId ms := by simp [netOf]

theorem netOf_append (assetId : AssetId) (ms ms' : List Movement) :
    netOf assetId (ms ++ ms') = netOf assetId ms + netOf assetId ms' := by simp [netOf]

/-- `movements` is a history: no function of the model reads it. -/
structure Ledger where
  balances : List AccountBalance
  currentSupply : AssetId → ℤ
  movements : List Movement

def balanceOf (owner : AccountId) (assetId : AssetId) : List AccountBalance → ℕ
  | [] => 0
  | b :: bs => if b.owner = owner ∧ b.assetType = assetId then b.balance
      else balanceOf owner assetId bs

/-- The part of `adjust_balance` after the test for an empty delta. -/
def adjustEntry (account : AccountId) (delta : Asset) :
    List AccountBalance → Checked (List AccountBalance)
  | [] => do
      require (0 < delta.amount) "Insufficient Balance"
      return [⟨account, delta.assetId, delta.amount.toNat⟩]
  | b :: bs =>
      if b.owner = account ∧ b.assetType = delta.assetId then do
        require (delta.amount < 0 → -delta.amount ≤ b.balance) "Insufficient Balance"
        let balance ← checkedShare (b.balance + delta.amount)
        return { b with balance := balance.toNat } :: bs
      else do return b :: (← adjustEntry account delta bs)

def adjustBalance (account : AccountId) (delta : Asset) (bs : List AccountBalance) :
    Checked (List AccountBalance) :=
  if delta.amount = 0 then .ok bs else adjustEntry account delta bs

/-- What all accounts hold of an asset. -/
def totalOf (assetId : AssetId) : List AccountBalance → ℕ
  | [] => 0
  | b :: bs => (if b.assetType = assetId then b.balance else 0) + totalOf assetId bs

theorem balanceOf_le_totalOf (owner : AccountId) (assetId : AssetId) (bs : List AccountBalance) :
    balanceOf owner assetId bs ≤ totalOf assetId bs := by
  induction bs with
  | nil => simp [balanceOf, totalOf]
  | cons b bs ih =>
      simp only [balanceOf, totalOf]
      by_cases hkey : b.owner = owner ∧ b.assetType = assetId
      · rw [if_pos hkey, if_pos hkey.2]
        omega
      · rw [if_neg hkey]
        omega

theorem adjustEntry_totalOf {account : AccountId} {delta : Asset} {bs bs' : List AccountBalance}
    (h : adjustEntry account delta bs = .ok bs') (assetId : AssetId) :
    (totalOf assetId bs' : ℤ) = totalOf assetId bs + delta.part assetId := by
  induction bs generalizing bs' with
  | nil =>
      simp only [adjustEntry, Checked.bind_eq_ok, require_eq_ok, Checked.pure_eq_ok] at h
      obtain ⟨-, hpos, rfl⟩ := h
      simp only [totalOf, Asset.part]
      split_ifs <;> omega
  | cons b bs ih =>
      simp only [adjustEntry] at h
      split_ifs at h with hkey
      · simp only [Checked.bind_eq_ok, require_eq_ok, checkedShare_eq_ok,
          Checked.pure_eq_ok] at h
        obtain ⟨-, hcover, x, ⟨-, rfl⟩, rfl⟩ := h
        simp only [totalOf, Asset.part, hkey.2]
        split_ifs <;> omega
      · simp only [Checked.bind_eq_ok, Checked.pure_eq_ok] at h
        obtain ⟨rest, hrest, rfl⟩ := h
        have := ih hrest
        simp only [totalOf]
        omega

theorem adjustBalance_totalOf {account : AccountId} {delta : Asset} {bs bs' : List AccountBalance}
    (h : adjustBalance account delta bs = .ok bs') (assetId : AssetId) :
    (totalOf assetId bs' : ℤ) = totalOf assetId bs + delta.part assetId := by
  unfold adjustBalance at h
  split_ifs at h with hzero
  · obtain rfl : bs = bs' := by simpa using h
    simp [Asset.part, hzero]
  · exact adjustEntry_totalOf h assetId

/-- An adjustment whose result is a share of at least zero is carried out. -/
theorem adjustBalance_ok (account : AccountId) (delta : Asset) (bs : List AccountBalance)
    (hlow : 0 ≤ balanceOf account delta.assetId bs + delta.amount)
    (hhigh : balanceOf account delta.assetId bs + delta.amount < shareEnd) :
    ∃ bs', adjustBalance account delta bs = .ok bs' := by
  unfold adjustBalance
  split_ifs with hzero
  · exact ⟨bs, rfl⟩
  · induction bs with
    | nil =>
        have hpos : 0 < delta.amount := by
          simp only [balanceOf] at hlow
          omega
        exact ⟨_, Checked.bind_eq_ok.mpr ⟨(), require_eq_ok.mpr hpos, rfl⟩⟩
    | cons b bs ih =>
        simp only [balanceOf] at hlow hhigh
        simp only [adjustEntry]
        split_ifs at hlow hhigh ⊢ with hkey
        · have hrange : InShareRange (b.balance + delta.amount) := by
            refine ⟨?_, hhigh⟩
            simp only [shareMin]
            omega
          have hcover : delta.amount < 0 → -delta.amount ≤ b.balance := by omega
          exact ⟨_, Checked.bind_eq_ok.mpr ⟨(), require_eq_ok.mpr hcover,
            Checked.bind_eq_ok.mpr ⟨_, checkedShare_eq_ok.mpr ⟨hrange, rfl⟩, rfl⟩⟩⟩
        · obtain ⟨rest, hrest⟩ := ih hlow hhigh
          exact ⟨_, Checked.bind_eq_ok.mpr ⟨rest, hrest, rfl⟩⟩

namespace Ledger

def getBalance (l : Ledger) (owner : AccountId) (assetId : AssetId) : Asset :=
  ⟨balanceOf owner assetId l.balances, assetId⟩

/-- `adjust_balance(account, sum)`. -/
def pay (account : AccountId) (sum : Asset) (l : Ledger) : Checked Ledger := do
  let balances ← adjustBalance account sum l.balances
  return { l with balances, movements := .pay account sum :: l.movements }

/-- `adjust_balance(account, -sum)`. -/
def charge (account : AccountId) (sum : Asset) (l : Ledger) : Checked Ledger := do
  let delta ← sum.neg
  let balances ← adjustBalance account delta l.balances
  return { l with balances, movements := .charge account sum :: l.movements }

/-- A charge followed by a payment. -/
def transfer (source : AccountId) (taken : Asset) (target : AccountId) (given : Asset)
    (l : Ledger) : Checked Ledger := do
  let l ← l.charge source taken
  l.pay target given

/-- `current_supply += amount` on an asset. -/
def addSupply (assetId : AssetId) (amount : ℚ) (l : Ledger) : Checked Ledger := do
  let supply ← checkedShare (l.currentSupply assetId + (← toShare amount))
  return { l with currentSupply := Function.update l.currentSupply assetId supply }

def total (l : Ledger) (assetId : AssetId) : ℤ := totalOf assetId l.balances

theorem total_nonneg (l : Ledger) (assetId : AssetId) : 0 ≤ l.total assetId := Int.natCast_nonneg _

theorem getBalance_nonneg (l : Ledger) (owner : AccountId) (assetId : AssetId) :
    0 ≤ (l.getBalance owner assetId).amount := Int.natCast_nonneg _

theorem getBalance_le_total (l : Ledger) (owner : AccountId) (assetId : AssetId) :
    (l.getBalance owner assetId).amount ≤ l.total assetId := by
  exact Int.ofNat_le.mpr (balanceOf_le_totalOf owner assetId l.balances)

/-- `l'` is `l` after the movements `ms`, the newest first. -/
structure Moves (l : Ledger) (ms : List Movement) (l' : Ledger) : Prop where
  movements : l'.movements = ms ++ l.movements
  supply : l'.currentSupply = l.currentSupply
  total : ∀ assetId, l'.total assetId = l.total assetId + netOf assetId ms

theorem Moves.refl (l : Ledger) : l.Moves [] l := ⟨rfl, rfl, fun _ ↦ by simp [netOf]⟩

theorem Moves.trans {l l' l'' : Ledger} {ms ms' : List Movement} (h : l.Moves ms l')
    (h' : l'.Moves ms' l'') : l.Moves (ms' ++ ms) l'' where
  movements := by rw [h'.movements, h.movements, List.append_assoc]
  supply := h'.supply.trans h.supply
  total assetId := by
    rw [h'.total, h.total, netOf_append]
    ring

theorem moves_of_pay {account : AccountId} {sum : Asset} {l l' : Ledger}
    (h : l.pay account sum = .ok l') : l.Moves [.pay account sum] l' := by
  simp only [pay, Checked.bind_eq_ok, Checked.pure_eq_ok] at h
  obtain ⟨bs, hbs, rfl⟩ := h
  refine ⟨rfl, rfl, fun assetId ↦ ?_⟩
  simpa [total, Movement.effect] using adjustBalance_totalOf hbs assetId

theorem moves_of_charge {account : AccountId} {sum : Asset} {l l' : Ledger}
    (h : l.charge account sum = .ok l') : l.Moves [.charge account sum] l' := by
  simp only [charge, Checked.bind_eq_ok, Checked.pure_eq_ok, Asset.neg_eq_ok] at h
  obtain ⟨_, ⟨-, rfl⟩, bs, hbs, rfl⟩ := h
  refine ⟨rfl, rfl, fun assetId ↦ ?_⟩
  have htotal := adjustBalance_totalOf hbs assetId
  simp only [netOf_cons, netOf_nil, Movement.effect, Asset.part, total] at htotal ⊢
  rw [htotal]
  split_ifs <;> ring

theorem moves_of_transfer {source target : AccountId} {taken given : Asset} {l l' : Ledger}
    (h : l.transfer source taken target given = .ok l') :
    l.Moves [.pay target given, .charge source taken] l' := by
  simp only [transfer, Checked.bind_eq_ok] at h
  obtain ⟨mid, hcharge, hpay⟩ := h
  exact (moves_of_charge hcharge).trans (moves_of_pay hpay)

/-- A payment the accounts of the asset have room for is made. -/
theorem pay_ok (account : AccountId) {sum : Asset} {l : Ledger} (hsum : 0 ≤ sum.amount)
    (hroom : l.total sum.assetId + sum.amount < shareEnd) : ∃ l', l.pay account sum = .ok l' := by
  have hle := l.getBalance_le_total account sum.assetId
  simp only [getBalance] at hle
  obtain ⟨bs, hbs⟩ := adjustBalance_ok account sum l.balances (by omega) (by omega)
  exact ⟨_, Checked.bind_eq_ok.mpr ⟨bs, hbs, rfl⟩⟩

/-- A charge the account covers is made. -/
theorem charge_ok (account : AccountId) {sum : Asset} {l : Ledger} (hsum : 0 ≤ sum.amount)
    (hcover : sum.amount ≤ (l.getBalance account sum.assetId).amount)
    (hroom : l.total sum.assetId < shareEnd) : ∃ l', l.charge account sum = .ok l' := by
  have hle := l.getBalance_le_total account sum.assetId
  simp only [getBalance] at hcover hle
  have hneg : InShareRange (-sum.amount) := by
    simp only [InShareRange, shareMin, shareEnd] at hroom ⊢
    omega
  obtain ⟨bs, hbs⟩ := adjustBalance_ok account ⟨-sum.amount, sum.assetId⟩ l.balances
    (by simp only; omega) (by simp only; omega)
  have hdelta : sum.neg = .ok ⟨-sum.amount, sum.assetId⟩ := Asset.neg_eq_ok.mpr ⟨hneg, rfl⟩
  exact ⟨_, Checked.bind_eq_ok.mpr ⟨_, hdelta, Checked.bind_eq_ok.mpr ⟨bs, hbs, rfl⟩⟩⟩

end Ledger

end KarmaCore
