import Mathlib
import KarmaCore.Genesis.BalanceClaim

/-!
# The first state of the chain

The genesis state lists assets, with the positions that back them, and the balances that are
handed out.  The supply of each asset is tallied on the way, and that of the core asset is all
there may be if none of it is handed out.
-/

namespace KarmaCore.Genesis

open Authorities (Address AddressHashes committeeAccount)
open Vesting (LinearVestingPolicy)

structure InitialCollateralPosition where
  collateral : ℤ
  debt : ℤ

structure InitialAsset where
  symbol : String
  issuerName : String
  accumulatedFees : ℤ := 0
  isBitasset : Bool := false
  collateralRecords : List InitialCollateralPosition := []

structure InitialBalance where
  owner : Address
  assetSymbol : String
  amount : ℤ

structure InitialVestingBalance extends InitialBalance where
  beginTimestamp : ℕ
  vestingDurationSeconds : ℕ := 0
  beginBalance : ℤ

/-- `genesis_state_type`; of the accounts there are the names, of the witnesses the numbers. -/
structure GenesisState where
  initialTimestamp : ℕ
  numSpecialAssets : ℕ := 1
  accountNames : List String
  initialAssets : List InitialAsset := []
  initialBalances : List InitialBalance := []
  initialVestingBalances : List InitialVestingBalance := []
  initialActiveWitnesses : ℕ := 1
  initialWitnessCandidates : ℕ

structure GenesisAsset where
  id : AssetId
  symbol : String
  isBitasset : Bool
  accumulatedFees : ℤ
  currentSupply : ℤ

structure GenesisCall where
  debtType : AssetId
  collateral : ℤ
  debt : ℤ

/-- What has been created, and the tallies. -/
structure GenesisChain where
  accountNames : List String
  assets : List GenesisAsset
  nextAssetId : AssetId
  callOrders : List GenesisCall := []
  claims : ClaimState
  totalSupplies : AssetId → ℤ := fun _ ↦ 0
  totalDebts : AssetId → ℤ := fun _ ↦ 0

/-- `GRAPHENE_SYMBOL`. -/
def grapheneSymbol : String := "KRM"

/-- The accounts that every chain has. -/
def specialAccountNames : List String :=
  ["committee-account", "witness-account", "relaxed-committee-account", "null-account",
    "temp-account", "proxy-to-self"]

/-- `GRAPHENE_DEFAULT_BLOCK_INTERVAL`. -/
def defaultBlockInterval : ℕ := 5

/-- `total_supplies[ a ] += x`. -/
def addTo (tally : AssetId → ℤ) (a : AssetId) (x : ℤ) : Checked (AssetId → ℤ) := do
  let total ← checkedShare (tally a + x)
  return Function.update tally a total

namespace GenesisChain

/-- Each position gets an account of its own. -/
def createCallOrder (symbol : String) (id : AssetId) (s : GenesisChain)
    (record : InitialCollateralPosition × ℕ) : Checked GenesisChain := do
  let name := (symbol ++ "-collateral-holder-" ++ toString record.2).toLower
  require (name ∉ s.accountNames)
    "current_account_itr == acnt_indx.indices().get<by_name>().end()"
  let totalSupplies ← addTo s.totalSupplies coreAsset record.1.collateral
  let totalDebts ← addTo s.totalDebts id record.1.debt
  return { s with
    accountNames := s.accountNames ++ [name]
    callOrders := s.callOrders ++ [⟨id, record.1.collateral, record.1.debt⟩]
    totalSupplies
    totalDebts }

def createAsset (s : GenesisChain) (asset : InitialAsset) : Checked GenesisChain := do
  let records := if asset.isBitasset then asset.collateralRecords else []
  let t ← records.zipIdx.foldlM (createCallOrder asset.symbol s.nextAssetId) s
  let totalSupplies ← addTo t.totalSupplies s.nextAssetId asset.accumulatedFees
  require (asset.issuerName ∈ t.accountNames)
    "Unable to find account '${acct}'. Did you forget to add a record for it to initial_accounts?"
  require (∀ other ∈ t.assets, other.symbol ≠ asset.symbol)
    "Could not create object! Most likely a uniqueness constraint is violated."
  return { t with
    assets := t.assets ++ [{
      id := s.nextAssetId
      symbol := asset.symbol
      isBitasset := asset.isBitasset
      accumulatedFees := asset.accumulatedFees
      currentSupply := 0 }]
    nextAssetId := s.nextAssetId + 1
    totalSupplies }

/-- Balances of the snapshot that name another symbol are of the core asset. -/
def getAssetId (symbol : String) (s : GenesisChain) : Checked AssetId :=
  match s.assets.find? (·.symbol = if symbol = "BTS" then grapheneSymbol else symbol) with
  | some asset => .ok asset.id
  | none => .error (.assertion
      "Unable to find asset '${sym}'. Did you forget to add a record for it to initial_assets?")

def handOut (handout : InitialBalance) (vestingPolicy : Option LinearVestingPolicy)
    (s : GenesisChain) : Checked GenesisChain := do
  let assetId ← s.getAssetId handout.assetSymbol
  let totalSupplies ← addTo s.totalSupplies assetId handout.amount
  return { s with
    claims := { s.claims with
      balances := s.claims.balances.create
        { owner := handout.owner, balance := ⟨handout.amount, assetId⟩, vestingPolicy } }
    totalSupplies }

def createBalance (s : GenesisChain) (handout : InitialBalance) : Checked GenesisChain :=
  s.handOut handout none

def createVestingBalance (s : GenesisChain) (vest : InitialVestingBalance) :
    Checked GenesisChain :=
  s.handOut vest.toInitialBalance
    (some ⟨vest.beginTimestamp, 0, vest.vestingDurationSeconds, vest.beginBalance⟩)

/-- The committee gives up what it holds once something is handed out. -/
def settleCore (s : GenesisChain) : Checked GenesisChain :=
  if 0 < s.totalSupplies coreAsset then do
    let held : ℤ := balanceOf committeeAccount coreAsset s.claims.accountBalances
    let accountBalances ←
      adjustBalance committeeAccount ⟨-held, coreAsset⟩ s.claims.accountBalances
    return { s with claims := { s.claims with accountBalances } }
  else
    return { s with totalSupplies := Function.update s.totalSupplies coreAsset maxShareSupply }

def saveSupplies (s : GenesisChain) : GenesisChain :=
  { s with
    assets := s.assets.map fun asset ↦ { asset with currentSupply := s.totalSupplies asset.id } }

end GenesisChain

open GenesisChain

namespace GenesisState

/-- The core asset, all of which the committee holds. -/
def start (g : GenesisState) : GenesisChain where
  accountNames := specialAccountNames ++ g.accountNames
  assets := [⟨coreAsset, grapheneSymbol, false, 0, maxShareSupply⟩]
  nextAssetId := max g.numSpecialAssets 1
  claims := {
    balances := .empty
    accountBalances := [⟨committeeAccount, coreAsset, maxShareSupply.toNat⟩]
    headBlockTime := g.initialTimestamp }

/-- `init_genesis`, as far as it is about assets and balances. -/
def initGenesis (g : GenesisState) : Checked GenesisChain := do
  require (g.initialTimestamp ≠ 0) "Must initialize genesis timestamp."
  require (g.initialTimestamp % defaultBlockInterval = 0)
    "Genesis timestamp must be divisible by GRAPHENE_DEFAULT_BLOCK_INTERVAL."
  require (0 < g.initialWitnessCandidates) "Cannot start a chain with zero witnesses."
  require (g.initialActiveWitnesses ≤ g.initialWitnessCandidates)
    "initial_active_witnesses is larger than the number of candidate witnesses."
  let s ← g.initialAssets.foldlM createAsset g.start
  let s ← g.initialBalances.foldlM createBalance s
  let s ← g.initialVestingBalances.foldlM createVestingBalance s
  let s ← s.settleCore
  require (∀ asset ∈ s.assets, asset.isBitasset = true →
    s.totalSupplies asset.id = s.totalDebts asset.id) "!has_imbalanced_assets"
  return s.saveSupplies

end GenesisState

/-! ## The tallies -/

variable {g : GenesisState} {s t : GenesisChain} {a : AssetId}

theorem addTo_eq_ok {tally tally' : AssetId → ℤ} {x : ℤ} (h : addTo tally a x = .ok tally')
    (b : AssetId) : tally' b = tally b + if a = b then x else 0 := by
  simp only [addTo, checkedShare, Checked.bind_eq_ok, Checked.pure_eq_ok] at h
  obtain ⟨total, htotal, rfl⟩ := h
  split_ifs at htotal
  cases htotal
  by_cases hab : a = b
  · subst hab
    rw [Function.update_self, if_pos rfl]
  · rw [Function.update_of_ne (Ne.symm hab), if_neg hab, add_zero]

/-- What every step of a loop keeps, the loop keeps. -/
theorem foldlM_keeps {α β : Type} {f : β → α → Checked β} {P : β → Prop} {l : List α} {b b' : β}
    (hstep : ∀ x ∈ l, ∀ c c', P c → f c x = .ok c' → P c') (hb : P b)
    (h : l.foldlM f b = .ok b') : P b' := by
  induction l generalizing b with
  | nil =>
      obtain rfl := Checked.pure_eq_ok.mp h
      exact hb
  | cons x l ih =>
      rw [List.foldlM_cons, Checked.bind_eq_ok] at h
      obtain ⟨c, hc, hrest⟩ := h
      refine ih (fun y hy ↦ hstep y (List.mem_cons_of_mem x hy)) ?_ hrest
      exact hstep x List.mem_cons_self b c hb hc

namespace GenesisChain

/-- The core asset that backs the positions. -/
def collateral (a : AssetId) (s : GenesisChain) : ℤ :=
  if coreAsset = a then (s.callOrders.map GenesisCall.collateral).sum else 0

def debt (a : AssetId) (s : GenesisChain) : ℤ :=
  (s.callOrders.map fun c ↦ if c.debtType = a then c.debt else 0).sum

def fees (a : AssetId) (s : GenesisChain) : ℤ :=
  (s.assets.map fun asset ↦ if asset.id = a then asset.accumulatedFees else 0).sum

/-- The tallies are what has been created, and no two assets have one id. -/
structure Tallied (s : GenesisChain) : Prop where
  supplies : ∀ a, s.totalSupplies a = s.claims.unclaimed a + s.collateral a + s.fees a
  debts : ∀ a, s.totalDebts a = s.debt a
  distinct : (s.assets.map GenesisAsset.id).Nodup
  below : ∀ asset ∈ s.assets, asset.id < s.nextAssetId
  committee :
    s.claims.accountBalances = [⟨committeeAccount, coreAsset, maxShareSupply.toNat⟩]

theorem Tallied.createCallOrder {symbol : String} {id : AssetId}
    {record : InitialCollateralPosition × ℕ} (hs : s.Tallied)
    (h : s.createCallOrder symbol id record = .ok t) : t.Tallied ∧ t.assets = s.assets := by
  simp only [GenesisChain.createCallOrder, Checked.bind_eq_ok, Checked.pure_eq_ok] at h
  obtain ⟨_, -, supplies, hsupplies, debts, hdebts, rfl⟩ := h
  refine ⟨⟨fun a ↦ ?_, fun a ↦ ?_, hs.distinct, hs.below, hs.committee⟩, rfl⟩
  · change supplies a = s.claims.unclaimed a + collateral a _ + s.fees a
    rw [addTo_eq_ok hsupplies, hs.supplies]
    simp only [collateral, List.map_append, List.sum_append, List.map_singleton,
      List.sum_singleton]
    split_ifs <;> ring
  · change debts a = debt a _
    rw [addTo_eq_ok hdebts, hs.debts]
    simp only [debt, List.map_append, List.sum_append, List.map_singleton, List.sum_singleton]

theorem Tallied.createAsset {asset : InitialAsset} (hs : s.Tallied)
    (h : s.createAsset asset = .ok t) : t.Tallied := by
  simp only [GenesisChain.createAsset, Checked.bind_eq_ok, Checked.pure_eq_ok] at h
  obtain ⟨u, hu, supplies, hsupplies, _, -, _, -, rfl⟩ := h
  obtain ⟨hu, hassets⟩ := foldlM_keeps (P := fun v ↦ v.Tallied ∧ v.assets = s.assets)
    (fun record _ v w hv hw ↦ ⟨(hv.1.createCallOrder hw).1, (hv.1.createCallOrder hw).2.trans hv.2⟩)
    ⟨hs, rfl⟩ hu
  have hnew : s.nextAssetId ∉ s.assets.map GenesisAsset.id := by
    intro hmem
    obtain ⟨other, hother, hsame⟩ := List.mem_map.mp hmem
    exact absurd (hs.below other hother) (hsame ▸ lt_irrefl _)
  refine ⟨fun a ↦ ?_, hu.debts, ?_, fun other hother ↦ ?_, hu.committee⟩
  · change supplies a = u.claims.unclaimed a + u.collateral a + fees a _
    rw [addTo_eq_ok hsupplies, hu.supplies]
    simp only [fees, List.map_append, List.sum_append, List.map_singleton, List.sum_singleton]
    ring
  · simp only [hassets, List.map_append, List.map_singleton]
    rw [List.nodup_append_comm]
    exact List.nodup_cons.mpr ⟨hnew, hs.distinct⟩
  · rw [hassets] at hother
    rcases List.mem_append.mp hother with hold | hlast
    · exact (hs.below other hold).trans (Nat.lt_succ_self _)
    · rw [List.mem_singleton.mp hlast]
      exact Nat.lt_succ_self _

theorem Tallied.handOut {handout : InitialBalance} {policy : Option LinearVestingPolicy}
    (hs : s.Tallied) (h : s.handOut handout policy = .ok t) : t.Tallied := by
  simp only [GenesisChain.handOut, Checked.bind_eq_ok, Checked.pure_eq_ok] at h
  obtain ⟨id, -, supplies, hsupplies, rfl⟩ := h
  refine ⟨fun a ↦ ?_, hs.debts, hs.distinct, hs.below, hs.committee⟩
  change supplies a = ClaimState.unclaimed a _ + s.collateral a + s.fees a
  rw [addTo_eq_ok hsupplies, hs.supplies, ClaimState.unclaimed, ClaimState.unclaimed,
    ObjectIndex.total_create, Asset.part_mk]
  ring

theorem tallied_start (g : GenesisState) : g.start.Tallied := by
  refine ⟨fun a ↦ ?_, fun a ↦ rfl, List.nodup_singleton _, fun asset hasset ↦ ?_, rfl⟩
  · simp [GenesisState.start, ClaimState.unclaimed, ObjectIndex.total, ObjectIndex.empty, collateral,
      fees]
  · rw [List.mem_singleton.mp hasset]
    exact Nat.lt_of_lt_of_le Nat.one_pos (le_max_right _ _)

/-- The fees of an asset are its own. -/
theorem fees_eq {assets : List GenesisAsset} (hdistinct : (assets.map GenesisAsset.id).Nodup)
    {asset : GenesisAsset} (hasset : asset ∈ assets) :
    (assets.map fun other ↦ if other.id = asset.id then other.accumulatedFees else 0).sum =
      asset.accumulatedFees := by
  induction assets with
  | nil => exact absurd hasset List.not_mem_nil
  | cons first assets ih =>
      obtain ⟨hfirst, hrest⟩ := List.nodup_cons.mp hdistinct
      rw [List.map_cons, List.sum_cons]
      rcases List.mem_cons.mp hasset with rfl | hlater
      · have hnone : ∀ x ∈ assets.map fun other ↦
            if other.id = asset.id then other.accumulatedFees else 0, x = 0 := by
          intro x hx
          obtain ⟨other, hother, rfl⟩ := List.mem_map.mp hx
          rw [if_neg]
          intro hsame
          exact hfirst (hsame ▸ List.mem_map_of_mem hother)
        rw [if_pos rfl, List.sum_eq_zero hnone, add_zero]
      · rw [if_neg, zero_add, ih hrest hlater]
        intro hsame
        exact hfirst (hsame ▸ List.mem_map_of_mem hlater)

/-- Nothing that has been created is negative. -/
structure Held (s : GenesisChain) : Prop where
  claims : s.claims.Sound
  fees : ∀ asset ∈ s.assets, 0 ≤ asset.accumulatedFees
  collateral : ∀ c ∈ s.callOrders, 0 ≤ c.collateral

theorem Held.createAsset {asset : InitialAsset} (hs : s.Held)
    (hfees : 0 ≤ asset.accumulatedFees)
    (hcollateral : ∀ record ∈ asset.collateralRecords, 0 ≤ record.collateral)
    (h : s.createAsset asset = .ok t) : t.Held := by
  simp only [GenesisChain.createAsset, Checked.bind_eq_ok, Checked.pure_eq_ok] at h
  obtain ⟨u, hu, supplies, -, _, -, _, -, rfl⟩ := h
  have hrecords : u.Held := by
    refine foldlM_keeps (P := Held) (fun record hrecord v w hv hw ↦ ?_) hs hu
    simp only [createCallOrder, Checked.bind_eq_ok, Checked.pure_eq_ok] at hw
    obtain ⟨_, -, _, -, _, -, rfl⟩ := hw
    refine ⟨hv.claims, hv.fees, fun c hc ↦ ?_⟩
    rcases List.mem_append.mp hc with hold | hnew
    · exact hv.collateral c hold
    · have hmem := List.fst_mem_of_mem_zipIdx hrecord
      rw [List.mem_singleton.mp hnew]
      split_ifs at hmem
      · exact hcollateral record.1 hmem
      · exact absurd hmem List.not_mem_nil
  refine ⟨hrecords.claims, fun other hother ↦ ?_, hrecords.collateral⟩
  rcases List.mem_append.mp hother with hold | hnew
  · exact hrecords.fees other hold
  · rw [List.mem_singleton.mp hnew]
    exact hfees

theorem Held.handOut {handout : InitialBalance} {policy : Option LinearVestingPolicy}
    (hs : s.Held) (hamount : 0 ≤ handout.amount)
    (hpolicy : ∀ p, policy = some p → 0 ≤ p.beginBalance)
    (h : s.handOut handout policy = .ok t) : t.Held := by
  simp only [GenesisChain.handOut, Checked.bind_eq_ok, Checked.pure_eq_ok] at h
  obtain ⟨id, -, supplies, -, rfl⟩ := h
  refine ⟨fun key o hkey ↦ ?_, hs.fees, hs.collateral⟩
  simp only [ObjectIndex.find_create] at hkey
  split_ifs at hkey
  · cases hkey
    exact ⟨hamount, hpolicy⟩
  · exact hs.claims key o hkey

/-- What has been tallied of the core asset is not negative. -/
theorem Held.totalSupplies_nonneg (hs : s.Held) (ht : s.Tallied) (a : AssetId) :
    0 ≤ s.totalSupplies a := by
  have hunclaimed : 0 ≤ s.claims.unclaimed a := by
    refine List.sum_nonneg fun x hx ↦ ?_
    obtain ⟨o, ho, rfl⟩ := List.mem_map.mp hx
    have hamount := (hs.claims o.1 o.2 (ObjectIndex.find_eq_some.mpr ho)).1
    change 0 ≤ o.2.balance.part a
    rw [Asset.part]
    split_ifs
    · exact hamount
    · exact le_rfl
  have hcollateral : 0 ≤ s.collateral a := by
    rw [GenesisChain.collateral]
    split_ifs
    · refine List.sum_nonneg fun x hx ↦ ?_
      obtain ⟨c, hc, rfl⟩ := List.mem_map.mp hx
      exact hs.collateral c hc
    · exact le_rfl
  have hfees : 0 ≤ s.fees a := by
    refine List.sum_nonneg fun x hx ↦ ?_
    obtain ⟨asset, hasset, rfl⟩ := List.mem_map.mp hx
    split_ifs
    · exact hs.fees asset hasset
    · exact le_rfl
  rw [ht.supplies]
  exact add_nonneg (add_nonneg hunclaimed hcollateral) hfees

/-- Either the committee holds the core asset, or it was handed out. -/
theorem Tallied.settleCore (hs : s.Tallied) (hnonneg : 0 ≤ s.totalSupplies coreAsset)
    (h : s.settleCore = .ok t) :
    t.assets = s.assets ∧ t.callOrders = s.callOrders ∧ t.totalDebts = s.totalDebts ∧
      t.claims.balances = s.claims.balances ∧ ∀ a, t.totalSupplies a =
        s.claims.unclaimed a + totalOf a t.claims.accountBalances + s.collateral a + s.fees a := by
  have hall : ((maxShareSupply.toNat : ℕ) : ℤ) = maxShareSupply := rfl
  unfold GenesisChain.settleCore at h
  split_ifs at h with hpos
  · simp only [Checked.bind_eq_ok, Checked.pure_eq_ok] at h
    obtain ⟨balances, hbalances, rfl⟩ := h
    refine ⟨rfl, rfl, rfl, rfl, fun a ↦ ?_⟩
    have htotal := adjustBalance_totalOf hbalances a
    rw [hs.committee] at htotal
    simp only [balanceOf, totalOf, Asset.part_mk, and_self, if_true, hall, add_zero] at htotal
    have hzero : (totalOf a balances : ℤ) = 0 := by
      rw [htotal]
      split_ifs <;> simp [hall]
    rw [hs.supplies, hzero]
    ring
  · obtain rfl := Checked.pure_eq_ok.mp h
    refine ⟨rfl, rfl, rfl, rfl, fun a ↦ ?_⟩
    have hnone : s.totalSupplies coreAsset = 0 := le_antisymm (not_lt.mp hpos) hnonneg
    have hsupplies := hs.supplies a
    simp only [hs.committee, totalOf, add_zero]
    by_cases ha : coreAsset = a
    · subst ha
      rw [Function.update_self, if_pos rfl, hall]
      linarith
    · rw [Function.update_of_ne (Ne.symm ha), if_neg ha, hsupplies]
      simp

end GenesisChain

/-- No amount in the genesis state is negative. -/
structure GenesisState.NonNegative (g : GenesisState) : Prop where
  fees : ∀ asset ∈ g.initialAssets, 0 ≤ asset.accumulatedFees
  collateral : ∀ asset ∈ g.initialAssets, ∀ record ∈ asset.collateralRecords,
    0 ≤ record.collateral
  balances : ∀ handout ∈ g.initialBalances, 0 ≤ handout.amount
  vesting : ∀ vest ∈ g.initialVestingBalances, 0 ≤ vest.amount ∧ 0 ≤ vest.beginBalance

/-- From the first block on, whatever has been claimed, the supply of every asset is what the
accounts hold, what waits to be claimed, what backs positions and what the asset has collected
in fees; and the supply of an asset that is backed is what its positions owe. -/
theorem supply_of_genesis (h : g.initGenesis = .ok s) (hnonneg : g.NonNegative)
    (hashes : AddressHashes) (events : List ClaimEvent) :
    let claims := events.foldl (ClaimState.step hashes) s.claims
    ∀ asset ∈ s.assets,
      asset.currentSupply = claims.unclaimed asset.id + totalOf asset.id claims.accountBalances +
        s.collateral asset.id + asset.accumulatedFees ∧
      (asset.isBitasset = true → s.debt asset.id = asset.currentSupply) := by
  intro claims asset hasset
  simp only [GenesisState.initGenesis, Checked.bind_eq_ok, Checked.pure_eq_ok,
    require_eq_ok] at h
  obtain ⟨_, -, _, -, _, -, _, -, s₁, h₁, s₂, h₂, s₃, h₃, s₄, h₄, _, hbalanced, rfl⟩ := h
  -- the loops keep the tallies, and nothing gets negative
  have hstart : g.start.Tallied ∧ g.start.Held := by
    refine ⟨tallied_start g, ⟨fun id o ho ↦ ?_, fun other hother ↦ ?_, fun c hc ↦ ?_⟩⟩
    · simp [GenesisState.start, ObjectIndex.find_empty] at ho
    · rw [List.mem_singleton.mp hother]
    · exact absurd hc List.not_mem_nil
  have hassets : s₁.Tallied ∧ s₁.Held :=
    foldlM_keeps (P := fun v ↦ v.Tallied ∧ v.Held) (fun x hx _ _ hv hw ↦
      ⟨hv.1.createAsset hw, hv.2.createAsset (hnonneg.fees x hx) (hnonneg.collateral x hx) hw⟩)
      hstart h₁
  have hbalances : s₂.Tallied ∧ s₂.Held :=
    foldlM_keeps (P := fun v ↦ v.Tallied ∧ v.Held) (fun x hx _ _ hv hw ↦
      ⟨hv.1.handOut hw, hv.2.handOut (hnonneg.balances x hx) (fun _ hp ↦ by cases hp) hw⟩)
      hassets h₂
  obtain ⟨htallied, hheld⟩ : s₃.Tallied ∧ s₃.Held :=
    foldlM_keeps (P := fun v ↦ v.Tallied ∧ v.Held) (fun x hx _ _ hv hw ↦
      ⟨hv.1.handOut hw, hv.2.handOut (hnonneg.vesting x hx).1
        (fun _ hp ↦ by cases hp; exact (hnonneg.vesting x hx).2) hw⟩) hbalances h₃
  obtain ⟨hsame, hcalls, hdebts, hwaiting, hsupplies⟩ :=
    htallied.settleCore (hheld.totalSupplies_nonneg htallied coreAsset) h₄
  obtain ⟨old, hold, rfl⟩ := List.mem_map.mp hasset
  have hsound : s₄.claims.Sound := by
    intro id o ho
    rw [hwaiting] at ho
    exact hheld.claims id o ho
  have hunclaimed : s₄.claims.unclaimed old.id = s₃.claims.unclaimed old.id := by
    rw [ClaimState.unclaimed, ClaimState.unclaimed, hwaiting]
  have hfees : s₃.fees old.id = old.accumulatedFees := fees_eq htallied.distinct (hsame ▸ hold)
  have hcollateral : collateral old.id s₄.saveSupplies = s₃.collateral old.id := by
    rw [collateral, collateral, saveSupplies, hcalls]
  refine ⟨?_, fun hbit ↦ ?_⟩
  · have hrun := (conserves_foldl (h := hashes) hsound events old.id).2
    change s₄.totalSupplies old.id =
      (events.foldl (ClaimState.step hashes) s₄.claims).unclaimed old.id +
        totalOf old.id (events.foldl (ClaimState.step hashes) s₄.claims).accountBalances +
        collateral old.id s₄.saveSupplies + old.accumulatedFees
    rw [hrun, hsupplies, hcollateral, hfees, hunclaimed]
  · change debt old.id s₄.saveSupplies = s₄.totalSupplies old.id
    rw [hbalanced old hold hbit, hdebts, htallied.debts, debt, debt, saveSupplies,
      hcalls]

/-- One backed asset, all of which is handed out, and 50 of the core asset. -/
def oneBitasset : GenesisState where
  initialTimestamp := 5
  accountNames := ["init0"]
  initialAssets := [{
    symbol := "USD"
    issuerName := "init0"
    accumulatedFees := 2
    isBitasset := true
    collateralRecords := [⟨100, 30⟩] }]
  initialBalances := [⟨7, "BTS", 50⟩, ⟨8, "USD", 28⟩]
  initialWitnessCandidates := 1

theorem nonNegative_oneBitasset : oneBitasset.NonNegative where
  fees := by simp [oneBitasset]
  collateral := by simp [oneBitasset]
  balances := by simp [oneBitasset]
  vesting := by simp [oneBitasset]

theorem isSome_oneBitasset : oneBitasset.initGenesis.toOption.isSome = true := by
  decide +kernel

def oneBitassetChain : GenesisChain := oneBitasset.initGenesis.toOption.get isSome_oneBitasset

theorem eq_ok_get {α : Type} {x : Checked α} (h : x.toOption.isSome = true) :
    x = .ok (x.toOption.get h) := by
  cases x with
  | ok v => rfl
  | error e => cases h

theorem supply_of_oneBitasset :
    oneBitassetChain.assets.map GenesisAsset.currentSupply = [150, 30] ∧
      let events := [ClaimEvent.claim ⟨⟨0, 0⟩, 6, 0, 7, ⟨50, 0⟩⟩ false]
      let claims := events.foldl (ClaimState.step identityHashes) oneBitassetChain.claims
      ∀ asset ∈ oneBitassetChain.assets,
        asset.currentSupply =
          claims.unclaimed asset.id + totalOf asset.id claims.accountBalances +
            oneBitassetChain.collateral asset.id + asset.accumulatedFees ∧
        (asset.isBitasset = true → oneBitassetChain.debt asset.id = asset.currentSupply) :=
  ⟨by decide +kernel,
    supply_of_genesis (eq_ok_get isSome_oneBitasset) nonNegative_oneBitasset _ _⟩

end KarmaCore.Genesis
