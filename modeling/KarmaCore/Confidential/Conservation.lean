import Mathlib
import KarmaCore.Confidential.ConfidentialEvaluator
import KarmaCore.Lib.Run
import KarmaCore.Market.Trade

/-!
# What blinded balances hide

The amounts the blinded balances of an asset hide add up to its confidential
supply, and no blinded balance is spent twice.  That no balance hides a negative
amount rests on the range proofs, which nothing verifies.
-/

namespace KarmaCore.Confidential

open Authorities (Authority)
open Market (MarketState)
open Transfer (get get_eq_ok)
open ObjectIndex

variable {C B P : Type} [AddCommGroup C] {ecc : Ecc C B P} {hidden : C →+ ℤ}
  {s s' : ConfidentialState C} {assetId : AssetId} {unknown : String}

/-- Commitments bind: the amount one hides is a function of it that is additive and inverts
the commitment to an amount. -/
structure Ecc.Binds (ecc : Ecc C B P) (hidden : C →+ ℤ) : Prop where
  blind : ∀ b, ∀ v < 2 ^ 64, hidden (ecc.blind b v) = v
  valueGenerator : hidden ecc.valueGenerator = 1

/-- What a list of commitments hides of an asset. -/
def hiddenSum (hidden : C →+ ℤ) (assetId : AssetId) (cs : List C) : AssetId → ℤ :=
  Pi.single assetId (cs.map hidden).sum

/-- What the blinded balances of each asset hide. -/
def ConfidentialState.hiddenSupply (hidden : C →+ ℤ) (s : ConfidentialState C) : AssetId → ℤ :=
  s.blindedBalances.total fun _ o ↦ Pi.single o.assetId (hidden o.commitment)

/-- What the dynamic data of each asset say is confidential. -/
def confidentialSupply (m : MarketState) : AssetId → ℤ := fun id ↦
  ((m.assets.find id).map (·.dynamicData.confidentialSupply)).getD 0

namespace ConfidentialState

/-- No two blinded balances share a commitment, and what was spent is gone and was spent once. -/
structure Distinct (s : ConfidentialState C) : Prop where
  commitments : ∀ id id' o o', s.blindedBalances.find id = some o →
    s.blindedBalances.find id' = some o' → o.commitment = o'.commitment → id = id'
  spent : s.spent.Nodup
  gone : ∀ id ∈ s.spent, id < s.blindedBalances.nextId ∧ s.blindedBalances.find id = none

/-- The hidden amounts add up to the confidential supply of each asset. -/
structure Conserved (hidden : C →+ ℤ) (s : ConfidentialState C) : Prop extends s.Distinct where
  supply : s.hiddenSupply hidden = confidentialSupply s.market

/-- Every blinded balance hides an amount that is not negative. -/
def HidesNonneg (hidden : C →+ ℤ) (s : ConfidentialState C) : Prop :=
  ∀ id o, s.blindedBalances.find id = some o → 0 ≤ hidden o.commitment

end ConfidentialState

/-! ## Sums of commitments -/

@[simp] theorem hiddenSum_nil : hiddenSum hidden assetId [] = 0 := by simp [hiddenSum]

theorem hiddenSum_cons (c : C) (cs : List C) : hiddenSum hidden assetId (c :: cs) =
    Pi.single assetId (hidden c) + hiddenSum hidden assetId cs := by
  simp [hiddenSum, Pi.single_add]

/-- An exact sum of commitments is an exact sum of the amounts they hide. -/
theorem Ecc.VerifySum.amounts {ins outs : List C} {excess : ℤ} (h : ecc.VerifySum ins outs excess)
    (hbinds : ecc.Binds hidden) : (ins.map hidden).sum = (outs.map hidden).sum + excess := by
  have hsum := congrArg hidden h
  rwa [map_add, map_zsmul, hbinds.valueGenerator, smul_eq_mul, mul_one, map_list_sum,
    map_list_sum] at hsum

theorem uint64_of_pos {x : ℤ} (hpos : 0 ≤ x) (hlt : x < 2 ^ 64) : (uint64 x : ℤ) = x := by
  unfold uint64
  rw [Int.emod_eq_of_lt hpos hlt, Int.toNat_of_nonneg hpos]

/-- A commitment to a public amount hides that amount. -/
theorem Ecc.Binds.hidden_public (hbinds : ecc.Binds hidden) (b : B) {x : ℤ} (hpos : 0 ≤ x)
    (hlt : x < 2 ^ 64) : hidden (ecc.blind b (uint64 x)) = x := by
  have hcast := uint64_of_pos hpos hlt
  rw [hbinds.blind b (uint64 x) (by omega), hcast]

/-! ## The public counter -/

theorem confidentialSupply_of_frame {m m' : MarketState} (h : m.Frame m') :
    confidentialSupply m' = confidentialSupply m := by
  funext id
  have hterms := congrArg (Option.map fun a : Market.AssetObject ↦ a.dynamicData.confidentialSupply)
    (h.assets id)
  simp only [Option.map_map] at hterms
  exact congrArg (Option.getD · 0) hterms

theorem confidentialSupply_of_assets {m m' : MarketState} (h : m'.assets = m.assets) :
    confidentialSupply m' = confidentialSupply m := by
  funext id
  simp only [confidentialSupply, h]

theorem confidentialSupply_of_modifyDynamicData {m m' : MarketState}
    {f : Market.AssetDynamicData → Checked Market.AssetDynamicData} (delta : ℤ)
    (h : m.modifyDynamicData assetId f = .ok m')
    (hf : ∀ d d', f d = .ok d' → d'.confidentialSupply = d.confidentialSupply + delta) :
    confidentialSupply m' = confidentialSupply m + Pi.single assetId delta := by
  obtain ⟨a, d, ha, hd, rfl⟩ := MarketState.modifyDynamicData_cases h
  funext id
  simp only [confidentialSupply, Pi.add_apply]
  rw [MarketState.find_setAsset ha]
  split_ifs with hid
  · subst hid
    simp [ha, hf _ _ hd]
  · simp [Pi.single_eq_of_ne hid]

theorem setConfidentialSupply_eq_ok {x : ℤ} {d d' : Market.AssetDynamicData}
    (h : setConfidentialSupply x d = .ok d') : d'.confidentialSupply = x := by
  simp only [setConfidentialSupply, Checked.bind_eq_ok, checkedShare_eq_ok, require_eq_ok,
    Checked.pure_eq_ok] at h
  obtain ⟨_, ⟨-, rfl⟩, -, -, rfl⟩ := h
  rfl

theorem confidentialSupply_of_convertFee {m m' : MarketState} {fee : Asset} {coreFeePaid : ℤ}
    (h : m.convertFee fee coreFeePaid = .ok m') : confidentialSupply m' = confidentialSupply m := by
  rcases whenever_eq_ok.mp h with ⟨-, h⟩ | ⟨-, rfl⟩
  · rw [confidentialSupply_of_modifyDynamicData 0 h, Pi.single_zero, add_zero]
    intro d d' hd
    simp only [Checked.bind_eq_ok, checkedShare_eq_ok, Checked.pure_eq_ok] at hd
    obtain ⟨_, -, _, -, rfl⟩ := hd
    exact (add_zero _).symm
  · rfl

theorem confidentialSupply_of_modifyStatistics {m m' : MarketState} {id : AccountId}
    {f : Market.AccountStatistics → Checked Market.AccountStatistics}
    (h : m.modifyStatistics id f = .ok m') : confidentialSupply m' = confidentialSupply m := by
  simp only [MarketState.modifyStatistics, MarketState.modifyAccount, Checked.bind_eq_ok,
    Checked.pure_eq_ok] at h
  obtain ⟨_, -, _, -, rfl⟩ := h
  exact confidentialSupply_of_assets rfl

theorem confidentialSupply_of_payFee {m m' : MarketState} {fbaId : ℕ} {payer : AccountId}
    {coreFeePaid : ℤ} (h : payFee fbaId payer coreFeePaid m = .ok m') :
    confidentialSupply m' = confidentialSupply m := by
  unfold payFee at h
  split at h
  · simp only [MarketState.payFbaFee, Checked.bind_eq_ok, get_eq_ok] at h
    obtain ⟨fba, -, h⟩ := h
    split at h
    · exact confidentialSupply_of_modifyStatistics h
    · simp only [Checked.bind_eq_ok, Checked.pure_eq_ok] at h
      obtain ⟨_, -, rfl⟩ := h
      exact confidentialSupply_of_assets rfl
  · exact confidentialSupply_of_modifyStatistics h

theorem confidentialSupply_of_adjustBalance {m m' : MarketState} {id : AccountId} {delta : Asset}
    (h : m.adjustBalance id delta = .ok m') : confidentialSupply m' = confidentialSupply m :=
  confidentialSupply_of_frame (MarketState.payment_of_adjustBalance h).frame

/-! ## Spending and creating balances -/

/-- What spending some commitments does to the blinded balances. -/
structure Spends (hidden : C →+ ℤ) (assetId : AssetId) (cs : List C)
    (s s' : ConfidentialState C) : Prop where
  market : s'.market = s.market
  distinct : s'.Distinct
  supply : s'.hiddenSupply hidden = s.hiddenSupply hidden - hiddenSum hidden assetId cs
  kept : ∀ id o, s'.blindedBalances.find id = some o → s.blindedBalances.find id = some o

/-- What creating balances under some commitments does. -/
structure Creates (hidden : C →+ ℤ) (assetId : AssetId) (cs : List C)
    (s s' : ConfidentialState C) : Prop where
  market : s'.market = s.market
  distinct : s'.Distinct
  supply : s'.hiddenSupply hidden = s.hiddenSupply hidden + hiddenSum hidden assetId cs
  older : ∀ id o, s.blindedBalances.find id = some o → s'.blindedBalances.find id = some o
  newer : ∀ id o, s'.blindedBalances.find id = some o →
    s.blindedBalances.find id = some o ∨ o.commitment ∈ cs
  present : ∀ c ∈ cs, ∃ id o, s'.blindedBalances.find id = some o ∧ o.commitment = c

namespace ConfidentialState

omit [AddCommGroup C] in
theorem distinct_of_remove {id : ℕ} {o : BlindedBalanceObject C} (hs : s.Distinct)
    (ho : s.blindedBalances.find id = some o) : ConfidentialState.Distinct
      { s with blindedBalances := s.blindedBalances.remove id, spent := id :: s.spent } where
  commitments key key' a a' ha ha' heq := by
    simp only [find_remove] at ha ha'
    split_ifs at ha ha'
    exact hs.commitments key key' a a' ha ha' heq
  spent := by
    refine List.nodup_cons.mpr ⟨fun hmem ↦ ?_, hs.spent⟩
    rw [(hs.gone id hmem).2] at ho
    cases ho
  gone key hkey := by
    simp only [find_remove]
    rcases List.mem_cons.mp hkey with rfl | hkey
    · have hlt : key < s.blindedBalances.nextId := lt_nextId ho
      exact ⟨hlt, if_pos rfl⟩
    · have hgone := hs.gone key hkey
      refine ⟨hgone.1, ?_⟩
      split_ifs
      · rfl
      · exact hgone.2

omit [AddCommGroup C] in
theorem distinct_of_create {a : BlindedBalanceObject C} (hs : s.Distinct)
    (hnew : ∀ o ∈ s.blindedBalances.objects, o.2.commitment ≠ a.commitment) :
    ConfidentialState.Distinct { s with blindedBalances := s.blindedBalances.create a } where
  commitments key key' o o' ho ho' heq := by
    simp only [find_create] at ho ho'
    split_ifs at ho ho' with hkey hkey' hkey'
    · exact hkey.trans hkey'.symm
    · cases ho
      exact absurd heq.symm (hnew (key', o') (find_eq_some.mp ho'))
    · cases ho'
      exact absurd heq (hnew (key, o) (find_eq_some.mp ho))
    · exact hs.commitments key key' o o' ho ho' heq
  spent := hs.spent
  gone key hkey := by
    have hgone := hs.gone key hkey
    simp only [find_create]
    rw [if_neg hgone.1.ne]
    exact ⟨hgone.1.trans (Nat.lt_succ_self _), hgone.2⟩

variable [LinearOrder C]

omit [AddCommGroup C] in
theorem getCommitment_eq_ok {c : C} {o : ℕ × BlindedBalanceObject C}
    (h : s.getCommitment unknown c = .ok o) :
    s.blindedBalances.find o.1 = some o.2 ∧ o.2.commitment = c := by
  unfold getCommitment at h
  split at h
  case h_1 o' hfind =>
    cases h
    have hcommitment := List.find?_some hfind
    exact ⟨find_eq_some.mpr (List.mem_of_find?_eq_some hfind), by simpa using hcommitment⟩
  case h_2 => cases h

omit [AddCommGroup C] in
/-- The inputs are of one asset. -/
theorem assetId_of_checkInputs {inputs : List (BlindInput C)} (hs : s.Distinct)
    (h : s.checkInputs unknown assetId inputs = .ok ()) : ∀ c ∈ inputs.map (·.commitment), ∀ id o,
      s.blindedBalances.find id = some o → o.commitment = c → o.assetId = assetId := by
  induction inputs with
  | nil => simp
  | cons i inputs ih =>
      simp only [checkInputs, Checked.bind_eq_ok, require_eq_ok] at h
      obtain ⟨found, hfound, -, hasset, -, -, hrest⟩ := h
      obtain ⟨hfind, hcommitment⟩ := getCommitment_eq_ok hfound
      intro c hc id o ho hoc
      rcases List.mem_cons.mp hc with rfl | hc
      · have hid := hs.commitments id found.1 o found.2 ho hfind (hoc.trans hcommitment.symm)
        rw [hid, hfind] at ho
        cases ho
        exact hasset
      · exact ih hrest c hc id o ho hoc

theorem spends_of_removeInputs {inputs : List (BlindInput C)} (hs : s.Distinct)
    (hasset : ∀ c ∈ inputs.map (·.commitment), ∀ id o, s.blindedBalances.find id = some o →
      o.commitment = c → o.assetId = assetId)
    (h : removeInputs unknown inputs s = .ok s') :
    Spends hidden assetId (inputs.map (·.commitment)) s s' := by
  induction inputs generalizing s with
  | nil =>
      cases h
      exact ⟨rfl, hs, by simp, fun _ _ ↦ id⟩
  | cons i inputs ih =>
      simp only [removeInputs, Checked.bind_eq_ok] at h
      obtain ⟨found, hfound, hrest⟩ := h
      obtain ⟨hfind, hcommitment⟩ := getCommitment_eq_ok hfound
      have hkept : ∀ id o, (s.blindedBalances.remove found.1).find id = some o →
          s.blindedBalances.find id = some o := by
        intro id o ho
        rw [find_remove] at ho
        split_ifs at ho
        exact ho
      have hspends := ih (distinct_of_remove hs hfind)
        (fun c hc id o ho ↦ hasset c (List.mem_cons_of_mem _ hc) id o (hkept id o ho)) hrest
      refine ⟨hspends.market, hspends.distinct, ?_, fun id o ho ↦ hkept id o (hspends.kept id o ho)⟩
      rw [hspends.supply, List.map_cons, hiddenSum_cons, hiddenSupply, hiddenSupply,
        total_remove hfind, hcommitment,
        hasset i.commitment List.mem_cons_self found.1 found.2 hfind hcommitment]
      abel

theorem creates_of_createOutputs {outs : List (BlindOutput C P)} (hs : s.Distinct)
    (h : createOutputs assetId outs s = .ok s') :
    Creates hidden assetId (outs.map (·.commitment)) s s' := by
  induction outs generalizing s with
  | nil =>
      cases h
      exact ⟨rfl, hs, by simp, fun _ _ ↦ id, fun _ _ ↦ .inl, by simp⟩
  | cons out outs ih =>
      simp only [createOutputs, Checked.bind_eq_ok, require_eq_ok] at h
      obtain ⟨-, hnew, hrest⟩ := h
      have hcreates := ih (distinct_of_create hs hnew) hrest
      have holder : ∀ id o, s.blindedBalances.find id = some o →
          (s.blindedBalances.create ⟨out.commitment, assetId, out.owner⟩).find id = some o := by
        intro id o ho
        rw [find_create, if_neg (lt_nextId ho).ne]
        exact ho
      refine ⟨hcreates.market, hcreates.distinct, ?_,
        fun id o ho ↦ hcreates.older id o (holder id o ho), fun id o ho ↦ ?_, fun c hc ↦ ?_⟩
      · rw [hcreates.supply, List.map_cons, hiddenSum_cons, hiddenSupply, hiddenSupply, total_create]
        abel
      · rcases hcreates.newer id o ho with ho | hmem
        · simp only [find_create] at ho
          split_ifs at ho
          · cases ho
            exact .inr List.mem_cons_self
          · exact .inl ho
        · exact .inr (List.mem_cons_of_mem _ hmem)
      · rcases List.mem_cons.mp hc with rfl | hc
        · exact ⟨s.blindedBalances.nextId, ⟨out.commitment, assetId, out.owner⟩,
            hcreates.older _ _ (by simp [find_create]), rfl⟩
        · exact hcreates.present c hc

end ConfidentialState

/-! ## Applying an operation -/

namespace ConfidentialOperation

def movedAsset : ConfidentialOperation C B P → AssetId
  | transferToBlind o => o.amount.assetId
  | blindTransfer o => o.fee.assetId
  | transferFromBlind o => o.fee.assetId

/-- The commitments an operation spends. -/
def inputs : ConfidentialOperation C B P → List C
  | transferToBlind _ => []
  | blindTransfer o => o.inputs.map (·.commitment)
  | transferFromBlind o => o.inputs.map (·.commitment)

/-- The commitments it creates. -/
def outputs : ConfidentialOperation C B P → List C
  | transferToBlind o => o.outputs.map (·.commitment)
  | blindTransfer o => o.outputs.map (·.commitment)
  | transferFromBlind _ => []

/-- The public amount that becomes hidden, negative when a hidden amount becomes public. -/
def inflow : ConfidentialOperation C B P → ℤ
  | transferToBlind o => o.amount.amount
  | blindTransfer o => -o.fee.amount
  | transferFromBlind o => -(o.amount.amount + o.fee.amount)

end ConfidentialOperation

/-- What an operation that is applied does. -/
structure Moves (hidden : C →+ ℤ) (op : ConfidentialOperation C B P)
    (s s' : ConfidentialState C) : Prop where
  distinct : s'.Distinct
  supply : s'.hiddenSupply hidden = s.hiddenSupply hidden -
    hiddenSum hidden op.movedAsset op.inputs + hiddenSum hidden op.movedAsset op.outputs
  counter : confidentialSupply s'.market = confidentialSupply s.market +
    Pi.single op.movedAsset op.inflow
  newer : ∀ id o, s'.blindedBalances.find id = some o →
    s.blindedBalances.find id = some o ∨ o.commitment ∈ op.outputs
  present : ∀ c ∈ op.outputs, ∃ id o, s'.blindedBalances.find id = some o ∧ o.commitment = c

section steps

variable [LinearOrder C] {op : ConfidentialOperation C B P}

open ConfidentialState

theorem moves_of_transferToBlind {o : TransferToBlindOperation C B P} (hs : s.Distinct)
    (h : o.doApply s = .ok s') : Moves hidden (.transferToBlind o) s s' := by
  simp only [TransferToBlindOperation.doApply, Checked.bind_eq_ok] at h
  obtain ⟨debit, -, market, hdebit, market', hmarket, hcreate⟩ := h
  have hcreates : Creates hidden o.amount.assetId _ { s with market := market' } s' :=
    creates_of_createOutputs ⟨hs.commitments, hs.spent, hs.gone⟩ hcreate
  refine ⟨hcreates.distinct, ?_, ?_, hcreates.newer, hcreates.present⟩
  · rw [hcreates.supply]
    simp only [ConfidentialOperation.inputs, hiddenSum_nil, sub_zero]
    rfl
  · rw [hcreates.market]
    dsimp only
    rw [confidentialSupply_of_modifyDynamicData o.amount.amount hmarket
      (fun d d' hd ↦ setConfidentialSupply_eq_ok hd), confidentialSupply_of_adjustBalance hdebit]
    rfl

theorem moves_of_transferFromBlind {o : TransferFromBlindOperation C B} (hs : s.Distinct)
    (hasset : o.amount.assetId = o.fee.assetId)
    (hinputs : ∀ c ∈ o.inputs.map (·.commitment), ∀ id b, s.blindedBalances.find id = some b →
      b.commitment = c → b.assetId = o.fee.assetId)
    (h : o.doApply s = .ok s') :
    Moves hidden (.transferFromBlind o : ConfidentialOperation C B P) s s' := by
  simp only [TransferFromBlindOperation.doApply, Checked.bind_eq_ok, Checked.pure_eq_ok] at h
  obtain ⟨market, hfee, market', hamount, t, hremove, market'', hmarket, rfl⟩ := h
  have hspends : Spends hidden o.fee.assetId _ { s with market := market' } t :=
    spends_of_removeInputs ⟨hs.commitments, hs.spent, hs.gone⟩ hinputs hremove
  have hdistinct := hspends.distinct
  refine ⟨⟨hdistinct.commitments, hdistinct.spent, hdistinct.gone⟩, ?_, ?_,
    fun id b hb ↦ .inl (hspends.kept id b hb), by simp [ConfidentialOperation.outputs]⟩
  · simp only [ConfidentialOperation.outputs, hiddenSum_nil, add_zero]
    exact hspends.supply
  · dsimp only
    have hleave : ∀ d d' : Market.AssetDynamicData,
        (do
          let leaving ← checkedShare (o.amount.amount + o.fee.amount)
          setConfidentialSupply (d.confidentialSupply - leaving) d) = .ok d' →
        d'.confidentialSupply = d.confidentialSupply + -(o.amount.amount + o.fee.amount) := by
      intro d d' hd
      simp only [Checked.bind_eq_ok, checkedShare_eq_ok] at hd
      obtain ⟨_, ⟨-, rfl⟩, hd⟩ := hd
      exact setConfidentialSupply_eq_ok hd
    rw [confidentialSupply_of_modifyDynamicData _ hmarket hleave, hspends.market]
    dsimp only
    rw [confidentialSupply_of_adjustBalance hamount, confidentialSupply_of_adjustBalance hfee,
      hasset]
    rfl

theorem moves_of_blindTransfer {o : BlindTransferOperation C P} (hs : s.Distinct)
    (hinputs : ∀ c ∈ o.inputs.map (·.commitment), ∀ id b, s.blindedBalances.find id = some b →
      b.commitment = c → b.assetId = o.fee.assetId)
    (h : o.doApply s = .ok s') :
    Moves hidden (.blindTransfer o : ConfidentialOperation C B P) s s' := by
  simp only [BlindTransferOperation.doApply, Checked.bind_eq_ok, Checked.pure_eq_ok] at h
  obtain ⟨market, hfee, t, hremove, t', hcreate, market', hmarket, rfl⟩ := h
  have hspends : Spends hidden o.fee.assetId _ { s with market } t :=
    spends_of_removeInputs ⟨hs.commitments, hs.spent, hs.gone⟩ hinputs hremove
  have hcreates : Creates hidden o.fee.assetId _ t t' :=
    creates_of_createOutputs hspends.distinct hcreate
  have hdistinct := hcreates.distinct
  refine ⟨⟨hdistinct.commitments, hdistinct.spent, hdistinct.gone⟩, ?_, ?_, fun id b hb ↦ ?_,
    hcreates.present⟩
  · have hsupply := hcreates.supply
    rw [hspends.supply] at hsupply
    exact hsupply
  · dsimp only
    rw [confidentialSupply_of_modifyDynamicData (-o.fee.amount) hmarket
      (fun d d' hd ↦ setConfidentialSupply_eq_ok hd), hcreates.market, hspends.market]
    dsimp only
    rw [confidentialSupply_of_adjustBalance hfee]
    rfl
  · rcases hcreates.newer id b hb with hb | hb
    · exact .inl (hspends.kept id b hb)
    · exact .inr hb

variable {calculateFee : ConfidentialOperation C B P → ℤ}

theorem moves_of_doApply (hs : s.Distinct) {t : ConfidentialState C} {market : MarketState}
    (hvalid : op.validate ecc = .ok ()) (heval : op.doEvaluate s = .ok ())
    (h : op.doApply { s with market } = .ok t) : Moves hidden op { s with market } t := by
  have hdistinct : ConfidentialState.Distinct { s with market } :=
    ⟨hs.commitments, hs.spent, hs.gone⟩
  cases op with
  | transferToBlind o => exact moves_of_transferToBlind hdistinct h
  | blindTransfer o =>
      simp only [ConfidentialOperation.doEvaluate, BlindTransferOperation.doEvaluate,
        Checked.bind_eq_ok] at heval
      obtain ⟨-, -, -, -, hinputs⟩ := heval
      have hassets := assetId_of_checkInputs hs hinputs
      exact moves_of_blindTransfer hdistinct hassets h
  | transferFromBlind o =>
      simp only [ConfidentialOperation.validate, TransferFromBlindOperation.validate,
        Checked.bind_eq_ok, require_eq_ok] at hvalid
      obtain ⟨-, -, -, -, -, -, -, hasset, -⟩ := hvalid
      simp only [ConfidentialOperation.doEvaluate, TransferFromBlindOperation.doEvaluate,
        Checked.bind_eq_ok] at heval
      obtain ⟨-, -, hinputs⟩ := heval
      have hassets := assetId_of_checkInputs hs hinputs
      exact moves_of_transferFromBlind hdistinct hasset hassets h

theorem moves_of_applyOperation (hs : s.Distinct)
    (h : s.applyOperation ecc calculateFee op = .ok s') : Moves hidden op s s' := by
  simp only [applyOperation, evaluateAndApply, Checked.bind_eq_ok, Checked.pure_eq_ok] at h
  obtain ⟨⟨⟩, hvalid, core, -, -, -, ⟨⟩, heval, market, hconvert, market', hpay, t, happly, credit,
    -, market'', hcharge, rfl⟩ := h
  have hmoves : Moves hidden op { s with market := market' } t :=
    moves_of_doApply hs hvalid heval happly
  have hdistinct := hmoves.distinct
  refine ⟨⟨hdistinct.commitments, hdistinct.spent, hdistinct.gone⟩, hmoves.supply, ?_,
    hmoves.newer, hmoves.present⟩
  calc confidentialSupply market''
      = confidentialSupply t.market := confidentialSupply_of_adjustBalance hcharge
    _ = confidentialSupply market' + Pi.single op.movedAsset op.inflow := hmoves.counter
    _ = confidentialSupply s.market + Pi.single op.movedAsset op.inflow := by
        rw [confidentialSupply_of_payFee hpay, confidentialSupply_of_convertFee hconvert]

/-- What an accepted operation creates hides what it spends and what becomes hidden. -/
theorem amounts_of_applyOperation (hbinds : ecc.Binds hidden)
    (h : s.applyOperation ecc calculateFee op = .ok s') :
    (op.outputs.map hidden).sum = (op.inputs.map hidden).sum + op.inflow := by
  simp only [applyOperation, evaluateAndApply, Checked.bind_eq_ok, Checked.pure_eq_ok] at h
  obtain ⟨⟨⟩, hvalid, core, -, -, -, -, -, market, -, market', -, t, happly, -⟩ := h
  cases op with
  | transferToBlind o =>
      simp only [ConfidentialOperation.validate, TransferToBlindOperation.validate,
        Checked.bind_eq_ok, require_eq_ok] at hvalid
      obtain ⟨-, -, -, hpos, -, -, -, -, -, hsum, -⟩ := hvalid
      simp only [ConfidentialOperation.doApply, TransferToBlindOperation.doApply,
        Checked.bind_eq_ok, Asset.neg_eq_ok] at happly
      obtain ⟨-, ⟨hrange, -⟩, -⟩ := happly
      have hlt : o.amount.amount < 2 ^ 64 := by
        have hmin := hrange.1
        unfold shareMin at hmin
        omega
      have hhidden := hsum.amounts hbinds
      rw [List.map_singleton, List.sum_singleton,
        hbinds.hidden_public o.blindingFactor hpos.le hlt] at hhidden
      simp only [ConfidentialOperation.outputs, ConfidentialOperation.inputs,
        ConfidentialOperation.inflow, List.map_nil, List.sum_nil]
      omega
  | blindTransfer o =>
      simp only [ConfidentialOperation.validate, BlindTransferOperation.validate,
        Checked.bind_eq_ok, require_eq_ok] at hvalid
      obtain ⟨-, -, -, -, -, -, -, hsum, -⟩ := hvalid
      have hhidden := hsum.amounts hbinds
      simp only [ConfidentialOperation.outputs, ConfidentialOperation.inputs,
        ConfidentialOperation.inflow]
      omega
  | transferFromBlind o =>
      simp only [ConfidentialOperation.validate, TransferFromBlindOperation.validate,
        Checked.bind_eq_ok, require_eq_ok] at hvalid
      obtain ⟨-, hpos, -, hfee, -, -, -, -, -, -, -, -, hsum⟩ := hvalid
      simp only [ConfidentialOperation.doApply, TransferFromBlindOperation.doApply,
        Checked.bind_eq_ok] at happly
      obtain ⟨_, -, _, -, u, -, market'', hmarket, -⟩ := happly
      obtain ⟨a, d, -, hd, -⟩ := MarketState.modifyDynamicData_cases hmarket
      simp only [Checked.bind_eq_ok, checkedShare_eq_ok] at hd
      obtain ⟨-, ⟨hrange, -⟩, -⟩ := hd
      have hlt : o.fee.amount + o.amount.amount < 2 ^ 64 := by
        have hmax := hrange.2
        unfold shareEnd at hmax
        omega
      have hhidden := hsum.amounts hbinds
      rw [List.map_singleton, List.sum_singleton,
        hbinds.hidden_public o.blindingFactor (by omega) hlt] at hhidden
      simp only [ConfidentialOperation.outputs, ConfidentialOperation.inputs,
        ConfidentialOperation.inflow, List.map_nil, List.sum_nil]
      omega

/-- Several outputs hide amounts that are not negative, and so does what a single one is left
with. -/
def ConfidentialOperation.Covered (hidden : C →+ ℤ) (op : ConfidentialOperation C B P) : Prop :=
  (1 < op.outputs.length → ∀ c ∈ op.outputs, 0 ≤ hidden c) ∧
    (op.outputs.length = 1 → 0 ≤ (op.inputs.map hidden).sum + op.inflow)

theorem covered_iff (hbinds : ecc.Binds hidden)
    (h : s.applyOperation ecc calculateFee op = .ok s') :
    op.Covered hidden ↔ ∀ c ∈ op.outputs, 0 ≤ hidden c := by
  have hsum := amounts_of_applyOperation hbinds h
  unfold ConfidentialOperation.Covered
  rw [← hsum]
  cases houts : op.outputs with
  | nil => simp
  | cons c cs =>
      cases cs with
      | nil => simp
      | cons c' cs => simp

/-- An accepted operation keeps hidden amounts from becoming negative exactly when it is
covered. -/
theorem hidesNonneg_iff_covered (hbinds : ecc.Binds hidden) (hs : s.Distinct)
    (hnonneg : s.HidesNonneg hidden) (h : s.applyOperation ecc calculateFee op = .ok s') :
    s'.HidesNonneg hidden ↔ op.Covered hidden := by
  have hmoves : Moves hidden op s s' := moves_of_applyOperation hs h
  rw [covered_iff hbinds h]
  constructor
  · intro hs' c hc
    obtain ⟨id, o, ho, rfl⟩ := hmoves.present c hc
    exact hs' id o ho
  · intro hcovered id o ho
    rcases hmoves.newer id o ho with hold | hnew
    · exact hnonneg id o hold
    · exact hcovered _ hnew

theorem conserved_of_applyOperation (hbinds : ecc.Binds hidden) (hs : s.Conserved hidden)
    (h : s.applyOperation ecc calculateFee op = .ok s') : s'.Conserved hidden := by
  have hmoves : Moves hidden op s s' := moves_of_applyOperation hs.toDistinct h
  refine ⟨hmoves.distinct, ?_⟩
  have hinflow : hiddenSum hidden op.movedAsset op.outputs =
      hiddenSum hidden op.movedAsset op.inputs + Pi.single op.movedAsset op.inflow := by
    rw [hiddenSum, hiddenSum, amounts_of_applyOperation hbinds h, Pi.single_add]
  rw [hmoves.supply, hmoves.counter, hs.supply, hinflow]
  abel

end steps

/-! ## Runs -/

/-- What happens to blinded balances: one of the three operations, or a change of the rest that
leaves the confidential supplies alone. -/
inductive ConfidentialEvent (C B P : Type)
  | operation (op : ConfidentialOperation C B P)
  | elsewhere (change : MarketState → MarketState)
      (keeps : ∀ m, confidentialSupply (change m) = confidentialSupply m)

/-- An operation that throws leaves the state as it was. -/
def ConfidentialState.step [LinearOrder C] (ecc : Ecc C B P)
    (calculateFee : ConfidentialOperation C B P → ℤ) (s : ConfidentialState C) :
    ConfidentialEvent C B P → ConfidentialState C
  | .operation op =>
      match s.applyOperation ecc calculateFee op with
      | .ok s' => s'
      | .error _ => s
  | .elsewhere change _ => { s with market := change s.market }

/-- Nothing is confidential yet. -/
structure ConfidentialState.Genesis (s : ConfidentialState C) : Prop where
  blindedBalances : s.blindedBalances.objects = []
  spent : s.spent = []
  supply : confidentialSupply s.market = 0

def ConfidentialEvent.Covered (hidden : C →+ ℤ) : ConfidentialEvent C B P → Prop
  | .operation op => op.Covered hidden
  | .elsewhere _ _ => True

section runs

variable [LinearOrder C] {calculateFee : ConfidentialOperation C B P → ℤ}
  {start : ConfidentialState C} {guard : ConfidentialState C → ConfidentialEvent C B P → Prop}

open ConfidentialState

omit [AddCommGroup C] [LinearOrder C] in
theorem find_of_genesis (h : start.Genesis) (id : ℕ) : start.blindedBalances.find id = none := by
  rw [find_eq_none, h.blindedBalances]
  simp

/-- An operation is applied or leaves the state as it was. -/
theorem step_operation_cases (op : ConfidentialOperation C B P) :
    s.applyOperation ecc calculateFee op = .ok (s.step ecc calculateFee (.operation op)) ∨
      s.step ecc calculateFee (.operation op) = s := by
  cases h : s.applyOperation ecc calculateFee op with
  | ok s' => exact .inl (by simp only [step, h])
  | error e => exact .inr (by simp only [step, h])

omit [LinearOrder C] in
theorem conserved_of_genesis (h : start.Genesis) : start.Conserved hidden where
  commitments id id' o o' ho := by simp [find_of_genesis h] at ho
  spent := by simp [h.spent]
  gone := by simp [h.spent]
  supply := by
    rw [h.supply]
    apply total_eq_zero
    intro id o ho
    simp [find_of_genesis h] at ho

theorem conserved_of_step (hbinds : ecc.Binds hidden) (event : ConfidentialEvent C B P)
    (hs : s.Conserved hidden) : (s.step ecc calculateFee event).Conserved hidden := by
  cases event with
  | operation op =>
      rcases step_operation_cases op with hok | hsame
      · exact conserved_of_applyOperation hbinds hs hok
      · rwa [hsame]
  | elsewhere change keeps =>
      exact ⟨⟨hs.commitments, hs.spent, hs.gone⟩, hs.supply.trans (keeps s.market).symm⟩

theorem hidesNonneg_of_step (hbinds : ecc.Binds hidden) {event : ConfidentialEvent C B P}
    (hevent : event.Covered hidden) (hs : s.Distinct) (hnonneg : s.HidesNonneg hidden) :
    (s.step ecc calculateFee event).HidesNonneg hidden := by
  cases event with
  | operation op =>
      rcases step_operation_cases op with hok | hsame
      · exact (hidesNonneg_iff_covered hbinds hs hnonneg hok).mpr hevent
      · rwa [hsame]
  | elsewhere change keeps => exact hnonneg

/-- Whatever the operations hide, the sums agree and no blinded balance is spent twice. -/
theorem conserved_of_reaches (hbinds : ecc.Binds hidden) (hstart : start.Genesis)
    (hs : Run.Reaches (step ecc calculateFee) guard start s) : s.Conserved hidden :=
  hs.invariant _ (conserved_of_genesis hstart) fun _ event ht _ ↦ conserved_of_step hbinds event ht

/-- In a run of covered operations the hidden amounts of each asset add up to its confidential
supply, no blinded balance is spent twice and none hides a negative amount; the next operation
keeps it so exactly when it is covered. -/
theorem conserved_of_covered (hbinds : ecc.Binds hidden) (hstart : start.Genesis)
    (hs : Run.Reaches (step ecc calculateFee) (fun _ event ↦ event.Covered hidden) start s) :
    s.Conserved hidden ∧ s.HidesNonneg hidden ∧
      ∀ op s', s.applyOperation ecc calculateFee op = .ok s' →
        (s'.HidesNonneg hidden ↔ op.Covered hidden) := by
  have hboth : s.Conserved hidden ∧ s.HidesNonneg hidden := by
    refine hs.invariant (fun t ↦ t.Conserved hidden ∧ t.HidesNonneg hidden)
      ⟨conserved_of_genesis hstart, fun id o ho ↦ ?_⟩ fun t event ht hcovered ↦ ?_
    · simp [find_of_genesis hstart] at ho
    · exact ⟨conserved_of_step hbinds event ht.1,
        hidesNonneg_of_step hbinds hcovered ht.1.toDistinct ht.2⟩
  exact ⟨hboth.1, hboth.2, fun op s' h ↦
    hidesNonneg_iff_covered hbinds hboth.1.toDistinct hboth.2 h⟩

end runs

/-! ## A run that hides a negative amount -/

/-- Commitments that show their amounts, with proofs that show their bounds. -/
def openEcc : Ecc ℤ ℕ ℕ where
  blind _ v := v
  valueGenerator := 1
  rangeGetInfo maxValue := .ok ⟨maxValue⟩

theorem openEcc_binds : openEcc.Binds (AddMonoidHom.id ℤ) where
  blind _ _ _ := rfl
  valueGenerator := rfl

/-- An account with a hundred of the core asset and nothing confidential. -/
def richMarket : MarketState where
  balances := [⟨5, Market.coreAsset, 100⟩]
  accounts := ⟨6, [(4, {}), (5, {})], by decide, by simp⟩
  assets := ⟨1, [(Market.coreAsset, {})], by decide, by simp [Market.coreAsset]⟩

def keyHolder : Authority := ⟨1, [], [(0, 1)]⟩

/-- Ten go into two blinded balances that hide `first` and `second`. -/
def splitOperation (first second : ℤ) : ConfidentialOperation ℤ ℕ ℕ :=
  .transferToBlind ⟨⟨0, Market.coreAsset⟩, ⟨10, Market.coreAsset⟩, 5, 0,
    [⟨first, 100, keyHolder⟩, ⟨second, 100, keyHolder⟩]⟩

theorem genesis_richMarket : ({ market := richMarket } : ConfidentialState ℤ).Genesis where
  blindedBalances := rfl
  spent := rfl
  supply := by
    funext id
    by_cases hid : id = Market.coreAsset
    · rw [hid]
      rfl
    · have hnone : richMarket.assets.find id = none := by
        rw [find_eq_none]
        intro a ha
        simp only [richMarket, List.mem_singleton, Prod.mk.injEq] at ha
        exact hid ha.1
      simp [confidentialSupply, hnone]

/-- Splitting ten into three and seven is covered. -/
theorem conserved_of_covered_split : ∃ s : ConfidentialState ℤ,
    s.blindedBalances.total (fun _ o ↦ o.commitment) = 10 ∧ s.Conserved (AddMonoidHom.id ℤ) ∧
      s.HidesNonneg (AddMonoidHom.id ℤ) := by
  have hcovered : (splitOperation 3 7).Covered (AddMonoidHom.id ℤ) := ⟨by decide, by decide⟩
  have hrun := conserved_of_covered openEcc_binds genesis_richMarket
    (.next (.operation (splitOperation 3 7)) .refl hcovered :
      Run.Reaches (ConfidentialState.step openEcc fun _ ↦ 0) _ _ _)
  exact ⟨_, by decide +kernel, hrun.1, hrun.2.1⟩

/-- Ten may be split into a hundred and ten and a balance that hides less than nothing. -/
theorem uncovered_split : ∃ s : ConfidentialState ℤ,
    Run.Reaches (ConfidentialState.step openEcc fun _ ↦ 0) (fun _ _ ↦ True)
      { market := richMarket } s ∧ ¬s.HidesNonneg (AddMonoidHom.id ℤ) := by
  refine ⟨_, .next (.operation (splitOperation (-100) 110)) .refl trivial, fun hnonneg ↦ ?_⟩
  have hfirst : ((ConfidentialState.step openEcc (fun _ ↦ 0) { market := richMarket }
      (.operation (splitOperation (-100) 110))).blindedBalances.find 0).map (·.commitment) =
        some (-100) := by decide +kernel
  obtain ⟨o, ho, hcommitment⟩ := Option.map_eq_some_iff.mp hfirst
  have hsign := hnonneg 0 o ho
  rw [hcommitment] at hsign
  norm_num at hsign

end KarmaCore.Confidential
