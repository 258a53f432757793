import Mathlib
import KarmaCore.Market.PositionSound
import KarmaCore.Market.Supplies

/-!
# Applying an operation keeps the market sound

What an operation checked before its fee was taken holds when it is applied, and
the fee is put aside, kept in what is created and charged in equal parts.
-/

namespace KarmaCore.Market

open Transfer (get get_eq_ok)
open Books ObjectIndex

namespace MarketState

variable {s s' t : MarketState} {mia id : AssetId} {d : Books} {coreFee : ℤ}

/-- Everything that is held of an asset other than the core is its supply. -/
def SuppliesEven (s : MarketState) : Prop := ∀ key, key ≠ coreAsset → s.books.1 key = 0

/-! ## Operations -/

/-- What an asset was when the operation was evaluated. -/
theorem Payment.find_asset' (h : Payment d s t) {a' : AssetObject}
    (ha' : t.assets.find id = some a') : ∃ a, s.assets.find id = some a ∧ a'.terms = a.terms ∧
      a'.bitassetData = a.bitassetData ∧
      (a.isMarketIssued → a'.dynamicData.currentSupply = a.dynamicData.currentSupply) := by
  obtain ⟨a, ha, hterms⟩ := h.frame.find_asset ha'
  obtain ⟨x, hx, -, hsupply⟩ := h.find_asset ha
  obtain rfl := Option.some.inj (ha'.symm.trans hx)
  exact ⟨a, ha, hterms, AssetObject.bitassetData_of_terms hterms, hsupply⟩

theorem adds_of_updateBitasset {op : AssetUpdateBitassetOperation} (ht : t.AllSound)
    (heval : op.doEvaluate s = .ok ()) (hpaid : Payment d s t) (h : op.doApply t = .ok s') :
    Adds 0 t s' := by
  simp only [AssetUpdateBitassetOperation.doEvaluate, Checked.bind_eq_ok, require_eq_ok, get_eq_ok,
    getBitassetData_eq_ok] at heval
  obtain ⟨a, ha, -, hmarket, b, hb, -, hset, ⟨⟩, hbacking, -⟩ := heval
  refine (op.keeps_of_doApply ht (fun a' b' ha' hb' ↦ ?_) h).toUpholds.adds
  obtain ⟨x, hx, -, hbitasset, hsupply⟩ := hpaid.find_asset' ha'
  obtain rfl := Option.some.inj (ha.symm.trans hx)
  obtain rfl := Option.some.inj (hb.symm.trans (hbitasset ▸ hb'))
  rcases whenever_eq_ok.mp hbacking with ⟨-, hnew⟩ | ⟨hsame, -⟩
  · simp only [AssetUpdateBitassetOperation.checkNewBacking, Checked.bind_eq_ok,
      require_eq_ok] at hnew
    obtain ⟨-, hzero, -⟩ := hnew
    exact .inr ⟨hset, (hsupply hmarket).trans hzero⟩
  · exact .inl (not_not.mp hsame)

theorem adds_of_callOrderUpdate {op : CallOrderUpdateOperation} (ht : t.AllSound)
    (htyped : (MarketOperation.callOrderUpdate op).WellTyped) (heval : op.doEvaluate s = .ok ())
    (hpaid : Payment d s t) (h : op.doApply t = .ok s') : Adds 0 t s' := by
  simp only [CallOrderUpdateOperation.doEvaluate, Checked.bind_eq_ok, require_eq_ok, get_eq_ok,
    getBitassetData_eq_ok] at heval
  obtain ⟨-, -, a, ha, -, hmarket, b, hb, -, hset, -, hbacking, -⟩ := heval
  obtain ⟨a', ha', hterms, -⟩ := hpaid.find_asset ha
  exact op.adds_of_doApply ht
    ⟨ha', (AssetObject.bitassetData_of_terms hterms).trans hb, hset, hbacking⟩ htyped h

/-- Nobody redeems more than there is. -/
theorem settle_le_supply {op : AssetSettleOperation} (hs : s.AllSound) (heven : s.SuppliesEven)
    (h : op.doEvaluate s = .ok ()) : ∃ a, s.assets.find op.amount.assetId = some a ∧
      a.isMarketIssued ∧ op.amount.amount ≤ a.dynamicData.currentSupply := by
  simp only [AssetSettleOperation.doEvaluate, Checked.bind_eq_ok, require_eq_ok, get_eq_ok,
    getBitassetData_eq_ok] at h
  obtain ⟨a, ha, -, hmarket, b, hb, -, -, -, -, -, -, -, -, hbalance⟩ := h
  have hcore := hs.ne_core ha hb
  refine ⟨a, ha, hmarket, ?_⟩
  rw [← currentSupply_of_find ha]
  exact hbalance.trans (balance_le_supply hs hcore (heven _ hcore) op.account)

theorem adds_of_settle {op : AssetSettleOperation} (hs : s.AllSound) (heven : s.SuppliesEven)
    (ht : t.AllSound) (hvalid : op.validate = .ok ()) (heval : op.doEvaluate s = .ok ())
    (hpaid : Payment d s t) (h : op.doApply t = .ok s') : Adds 0 t s' := by
  obtain ⟨a, ha, hmarket, hle⟩ := settle_le_supply hs heven heval
  refine op.adds_of_doApply ht hvalid (fun a' ha' _ ↦ ?_) h
  obtain ⟨x, hx, -, -, hsupply⟩ := hpaid.find_asset' ha'
  obtain rfl := Option.some.inj (ha.symm.trans hx)
  rw [hsupply hmarket]
  exact hle

theorem adds_of_globalSettle {op : AssetGlobalSettleOperation} (ht : t.AllSound)
    (heval : op.doEvaluate s = .ok ()) (hpaid : Payment d s t) (h : op.doApply t = .ok s') :
    Adds 0 t s' := by
  simp only [AssetGlobalSettleOperation.doEvaluate, Checked.bind_eq_ok, require_eq_ok,
    get_eq_ok] at heval
  obtain ⟨a, ha, -, hmarket, -, -, -, -, -, hpos, -⟩ := heval
  obtain ⟨a', ha', -, hsupply⟩ := hpaid.find_asset ha
  refine op.adds_of_doApply ht ?_ h
  rw [currentSupply_of_find ha', hsupply hmarket]
  exact hpos

theorem plain_of_payment {id : AssetId} {a : AssetObject} (ha : s.assets.find id = some a)
    (hplain : ¬a.isMarketIssued) (hpaid : Payment d s t) (a' : AssetObject)
    (ha' : t.assets.find id = some a') : ¬a'.isMarketIssued := by
  obtain ⟨x, hx, -, hbitasset, -⟩ := hpaid.find_asset' ha'
  obtain rfl := Option.some.inj (ha.symm.trans hx)
  rwa [AssetObject.isMarketIssued, hbitasset]

theorem adds_of_issue {op : AssetIssueOperation} (ht : t.AllSound)
    (heval : op.doEvaluate s = .ok ()) (hpaid : Payment d s t) (h : op.doApply t = .ok s') :
    Adds 0 t s' := by
  simp only [AssetIssueOperation.doEvaluate, Checked.bind_eq_ok, require_eq_ok, get_eq_ok] at heval
  obtain ⟨a, ha, -, -, -, hplain, -⟩ := heval
  exact op.adds_of_doApply ht (plain_of_payment ha hplain hpaid) h

theorem adds_of_reserve {op : AssetReserveOperation} (ht : t.AllSound)
    (heval : op.doEvaluate s = .ok ()) (hpaid : Payment d s t) (h : op.doApply t = .ok s') :
    Adds 0 t s' := by
  simp only [AssetReserveOperation.doEvaluate, Checked.bind_eq_ok, require_eq_ok,
    get_eq_ok] at heval
  obtain ⟨a, ha, -, hplain, -⟩ := heval
  exact op.adds_of_doApply ht (plain_of_payment ha hplain hpaid) h

theorem adds_of_bidCollateral {op : BidCollateralOperation} (ht : t.AllSound)
    (hvalid : op.validate = .ok ()) (heval : op.doEvaluate s = .ok ()) (hpaid : Payment d s t)
    (h : op.doApply t = .ok s') : Adds 0 t s' := by
  simp only [BidCollateralOperation.doEvaluate, Checked.bind_eq_ok, require_eq_ok,
    get_eq_ok] at heval
  obtain ⟨-, -, acct, hacct, -⟩ := heval
  exact op.adds_of_doApply ht hvalid
    (hpaid.frame.accounts _ (by rw [hacct, Option.isSome_some])) h

/-- Most evaluators put the whole fee aside. -/
theorem Adds.noRest (h : Adds 0 t s') : Adds (held coreAsset (coreFee - coreFee)) t s' :=
  h.congr (by rw [sub_self, map_zero])

/-- What an evaluator applies adds the rest of the fee, which it keeps, to the books. -/
theorem adds_of_doApply {op : MarketOperation} (hs : s.AllSound) (heven : s.SuppliesEven)
    (hvalid : op.validate = .ok ()) (htyped : op.WellTyped) (heval : op.doEvaluate s = .ok ())
    (hpaid : Payment d s t) (hfee : 0 ≤ coreFee) (h : op.doApply coreFee t = .ok s') :
    Adds (held coreAsset (coreFee - op.paidFee coreFee t)) t s' := by
  have ht := hs.of_frame hpaid.frame
  cases op with
  | limitOrderCreate op =>
      have hdeferred : 0 ≤ MarketOperation.deferredFee coreFee t := by
        unfold MarketOperation.deferredFee
        split_ifs
        exacts [le_rfl, hfee]
      refine (op.adds_of_doApply ht hvalid htyped hdeferred h).congr ?_
      simp only [MarketOperation.deferredFee, MarketOperation.paidFee]
      split_ifs <;> simp
  | assetCreate op => exact op.adds_of_doApply ht hvalid hfee h
  | transfer fee op =>
      simp only [MarketOperation.doApply, Checked.bind_eq_ok, Checked.pure_eq_ok] at h
      obtain ⟨view, hview, rfl⟩ := h
      exact .noRest ((payment_of_transfer hview).toTrade.adds ht)
  | limitOrderCancel op => exact .noRest (op.upholds_of_doApply ht h).adds
  | callOrderUpdate op => exact .noRest (adds_of_callOrderUpdate ht htyped heval hpaid h)
  | bidCollateral op => exact .noRest (adds_of_bidCollateral ht hvalid heval hpaid h)
  | assetUpdate op => exact .noRest (op.adds_of_doApply ht hvalid h)
  | assetUpdateBitasset op => exact .noRest (adds_of_updateBitasset ht heval hpaid h)
  | assetUpdateFeedProducers op => exact .noRest (op.keeps_of_doApply ht h).toUpholds.adds
  | assetPublishFeed op => exact .noRest (op.adds_of_doApply ht hvalid h)
  | assetGlobalSettle op => exact .noRest (adds_of_globalSettle ht heval hpaid h)
  | assetSettle op => exact .noRest (adds_of_settle hs heven ht hvalid heval hpaid h)
  | assetIssue op => exact .noRest (adds_of_issue ht heval hpaid h)
  | assetReserve op => exact .noRest (adds_of_reserve ht heval hpaid h)
  | assetFundFeePool op => exact .noRest (op.adds_of_doApply ht h)
  | assetClaimFees op => exact .noRest (op.adds_of_doApply ht h)
  | feeOnly op =>
      obtain rfl := Except.ok.inj h
      exact .noRest (.refl ht)

/-- The fee and what is applied add nothing to the books once the payer was charged. -/
theorem adds_of_evaluateAndApply {op : MarketOperation} {requiredFee : Option ℤ} (hs : s.AllSound)
    (happly : ∀ {d t coreFee s'}, op.doEvaluate s = .ok () → Payment d s t → 0 ≤ coreFee →
      op.doApply coreFee t = .ok s' → Adds (held coreAsset (coreFee - op.paidFee coreFee t)) t s')
    (h : s.evaluateAndApply op requiredFee = .ok s') : Adds 0 s s' := by
  simp only [evaluateAndApply, Checked.bind_eq_ok] at h
  obtain ⟨coreFee, hprepare, ⟨⟩, -, ⟨⟩, heval, s₁, hconvert, s₂, hpay, s₃, hdo, delta, hdelta,
    hcharge⟩ := h
  obtain ⟨hfee, hcoreFee, hcore⟩ := prepareFee_spec hprepare
  have hput := (payment_of_convertFee hfee hcore hconvert).trans (payment_of_operationFee hpay)
  have htime : s₂.headBlockTime = s₁.headBlockTime :=
    (payment_of_operationFee hpay).frame.headBlockTime
  have hsame : op.paidFee coreFee s₂ = op.paidFee coreFee s₁ := by
    cases op <;> simp only [MarketOperation.paidFee, htime]
  have hdone := (hput.toTrade.adds hs).trans (happly heval hput hcoreFee hdo)
  refine (hdone.trans ((payment_of_takeBalance hdelta hcharge).toTrade.adds hdone.sound)).congr ?_
  rw [hsame, map_sub]
  abel

theorem adds_of_applyOperation {calculateFee : MarketOperation → ℤ} {op : MarketOperation}
    (hs : s.AllSound) (heven : s.SuppliesEven) (htyped : op.WellTyped)
    (h : s.applyOperation calculateFee op = .ok s') : Adds 0 s s' := by
  simp only [applyOperation, Checked.bind_eq_ok] at h
  obtain ⟨⟨⟩, hvalid, h⟩ := h
  exact adds_of_evaluateAndApply hs
    (fun heval hpaid hfee hdo ↦ adds_of_doApply hs heven hvalid htyped heval hpaid hfee hdo) h

end MarketState

end KarmaCore.Market
