import Mathlib
import KarmaCore.Market.FairMatch
import KarmaCore.Market.MarginSound

/-!
# When a limit order gets something for what it pays

A new order walks through matches and margin calls.  A fill in which a limit
order pays and gets nothing comes from a turn of that walk in which the amount
that is traded is worth less than one unit at the price of the turn.
-/

namespace KarmaCore.Market

open Transfer (get get_eq_ok)

/-- A limit order that pays in a fill gets something from it. -/
def FillOrderOperation.Gives (f : FillOrderOperation) : Prop :=
  match f.order with
  | .limit _ => 0 < f.pays.amount → 0 < f.receives.amount
  | _ => True

/-- A match or a margin call, with its orders as they are before it. -/
inductive Turn
  | matched (taker maker : LimitOrderObject)
  | called (call : CallOrderObject) (limit : LimitOrderObject)

/-- The amount that is traded is worth a unit at the price of the resting order. -/
def Turn.Worth : Turn → Prop
  | .matched taker maker =>
      if taker.forSale ≤ maker.value maker.forSale then 0 < maker.gives taker.forSale
      else 0 < maker.value maker.forSale
  | .called call limit => 0 < limit.value (min call.debt limit.forSale)

namespace MarketState

variable {s s' s'' : MarketState} {mia : AssetId} {enable forNew called called' : Bool}

/-! ## The fills of call orders -/

/-- The fills that a step adds to the history are of call orders. -/
def CallFills (s s' : MarketState) : Prop :=
  ∃ fs, s'.fills = s.fills ++ fs ∧ ∀ f ∈ fs, f.Gives

theorem CallFills.refl (s : MarketState) : CallFills s s := ⟨[], by simp, by simp⟩

theorem CallFills.trans (h : CallFills s s') (h' : CallFills s' s'') : CallFills s s'' := by
  obtain ⟨fs, hfs, hgives⟩ := h
  obtain ⟨fs', hfs', hgives'⟩ := h'
  refine ⟨fs ++ fs', by rw [hfs', hfs, List.append_assoc], fun f hf ↦ ?_⟩
  rcases List.mem_append.mp hf with hf | hf
  · exact hgives f hf
  · exact hgives' f hf

theorem CallFills.of_eq (h : s'.fills = s.fills) : CallFills s s' := ⟨[], by simp [h], by simp⟩

theorem fills_of_fillCallOrder {id : ℕ} {pays receives : Asset} {price : Price}
    {maker filled : Bool} (h : s.fillCallOrder id pays receives price maker = .ok (filled, s')) :
    s'.limitOrders = s.limitOrders ∧ ∃ c fee,
      s'.fills = s.fills ++ [⟨id, .call c, pays, receives, fee, price, maker⟩] := by
  simp only [fillCallOrder, Checked.bind_eq_ok] at h
  obtain ⟨c, -, -, -, -, -, -, -, debt, -, collateral, -, s₁, hsupply, _, -, s₂, hpay, h⟩ := h
  have hfirst := quiet_of_modifyDynamicData hsupply
  have hsecond : Quiet s₁ s₂ := by
    refine quiet_of_whenever (fun s' h ↦ ?_) hpay
    simp only [Checked.bind_eq_ok] at h
    obtain ⟨s₃, hborrower, hstats⟩ := h
    refine Quiet.trans ?_ (quiet_of_modifyStatistics hstats)
    unfold payBorrower at hborrower
    split at hborrower
    · exact quiet_of_adjustBalance hborrower
    · obtain rfl := Except.ok.inj hborrower
      exact .refl _
  have hquiet := hfirst.trans hsecond
  split_ifs at h <;>
  · obtain ⟨-, rfl⟩ := Prod.mk.inj (Checked.pure_eq_ok.mp h)
    refine ⟨hquiet.limitOrders, c, ⟨0, pays.assetId⟩, ?_⟩
    simp [pushAppliedOperation, hquiet.fills]

theorem callFills_of_closeCallOrders {price : Price} {ids : List ℕ} {gathered gathered' : Asset}
    (h : closeCallOrders price ids gathered s = .ok (gathered', s')) : CallFills s s' := by
  induction ids generalizing gathered s with
  | nil =>
      obtain ⟨-, rfl⟩ := Prod.mk.inj (Except.ok.inj h)
      exact .refl s
  | cons id ids ih =>
      simp only [closeCallOrders, Checked.bind_eq_ok] at h
      obtain ⟨c, -, pays, -, sum, -, ⟨filled, s₁⟩, hfill, -, -, h⟩ := h
      obtain ⟨-, c', fee, hfills⟩ := fills_of_fillCallOrder hfill
      refine CallFills.trans ⟨_, hfills, fun f hf ↦ ?_⟩ (ih h)
      obtain rfl := List.mem_singleton.mp hf
      trivial

theorem callFills_of_globallySettleAsset {price : Price}
    (h : s.globallySettleAsset mia price = .ok s') : CallFills s s' := by
  simp only [globallySettleAsset, Checked.bind_eq_ok] at h
  obtain ⟨a, -, b, -, -, -, _, -, lowest, -, highest, -, ⟨gathered, s₁⟩, hclose, recorded, -, s₂,
    hrecord, hsupply⟩ := h
  refine (callFills_of_closeCallOrders hclose).trans (CallFills.of_eq ?_)
  simp only [modifyBitassetData, modifyAsset, Checked.bind_eq_ok, Checked.pure_eq_ok] at hrecord
  obtain ⟨_, -, _, -, rfl⟩ := hrecord
  exact (quiet_of_modifyDynamicData hsupply).fills

theorem callFills_of_checkForBlackswan {swan : Bool}
    (h : s.checkForBlackswan mia enable = .ok (swan, s')) : CallFills s s' := by
  simp only [checkForBlackswan, Checked.bind_eq_ok] at h
  obtain ⟨a, -, h⟩ := h
  split_ifs at h with hmarket
  · simp only [Checked.bind_eq_ok] at h
    obtain ⟨b, -, h⟩ := h
    split_ifs at h
    · obtain ⟨-, rfl⟩ := Prod.mk.inj (Checked.pure_eq_ok.mp h)
      exact .refl s
    · obtain ⟨-, rfl⟩ := Prod.mk.inj (Checked.pure_eq_ok.mp h)
      exact .refl s
    · simp only [checkLeastCollateral, Checked.bind_eq_ok] at h
      obtain ⟨highest, -, lowest, -, callMin, -, callMax, -, h⟩ := h
      split at h
      · obtain ⟨-, rfl⟩ := Prod.mk.inj (Checked.pure_eq_ok.mp h)
        exact .refl s
      · simp only [Checked.bind_eq_ok] at h
        obtain ⟨least, -, h⟩ := h
        split_ifs at h
        · simp only [Checked.bind_eq_ok, Checked.pure_eq_ok] at h
          obtain ⟨-, -, s₁, hsettle, heq⟩ := h
          obtain ⟨-, rfl⟩ := Prod.mk.inj heq
          exact callFills_of_globallySettleAsset hsettle
        · obtain ⟨-, rfl⟩ := Prod.mk.inj (Checked.pure_eq_ok.mp h)
          exact .refl s
  · obtain ⟨-, rfl⟩ := Prod.mk.inj (Checked.pure_eq_ok.mp h)
    exact .refl s

/-! ## One turn -/

/-- The fills of a match give something exactly when what it trades is worth a unit. -/
theorem gives_iff_of_matchLimitOrders {usd core result : ℕ} {taker maker : LimitOrderObject}
    (husd : s.limitOrders.find usd = some taker) (hcore : s.limitOrders.find core = some maker)
    (htaker : taker.Tradable) (hmaker : maker.Tradable)
    (h : s.matchLimitOrders usd core maker.sellPrice = .ok (result, s')) :
    ∃ fs, s'.fills = s.fills ++ fs ∧ ((∀ f ∈ fs, f.Gives) ↔ (Turn.matched taker maker).Worth) := by
  obtain ⟨usdReceives, coreReceives, usdFilled, coreFilled, mid, hamounts, hfill, hfill', -⟩ :=
    (matchLimitOrders_eq_ok husd hcore).mp h
  obtain ⟨o, fee, -, hfills, -⟩ := fills_of_fillLimitOrder hfill
  obtain ⟨o', fee', -, hfills', -⟩ := fills_of_fillLimitOrder hfill'
  refine ⟨_, by rw [hfills', hfills, List.append_assoc], ?_⟩
  have hsells := sells_of_matchedAmounts hmaker hamounts
  obtain ⟨-, heq⟩ := (matchedAmounts_eq_ok htaker hmaker hsells).mp hamounts
  have htaker0 := htaker.forSale
  have hmaker0 := hmaker.forSale
  split_ifs at heq with hle <;> obtain ⟨rfl, rfl⟩ := Prod.mk.inj heq <;>
    simp [FillOrderOperation.Gives, Turn.Worth, hle, LimitOrderObject.amountForSale, htaker0,
      hmaker0]

/-- So do those of a margin call. -/
theorem gives_iff_of_marginCall {feedPrice : Price} {call limit : ℕ} {c : CallOrderObject}
    {o : LimitOrderObject} {m : MarginMatch} (hc : s.callOrders.find call = some c)
    (ho : s.limitOrders.find limit = some o) (hdebt : 0 < c.debt) (hsound : o.Tradable)
    (h : s.marginCall mia feedPrice enable forNew called call limit = .ok (.filled m s')) :
    ∃ fs, s'.fills = s.fills ++ fs ∧ ((∀ f ∈ fs, f.Gives) ↔ (Turn.called c o).Worth) := by
  simp only [marginCall, Checked.bind_eq_ok, deref_eq_ok] at h
  obtain ⟨o', ho', -, -, c', hc', h⟩ := h
  obtain rfl := Option.some.inj (ho.symm.trans ho')
  obtain rfl := Option.some.inj (hc.symm.trans hc')
  split_ifs at h
  · exact absurd (Checked.pure_eq_ok.mp h) (by simp)
  · exact absurd (Checked.pure_eq_ok.mp h) (by simp)
  · simp only [Checked.bind_eq_ok] at h
    obtain ⟨value, -, backed, -, h⟩ := h
    split_ifs at h <;> simp only [Checked.bind_eq_ok, Checked.pure_eq_ok] at h
    · obtain ⟨m', hm, ⟨_, s₁⟩, hfillCall, ⟨_, s₂⟩, hfillLimit, heq⟩ := h
      obtain ⟨rfl, rfl⟩ := MarginTurn.filled.inj heq
      obtain ⟨-, c', fee, hfills⟩ := fills_of_fillCallOrder hfillCall
      obtain ⟨o', fee', -, hfills', -⟩ := fills_of_fillLimitOrder hfillLimit
      refine ⟨_, by rw [hfills', hfills, List.append_assoc], ?_⟩
      have hamounts : m'.callReceives.amount = min c.debt o.forSale ∧
          m'.callPays.amount = o.value (min c.debt o.forSale) := by
        simp only [marginAmounts, Checked.bind_eq_ok] at hm
        obtain ⟨less, hless, hm⟩ := hm
        obtain ⟨hid, hless⟩ := Asset.lt_eq_ok.mp hless
        have hdebtAsset : c.getDebt = ⟨c.debt, o.sellPrice.base.assetId⟩ :=
          congrArg (Asset.mk c.debt) hid
        split_ifs at hm with hcover <;> simp only [Checked.bind_eq_ok, Checked.pure_eq_ok] at hm
        · obtain ⟨pays, hpays, rfl⟩ := hm
          subst hcover
          have hlt : c.debt < o.forSale := of_decide_eq_true hless
          rw [hdebtAsset] at hpays
          obtain ⟨-, rfl⟩ := (LimitOrderObject.times_base_eq_ok hsound.price hdebt.le
            (hlt.trans hsound.forSale_lt)).mp hpays
          rw [min_eq_left hlt.le]
          exact ⟨rfl, rfl⟩
        · obtain ⟨pays, hpays, rfl⟩ := hm
          rw [Bool.not_eq_true] at hcover
          subst hcover
          have hle : o.forSale ≤ c.debt := not_lt.mp (of_decide_eq_false hless)
          obtain ⟨-, rfl⟩ := (LimitOrderObject.times_base_eq_ok hsound.price hsound.forSale.le
            hsound.forSale_lt).mp hpays
          rw [min_eq_right hle]
          exact ⟨rfl, rfl⟩
      have hpos : 0 < min c.debt o.forSale := lt_min hdebt hsound.forSale
      simp [FillOrderOperation.Gives, Turn.Worth, hamounts.1, hamounts.2, hpos]
    · obtain ⟨-, -, s₁, hsettle, heq⟩ := h
      exact absurd heq (by simp)

/-! ## A whole walk -/

/-- The turns in which a step fills limit orders, in their order. -/
inductive Walk : MarketState → List Turn → MarketState → Prop
  | calls {s s' : MarketState} (h : CallFills s s') : Walk s [] s'
  | matched {s s' : MarketState} {usd core result : ℕ} {taker maker : LimitOrderObject}
      (husd : s.limitOrders.find usd = some taker) (hcore : s.limitOrders.find core = some maker)
      (htaker : taker.Tradable) (hmaker : maker.Tradable)
      (h : s.matchLimitOrders usd core maker.sellPrice = .ok (result, s')) :
      Walk s [.matched taker maker] s'
  | called {s s' : MarketState} {mia : AssetId} {feedPrice : Price} {enable forNew called : Bool}
      {call limit : ℕ} {c : CallOrderObject} {o : LimitOrderObject} {m : MarginMatch}
      (hc : s.callOrders.find call = some c) (ho : s.limitOrders.find limit = some o)
      (hdebt : 0 < c.debt) (hsound : o.Tradable)
      (h : s.marginCall mia feedPrice enable forNew called call limit = .ok (.filled m s')) :
      Walk s [.called c o] s'
  | trans {s s' s'' : MarketState} {ts ts' : List Turn} (h : Walk s ts s') (h' : Walk s' ts' s'') :
      Walk s (ts ++ ts') s''

/-- All fills of a walk give something exactly when every turn of it is worth a unit. -/
theorem Walk.gives_iff {ts : List Turn} (h : Walk s ts s') :
    ∃ fs, s'.fills = s.fills ++ fs ∧ ((∀ f ∈ fs, f.Gives) ↔ ∀ t ∈ ts, t.Worth) := by
  induction h with
  | calls h =>
      obtain ⟨fs, hfs, hgives⟩ := h
      exact ⟨fs, hfs, by simpa using hgives⟩
  | matched husd hcore htaker hmaker h =>
      obtain ⟨fs, hfs, hiff⟩ := gives_iff_of_matchLimitOrders husd hcore htaker hmaker h
      exact ⟨fs, hfs, by simpa using hiff⟩
  | called hc ho hdebt hsound h =>
      obtain ⟨fs, hfs, hiff⟩ := gives_iff_of_marginCall hc ho hdebt hsound h
      exact ⟨fs, hfs, by simpa using hiff⟩
  | trans h h' ih ih' =>
      obtain ⟨fs, hfs, hiff⟩ := ih
      obtain ⟨fs', hfs', hiff'⟩ := ih'
      refine ⟨fs ++ fs', by rw [hfs', hfs, List.append_assoc], ?_⟩
      simp only [List.mem_append, or_imp, forall_and, hiff, hiff']

/-- A step that keeps the market sound and fills limit orders in a walk only. -/
def Walks (s s' : MarketState) : Prop := Keeps s s' ∧ ∃ ts, Walk s ts s'

theorem Walks.of_calls (hk : Keeps s s') (h : CallFills s s') : Walks s s' := ⟨hk, [], .calls h⟩

theorem Walks.refl (hs : s.AllSound) : Walks s s := .of_calls (.refl hs) (.refl s)

theorem Walks.trans (h : Walks s s') (h' : Walks s' s'') : Walks s s'' := by
  obtain ⟨hk, ts, hts⟩ := h
  obtain ⟨hk', ts', hts'⟩ := h'
  exact ⟨hk.trans hk', ts ++ ts', hts.trans hts'⟩

theorem walks_of_checkForBlackswan {swan : Bool} (hs : s.AllSound)
    (h : s.checkForBlackswan mia enable = .ok (swan, s')) : Walks s s' :=
  .of_calls (keeps_of_checkForBlackswan hs h) (callFills_of_checkForBlackswan h)

theorem walks_of_marginCall {feedPrice : Price} {call limit : ℕ} {turn : MarginTurn}
    (hs : s.AllSound) (hcall : s.CallsIn mia [call])
    (h : s.marginCall mia feedPrice enable forNew called call limit = .ok turn) :
    Walks s turn.state := by
  refine ⟨keeps_of_marginCall hs hcall h, ?_⟩
  cases turn with
  | stop b s' =>
      refine ⟨[], .calls ?_⟩
      simp only [marginCall, Checked.bind_eq_ok] at h
      obtain ⟨o, -, -, -, c, -, h⟩ := h
      split_ifs at h
      · obtain ⟨-, rfl⟩ := MarginTurn.stop.inj (Checked.pure_eq_ok.mp h)
        exact .refl s
      · obtain ⟨-, rfl⟩ := MarginTurn.stop.inj (Checked.pure_eq_ok.mp h)
        exact .refl s
      · simp only [Checked.bind_eq_ok] at h
        obtain ⟨value, -, backed, -, h⟩ := h
        split_ifs at h <;> simp only [Checked.bind_eq_ok, Checked.pure_eq_ok] at h
        · obtain ⟨m, -, _, -, _, -, heq⟩ := h
          exact absurd heq (by simp)
        · obtain ⟨-, -, s₁, hsettle, heq⟩ := h
          obtain ⟨-, rfl⟩ := MarginTurn.stop.inj heq
          exact callFills_of_globallySettleAsset hsettle
  | filled m s' =>
      have hread := h
      simp only [marginCall, Checked.bind_eq_ok, deref_eq_ok] at hread
      obtain ⟨o, ho, -, -, c, hc, -⟩ := hread
      exact ⟨_, .called hc ho (hs.callOrders call c hc).debt (hs.limitOrders limit o ho).tradable h⟩

theorem walks_of_andThen {next : Bool → List ℕ → MarketState → Checked (Bool × MarketState)}
    {again : Bool → MarketState → Checked (Bool × MarketState)} {filled : Bool} {limit : ℕ}
    {limits : List ℕ} {turn : MarginTurn} (hturn : Walks s turn.state)
    (hnext : ∀ filled limits t, Walks s t → next filled limits t = .ok (called', s') → Walks t s')
    (hagain : ∀ filled t, Walks s t → again filled t = .ok (called', s') → Walks t s')
    (h : turn.andThen next again filled limit limits = .ok (called', s')) : Walks s s' := by
  cases turn with
  | stop b t =>
      obtain ⟨-, rfl⟩ := Prod.mk.inj (Except.ok.inj h)
      exact hturn
  | filled m t =>
      simp only [MarginTurn.andThen] at h
      by_cases hfilled : m.filledCall = true
      · rw [if_pos hfilled] at h
        exact hturn.trans (hnext _ _ t hturn h)
      · rw [if_neg hfilled] at h
        exact hturn.trans (hagain _ t hturn h)

theorem walks_of_marginCallOrder {feedPrice : Price} {call : ℕ} {limits : List ℕ}
    {next : Bool → List ℕ → MarketState → Checked (Bool × MarketState)} {filled : Bool}
    (hs : s.AllSound) (hcall : s.CallsIn mia [call])
    (hnext : ∀ filled limits t, Walks s t → next filled limits t = .ok (called', s') → Walks t s')
    (h : marginCallOrder mia feedPrice enable forNew call next limits called filled s =
      .ok (called', s')) : Walks s s' := by
  induction limits generalizing called filled s with
  | nil =>
      simp only [marginCallOrder, Checked.bind_eq_ok, Checked.pure_eq_ok] at h
      obtain ⟨⟨_, s₁⟩, hswan, heq⟩ := h
      obtain ⟨-, rfl⟩ := Prod.mk.inj heq
      exact walks_of_checkForBlackswan hs hswan
  | cons limit limits ih =>
      simp only [marginCallOrder, Checked.bind_eq_ok] at h
      obtain ⟨⟨swan, s₁⟩, hswan, h⟩ := h
      have hw := walks_of_checkForBlackswan hs hswan
      split_ifs at h
      · obtain ⟨-, rfl⟩ := Prod.mk.inj (Checked.pure_eq_ok.mp h)
        exact hw
      · simp only [Checked.bind_eq_ok] at h
        obtain ⟨turn, hturn, h⟩ := h
        have hcall₁ := hcall.of_keeps hw.1
        exact hw.trans (walks_of_andThen (walks_of_marginCall hw.1.sound hcall₁ hturn)
          (fun filled limits t ht ↦ hnext filled limits t (hw.trans ht))
          (fun _ t ht ↦ ih ht.1.sound (hcall₁.of_keeps ht.1)
            fun filled limits u hu ↦ hnext filled limits u (hw.trans (ht.trans hu))) h)

theorem walks_of_marginCallLoop {feedPrice : Price} {calls limits : List ℕ} {filled : Bool}
    (hs : s.AllSound) (hcalls : s.CallsIn mia calls)
    (h : marginCallLoop mia feedPrice enable forNew calls limits called filled s =
      .ok (called', s')) : Walks s s' := by
  induction calls generalizing limits called filled s with
  | nil =>
      simp only [marginCallLoop, Checked.bind_eq_ok, Checked.pure_eq_ok] at h
      obtain ⟨⟨_, s₁⟩, hswan, heq⟩ := h
      obtain ⟨-, rfl⟩ := Prod.mk.inj heq
      exact walks_of_checkForBlackswan hs hswan
  | cons call calls ih =>
      have hcall : s.CallsIn mia [call] := fun id hid ↦
        hcalls id (by simp [List.mem_singleton.mp hid])
      have hrest : s.CallsIn mia calls := fun id hid ↦ hcalls id (List.mem_cons_of_mem _ hid)
      exact walks_of_marginCallOrder hs hcall
        (fun _ limits t ht ↦ ih ht.1.sound (hrest.of_keeps ht.1)) h

theorem walks_of_checkCallOrders (hs : s.AllSound)
    (h : s.checkCallOrders mia enable forNew = .ok (called, s')) : Walks s s' := by
  simp only [checkCallOrders, Checked.bind_eq_ok] at h
  obtain ⟨_, -, h⟩ := h
  split_ifs at h
  · simp only [Checked.bind_eq_ok] at h
    obtain ⟨⟨swan, s₁⟩, hswan, h⟩ := h
    have hw := walks_of_checkForBlackswan hs hswan
    split_ifs at h
    · obtain ⟨-, rfl⟩ := Prod.mk.inj (Checked.pure_eq_ok.mp h)
      exact hw
    · simp only [callMargins, getBitassetData, Checked.bind_eq_ok, get_eq_ok,
        getBitassetData_eq_ok] at h
      obtain ⟨b, ⟨a, ha, hb⟩, h⟩ := h
      split_ifs at h
      · obtain ⟨-, rfl⟩ := Prod.mk.inj (Checked.pure_eq_ok.mp h)
        exact hw
      · obtain ⟨-, rfl⟩ := Prod.mk.inj (Checked.pure_eq_ok.mp h)
        exact hw
      · simp only [Checked.bind_eq_ok] at h
        obtain ⟨maxPrice, -, minPrice, -, h⟩ := h
        split_ifs at h
        · obtain ⟨-, rfl⟩ := Prod.mk.inj (Checked.pure_eq_ok.mp h)
          exact hw
        · simp only [Checked.bind_eq_ok] at h
          obtain ⟨callMin, hmin, callMax, hmax, h⟩ := h
          refine hw.trans (walks_of_marginCallLoop hw.1.sound (fun id hid c hc ↦ ?_) h)
          obtain ⟨o, ho, rfl⟩ := List.mem_map.mp hid
          obtain ⟨ho, hmia⟩ := (mem_callsBetween hw.1.sound ha hb hmin hmax).mp ho
          rwa [Option.some.inj (hc.symm.trans ho)]
  · obtain ⟨-, rfl⟩ := Prod.mk.inj (Checked.pure_eq_ok.mp h)
    exact .refl hs

theorem walks_of_matchOldOrders {new : ℕ} {olds : List ℕ} (hs : s.AllSound) (hne : new ∉ olds)
    (h : matchOldOrders new olds s = .ok s') : Walks s s' := by
  induction olds generalizing s with
  | nil =>
      obtain rfl := Except.ok.inj h
      exact .refl hs
  | cons old olds ih =>
      simp only [matchOldOrders, Checked.bind_eq_ok, deref_eq_ok] at h
      obtain ⟨maker, hmaker, ⟨result, s₁⟩, hmatch, h⟩ := h
      have hread := hmatch
      simp only [matchLimitOrders, Checked.bind_eq_ok, deref_eq_ok] at hread
      obtain ⟨taker, htaker, -⟩ := hread
      have hsound := (hs.limitOrders old maker hmaker)
      have hmatched := matched_of_matchLimitOrders hs hsound.proper
        (by rintro rfl; exact hne List.mem_cons_self) hmatch
      have hw : Walks s s₁ := ⟨hmatched.toTrade.keeps hs, _, .matched htaker hmaker
        (hs.limitOrders new taker htaker).tradable hsound.tradable hmatch⟩
      split_ifs at h
      · exact hw.trans (ih hw.1.sound (fun hmem ↦ hne (List.mem_cons_of_mem _ hmem)) h)
      · obtain rfl := Checked.pure_eq_ok.mp h
        exact hw

theorem walks_of_matchNewOrder {id : ℕ} {sellPrice : Price} {filled : Bool} (hs : s.AllSound)
    (hnew : ∀ o, s.limitOrders.find id = some o → o.sellPrice = sellPrice)
    (hassets : sellPrice.base.assetId ≠ sellPrice.quote.assetId)
    (h : s.matchNewOrder id sellPrice enable = .ok (filled, s')) : Walks s s' := by
  simp only [matchNewOrder, Checked.bind_eq_ok] at h
  obtain ⟨highest, hhighest, s₁, hmatch, ⟨_, s₂⟩, hcheck, ⟨_, s₃⟩, hcheck', h⟩ := h
  have hne : id ∉ (s.limitsBetween highest sellPrice.inverse).map Prod.fst := by
    intro hmem
    obtain ⟨o, ho, rfl⟩ := List.mem_map.mp hmem
    obtain ⟨hfind, hbase, -⟩ := mem_limitsBetween hhighest rfl rfl ho
    rw [hnew _ hfind] at hbase
    exact hassets hbase
  have hw₁ := walks_of_matchOldOrders hs hne hmatch
  have hw₂ := hw₁.trans (walks_of_checkCallOrders hw₁.1.sound hcheck)
  have hw₃ := hw₂.trans (walks_of_checkCallOrders hw₂.1.sound hcheck')
  split_ifs at h
  · obtain ⟨-, rfl⟩ := Prod.mk.inj (Checked.pure_eq_ok.mp h)
    exact hw₃
  · obtain ⟨-, rfl⟩ := Prod.mk.inj (Checked.pure_eq_ok.mp h)
    exact hw₃
  · exact hw₃.trans (.of_calls ((trade_of_maybeCullSmallOrder h).toTrade.keeps hw₃.1.sound)
      (.of_eq (reduced_of_maybeCullSmallOrder h).fills))

theorem walks_of_applyOrder {id : ℕ} {filled : Bool} (hs : s.AllSound)
    (h : s.applyOrder id enable = .ok (filled, s')) : Walks s s' := by
  simp only [applyOrder, Checked.bind_eq_ok, deref_eq_ok] at h
  obtain ⟨o, ho, toReceive, -, _, -, _, -, ⟨calledSome, s₁⟩, hcheck, ⟨calledOther, s₂⟩, hcheck',
    h⟩ := h
  have hw₁ := walks_of_checkCallOrders hs hcheck
  have hw₂ := hw₁.trans (walks_of_checkCallOrders hw₁.1.sound hcheck')
  split_ifs at h
  · obtain ⟨-, rfl⟩ := Prod.mk.inj (Checked.pure_eq_ok.mp h)
    exact hw₂
  · refine hw₂.trans (walks_of_matchNewOrder hw₂.1.sound (fun o' ho' ↦ ?_)
      (hs.limitOrders id o ho).assets h)
    obtain ⟨o₀, ho₀, hred⟩ := hw₂.1.limitOrders id o' ho'
    rw [Option.some.inj (ho.symm.trans ho₀), hred.terms]

theorem elevenBook_assets {id : ℕ} {a : AssetObject} (h : elevenBook.assets.find id = some a) :
    a = {} := by
  rcases List.mem_cons.mp (ObjectIndex.find_eq_some.mp h) with heq | h
  · exact (Prod.mk.inj heq).2
  · exact (Prod.mk.inj (List.mem_singleton.mp h)).2

theorem elevenBook_sound : elevenBook.AllSound where
  core := ⟨{}, rfl, rfl⟩
  feesNonneg := by
    intro id a ha
    rw [elevenBook_assets ha]
    decide
  limitOrders := by
    intro id o ho
    have hmem := ObjectIndex.find_eq_some.mp ho
    simp only [elevenBook, List.mem_cons, Prod.mk.injEq, List.not_mem_nil, or_false] at hmem
    rcases hmem with ⟨-, rfl⟩ | ⟨-, rfl⟩ | ⟨-, rfl⟩ <;>
      exact ⟨by decide, by decide, by decide, by decide, by decide, by decide, by decide⟩
  callOrders := by
    intro id c hc
    exact absurd hc (by simp [elevenBook])
  forceSettlements := by
    intro id o ho
    exact absurd ho (by simp [elevenBook])
  collateralBids := by
    intro id b _ hb
    exact absurd hb (by simp [elevenBook])
  vestingBalances := by
    intro id v hv
    exact absurd hv (by simp [elevenBook])
  accumulatedFees := by
    intro id _
    unfold accumulatedFees
    cases ha : elevenBook.assets.find id with
    | none => simp
    | some a => simp [elevenBook_assets ha]
  confidentialSupply := by
    intro id a ha
    rw [elevenBook_assets ha]
  feeds := by
    intro id a b ha hb
    rw [elevenBook_assets ha] at hb
    cases hb
  bitassets := by
    intro mia a b _ ha hb
    rw [elevenBook_assets ha] at hb
    cases hb

end MarketState

end KarmaCore.Market
