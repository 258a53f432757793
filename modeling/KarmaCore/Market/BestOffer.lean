import Mathlib
import KarmaCore.Market.BlackSwan
import KarmaCore.Market.BookOrder

/-!
# Margin calls and the best offer

The loop of `check_call_orders` walks through both books with an iterator each.
The flag that moves the iterator of the limit orders is declared outside of the
loop: once a limit order was filled, the iterator also leaves an order of which
only a part was taken, and before that it stays at an order that a fill culled.
-/

namespace KarmaCore.Market

open Transfer (get get_eq_ok)
open MarketState (MarginMatch MarginTurn)
open ObjectIndex

/-- Where the loop of `check_call_orders` stands, with the ids from each iterator to the end
of its range. -/
structure LoopHead where
  calls : List ℕ
  limits : List ℕ
  marginCalled : Bool
  filledLimit : Bool
  market : MarketState

/-- What follows a turn: another one, or the result of the loop. -/
def LoopHead.after (h : LoopHead) : MarginTurn → LoopHead ⊕ (Bool × MarketState)
  | .stop marginCalled s => .inr (marginCalled, s)
  | .filled m s =>
      let filledLimit := h.filledLimit || m.filledLimit
      .inl {
        calls := if m.filledCall then h.calls.tail else h.calls
        limits := if filledLimit then h.limits.tail else h.limits
        marginCalled := true
        filledLimit
        market := s }

/-- One pass through the loop of `check_call_orders`, with the test of its head. -/
def LoopHead.turn (mia : AssetId) (feedPrice : Price) (enableBlackSwan forNewLimitOrder : Bool)
    (h : LoopHead) : Checked (LoopHead ⊕ (Bool × MarketState)) := do
  let (swan, s) ← h.market.checkForBlackswan mia enableBlackSwan
  match swan, h.calls, h.limits with
  | false, call :: _, limit :: _ =>
      return h.after (← s.marginCall mia feedPrice enableBlackSwan forNewLimitOrder h.marginCalled
        call limit)
  | _, _, _ => return .inr (h.marginCalled, s)

namespace MarketState

/-! ## Offers and calls -/

/-- A price from `price::max` down to the squeeze price. -/
def Eligible (mia backing : AssetId) (squeeze p : Price) : Prop :=
  ¬p.Gt ⟨⟨maxShareSupply, mia⟩, ⟨1, backing⟩⟩ ∧ ¬squeeze.Gt p

instance (mia backing : AssetId) (squeeze p : Price) : Decidable (Eligible mia backing squeeze p) :=
  inferInstanceAs (Decidable (_ ∧ _))

/-- No call order in the asset has a lower call price. -/
def LowestCall (mia backing : AssetId) (call : ℕ) (s : MarketState) : Prop :=
  ∃ c, s.callOrders.find call = some c ∧ c.callPrice.OfPair backing mia ∧
    ∀ id c', s.callOrders.find id = some c' → c'.callPrice.OfPair backing mia →
      ¬c'.callPrice.Lt c.callPrice

/-- The limit order is in the book, and no eligible one has a better price. -/
def BestOffer (mia backing : AssetId) (squeeze : Price) (limit : ℕ) (s : MarketState) : Prop :=
  ∃ o, s.limitOrders.find limit = some o ∧ Eligible mia backing squeeze o.sellPrice ∧
    ∀ id o', s.limitOrders.find id = some o' → Eligible mia backing squeeze o'.sellPrice →
      ¬o'.sellPrice.Gt o.sellPrice

/-- The feed does not protect the order, and the best offer has reached its call price. -/
def InTerritory (mia backing : AssetId) (feedPrice squeeze : Price) (c : CallOrderObject)
    (s : MarketState) : Prop :=
  ¬(feedPrice.Gt c.callPrice.inverse ∧ hardfork436Time < s.headBlockTime) ∧
    ∃ limit o, s.limitOrders.find limit = some o ∧ BestOffer mia backing squeeze limit s ∧
      ¬o.sellPrice.Gt c.callPrice.inverse

/-- The asset is globally settled. -/
def GloballySettled (mia : AssetId) (s : MarketState) : Prop :=
  ∃ a b, s.assets.find mia = some a ∧ a.bitassetData = some b ∧ b.HasSettlement

/-- A turn fills the call order with the lowest call price with the best offer. -/
def TakesBest (mia backing : AssetId) (feedPrice squeeze : Price) (enable forNew : Bool)
    (h h' : LoopHead) : Prop :=
  ∃ call limit m, h.calls.head? = some call ∧ h.limits.head? = some limit ∧
    LowestCall mia backing call h.market ∧ BestOffer mia backing squeeze limit h.market ∧
    h.market.marginCall mia feedPrice enable forNew h.marginCalled call limit =
      .ok (.filled m h'.market)

/-- Why the loop may end. -/
inductive LoopEnd (mia backing : AssetId) (feedPrice squeeze : Price) (s : MarketState) : Prop
  | noOffer (h : ∀ id o, s.limitOrders.find id = some o → ¬Eligible mia backing squeeze o.sellPrice)
  | noCall (h : ∀ id c, s.callOrders.find id = some c → c.callPrice.OfPair backing mia →
      ¬InTerritory mia backing feedPrice squeeze c s)
  | settled (h : s.GloballySettled mia)

/-! ## The loop -/

/-- The head of the loop that `check_call_orders` enters. -/
structure EntersLoop (mia : AssetId) (enable : Bool) (b : AssetBitassetData) (squeeze : Price)
    (s : MarketState) (start : LoopHead) : Prop where
  asset : ∃ a, s.assets.find mia = some a ∧ a.bitassetData = some b
  noSwan : s.checkForBlackswan mia enable = .ok (false, s)
  noPrediction : b.isPredictionMarket = false
  feed : ¬b.currentFeed.settlementPrice.IsNull
  backing : b.options.shortBackingAsset ≠ mia
  squeezePrice : b.currentFeed.maxShortSqueezePrice = .ok squeeze
  offered : start.limits ≠ []
  start : start = {
    calls := (s.callBook mia b.options.shortBackingAsset).map Prod.fst
    limits := (s.limitsBetween ⟨⟨maxShareSupply, mia⟩, ⟨1, b.options.shortBackingAsset⟩⟩
      squeeze).map Prod.fst
    marginCalled := false
    filledLimit := false
    market := s }

/-- The orders in the books as they were accepted. -/
structure MarginBooks (s : MarketState) : Prop where
  calls : ∀ id c, s.callOrders.find id = some c → 0 < c.debt ∧ c.callPrice.Bounded
  limits : ∀ id o, s.limitOrders.find id = some o → o.Sound

end MarketState

/-- Where a part of a limit order is taken, an earlier fill of a limit order has set the flag
exactly if the rest of this one is culled. -/
def LoopHead.KeepsPlace (h : LoopHead) : Prop :=
  ∀ call limit c o, h.calls.head? = some call → h.limits.head? = some limit →
    h.market.callOrders.find call = some c → h.market.limitOrders.find limit = some o →
    c.debt < o.forSale → (h.filledLimit = true ↔ MarketState.RestCulled c.debt o)

namespace MarketState

theorem MarginBooks.of_callFilled {call limit : ℕ} {c : CallOrderObject} {o : LimitOrderObject}
    {m : MarginMatch} {s s' : MarketState} (hs : s.MarginBooks)
    (hc : s.callOrders.find call = some c) (ho : s.limitOrders.find limit = some o)
    (hfilled : CallFilled call limit c o m s s') : s'.MarginBooks := by
  obtain ⟨hdebt, hbounded⟩ := hs.calls call c hc
  have hsound := hs.limits limit o ho
  have hremoved : ∀ {α : Type} {ix : ObjectIndex α} {id key : ℕ} {a : α},
      (ix.remove id).find key = some a → ix.find key = some a := by
    intro α ix id key a ha
    rw [find_remove] at ha
    split_ifs at ha
    exact ha
  constructor
  · intro id c' hc'
    by_cases hle : c.debt ≤ o.forSale
    · rw [hfilled.callOrders_filled hle] at hc'
      exact hs.calls id c' (hremoved hc')
    · obtain ⟨rest, hprice, hrest, hset⟩ := hfilled.callOrders_part (not_le.mp hle)
      rw [hset, find_set hc] at hc'
      split_ifs at hc'
      · rw [← Option.some.inj hc', hprice, hrest]
        exact ⟨sub_pos.mpr (not_le.mp hle), hbounded⟩
      · exact hs.calls id c' hc'
  · intro id o' ho'
    by_cases hle : o.forSale ≤ c.debt
    · rw [hfilled.limitOrders_filled hle] at ho'
      exact hs.limits id o' (hremoved ho')
    · rw [hfilled.limitOrders_part (not_le.mp hle)] at ho'
      split_ifs at ho'
      · exact hs.limits id o' (hremoved ho')
      · rw [find_set ho] at ho'
        split_ifs at ho'
        · obtain rfl := Option.some.inj ho'
          have hbase : o.forSale - c.debt ≤ o.sellPrice.base.amount := by
            have := hsound.le_base
            omega
          exact ⟨sub_pos.mpr (not_le.mp hle), hbase, hsound.base_lt, hsound.quote, hsound.quote_lt,
            hsound.assets, le_rfl⟩
        · exact hs.limits id o' ho'

end MarketState

/-! ## The loop, turn by turn -/

namespace LoopHead

variable {mia backing : AssetId} {feedPrice squeeze : Price} {enable forNew swan : Bool}
  {h h' start : LoopHead} {r : Bool × MarketState} {next : LoopHead ⊕ (Bool × MarketState)}
  {s : MarketState}

/-- The loop from a head on. -/
def run (mia : AssetId) (feedPrice : Price) (enable forNew : Bool) (h : LoopHead) :
    Checked (Bool × MarketState) :=
  h.market.marginCallLoop mia feedPrice enable forNew h.calls h.limits h.marginCalled h.filledLimit

/-- One head of the loop comes after another. -/
def Turns (mia : AssetId) (feedPrice : Price) (enable forNew : Bool) (h h' : LoopHead) : Prop :=
  h.turn mia feedPrice enable forNew = .ok (.inl h')

theorem turn_cases (hturn : h.turn mia feedPrice enable forNew = .ok next) :
    ∃ swan s, h.market.checkForBlackswan mia enable = .ok (swan, s) ∧
      ((swan = true ∨ h.calls = [] ∨ h.limits = []) ∧ next = .inr (h.marginCalled, s) ∨
        swan = false ∧ ∃ call calls limit limits t, h.calls = call :: calls ∧
          h.limits = limit :: limits ∧
          s.marginCall mia feedPrice enable forNew h.marginCalled call limit = .ok t ∧
          next = h.after t) := by
  simp only [turn, Checked.bind_eq_ok] at hturn
  obtain ⟨⟨swan, s⟩, hcheck, hturn⟩ := hturn
  refine ⟨swan, s, hcheck, ?_⟩
  cases swan with
  | true => exact .inl ⟨.inl rfl, (Checked.pure_eq_ok.mp hturn).symm⟩
  | false =>
      rcases hcalls : h.calls with _ | ⟨call, calls⟩ <;> rw [hcalls] at hturn
      · exact .inl ⟨.inr (.inl rfl), (Checked.pure_eq_ok.mp hturn).symm⟩
      · rcases hlimits : h.limits with _ | ⟨limit, limits⟩ <;> rw [hlimits] at hturn
        · exact .inl ⟨.inr (.inr rfl), (Checked.pure_eq_ok.mp hturn).symm⟩
        · simp only [Checked.bind_eq_ok, Checked.pure_eq_ok] at hturn
          obtain ⟨t, ht, rfl⟩ := hturn
          exact .inr ⟨rfl, call, calls, limit, limits, t, rfl, rfl, ht, rfl⟩

/-- A turn that does not fill its call order fills its limit order. -/
theorem filledLimit_of_marginCall {called : Bool} {call limit : ℕ} {m : MarginMatch}
    {s' : MarketState}
    (hcall : s.marginCall mia feedPrice enable forNew called call limit = .ok (.filled m s'))
    (hpart : m.filledCall = false) : m.filledLimit = true := by
  simp only [MarketState.marginCall, Checked.bind_eq_ok, deref_eq_ok] at hcall
  obtain ⟨o, -, -, -, c, -, hcall⟩ := hcall
  split_ifs at hcall <;> simp only [Checked.bind_eq_ok, Checked.pure_eq_ok, reduceCtorEq] at hcall
  obtain ⟨value, -, backed, -, hcall⟩ := hcall
  split_ifs at hcall <;> simp only [Checked.bind_eq_ok, Checked.pure_eq_ok, reduceCtorEq, and_false,
    exists_false] at hcall
  obtain ⟨m', hm, _, -, _, -, heq⟩ := hcall
  obtain ⟨rfl, -⟩ := MarginTurn.filled.inj heq
  obtain ⟨-, -, hfilledCall, hfilledLimit⟩ := MarketState.marginAmounts_cases hm
  rw [hpart] at hfilledCall
  rw [hfilledLimit]
  exact decide_eq_true (not_le.mp (of_decide_eq_false hfilledCall.symm)).le

/-- The loop is the iteration of its turns, each with fewer orders before its iterators. -/
theorem turn_of_run (hrun : h.run mia feedPrice enable forNew = .ok r) :
    h.turn mia feedPrice enable forNew = .ok (.inr r) ∨
      ∃ h', Turns mia feedPrice enable forNew h h' ∧ h'.run mia feedPrice enable forNew = .ok r ∧
        h'.calls.length + h'.limits.length < h.calls.length + h.limits.length := by
  obtain ⟨calls, limits, marginCalled, filledLimit, s⟩ := h
  rcases calls with _ | ⟨call, calls⟩
  · simp only [run, MarketState.marginCallLoop, Checked.bind_eq_ok, Checked.pure_eq_ok] at hrun
    obtain ⟨⟨swan, s'⟩, hcheck, rfl⟩ := hrun
    left
    simp only [turn, hcheck]
    cases swan <;> rfl
  rcases limits with _ | ⟨limit, limits⟩
  · simp only [run, MarketState.marginCallLoop, MarketState.marginCallOrder, Checked.bind_eq_ok,
      Checked.pure_eq_ok] at hrun
    obtain ⟨⟨swan, s'⟩, hcheck, rfl⟩ := hrun
    left
    simp only [turn, hcheck]
    cases swan <;> rfl
  simp only [run, MarketState.marginCallLoop, MarketState.marginCallOrder, Checked.bind_eq_ok] at hrun
  obtain ⟨⟨swan, s'⟩, hcheck, hrun⟩ := hrun
  cases swan with
  | true =>
      left
      obtain rfl := Checked.pure_eq_ok.mp hrun
      simp only [turn, hcheck]
      rfl
  | false =>
      simp only [Bool.false_eq_true, if_false, Checked.bind_eq_ok] at hrun
      obtain ⟨t, ht, hrun⟩ := hrun
      have hturn : LoopHead.turn mia feedPrice enable forNew
          ⟨call :: calls, limit :: limits, marginCalled, filledLimit, s⟩ =
            .ok (LoopHead.after ⟨call :: calls, limit :: limits, marginCalled, filledLimit, s⟩ t) := by
        simp only [turn, hcheck]
        change (do return LoopHead.after _ (← s'.marginCall mia feedPrice enable forNew marginCalled
          call limit)) = _
        rw [ht]
        rfl
      cases t with
      | stop called s'' =>
          left
          rw [hturn]
          exact congrArg _ (congrArg _ (Except.ok.inj hrun))
      | filled m s'' =>
          right
          refine ⟨_, hturn, ?_, ?_⟩
          · cases hcall : m.filledCall with
            | true =>
                simp only [MarginTurn.andThen, hcall, if_true] at hrun
                simp only [run, if_true, List.tail_cons]
                exact hrun
            | false =>
                have hlimit := filledLimit_of_marginCall ht hcall
                simp only [MarginTurn.andThen, hcall, Bool.false_eq_true, if_false] at hrun
                simp only [run, hlimit, Bool.or_true, Bool.false_eq_true, if_false, if_true,
                  List.tail_cons, MarketState.marginCallLoop]
                rw [hlimit, Bool.or_true] at hrun
                exact hrun
          · change (if m.filledCall = true then calls else call :: calls).length +
              (if (filledLimit || m.filledLimit) = true then limits else limit :: limits).length <
                calls.length + 1 + (limits.length + 1)
            cases hcall : m.filledCall with
            | true =>
                rw [if_pos rfl]
                split_ifs
                · omega
                · rw [List.length_cons]
                  omega
            | false =>
                rw [filledLimit_of_marginCall ht hcall, Bool.or_true, if_pos rfl,
                  if_neg Bool.false_ne_true, List.length_cons]
                omega

/-- A loop that returns went through its turns to the last one. -/
theorem reaches_of_run (hrun : h.run mia feedPrice enable forNew = .ok r) :
    ∃ last, Relation.ReflTransGen (Turns mia feedPrice enable forNew) h last ∧
      last.turn mia feedPrice enable forNew = .ok (.inr r) := by
  induction hn : h.calls.length + h.limits.length using Nat.strong_induction_on generalizing h with
  | _ n ih =>
      rcases turn_of_run hrun with hlast | ⟨h', hturns, hrun', hless⟩
      · exact ⟨h, .refl, hlast⟩
      · obtain ⟨last, hreach, hlast⟩ := ih _ (hn ▸ hless) hrun' rfl
        exact ⟨last, .head hturns hreach, hlast⟩

/-! ## The iterators and the books -/

/-- The iterators stand at the first of the orders that the books have left in their ranges. -/
structure Current (mia backing : AssetId) (squeeze : Price) (h : LoopHead) : Prop where
  calls : Lists CallOrderObject.callPrice (Price.OfPair backing mia) (fun p q ↦ q.Lt p)
    h.market.callOrders h.calls
  limits : Lists LimitOrderObject.sellPrice (MarketState.Eligible mia backing squeeze)
    (fun p q ↦ q.Gt p) h.market.limitOrders h.limits
  books : h.market.MarginBooks

theorem Current.lowestCall {call : ℕ} {calls : List ℕ} (hcurrent : Current mia backing squeeze h)
    (hcalls : h.calls = call :: calls) : MarketState.LowestCall mia backing call h.market := by
  have hlists := hcurrent.calls
  rw [hcalls] at hlists
  obtain ⟨c, hc, hpair, hfirst⟩ := hlists.head
  refine ⟨c, hc, hpair, fun id c' hc' hpair' ↦ ?_⟩
  by_cases hid : id = call
  · rw [hid, hc] at hc'
    rw [← Option.some.inj hc']
    exact Price.lt_irrefl _
  · exact hfirst id c' hid hc' hpair'

theorem Current.bestOffer {limit : ℕ} {limits : List ℕ} (hcurrent : Current mia backing squeeze h)
    (hlimits : h.limits = limit :: limits) :
    MarketState.BestOffer mia backing squeeze limit h.market := by
  have hlists := hcurrent.limits
  rw [hlimits] at hlists
  obtain ⟨o, ho, heligible, hfirst⟩ := hlists.head
  refine ⟨o, ho, heligible, fun id o' ho' heligible' ↦ ?_⟩
  by_cases hid : id = limit
  · rw [hid, ho] at ho'
    rw [← Option.some.inj ho']
    exact Price.gt_irrefl _
  · exact hfirst id o' hid ho' heligible'

theorem eq_of_noSwan {s' : MarketState} (hcheck : s.checkForBlackswan mia enable = .ok (false, s')) :
    s' = s := by
  simp only [MarketState.checkForBlackswan, Checked.bind_eq_ok, get_eq_ok] at hcheck
  obtain ⟨a, -, hcheck⟩ := hcheck
  split_ifs at hcheck
  · simp only [Checked.bind_eq_ok] at hcheck
    obtain ⟨b, -, hcheck⟩ := hcheck
    split_ifs at hcheck
    · cases hcheck
    · exact (Prod.mk.inj (Checked.pure_eq_ok.mp hcheck)).2.symm
    · simp only [MarketState.checkLeastCollateral, Checked.bind_eq_ok] at hcheck
      obtain ⟨_, -, _, -, _, -, _, -, hcheck⟩ := hcheck
      split at hcheck
      · exact (Prod.mk.inj (Checked.pure_eq_ok.mp hcheck)).2.symm
      · simp only [Checked.bind_eq_ok] at hcheck
        obtain ⟨least, -, hcheck⟩ := hcheck
        split_ifs at hcheck
        · simp only [Checked.bind_eq_ok, Checked.pure_eq_ok] at hcheck
          obtain ⟨-, -, s₁, -, heq⟩ := hcheck
          cases heq
        · exact (Prod.mk.inj (Checked.pure_eq_ok.mp hcheck)).2.symm
  · exact (Prod.mk.inj (Checked.pure_eq_ok.mp hcheck)).2.symm

/-- A turn that goes on leaves the iterators at their ranges. -/
theorem Current.turns (hcurrent : Current mia backing squeeze h) (hplace : h.KeepsPlace)
    (hturns : Turns mia feedPrice enable forNew h h') : Current mia backing squeeze h' := by
  obtain ⟨swan, s, hcheck, hnext⟩ := turn_cases hturns
  rcases hnext with ⟨-, hend⟩ | ⟨rfl, call, calls, limit, limits, t, hcalls, hlimits, ht, hnext⟩
  · cases hend
  obtain rfl := eq_of_noSwan hcheck
  rcases t with ⟨called, s'⟩ | ⟨m, s'⟩
  · cases hnext
  obtain rfl := Sum.inl.inj hnext
  obtain ⟨c, hc, -⟩ := hcurrent.lowestCall hcalls
  obtain ⟨o, ho, -⟩ := hcurrent.bestOffer hlimits
  obtain ⟨hdebt, hbounded⟩ := hcurrent.books.calls call c hc
  have hsound := hcurrent.books.limits limit o ho
  have hfilled := MarketState.callFilled_of_marginCall hc ho hdebt hsound ht
  have hguard : c.debt < o.forSale → (h.filledLimit = true ↔ MarketState.RestCulled c.debt o) :=
    hplace call limit c o (by rw [hcalls, List.head?_cons]) (by rw [hlimits, List.head?_cons]) hc ho
  have hlistsCalls := hcurrent.calls
  have hlistsLimits := hcurrent.limits
  rw [hcalls] at hlistsCalls
  rw [hlimits] at hlistsLimits
  refine ⟨?_, ?_, hcurrent.books.of_callFilled hc ho hfilled⟩
  · change Lists _ _ _ s'.callOrders (if m.filledCall = true then h.calls.tail else h.calls)
    rw [hcalls, List.tail_cons, hfilled.filledCall]
    by_cases hle : c.debt ≤ o.forSale
    · rw [decide_eq_true hle, if_pos rfl, hfilled.callOrders_filled hle]
      exact hlistsCalls.remove_head
    · obtain ⟨c', hprice, -, hset⟩ := hfilled.callOrders_part (not_le.mp hle)
      rw [decide_eq_false hle, if_neg Bool.false_ne_true, hset]
      exact hlistsCalls.set hc hprice
  · change Lists _ _ _ s'.limitOrders
      (if (h.filledLimit || m.filledLimit) = true then h.limits.tail else h.limits)
    rw [hlimits, List.tail_cons, hfilled.filledLimit]
    by_cases hle : o.forSale ≤ c.debt
    · rw [decide_eq_true hle, Bool.or_true, if_pos rfl, hfilled.limitOrders_filled hle]
      exact hlistsLimits.remove_head
    · have hlt := not_le.mp hle
      rw [decide_eq_false hle, Bool.or_false, hfilled.limitOrders_part hlt]
      -- the flag is as it was before this turn
      by_cases hculled : MarketState.RestCulled c.debt o
      · rw [if_pos hculled, if_pos ((hguard hlt).mpr hculled)]
        exact hlistsLimits.remove_head
      · rw [if_neg hculled, if_neg fun hflag ↦ hculled ((hguard hlt).mp hflag)]
        exact hlistsLimits.set ho rfl

/-! ## The end of the loop -/

theorem settled_of_globallySettleAsset {s' : MarketState} {price : Price}
    (hsettle : s.globallySettleAsset mia price = .ok s') : s'.GloballySettled mia := by
  simp only [MarketState.globallySettleAsset, Checked.bind_eq_ok, get_eq_ok,
    MarketState.getBitassetData_eq_ok, require_eq_ok, per_eq_ok] at hsettle
  obtain ⟨a, -, b, -, -, -, -, -, lowest, -, highest, -, ⟨gathered, t⟩, -, _, ⟨hne, rfl⟩, s₂, hbitasset,
    hdynamic⟩ := hsettle
  obtain ⟨a', b', _, ha', hb', hprice, rfl⟩ := MarketState.modifyBitassetData_cases hbitasset
  obtain rfl := Except.ok.inj hprice
  obtain ⟨a₂, d, ha₂, -, rfl⟩ := MarketState.modifyDynamicData_cases hdynamic
  have hwritten : a₂.bitassetData = some { b' with
      settlementPrice := ⟨⟨a.dynamicData.currentSupply, mia⟩, gathered⟩
      settlementFund := gathered.amount } := by
    rw [find_set ha', if_pos rfl] at ha₂
    rw [← Option.some.inj ha₂]
  refine ⟨{ a₂ with dynamicData := d }, _, ?_, hwritten, fun hnull ↦ ?_⟩
  · exact (find_set ha₂).trans (if_pos rfl)
  · exact hne (hnull.1.trans hnull.2.1.symm)

theorem settled_of_swan {s' : MarketState} (hcheck : s.checkForBlackswan mia enable = .ok (true, s')) :
    s'.GloballySettled mia := by
  simp only [MarketState.checkForBlackswan, Checked.bind_eq_ok, get_eq_ok] at hcheck
  obtain ⟨a, ha, hcheck⟩ := hcheck
  split_ifs at hcheck
  · simp only [Checked.bind_eq_ok, MarketState.getBitassetData_eq_ok] at hcheck
    obtain ⟨b, hb, hcheck⟩ := hcheck
    split_ifs at hcheck with hset
    · obtain ⟨-, rfl⟩ := Prod.mk.inj (Checked.pure_eq_ok.mp hcheck)
      exact ⟨a, b, ha, hb, hset⟩
    · cases Checked.pure_eq_ok.mp hcheck
    · simp only [MarketState.checkLeastCollateral, Checked.bind_eq_ok] at hcheck
      obtain ⟨_, -, _, -, _, -, _, -, hcheck⟩ := hcheck
      split at hcheck
      · cases Checked.pure_eq_ok.mp hcheck
      · simp only [Checked.bind_eq_ok] at hcheck
        obtain ⟨least, -, hcheck⟩ := hcheck
        split_ifs at hcheck
        · simp only [Checked.bind_eq_ok, Checked.pure_eq_ok] at hcheck
          obtain ⟨-, -, s₁, hsettle, heq⟩ := hcheck
          obtain ⟨-, rfl⟩ := Prod.mk.inj heq
          exact settled_of_globallySettleAsset hsettle
        · cases Checked.pure_eq_ok.mp hcheck
  · cases Checked.pure_eq_ok.mp hcheck

theorem stop_cases {called called' : Bool} {call limit : ℕ} {s' : MarketState}
    (hcall : s.marginCall mia feedPrice enable forNew called call limit = .ok (.stop called' s')) :
    ∃ o c, s.limitOrders.find limit = some o ∧ s.callOrders.find call = some c ∧
      (feedPrice.Gt c.callPrice.inverse ∧ hardfork436Time < s.headBlockTime ∧ s' = s ∨
        o.sellPrice.Gt c.callPrice.inverse ∧ s' = s ∨
        s.globallySettleAsset mia feedPrice = .ok s') := by
  simp only [MarketState.marginCall, Checked.bind_eq_ok, deref_eq_ok] at hcall
  obtain ⟨o, ho, -, -, c, hc, hcall⟩ := hcall
  refine ⟨o, c, ho, hc, ?_⟩
  split_ifs at hcall with hprotected hprice
  · obtain ⟨-, rfl⟩ := MarginTurn.stop.inj (Checked.pure_eq_ok.mp hcall)
    exact .inl ⟨hprotected.1, hprotected.2, rfl⟩
  · obtain ⟨-, rfl⟩ := MarginTurn.stop.inj (Checked.pure_eq_ok.mp hcall)
    exact .inr (.inl ⟨hprice, rfl⟩)
  · simp only [Checked.bind_eq_ok] at hcall
    obtain ⟨value, -, backed, -, hcall⟩ := hcall
    split_ifs at hcall <;> simp only [Checked.bind_eq_ok, Checked.pure_eq_ok] at hcall
    · obtain ⟨m, -, _, -, _, -, heq⟩ := hcall
      cases heq
    · obtain ⟨-, -, s₁, hsettle, heq⟩ := hcall
      obtain ⟨-, rfl⟩ := MarginTurn.stop.inj heq
      exact .inr (.inr hsettle)

/-- The loop ends without an offer, without a call order to be called, or with the asset
settled. -/
theorem Current.ends (hcurrent : Current mia backing squeeze h) (hbacking : backing ≠ mia)
    (hfeed : feedPrice.Proper) (hturn : h.turn mia feedPrice enable forNew = .ok (.inr r)) :
    MarketState.LoopEnd mia backing feedPrice squeeze r.2 := by
  obtain ⟨swan, s, hcheck, ⟨hend, hr⟩ | ⟨rfl, call, calls, limit, limits, t, hcalls, hlimits, ht,
    hnext⟩⟩ := turn_cases hturn
  · obtain rfl := Sum.inr.inj hr
    cases swan with
    | true => exact .settled (settled_of_swan hcheck)
    | false =>
        obtain rfl := eq_of_noSwan hcheck
        rcases hend with hswan | hcalls | hlimits
        · cases hswan
        · have hlists := hcurrent.calls
          rw [hcalls] at hlists
          exact .noCall fun id c hc hpair ↦ absurd hpair (hlists.nil hc)
        · have hlists := hcurrent.limits
          rw [hlimits] at hlists
          exact .noOffer fun id o ho ↦ hlists.nil ho
  · obtain rfl := eq_of_noSwan hcheck
    rcases t with ⟨called, s'⟩ | ⟨m, s'⟩
    swap
    · cases hnext
    obtain rfl := Sum.inr.inj hnext
    obtain ⟨o, c, ho, hc, hstop⟩ := stop_cases ht
    obtain ⟨c₀, hc₀, hpair, hlowest⟩ := hcurrent.lowestCall hcalls
    obtain rfl := Option.some.inj (hc.symm.trans hc₀)
    obtain ⟨o₀, ho₀, heligible, -⟩ := hcurrent.bestOffer hlimits
    obtain rfl := Option.some.inj (ho.symm.trans ho₀)
    have hproper : ∀ {id c}, h.market.callOrders.find id = some c →
        c.callPrice.OfPair backing mia → c.callPrice.Proper := fun hc hpair ↦ by
      refine (hcurrent.books.calls _ _ hc).2.proper ?_
      rw [hpair.1, hpair.2]
      exact hbacking
    have hoffer := (hcurrent.books.limits limit o ho).proper.comparable
    rcases hstop with ⟨hprotected, hfork, rfl⟩ | ⟨hprice, rfl⟩ | hsettle
    · refine .noCall fun id c' hc' hpair' hin ↦ hin.1 ⟨?_, hfork⟩
      exact hfeed.comparable.gt_inverse_of_not_lt (hproper hc hpair) (hproper hc' hpair') hpair hpair'
        hprotected (hlowest id c' hc' hpair')
    · refine .noCall fun id c' hc' hpair' hin ↦ ?_
      obtain ⟨-, limit', o', ho', ⟨o₁, ho₁, heligible', hbest⟩, hreached⟩ := hin
      obtain rfl := Option.some.inj (ho'.symm.trans ho₁)
      have habove := hoffer.gt_inverse_of_not_lt (hproper hc hpair) (hproper hc' hpair') hpair hpair'
        hprice (hlowest id c' hc' hpair')
      have hoffer' := (hcurrent.books.limits limit' o' ho').proper.comparable
      have hnot := hbest limit o ho heligible
      rw [hoffer.gt_iff hoffer', not_lt] at hnot
      refine hreached ?_
      rw [hoffer'.gt_iff (hproper hc' hpair').inverse.comparable]
      rw [hoffer.gt_iff (hproper hc' hpair').inverse.comparable] at habove
      exact habove.trans_le hnot
    · exact .settled (settled_of_globallySettleAsset hsettle)

/-! ## The start of the loop -/

variable {b : AssetBitassetData}

theorem lists_callBook (hs : s.MarginBooks) (hbacking : backing ≠ mia) :
    Lists CallOrderObject.callPrice (Price.OfPair backing mia) (fun p q ↦ q.Lt p) s.callOrders
      ((s.callBook mia backing).map Prod.fst) := by
  have hlow : Price.lowest backing mia = .ok ⟨⟨1, backing⟩, ⟨maxShareSupply, mia⟩⟩ :=
    MarketState.per_of_ne hbacking
  have hhigh : Price.highest backing mia = .ok ⟨⟨maxShareSupply, backing⟩, ⟨1, mia⟩⟩ :=
    MarketState.per_of_ne hbacking
  have hproper : ∀ {id c}, s.callOrders.find id = some c →
      ¬c.callPrice.Lt ⟨⟨1, backing⟩, ⟨maxShareSupply, mia⟩⟩ ∧
        ¬Price.Lt ⟨⟨maxShareSupply, backing⟩, ⟨1, mia⟩⟩ c.callPrice → c.callPrice.Comparable := by
    intro id c hc hrange
    obtain ⟨hbase, hquote⟩ := Price.pair_of_between hlow hhigh hrange.1 hrange.2
    exact ((hs.calls id c hc).2.proper (by rwa [hbase, hquote])).comparable
  have hlists : Lists CallOrderObject.callPrice (fun p ↦
      ¬p.Lt ⟨⟨1, backing⟩, ⟨maxShareSupply, mia⟩⟩ ∧
        ¬Price.Lt ⟨⟨maxShareSupply, backing⟩, ⟨1, mia⟩⟩ p) (fun p q ↦ q.Lt p) s.callOrders
      ((s.callBook mia backing).map Prod.fst) := by
    refine lists_select CallOrderObject.callPrice _ (fun p q ↦ q.Lt p) s.callOrders
      (fun i c j c' hc hc' hp hp' hless ↦ ?_)
      fun i c j c' k c'' hc hc' hc'' hp hp' hp'' hnot hnot' ↦ ?_
    · rw [(hproper hc' hp').lt_iff (hproper hc hp)] at hless
      rw [(hproper hc hp).lt_iff (hproper hc' hp')]
      exact hless.le.not_gt
    · rw [(hproper hc' hp').lt_iff (hproper hc hp), not_lt] at hnot
      rw [(hproper hc'' hp'').lt_iff (hproper hc' hp'), not_lt] at hnot'
      rw [(hproper hc'' hp'').lt_iff (hproper hc hp), not_lt]
      exact hnot.trans hnot'
  refine hlists.congr_range fun id c hc ↦ ⟨fun hrange ↦ ?_, fun hpair ↦ ?_⟩
  · exact Price.pair_of_between hlow hhigh hrange.1 hrange.2
  · rw [← hpair.1, ← hpair.2] at hlow hhigh
    have hbetween := (hs.calls id c hc).2.between hlow hhigh
    rwa [hpair.1, hpair.2] at hbetween

theorem lists_offers (hs : s.MarginBooks) :
    Lists LimitOrderObject.sellPrice (MarketState.Eligible mia backing squeeze)
      (fun p q ↦ q.Gt p) s.limitOrders
      ((s.limitsBetween ⟨⟨maxShareSupply, mia⟩, ⟨1, backing⟩⟩ squeeze).map Prod.fst) := by
  have hproper : ∀ {id o}, s.limitOrders.find id = some o → o.sellPrice.Comparable :=
    fun ho ↦ (hs.limits _ _ ho).proper.comparable
  refine lists_select LimitOrderObject.sellPrice (MarketState.Eligible mia backing squeeze)
    (fun p q ↦ q.Gt p) s.limitOrders (fun i o j o' ho ho' _ _ hmore ↦ ?_)
    fun i o j o' k o'' ho ho' ho'' _ _ _ hnot hnot' ↦ ?_
  · rw [(hproper ho').gt_iff (hproper ho)] at hmore
    rw [(hproper ho).gt_iff (hproper ho')]
    exact hmore.le.not_gt
  · rw [(hproper ho').gt_iff (hproper ho), not_lt] at hnot
    rw [(hproper ho'').gt_iff (hproper ho'), not_lt] at hnot'
    rw [(hproper ho'').gt_iff (hproper ho), not_lt]
    exact hnot'.trans hnot

theorem current_start (hs : s.MarginBooks) (henters : s.EntersLoop mia enable b squeeze start) :
    Current mia b.options.shortBackingAsset squeeze start := by
  rw [henters.start]
  exact ⟨lists_callBook hs henters.backing, lists_offers hs, hs⟩

theorem run_of_checkCallOrders (henters : s.EntersLoop mia enable b squeeze start) :
    s.checkCallOrders mia enable forNew =
      start.run mia b.currentFeed.settlementPrice enable forNew := by
  obtain ⟨a, ha, hb⟩ := henters.asset
  have hmarket : a.isMarketIssued := by rw [AssetObject.isMarketIssued, hb, Option.isSome_some]
  have hdata : s.getBitassetData mia = .ok b := by
    rw [MarketState.getBitassetData, get_eq_ok.mpr ha]
    exact MarketState.getBitassetData_eq_ok.mpr hb
  have hmax : Price.highest mia b.options.shortBackingAsset =
      .ok ⟨⟨maxShareSupply, mia⟩, ⟨1, b.options.shortBackingAsset⟩⟩ :=
    MarketState.per_of_ne henters.backing.symm
  have hcallMin : Price.lowest b.options.shortBackingAsset mia =
      .ok ⟨⟨1, b.options.shortBackingAsset⟩, ⟨maxShareSupply, mia⟩⟩ :=
    MarketState.per_of_ne henters.backing
  have hcallMax : Price.highest b.options.shortBackingAsset mia =
      .ok ⟨⟨maxShareSupply, b.options.shortBackingAsset⟩, ⟨1, mia⟩⟩ :=
    MarketState.per_of_ne henters.backing
  have hoffered := henters.offered
  rw [henters.start] at hoffered ⊢
  rw [MarketState.checkCallOrders, get_eq_ok.mpr ha]
  change (if ¬a.isMarketIssued then _ else _) = _
  rw [if_neg (not_not.mpr hmarket), henters.noSwan]
  change s.callMargins mia enable forNew = _
  rw [MarketState.callMargins, hdata]
  change (if b.isPredictionMarket = true then _ else _) = _
  rw [henters.noPrediction, if_neg Bool.false_ne_true, if_neg henters.feed]
  dsimp only
  rw [hmax, henters.squeezePrice]
  change (if _ = [] then _ else _) = _
  rw [if_neg hoffered, hcallMin, hcallMax]
  rfl

/-- As long as no turn takes a part of an offer against the flag, every turn fills the lowest call
order with the best offer, and the loop ends for one of its reasons. -/
theorem checkCallOrders_takes_best (hs : s.MarginBooks)
    (hfeed : b.currentFeed.settlementPrice.Proper)
    (henters : s.EntersLoop mia enable b squeeze start)
    (hrun : Relation.ReflTransGen (fun h h' ↦ h.KeepsPlace ∧
      Turns mia b.currentFeed.settlementPrice enable forNew h h') start h) :
    (∀ h', Turns mia b.currentFeed.settlementPrice enable forNew h h' →
      MarketState.TakesBest mia b.options.shortBackingAsset b.currentFeed.settlementPrice squeeze
        enable forNew h h') ∧
    (∀ r, h.turn mia b.currentFeed.settlementPrice enable forNew = .ok (.inr r) →
      MarketState.LoopEnd mia b.options.shortBackingAsset b.currentFeed.settlementPrice squeeze
        r.2) ∧
    (∀ r, s.checkCallOrders mia enable forNew = .ok r → ∃ last,
      Relation.ReflTransGen (Turns mia b.currentFeed.settlementPrice enable forNew) start last ∧
        last.turn mia b.currentFeed.settlementPrice enable forNew = .ok (.inr r)) := by
  have hcurrent : Current mia b.options.shortBackingAsset squeeze h := by
    induction hrun with
    | refl => exact current_start hs henters
    | tail _ hstep ih => exact ih.turns hstep.1 hstep.2
  refine ⟨fun h' hturns ↦ ?_, fun r hturn ↦ hcurrent.ends henters.backing hfeed hturn,
    fun r hchecked ↦ reaches_of_run (run_of_checkCallOrders henters ▸ hchecked)⟩
  obtain ⟨swan, s', hcheck, ⟨-, hend⟩ | ⟨rfl, call, calls, limit, limits, t, hcalls, hlimits, ht,
    hnext⟩⟩ := turn_cases hturns
  · cases hend
  · obtain rfl := eq_of_noSwan hcheck
    rcases t with ⟨called, s'⟩ | ⟨m, s'⟩
    · cases hnext
    obtain rfl := Sum.inl.inj hnext
    refine ⟨call, limit, m, ?_, ?_, hcurrent.lowestCall hcalls, hcurrent.bestOffer hlimits, ht⟩
    · rw [hcalls, List.head?_cons]
    · rw [hlimits, List.head?_cons]

end LoopHead

instance decidableExistsInl {α β : Type} (x : α ⊕ β) (p : α → Prop) [DecidablePred p] :
    Decidable (∃ a, x = .inl a ∧ p a) :=
  match x with
  | .inl a => decidable_of_iff (p a) (by simp)
  | .inr _ => isFalse (by simp)

/-! ## A skipped offer -/

def staleBitasset : AssetBitassetData where
  currentFeed := {
    settlementPrice := ⟨⟨1000, 1⟩, ⟨1000, 0⟩⟩
    coreExchangeRate := ⟨⟨1000, 1⟩, ⟨1000, 0⟩⟩
    maintenanceCollateralRatio := 1750
    maximumShortSqueezeRatio := 1100 }

/-- Two positions to be called, one far from it, and three offers of falling price. -/
def staleBook : MarketState where
  balances := [⟨13, 1, 6000⟩]
  accounts := ⟨17, [(10, {}), (11, {}), (12, {}), (13, {}), (14, {}), (15, {}), (16, {})],
    by decide, by simp⟩
  assets := ⟨2, [(0, {}), (1, {
      issuer := 10
      dynamicData := { currentSupply := 13000 }
      bitassetData := some staleBitasset })],
    by decide, by decide⟩
  callOrders := ⟨3, [(0, ⟨11, 3000, 2000, ⟨⟨6, 0⟩, ⟨7, 1⟩⟩⟩),
    (1, ⟨12, 1600, 1000, ⟨⟨32, 0⟩, ⟨35, 1⟩⟩⟩), (2, ⟨13, 100000, 10000, ⟨⟨40, 0⟩, ⟨7, 1⟩⟩⟩)],
    by decide, by simp⟩
  limitOrders := ⟨3, [(0, ⟨0, 14, 1000, ⟨⟨1000, 1⟩, ⟨1000, 0⟩⟩, 0⟩),
    (1, ⟨0, 15, 3000, ⟨⟨3000, 1⟩, ⟨3100, 0⟩⟩, 0⟩), (2, ⟨0, 16, 3000, ⟨⟨3000, 1⟩, ⟨3200, 0⟩⟩, 0⟩)],
    by decide, by simp⟩
  headBlockTime := hardforkCore216Time + 1

/-- The head of the loop over these books. -/
def staleStart : LoopHead := ⟨[0, 1, 2], [0, 1, 2], false, false, staleBook⟩

/-- The second position is next, the second offer is left in part, and the loop is at the third. -/
def LoopHead.SecondSkipped (h : LoopHead) : Prop :=
  h.limits = [2] ∧
    h.market.limitOrders.find 1 = some ⟨0, 15, 2000, ⟨⟨3000, 1⟩, ⟨3100, 0⟩⟩, 0⟩ ∧
    h.market.limitOrders.find 2 = some ⟨0, 16, 3000, ⟨⟨3000, 1⟩, ⟨3200, 0⟩⟩, 0⟩

instance (h : LoopHead) : Decidable h.SecondSkipped := inferInstanceAs (Decidable (_ ∧ _))

theorem staleBook_books : staleBook.MarginBooks where
  calls id c hc := by
    have hall : ∀ p ∈ staleBook.callOrders.objects, 0 < p.2.debt ∧ p.2.callPrice.Bounded := by
      simp only [staleBook, List.forall_mem_cons, List.not_mem_nil, false_imp_iff, implies_true,
        and_true]
      exact ⟨⟨by decide, by decide, by decide, by decide, by decide⟩,
        ⟨by decide, by decide, by decide, by decide, by decide⟩,
        ⟨by decide, by decide, by decide, by decide, by decide⟩⟩
    exact hall _ (find_eq_some.mp hc)
  limits id o ho := by
    have hall : ∀ p ∈ staleBook.limitOrders.objects, p.2.Sound := by
      simp only [staleBook, List.forall_mem_cons, List.not_mem_nil, false_imp_iff, implies_true,
        and_true]
      exact ⟨⟨by decide, by decide, by decide, by decide, by decide, by decide, by decide⟩,
        ⟨by decide, by decide, by decide, by decide, by decide, by decide, by decide⟩,
        ⟨by decide, by decide, by decide, by decide, by decide, by decide, by decide⟩⟩
    exact hall _ (find_eq_some.mp ho)

theorem staleBook_feed : staleBitasset.currentFeed.settlementPrice.Proper :=
  ⟨by decide, by decide, by decide, by decide, by decide⟩

theorem staleBook_enters :
    staleBook.EntersLoop 1 true staleBitasset ⟨⟨10, 1⟩, ⟨11, 0⟩⟩ staleStart where
  asset := ⟨_, rfl, rfl⟩
  noSwan := by
    have hcheck : ∃ p, staleBook.checkForBlackswan 1 true = .ok p ∧ p.1 = false := by decide +kernel
    obtain ⟨⟨swan, s⟩, hcheck, rfl⟩ := hcheck
    rw [hcheck, LoopHead.eq_of_noSwan hcheck]
  noPrediction := rfl
  feed := by decide
  backing := by decide
  squeezePrice := by
    have hsqueeze : ∃ p, staleBitasset.currentFeed.maxShortSqueezePrice = .ok p ∧
        p = ⟨⟨10, 1⟩, ⟨11, 0⟩⟩ := by decide +kernel
    obtain ⟨p, hsqueeze, rfl⟩ := hsqueeze
    exact hsqueeze
  offered := by decide
  start := by
    have hcalls : (staleBook.callBook 1 staleBitasset.options.shortBackingAsset).map Prod.fst =
        [0, 1, 2] := by decide +kernel
    have hlimits : (staleBook.limitsBetween
        ⟨⟨maxShareSupply, 1⟩, ⟨1, staleBitasset.options.shortBackingAsset⟩⟩
        ⟨⟨10, 1⟩, ⟨11, 0⟩⟩).map Prod.fst = [0, 1, 2] := by decide +kernel
    rw [hcalls, hlimits]
    rfl

/-- After one offer is used up, a part of the next one is taken, and the loop goes on with a
worse one. -/
theorem staleBook_skips_best : ∃ b squeeze start h h', staleBook.MarginBooks ∧
    b.currentFeed.settlementPrice.Proper ∧ staleBook.EntersLoop 1 true b squeeze start ∧
    Relation.ReflTransGen (LoopHead.Turns 1 b.currentFeed.settlementPrice true false) start h ∧
    LoopHead.Turns 1 b.currentFeed.settlementPrice true false h h' ∧
    ¬MarketState.TakesBest 1 b.options.shortBackingAsset b.currentFeed.settlementPrice squeeze
      true false h h' := by
  have hrun : ∃ x, staleStart.turn 1 staleBitasset.currentFeed.settlementPrice true false = .ok x ∧
      ∃ h₁, x = .inl h₁ ∧
      ∃ x, h₁.turn 1 staleBitasset.currentFeed.settlementPrice true false = .ok x ∧
      ∃ h₂, x = .inl h₂ ∧
      ∃ x, h₂.turn 1 staleBitasset.currentFeed.settlementPrice true false = .ok x ∧
      ∃ h₃, x = .inl h₃ ∧ h₂.SecondSkipped := by
    decide +kernel
  obtain ⟨_, hfirst, h₁, rfl, _, hsecond, h₂, rfl, _, hthird, h₃, rfl, hlimits, hbetter, hworse⟩ := hrun
  refine ⟨staleBitasset, _, staleStart, h₂, h₃, staleBook_books, staleBook_feed, staleBook_enters,
    .tail (.single hfirst) hsecond, hthird, ?_⟩
  rintro ⟨call, limit, m, -, hlimit, -, ⟨o, ho, -, hbest⟩, -⟩
  rw [hlimits] at hlimit
  obtain rfl := Option.some.inj hlimit
  obtain rfl := Option.some.inj (hworse.symm.trans ho)
  exact hbest 1 _ hbetter (by decide) (by decide)

/-- The first turn over these books keeps its place, and the second takes the best offer. -/
theorem checkCallOrders_takes_best_stale : ∃ h₁,
    LoopHead.Turns 1 staleBitasset.currentFeed.settlementPrice true false staleStart h₁ ∧
    ∃ h₂, LoopHead.Turns 1 staleBitasset.currentFeed.settlementPrice true false h₁ h₂ ∧
      MarketState.TakesBest 1 0 staleBitasset.currentFeed.settlementPrice ⟨⟨10, 1⟩, ⟨11, 0⟩⟩
        true false h₁ h₂ := by
  have hrun : ∃ x, staleStart.turn 1 staleBitasset.currentFeed.settlementPrice true false = .ok x ∧
      ∃ h₁, x = .inl h₁ ∧
      ∃ x, h₁.turn 1 staleBitasset.currentFeed.settlementPrice true false = .ok x ∧
      ∃ h₂, x = .inl h₂ ∧ h₂.SecondSkipped := by
    decide +kernel
  obtain ⟨_, hfirst, h₁, rfl, _, hsecond, h₂, rfl, -⟩ := hrun
  have hplace : staleStart.KeepsPlace := by
    intro call limit c o hcall hlimit hc ho hlt
    obtain rfl := Option.some.inj hcall
    obtain rfl := Option.some.inj hlimit
    obtain rfl := Option.some.inj hc
    obtain rfl := Option.some.inj ho
    exact absurd hlt (by decide)
  refine ⟨h₁, hfirst, h₂, hsecond, ?_⟩
  exact (LoopHead.checkCallOrders_takes_best staleBook_books staleBook_feed staleBook_enters
    (.single ⟨hplace, hfirst⟩)).1 h₂ hsecond

end KarmaCore.Market
