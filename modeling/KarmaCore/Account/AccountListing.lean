import Mathlib
import KarmaCore.Transfer.TransferEvaluator

/-!
# White and black lists of accounts

`account_whitelist` records the opinion of one account about another one, in both of
them.  What counts for an asset is the last opinion of each of its authorities.
-/

namespace KarmaCore.AccountListing

open Transfer (get get_eq_ok)

/-! ## The evaluator -/

def whiteListed : ℕ := 0x1

def blackListed : ℕ := 0x2

/-- `new_listing & flag`. -/
def Says (listing flag : ℕ) : Prop := listing &&& flag ≠ 0

instance (listing flag : ℕ) : Decidable (Says listing flag) :=
  inferInstanceAs (Decidable (_ ≠ _))

/-- The fields of `account_object` that hold opinions, and its membership. -/
structure ListedAccount where
  lists : Transfer.AccountObject
  whitelistedAccounts : List AccountId := []
  blacklistedAccounts : List AccountId := []
  isLifetimeMember : Bool := false

structure ListingDatabase where
  accounts : AccountId → Option ListedAccount := fun _ ↦ none
  allowNonMemberWhitelists : Bool := false

structure AccountWhitelistOperation where
  fee : Asset
  authorizingAccount : AccountId
  accountToList : AccountId
  newListing : ℕ

/-- `insert` or `erase`, by a flag of the listing. -/
def mark (listing flag : ℕ) (a : AccountId) (set : List AccountId) : List AccountId :=
  if Says listing flag then (if a ∈ set then set else a :: set) else set.filter (· ≠ a)

def modify (a : AccountId) (f : ListedAccount → ListedAccount) (db : ListingDatabase) :
    ListingDatabase :=
  { db with accounts := Function.update db.accounts a ((db.accounts a).map f) }

namespace AccountWhitelistOperation

def validate (op : AccountWhitelistOperation) : Checked Unit := do
  require (0 ≤ op.fee.amount) "fee.amount >= 0"
  require (op.newListing < 0x4) "new_listing < 0x4"

def doEvaluate (op : AccountWhitelistOperation) (db : ListingDatabase) : Checked Unit := do
  let _ ← get (db.accounts op.accountToList)
  if !db.allowNonMemberWhitelists then
    let authorizing ← get (db.accounts op.authorizingAccount)
    require (authorizing.isLifetimeMember = true) "o.authorizing_account(d).is_lifetime_member()"

/-- The opinion as the listed account keeps it. -/
def markListed (op : AccountWhitelistOperation) (a : ListedAccount) : ListedAccount :=
  { a with
    lists := { a.lists with
      whitelistingAccounts :=
        mark op.newListing whiteListed op.authorizingAccount a.lists.whitelistingAccounts
      blacklistingAccounts :=
        mark op.newListing blackListed op.authorizingAccount a.lists.blacklistingAccounts } }

/-- The opinion as the account whose opinion it is keeps it. -/
def markAuthorizing (op : AccountWhitelistOperation) (a : ListedAccount) : ListedAccount :=
  { a with
    whitelistedAccounts := mark op.newListing whiteListed op.accountToList a.whitelistedAccounts
    blacklistedAccounts := mark op.newListing blackListed op.accountToList a.blacklistedAccounts }

/-- The listed account may be the authorizing one. -/
def doApply (op : AccountWhitelistOperation) (db : ListingDatabase) :
    Checked ListingDatabase := do
  let db := modify op.accountToList op.markListed db
  let _ ← get (db.accounts op.authorizingAccount)
  return modify op.authorizingAccount op.markAuthorizing db

end AccountWhitelistOperation

/-- What changes the accounts the operation reads. -/
inductive ListingEvent
  | accountWhitelist (op : AccountWhitelistOperation)
  | accountCreate (a : AccountId) (allowedAssets : Option (Finset AssetId))
  | upgradeToLifetimeMember (a : AccountId)
  | updateParameters (allowNonMemberWhitelists : Bool)

def apply (db : ListingDatabase) : ListingEvent → Checked ListingDatabase
  | .accountWhitelist op => do
      op.validate
      op.doEvaluate db
      op.doApply db
  | .accountCreate a allowedAssets => do
      require (db.accounts a = none) "new id"
      return { db with accounts :=
        Function.update db.accounts a (some { lists := { id := a, allowedAssets } }) }
  | .upgradeToLifetimeMember a => do
      let _ ← get (db.accounts a)
      return modify a (fun acct ↦ { acct with isLifetimeMember := true }) db
  | .updateParameters allowNonMemberWhitelists => return { db with allowNonMemberWhitelists }

/-- Every event of the list was applied. -/
def applyAll (events : List ListingEvent) (db : ListingDatabase) : Checked ListingDatabase :=
  events.foldlM apply db

/-! ## Opinions -/

def ListingEvent.listing (authority account : AccountId) : ListingEvent → Option ℕ
  | .accountWhitelist op =>
      if op.authorizingAccount = authority ∧ op.accountToList = account then some op.newListing
      else none
  | _ => none

/-- The last opinion an account has given about another one. -/
def opinion (events : List ListingEvent) (authority account : AccountId) : ℕ :=
  events.foldl (fun listing event ↦ (event.listing authority account).getD listing) 0

theorem opinion_append (events : List ListingEvent) (event : ListingEvent)
    (authority account : AccountId) :
    opinion (events ++ [event]) authority account =
      (event.listing authority account).getD (opinion events authority account) := by
  simp [opinion]

theorem mem_mark {listing flag : ℕ} {a b : AccountId} {set : List AccountId} :
    b ∈ mark listing flag a set ↔ if b = a then Says listing flag else b ∈ set := by
  unfold mark
  split
  · rename_i hsays
    by_cases hb : b = a
    · subst hb
      simp only [if_true, hsays, iff_true]
      split
      · assumption
      · exact .head _
    · split <;> simp [hb]
  · rename_i hsays
    by_cases hb : b = a <;> simp [hb, hsays]

/-! ## Accounts agree with the opinions -/

variable {db db' : ListingDatabase} {events : List ListingEvent} {acct : ListedAccount}
  {a b : AccountId}

/-- The four sets of an account hold what the opinions say. -/
structure Agrees (events : List ListingEvent) (a : AccountId) (acct : ListedAccount) : Prop where
  whitelisting : ∀ b, b ∈ acct.lists.whitelistingAccounts ↔ Says (opinion events b a) whiteListed
  blacklisting : ∀ b, b ∈ acct.lists.blacklistingAccounts ↔ Says (opinion events b a) blackListed
  whitelisted : ∀ b, b ∈ acct.whitelistedAccounts ↔ Says (opinion events a b) whiteListed
  blacklisted : ∀ b, b ∈ acct.blacklistedAccounts ↔ Says (opinion events a b) blackListed

structure Consistent (events : List ListingEvent) (db : ListingDatabase) : Prop where
  agrees : ∀ a acct, db.accounts a = some acct → Agrees events a acct
  silent : ∀ a b, db.accounts a = none ∨ db.accounts b = none → opinion events a b = 0

theorem not_says_zero (flag : ℕ) : ¬ Says 0 flag := by
  simp [Says]

theorem accounts_modify (a b : AccountId) (f : ListedAccount → ListedAccount)
    (db : ListingDatabase) :
    (modify a f db).accounts b = if b = a then (db.accounts b).map f else db.accounts b := by
  by_cases hb : b = a
  · subst hb
    simp [modify]
  · simp [modify, hb]

theorem Consistent.of_quiet {event : ListingEvent} (h : Consistent events db)
    (hquiet : ∀ a b, event.listing a b = none)
    (hsets : ∀ a acct, db'.accounts a = some acct →
      (∃ before, db.accounts a = some before ∧ acct.lists = before.lists ∧
        acct.whitelistedAccounts = before.whitelistedAccounts ∧
        acct.blacklistedAccounts = before.blacklistedAccounts) ∨
      db.accounts a = none ∧ acct.lists.whitelistingAccounts = [] ∧
        acct.lists.blacklistingAccounts = [] ∧ acct.whitelistedAccounts = [] ∧
        acct.blacklistedAccounts = [])
    (hnone : ∀ a, db'.accounts a = none → db.accounts a = none) :
    Consistent (events ++ [event]) db' := by
  have hsame : ∀ a b, opinion (events ++ [event]) a b = opinion events a b := by
    intro a b
    rw [opinion_append, hquiet, Option.getD_none]
  refine ⟨?_, ?_⟩
  · intro a acct hacct
    rcases hsets a acct hacct with ⟨before, hbefore, hlists, hwhite, hblack⟩ |
      ⟨hnew, hlists⟩
    · obtain ⟨h₁, h₂, h₃, h₄⟩ := h.agrees a before hbefore
      constructor <;> intro b <;> rw [hsame]
      · rw [hlists, h₁]
      · rw [hlists, h₂]
      · rw [hwhite, h₃]
      · rw [hblack, h₄]
    · obtain ⟨h₁, h₂, h₃, h₄⟩ := hlists
      constructor <;> intro b <;> rw [hsame]
      · simp [h₁, h.silent b a (.inr hnew), not_says_zero]
      · simp [h₂, h.silent b a (.inr hnew), not_says_zero]
      · simp [h₃, h.silent a b (.inl hnew), not_says_zero]
      · simp [h₄, h.silent a b (.inl hnew), not_says_zero]
  · intro a b hab
    rw [hsame]
    exact h.silent a b (hab.imp (hnone a) (hnone b))

theorem opinion_accountWhitelist (events : List ListingEvent) (op : AccountWhitelistOperation)
    (a b : AccountId) :
    opinion (events ++ [.accountWhitelist op]) a b =
      if op.authorizingAccount = a ∧ op.accountToList = b then op.newListing
      else opinion events a b := by
  rw [opinion_append]
  simp only [ListingEvent.listing]
  split <;> rfl

/-- An account after an operation, which may be about itself. -/
def AccountWhitelistOperation.update (op : AccountWhitelistOperation) (a : AccountId)
    (acct : ListedAccount) : ListedAccount :=
  let acct := if a = op.accountToList then op.markListed acct else acct
  if a = op.authorizingAccount then op.markAuthorizing acct else acct

theorem accounts_doApply (op : AccountWhitelistOperation) (db : ListingDatabase) (a : AccountId) :
    (modify op.authorizingAccount op.markAuthorizing
      (modify op.accountToList op.markListed db)).accounts a =
        (db.accounts a).map (op.update a) := by
  rw [accounts_modify, accounts_modify]
  unfold AccountWhitelistOperation.update
  split <;> split <;> cases db.accounts a <;> rfl

theorem Agrees.update {op : AccountWhitelistOperation} (h : Agrees events a acct) :
    Agrees (events ++ [.accountWhitelist op]) a (op.update a acct) := by
  obtain ⟨h₁, h₂, h₃, h₄⟩ := h
  have hlists : (op.update a acct).lists =
      if a = op.accountToList then (op.markListed acct).lists else acct.lists := by
    unfold AccountWhitelistOperation.update
    split <;> split <;> rfl
  have hwhite : (op.update a acct).whitelistedAccounts = if a = op.authorizingAccount then
      (op.markAuthorizing acct).whitelistedAccounts else acct.whitelistedAccounts := by
    unfold AccountWhitelistOperation.update
    split <;> split <;> rfl
  have hblack : (op.update a acct).blacklistedAccounts = if a = op.authorizingAccount then
      (op.markAuthorizing acct).blacklistedAccounts else acct.blacklistedAccounts := by
    unfold AccountWhitelistOperation.update
    split <;> split <;> rfl
  constructor <;> intro b <;> rw [opinion_accountWhitelist]
  · rw [hlists]
    by_cases ha : a = op.accountToList
    · subst ha
      simp only [if_true, AccountWhitelistOperation.markListed, mem_mark, and_true, h₁,
        eq_comm (a := b)]
      split <;> rfl
    · simp [ha, Ne.symm ha, h₁]
  · rw [hlists]
    by_cases ha : a = op.accountToList
    · subst ha
      simp only [if_true, AccountWhitelistOperation.markListed, mem_mark, and_true, h₂,
        eq_comm (a := b)]
      split <;> rfl
    · simp [ha, Ne.symm ha, h₂]
  · rw [hwhite]
    by_cases ha : a = op.authorizingAccount
    · subst ha
      simp only [if_true, AccountWhitelistOperation.markAuthorizing, mem_mark, true_and, h₃,
        eq_comm (a := b)]
      split <;> rfl
    · simp [ha, Ne.symm ha, h₃]
  · rw [hblack]
    by_cases ha : a = op.authorizingAccount
    · subst ha
      simp only [if_true, AccountWhitelistOperation.markAuthorizing, mem_mark, true_and, h₄,
        eq_comm (a := b)]
      split <;> rfl
    · simp [ha, Ne.symm ha, h₄]

theorem Consistent.accountWhitelist {op : AccountWhitelistOperation} (h : Consistent events db)
    (happly : apply db (.accountWhitelist op) = .ok db') :
    Consistent (events ++ [.accountWhitelist op]) db' := by
  simp only [apply, AccountWhitelistOperation.doEvaluate, AccountWhitelistOperation.doApply,
    Checked.bind_eq_ok, Checked.pure_eq_ok, get_eq_ok] at happly
  obtain ⟨-, -, -, ⟨listed, hlisted, -⟩, authorizing, hauthorizing, rfl⟩ := happly
  have hauthorizing' : db.accounts op.authorizingAccount ≠ none := by
    intro hnone
    rw [accounts_modify, hnone] at hauthorizing
    simp at hauthorizing
  refine ⟨?_, ?_⟩
  · intro a acct hacct
    rw [accounts_doApply, Option.map_eq_some_iff] at hacct
    obtain ⟨before, hbefore, rfl⟩ := hacct
    exact (h.agrees a before hbefore).update
  · intro a b hab
    simp only [accounts_doApply, Option.map_eq_none_iff] at hab
    rw [opinion_accountWhitelist, if_neg ?_, h.silent a b hab]
    rintro ⟨rfl, rfl⟩
    rcases hab with hab | hab
    · exact hauthorizing' hab
    · rw [hab] at hlisted
      cases hlisted

theorem Consistent.apply {event : ListingEvent} (h : Consistent events db)
    (happly : apply db event = .ok db') : Consistent (events ++ [event]) db' := by
  cases event with
  | accountWhitelist op => exact h.accountWhitelist happly
  | accountCreate a allowedAssets =>
      simp only [AccountListing.apply, Checked.bind_eq_ok, Checked.pure_eq_ok,
        require_eq_ok] at happly
      obtain ⟨-, hnew, rfl⟩ := happly
      refine h.of_quiet (fun _ _ ↦ rfl) ?_ ?_
      · intro b acct hacct
        by_cases hb : b = a
        · subst hb
          simp only [Function.update_self, Option.some.injEq] at hacct
          subst hacct
          exact .inr ⟨hnew, rfl, rfl, rfl, rfl⟩
        · simp only [Function.update_of_ne hb] at hacct
          exact .inl ⟨acct, hacct, rfl, rfl, rfl⟩
      · intro b hb
        by_cases hba : b = a
        · subst hba
          simp at hb
        · simpa [hba] using hb
  | upgradeToLifetimeMember a =>
      simp only [AccountListing.apply, Checked.bind_eq_ok, Checked.pure_eq_ok] at happly
      obtain ⟨-, -, rfl⟩ := happly
      refine h.of_quiet (fun _ _ ↦ rfl) ?_ ?_
      · intro b acct hacct
        rw [accounts_modify] at hacct
        split at hacct
        · obtain ⟨before, hbefore, rfl⟩ := Option.map_eq_some_iff.mp hacct
          exact .inl ⟨before, hbefore, rfl, rfl, rfl⟩
        · exact .inl ⟨acct, hacct, rfl, rfl, rfl⟩
      · intro b hb
        rw [accounts_modify] at hb
        split at hb
        · exact Option.map_eq_none_iff.mp hb
        · exact hb
  | updateParameters allowNonMemberWhitelists =>
      cases happly
      exact h.of_quiet (fun _ _ ↦ rfl) (fun _ acct hacct ↦ .inl ⟨acct, hacct, rfl, rfl, rfl⟩)
        fun _ hnone ↦ hnone

theorem consistent_of_applyAll (h : applyAll events {} = .ok db) : Consistent events db := by
  induction events using List.reverseRecOn generalizing db with
  | nil =>
      cases h
      refine ⟨?_, fun _ _ _ ↦ rfl⟩
      intro a acct hacct
      cases hacct
  | append_singleton events event ih =>
      rw [applyAll, List.foldlM_append, Checked.bind_eq_ok] at h
      obtain ⟨before, hbefore, h⟩ := h
      rw [List.foldlM_cons, Checked.bind_eq_ok] at h
      obtain ⟨after, hafter, h⟩ := h
      cases h
      exact (ih hbefore).apply hafter

/-! ## Assets -/

/-- Whether an account may hold an asset that keeps lists is decided by the assets it is
confined to and by the last opinion of each authority of the asset. -/
theorem isAuthorizedAsset_iff_opinion (h : applyAll events {} = .ok db)
    (hacct : db.accounts a = some acct) (headBlockTime : ℕ) (asset : Transfer.AssetObject)
    (hlists : asset.hasFlag Transfer.whiteList) :
    Transfer.isAuthorizedAsset headBlockTime acct.lists asset = true ↔
      (∀ allowed, acct.lists.allowedAssets = some allowed → asset.id ∈ allowed) ∧
      (∀ authority ∈ asset.blacklistAuthorities, ¬ Says (opinion events authority a) blackListed) ∧
      (Transfer.hardfork415Time < headBlockTime ∧ asset.whitelistAuthorities = ∅ ∨
        ∃ authority ∈ asset.whitelistAuthorities,
          Says (opinion events authority a) whiteListed) := by
  have hagrees := (consistent_of_applyAll h).agrees a acct hacct
  have hallowed : acct.lists.allowedAssets.any (asset.id ∉ ·) = true ↔
      ¬ ∀ allowed, acct.lists.allowedAssets = some allowed → asset.id ∈ allowed := by
    cases acct.lists.allowedAssets <;> simp
  have hblack : acct.lists.blacklistingAccounts.any (· ∈ asset.blacklistAuthorities) = true ↔
      ¬ ∀ authority ∈ asset.blacklistAuthorities,
        ¬ Says (opinion events authority a) blackListed := by
    simp only [List.any_eq_true, hagrees.blacklisting, decide_eq_true_eq]
    push Not
    exact exists_congr fun _ ↦ and_comm
  have hwhite : acct.lists.whitelistingAccounts.any (· ∈ asset.whitelistAuthorities) = true ↔
      ∃ authority ∈ asset.whitelistAuthorities,
        Says (opinion events authority a) whiteListed := by
    simp only [List.any_eq_true, hagrees.whitelisting, decide_eq_true_eq]
    exact exists_congr fun _ ↦ and_comm
  have hslow : ¬ (¬ asset.hasFlag Transfer.whiteList ∧ acct.lists.allowedAssets = none) :=
    fun hfast ↦ hfast.1 hlists
  rw [Transfer.isAuthorizedAsset, if_neg hslow, Transfer.slowCheck]
  by_cases h₁ : ∀ allowed, acct.lists.allowedAssets = some allowed → asset.id ∈ allowed
  · rw [if_neg (by rw [hallowed]; exact not_not_intro h₁)]
    by_cases h₂ : ∀ authority ∈ asset.blacklistAuthorities,
        ¬ Says (opinion events authority a) blackListed
    · rw [if_neg (by rw [hblack]; exact not_not_intro h₂)]
      by_cases h₃ : Transfer.hardfork415Time < headBlockTime ∧ asset.whitelistAuthorities = ∅
      · rw [if_pos h₃]
        exact ⟨fun _ ↦ ⟨h₁, h₂, .inl h₃⟩, fun _ ↦ rfl⟩
      · rw [if_neg h₃, hwhite]
        exact ⟨fun h ↦ ⟨h₁, h₂, .inr h⟩, fun h ↦ h.2.2.resolve_left h₃⟩
    · rw [if_pos (hblack.mpr h₂)]
      exact ⟨fun h ↦ absurd h Bool.false_ne_true, fun h ↦ absurd h.2.1 h₂⟩
  · rw [if_pos (hallowed.mpr h₁)]
    exact ⟨fun h ↦ absurd h Bool.false_ne_true, fun h ↦ absurd h.1 h₁⟩

/-- Account 1 white lists account 2, then black lists it, then only white lists it. -/
def changedOpinion : List ListingEvent :=
  [.accountCreate 1 none, .accountCreate 2 none, .upgradeToLifetimeMember 1,
    .accountWhitelist ⟨⟨0, 0⟩, 1, 2, 3⟩, .accountWhitelist ⟨⟨0, 0⟩, 1, 2, 1⟩]

def afterChangedOpinion : ListingDatabase :=
  ((applyAll changedOpinion {}).toOption).getD {}

theorem applyAll_changedOpinion : applyAll changedOpinion {} = .ok afterChangedOpinion := rfl

theorem accounts_afterChangedOpinion :
    afterChangedOpinion.accounts 2 =
      some { lists := { id := 2, whitelistingAccounts := [1] } } := rfl

theorem isAuthorizedAsset_of_changedOpinion :
    Transfer.isAuthorizedAsset 1600000000 { id := 2, whitelistingAccounts := [1] }
        { id := 5, issuer := 1, flags := 2, whitelistAuthorities := {1} } = true ↔
      (∀ allowed : Finset AssetId, none = some allowed → 5 ∈ allowed) ∧
      (∀ authority ∈ (∅ : Finset AccountId),
        ¬ Says (opinion changedOpinion authority 2) blackListed) ∧
      (Transfer.hardfork415Time < 1600000000 ∧ ({1} : Finset AccountId) = ∅ ∨
        ∃ authority ∈ ({1} : Finset AccountId),
          Says (opinion changedOpinion authority 2) whiteListed) :=
  isAuthorizedAsset_iff_opinion applyAll_changedOpinion accounts_afterChangedOpinion 1600000000
    { id := 5, issuer := 1, flags := 2, whitelistAuthorities := {1} } (by decide)

/-- The list an account is on and the list the other account keeps never differ. -/
theorem mem_whitelisting_iff_mem_whitelisted (h : applyAll events {} = .ok db)
    {other : ListedAccount} (hacct : db.accounts a = some acct) (hother : db.accounts b = some other) :
    (b ∈ acct.lists.whitelistingAccounts ↔ a ∈ other.whitelistedAccounts) ∧
      (b ∈ acct.lists.blacklistingAccounts ↔ a ∈ other.blacklistedAccounts) := by
  have hconsistent := consistent_of_applyAll h
  have hlisted := hconsistent.agrees a acct hacct
  have hauthority := hconsistent.agrees b other hother
  exact ⟨(hlisted.whitelisting b).trans (hauthority.whitelisted a).symm,
    (hlisted.blacklisting b).trans (hauthority.blacklisted a).symm⟩

theorem mem_whitelisting_of_changedOpinion :
    (1 ∈ [1] ↔ 2 ∈ [2]) ∧ (1 ∈ ([] : List AccountId) ↔ 2 ∈ ([] : List AccountId)) := by
  have hother : afterChangedOpinion.accounts 1 =
      some { lists := { id := 1 }, whitelistedAccounts := [2], isLifetimeMember := true } := rfl
  exact mem_whitelisting_iff_mem_whitelisted applyAll_changedOpinion accounts_afterChangedOpinion
    hother

end KarmaCore.AccountListing
