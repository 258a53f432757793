import Mathlib
import KarmaCore.Protocol.Asset

/-!
# Checking the authorities of a transaction

`sign_state` decides whether signatures and approvals satisfy an authority,
following the accounts it names to their active authorities up to a depth, and
`verify_authority` asks it for everything the operations require.  Authorities
have no address entries here.
-/

namespace KarmaCore.Authorities

abbrev PublicKey := ℕ

/-- `GRAPHENE_COMMITTEE_ACCOUNT` and `GRAPHENE_TEMP_ACCOUNT`. -/
def committeeAccount : AccountId := 0
def tempAccount : AccountId := 4

structure Authority where
  weightThreshold : UInt32
  accountAuths : List (AccountId × UInt16) := []
  keyAuths : List (PublicKey × UInt16) := []
  deriving DecidableEq

/-- A flat map of provided signatures is the list of its entries.  `examined`
records the keys that `signed_by` was asked for; the source has no such field. -/
structure SignState where
  availableKeys : Finset PublicKey := ∅
  providedSignatures : List (PublicKey × Bool)
  approvedBy : Finset AccountId
  examined : Finset PublicKey := ∅

namespace SignState

def markUsed (k : PublicKey) (signatures : List (PublicKey × Bool)) : List (PublicKey × Bool) :=
  signatures.map fun sig ↦ if sig.1 = k then (k, true) else sig

def examine (k : PublicKey) (s : SignState) : SignState :=
  { s with examined := insert k s.examined }

def signedBy (k : PublicKey) (s : SignState) : Bool × SignState :=
  if k ∈ s.providedSignatures.map Prod.fst then
    (true, { s.examine k with providedSignatures := markUsed k s.providedSignatures })
  else if k ∈ s.availableKeys then
    (true, { s.examine k with providedSignatures := (k, true) :: s.providedSignatures })
  else (false, s.examine k)

/-- A loop over the entries of an authority, given when one counts: whether the
loop returned, the total weight, the state. -/
def countEntries {α : Type} (counts : α → SignState → Bool × SignState) (threshold : UInt32) :
    List (α × UInt16) → UInt32 → SignState → Bool × UInt32 × SignState
  | [], total, s => (false, total, s)
  | (a, weight) :: entries, total, s =>
    match counts a s with
    | (true, s) =>
        if threshold ≤ total + weight.toUInt32 then (true, total + weight.toUInt32, s)
        else countEntries counts threshold entries (total + weight.toUInt32) s
    | (false, s) => countEntries counts threshold entries total s

/-- An account counts when it is approved or its active authority is satisfied.
At the depth limit there is no `check`. -/
def approves (check : Option (AccountId → SignState → Bool × SignState)) (a : AccountId)
    (s : SignState) : Bool × SignState :=
  if a ∈ s.approvedBy then (true, s)
  else
    match check with
    | none => (false, s)
    | some f =>
      match f a s with
      | (true, s) => (true, { s with approvedBy := insert a s.approvedBy })
      | (false, s) => (false, s)

/-- The body of `check_authority`, given how it calls itself. -/
def checkWith (check : Option (AccountId → SignState → Bool × SignState)) (au : Option Authority)
    (s : SignState) : Bool × SignState :=
  match au with
  | none => (false, s)
  | some auth =>
    match countEntries signedBy auth.weightThreshold auth.keyAuths 0 s with
    | (true, _, s) => (true, s)
    | (false, total, s) =>
      match countEntries (approves check) auth.weightThreshold auth.accountAuths total s with
      | (true, _, s) => (true, s)
      | (false, total, s) => (auth.weightThreshold ≤ total, s)

/-- `check_authority` at `max_recursion - depth`. -/
def checkAuthority (getActive : AccountId → Option Authority) :
    ℕ → Option Authority → SignState → Bool × SignState
  | 0 => checkWith none
  | n + 1 => checkWith (some fun a ↦ checkAuthority getActive n (getActive a))

/-- The overload of `check_authority` that takes an account. -/
def checkAccount (getActive : AccountId → Option Authority) (maxRecursion : ℕ) (id : AccountId)
    (s : SignState) : Bool × SignState :=
  if id ∈ s.approvedBy then (true, s)
  else checkAuthority getActive maxRecursion (getActive id) s

/-- `remove_unused_signatures`, whether there were any. -/
def removeUnusedSignatures (s : SignState) : Bool × SignState :=
  (s.providedSignatures.any fun sig ↦ !sig.2,
    { s with providedSignatures := s.providedSignatures.filter fun sig ↦ sig.2 })

end SignState

/-! ## `verify_authority` -/

/-- What `operation_get_required_authorities` gets from an operation. -/
structure RequiredAuthorities where
  feePayer : AccountId
  active : List AccountId := []
  owner : List AccountId := []
  other : List Authority := []

/-- Insertion into a flat set. -/
def flatInsert (a : AccountId) : List AccountId → List AccountId
  | [] => [a]
  | b :: bs => if a < b then a :: b :: bs else if a = b then b :: bs else b :: flatInsert a bs

theorem mem_flatInsert {a b : AccountId} {l : List AccountId} :
    b ∈ flatInsert a l ↔ b = a ∨ b ∈ l := by
  induction l with
  | nil => simp [flatInsert]
  | cons c l ih =>
      simp only [flatInsert]
      split_ifs with hlt heq
      · simp
      · subst heq
        simp
      · simp only [List.mem_cons, ih]
        tauto

/-- A flat set with some more elements. -/
def flatInsertAll (as l : List AccountId) : List AccountId := as.foldl (fun l a ↦ flatInsert a l) l

theorem mem_flatInsertAll {a : AccountId} {as l : List AccountId} :
    a ∈ flatInsertAll as l ↔ a ∈ as ∨ a ∈ l := by
  induction as generalizing l with
  | nil => simp [flatInsertAll]
  | cons b as ih =>
      have hstep : flatInsertAll (b :: as) l = flatInsertAll as (flatInsert b l) := rfl
      rw [hstep, ih, mem_flatInsert, List.mem_cons]
      tauto

def requiredActive (ops : List RequiredAuthorities) : List AccountId :=
  ops.foldl (fun required op ↦ flatInsertAll (op.feePayer :: op.active) required) []

def requiredOwner (ops : List RequiredAuthorities) : List AccountId :=
  ops.foldl (fun required op ↦ flatInsertAll op.owner required) []

def requiredOther (ops : List RequiredAuthorities) : List Authority := ops.flatMap (·.other)

inductive VerifyError
  | invalidCommitteeApproval
  | txMissingOtherAuth (auth : Authority)
  | txMissingActiveAuth (id : AccountId)
  | txMissingOwnerAuth (id : AccountId)
  | txIrrelevantSig
  deriving DecidableEq

/-- An assertion on each element, over a state that the checks change. -/
def requireAll {α : Type} (check : α → SignState → Bool × SignState) (error : α → VerifyError) :
    List α → SignState → Except VerifyError SignState
  | [], s => .ok s
  | a :: as, s =>
    match check a s with
    | (true, s) => requireAll check error as s
    | (false, _) => .error (error a)

/-- The arguments of `verify_authority`. -/
structure VerifyCall where
  ops : List RequiredAuthorities
  sigs : List PublicKey
  getActive : AccountId → Option Authority
  getOwner : AccountId → Option Authority
  maxRecursionDepth : ℕ
  allowCommittee : Bool := false
  activeApprovals : Finset AccountId := ∅
  ownerApprovals : Finset AccountId := ∅

namespace VerifyCall

def approvals (c : VerifyCall) : Finset AccountId :=
  insert tempAccount (c.activeApprovals ∪ c.ownerApprovals)

/-- The state that the constructor and the approvals leave. -/
def initial (c : VerifyCall) : SignState where
  providedSignatures := c.sigs.map fun k ↦ (k, false)
  approvedBy := c.approvals

def checkOther (c : VerifyCall) (auth : Authority) : SignState → Bool × SignState :=
  SignState.checkAuthority c.getActive c.maxRecursionDepth (some auth)

def checkActive (c : VerifyCall) (id : AccountId) (s : SignState) : Bool × SignState :=
  match SignState.checkAccount c.getActive c.maxRecursionDepth id s with
  | (true, s) => (true, s)
  | (false, s) => SignState.checkAuthority c.getActive c.maxRecursionDepth (c.getOwner id) s

def checkOwner (c : VerifyCall) (id : AccountId) (s : SignState) : Bool × SignState :=
  if id ∈ c.ownerApprovals then (true, s)
  else SignState.checkAuthority c.getActive c.maxRecursionDepth (c.getOwner id) s

/-- The three loops over what is required. -/
def checkRequired (c : VerifyCall) : Except VerifyError SignState := do
  let s ← requireAll c.checkOther .txMissingOtherAuth (requiredOther c.ops) c.initial
  let s ← requireAll c.checkActive .txMissingActiveAuth (requiredActive c.ops) s
  requireAll c.checkOwner .txMissingOwnerAuth (requiredOwner c.ops) s

def verifyAuthority (c : VerifyCall) : Except VerifyError Unit :=
  if ¬c.allowCommittee ∧ committeeAccount ∈ requiredActive c.ops then
    .error .invalidCommitteeApproval
  else do
    let s ← c.checkRequired
    if s.removeUnusedSignatures.1 then .error .txIrrelevantSig else .ok ()

end VerifyCall

end KarmaCore.Authorities
