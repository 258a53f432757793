import Mathlib
import KarmaCore.Authority.AskedKeys

/-!
# The signatures that a transaction still needs

`get_required_signatures` runs the checks of `verify_authority` with keys that
could sign and keeps those that were asked for.
`minimize_required_signatures` then drops one key after the other while
`verify_authority` accepts the others.
-/

namespace KarmaCore.Authorities

inductive SigningError
  | txDuplicateSig
  | verifyAuthority (e : VerifyError)
  deriving DecidableEq

/-- A signed transaction, with the keys that its signatures recover, and the
arguments of `minimize_required_signatures`. -/
structure SigningRequest where
  ops : List RequiredAuthorities
  signatureKeys : List PublicKey := []
  availableKeys : Finset PublicKey
  getActive : AccountId → Option Authority
  getOwner : AccountId → Option Authority
  maxRecursion : ℕ := 2

namespace SigningRequest

def getSignatureKeys (r : SigningRequest) : Except SigningError (List PublicKey) :=
  if r.signatureKeys.Nodup then .ok (flatInsertAll r.signatureKeys [])
  else .error .txDuplicateSig

/-- A check of which only the state is of interest. -/
def check (r : SigningRequest) (s : SignState) (au : Option Authority) : SignState :=
  (SignState.checkAuthority r.getActive r.maxRecursion au s).2

def checkId (r : SigningRequest) (s : SignState) (id : AccountId) : SignState :=
  (SignState.checkAccount r.getActive r.maxRecursion id s).2

/-- The three loops of `get_required_signatures`: others, owners, actives. -/
def checkAll (r : SigningRequest) (s : SignState) : SignState :=
  let s := (requiredOther r.ops).foldl (fun s auth ↦ r.check s (some auth)) s
  let s := (requiredOwner r.ops).foldl (fun s id ↦ r.check s (r.getOwner id)) s
  (requiredActive r.ops).foldl r.checkId s

/-- What the constructor of `sign_state` leaves. -/
def initial (r : SigningRequest) (sigs : List PublicKey) : SignState where
  availableKeys := r.availableKeys
  providedSignatures := sigs.map fun k ↦ (k, false)
  approvedBy := {tempAccount}

/-- The used keys that are available, in order. -/
def usedKeys (r : SigningRequest) (s : SignState) : List PublicKey :=
  flatInsertAll ((s.removeUnusedSignatures.2.providedSignatures.map Prod.fst).filter
    (· ∈ r.availableKeys)) []

def getRequiredSignatures (r : SigningRequest) : Except SigningError (List PublicKey) := do
  let sigs ← r.getSignatureKeys
  return r.usedKeys (r.checkAll (r.initial sigs))

/-- `verify_authority` as it is called on a set of keys. -/
def verifyCall (r : SigningRequest) (sigs : List PublicKey) : VerifyCall where
  ops := r.ops
  sigs := sigs
  getActive := r.getActive
  getOwner := r.getOwner
  maxRecursionDepth := r.maxRecursion

def verify (r : SigningRequest) (sigs : List PublicKey) : Except VerifyError Unit :=
  (r.verifyCall sigs).verifyAuthority

/-- The loop over the keys `s`.  A key comes back after an authority is found
missing; other exceptions leave the loop. -/
def minimizeLoop (r : SigningRequest) :
    List PublicKey → List PublicKey → Except VerifyError (List PublicKey)
  | [], result => .ok result
  | k :: s, result =>
    match r.verify (result.erase k) with
    | .ok () => r.minimizeLoop s (result.erase k)
    | .error (.txMissingOwnerAuth _) => r.minimizeLoop s (flatInsert k (result.erase k))
    | .error (.txMissingActiveAuth _) => r.minimizeLoop s (flatInsert k (result.erase k))
    | .error (.txMissingOtherAuth _) => r.minimizeLoop s (flatInsert k (result.erase k))
    | .error e => .error e

def minimizeRequiredSignatures (r : SigningRequest) : Except SigningError (List PublicKey) := do
  let s ← r.getRequiredSignatures
  (r.minimizeLoop s s).mapError .verifyAuthority

/-! ## The keys that are required -/

variable {r : SigningRequest} {keys sigs result s : List PublicKey} {k : PublicKey}

/-- The keys that the loops of `get_required_signatures` can find signed. -/
noncomputable def candidates (r : SigningRequest) : List PublicKey :=
  r.signatureKeys ++ r.availableKeys.toList

/-- No check of the transaction is cut at the depth limit, whatever the keys. -/
def Uncut (r : SigningRequest) : Prop := (r.verifyCall []).Uncut

theorem examined_verifyCall {n : ℕ} {auth : Authority}
    (h : (r.verifyCall sigs).Examined n auth) : (r.verifyCall []).Examined n auth := by
  induction h with
  | other h => exact .other h
  | active h hauth => exact .active h hauth
  | owner h hauth => exact .owner h hauth
  | entry _ he hauth ih => exact ih.entry he hauth

theorem Uncut.verifyCall (h : r.Uncut) (sigs : List PublicKey) : (r.verifyCall sigs).Uncut where
  light _ _ hex := h.light _ _ (examined_verifyCall hex)
  nested _ hex := h.nested _ (examined_verifyCall hex)

theorem narrows_verifyCall {sigs' : List PublicKey} (h : ∀ k ∈ sigs, k ∈ sigs') :
    (r.verifyCall sigs).Narrows (r.verifyCall sigs') := ⟨rfl, rfl, h⟩

/-- A fold that only keeps the states of its checks. -/
theorem foldl_exact {α : Type} {c : VerifyCall} {st : SignState} {as : List α}
    {check : α → SignState → Bool × SignState} {holds : α → Prop} {asks : α → PublicKey → Prop}
    (hcheck : ∀ a ∈ as, ∀ st, c.Consistent st → c.Exact (holds a) (asks a) st (check a st))
    (hs : c.Consistent st) :
    c.Consistent (as.foldl (fun st a ↦ (check a st).2) st) ∧
      ∀ k, VerifyCall.Used (as.foldl (fun st a ↦ (check a st).2) st) k ↔
        VerifyCall.Used st k ∨ k ∈ c.sigs ∧ ∃ a ∈ as, asks a k := by
  induction as generalizing st with
  | nil => exact ⟨hs, by simp⟩
  | cons a as ih =>
      have hone := hcheck a List.mem_cons_self st hs
      obtain ⟨ht, hused⟩ := ih (fun x hx ↦ hcheck x (List.mem_cons_of_mem a hx)) hone.consistent
      refine ⟨ht, fun k ↦ (hused k).trans ?_⟩
      rw [hone.used k]
      simp only [List.mem_cons, exists_eq_or_imp]
      tauto

theorem mem_usedKeys {st : SignState} :
    k ∈ r.usedKeys st ↔ VerifyCall.Used st k ∧ k ∈ r.availableKeys := by
  unfold usedKeys SignState.removeUnusedSignatures VerifyCall.Used
  simp [mem_flatInsertAll]

theorem initial_consistent (hsigs : ∀ k, k ∈ sigs ↔ k ∈ r.signatureKeys) :
    (r.verifyCall r.candidates).Consistent (r.initial sigs) where
  signed k := by simp [initial, verifyCall, candidates, hsigs]
  marked k h := by simp [initial] at h
  approvals := by simp [VerifyCall.approvals, verifyCall, initial]
  approved a ha := by
    refine .inl ?_
    simpa [VerifyCall.approvals, verifyCall, initial] using ha

/-- What the loops of `get_required_signatures` mark, they ask for. -/
theorem used_checkAll (hr : r.Uncut) {st : SignState} (hs : (r.verifyCall sigs).Consistent st) :
    ∀ k, VerifyCall.Used (r.checkAll st) k ↔ VerifyCall.Used st k ∨ k ∈ sigs ∧
      ((∃ auth ∈ requiredOther r.ops, (r.verifyCall sigs).Asks auth k) ∨
        (∃ id ∈ requiredOwner r.ops, (r.verifyCall sigs).OwnerAsks id k) ∨
          ∃ id ∈ requiredActive r.ops, (r.verifyCall sigs).AsksFor id k) := by
  have hc := hr.verifyCall sigs
  obtain ⟨ht, husedT⟩ := foldl_exact (fun auth hauth st ↦ VerifyCall.checkOther_exact hc hauth) hs
  have howner : ∀ id ∈ requiredOwner r.ops, ∀ st, (r.verifyCall sigs).Consistent st →
      (r.verifyCall sigs).Exact ((r.verifyCall sigs).OwnerAccepts id)
        ((r.verifyCall sigs).OwnerAsks id) st
        (SignState.checkAuthority r.getActive r.maxRecursion (r.getOwner id) st) :=
    fun id hid st ↦ VerifyCall.checkAuthority_exact hc fun auth h ↦ .owner hid h
  obtain ⟨hu, husedU⟩ := foldl_exact howner ht
  obtain ⟨-, hused⟩ := foldl_exact (fun id hid st ↦ VerifyCall.checkAccount_exact hc
    (n := r.maxRecursion) fun auth h ↦ .active hid (.inl h)) hu
  intro k
  refine (hused k).trans ?_
  rw [husedU k, husedT k, or_assoc, or_assoc, ← and_or_left, ← and_or_left]
  rfl

/-- Every key that is required is asked for when fewer keys sign. -/
theorem asksSome_of_required (hr : r.Uncut) (h : r.getRequiredSignatures = .ok keys)
    (hk : k ∈ keys) (hsigs : ∀ k ∈ sigs, k ∈ keys) : (r.verifyCall sigs).AsksSome k := by
  unfold getRequiredSignatures getSignatureKeys at h
  split_ifs at h
  · obtain rfl := Except.ok.inj h
    have hs : (r.verifyCall r.candidates).Consistent
        (r.initial (flatInsertAll r.signatureKeys [])) :=
      initial_consistent fun k ↦ by simp [mem_flatInsertAll]
    have hnarrows : (r.verifyCall sigs).Narrows (r.verifyCall r.candidates) :=
      narrows_verifyCall fun x hx ↦ by
        simp [candidates, (mem_usedKeys.mp (hsigs x hx)).2]
    have hused := (mem_usedKeys.mp hk).1
    rw [used_checkAll hr hs] at hused
    rcases hused with hused | ⟨-, hasks⟩
    · simp [VerifyCall.Used, initial] at hused
    · rcases hasks with ⟨auth, hauth, h⟩ | ⟨id, hid, auth, hauth, h⟩ | ⟨id, hid, hnew, auth, hauth, h⟩
      · exact .inl ⟨auth, hauth, hnarrows.asks h⟩
      · exact .inr (.inr ⟨id, hid, by simp [verifyCall], auth, hauth, hnarrows.asks h⟩)
      · exact .inr (.inl ⟨id, hid, .inl ⟨hnew, auth, hauth, hnarrows.asks h⟩⟩)
  · cases h

/-! ## When the verifier can be used as an oracle -/

/-- The checks are such that no set of required keys holds an irrelevant one, and
a set that lacks an authority contains none that has them all. -/
structure Regular (r : SigningRequest) : Prop where
  relevant : ∀ keys, r.getRequiredSignatures = .ok keys → ∀ sigs, sigs.Sublist keys →
    r.verify sigs ≠ .error .txIrrelevantSig
  missing : ∀ keys, r.getRequiredSignatures = .ok keys → ∀ sigs, sigs.Sublist keys → ∀ e,
    e.IsMissing → r.verify sigs = .error e → ∀ sigs', sigs'.Sublist sigs → r.verify sigs' ≠ .ok ()

theorem satisfied_mono {sigs' : List PublicKey} (h : ∀ k ∈ sigs, k ∈ sigs')
    (hs : (r.verifyCall sigs).Satisfied (r.verifyCall sigs).Accepts) :
    (r.verifyCall sigs').Satisfied (r.verifyCall sigs').Accepts where
  other auth hauth := (narrows_verifyCall h).accepts (hs.other auth hauth)
  active id hid := (hs.active id hid).imp_right fun ⟨auth, hauth, haccepts⟩ ↦
    ⟨auth, hauth, (narrows_verifyCall h).accepts haccepts⟩
  owner id hid := (hs.owner id hid).imp_right fun ⟨auth, hauth, haccepts⟩ ↦
    ⟨auth, hauth, (narrows_verifyCall h).accepts haccepts⟩

theorem Uncut.regular (hr : r.Uncut) : r.Regular where
  relevant keys hkeys sigs hsigs h := by
    obtain ⟨k, hk, hunasked⟩ := VerifyCall.unasked_of_irrelevant (hr.verifyCall sigs) h
    exact hunasked (asksSome_of_required hr hkeys (hsigs.subset hk) fun x hx ↦ hsigs.subset hx)
  missing keys hkeys sigs hsigs e he h sigs' hsigs' hok := by
    have hsatisfied := satisfied_mono (fun k hk ↦ hsigs'.subset hk)
      (VerifyCall.satisfied_of_ok (hr.verifyCall sigs') hok)
    unfold verify at h
    rcases VerifyCall.verifyAuthority_of_satisfied (hr.verifyCall sigs) hsatisfied with
      hsame | hsame | hsame <;> rw [hsame] at h <;> cases h <;> exact he

/-! ## The loop -/

theorem flatInsert_erase (hsorted : result.Pairwise (· < ·)) (hk : k ∈ result) :
    flatInsert k (result.erase k) = result := by
  induction result with
  | nil => cases hk
  | cons x result ih =>
      obtain ⟨hx, hsorted⟩ := List.pairwise_cons.mp hsorted
      by_cases hxk : x = k
      · subst hxk
        rw [List.erase_cons_head]
        cases result with
        | nil => rfl
        | cons y result => simp [flatInsert, hx y List.mem_cons_self]
      · have hk : k ∈ result := (List.mem_cons.mp hk).resolve_left fun h ↦ hxk h.symm
        have hlt : x < k := hx k hk
        rw [List.erase_cons_tail (by simpa using hxk), flatInsert, if_neg (not_lt.mpr hlt.le),
          if_neg fun h ↦ hxk h.symm, ih hsorted hk]

theorem minimizeLoop_of_ok (h : r.verify (result.erase k) = .ok ()) :
    r.minimizeLoop (k :: s) result = r.minimizeLoop s (result.erase k) := by
  rw [minimizeLoop, h]

theorem minimizeLoop_of_missing {e : VerifyError} (he : e.IsMissing)
    (hsorted : result.Pairwise (· < ·)) (hk : k ∈ result)
    (h : r.verify (result.erase k) = .error e) :
    r.minimizeLoop (k :: s) result = r.minimizeLoop s result := by
  rw [minimizeLoop, h]
  cases e with
  | invalidCommitteeApproval | txIrrelevantSig => exact he.elim
  | txMissingOtherAuth _ | txMissingActiveAuth _ | txMissingOwnerAuth _ =>
      dsimp only
      rw [flatInsert_erase hsorted hk]

/-- A key whose absence left an authority missing in a set around the rest. -/
def Needed (r : SigningRequest) (keys result : List PublicKey) (k : PublicKey) : Prop :=
  ∃ sigs e, sigs.Sublist keys ∧ VerifyError.IsMissing e ∧ r.verify sigs = .error e ∧
    (result.erase k).Sublist sigs

theorem Needed.erase {x : PublicKey} (h : r.Needed keys result k) :
    r.Needed keys (result.erase x) k := by
  obtain ⟨sigs, e, hsigs, he, hverify, hsub⟩ := h
  refine ⟨sigs, e, hsigs, he, hverify, List.Sublist.trans ?_ hsub⟩
  rw [List.erase_comm]
  exact List.erase_sublist

theorem not_committee_of_ok {sigs' : List PublicKey} (hok : r.verify sigs = .ok ()) :
    r.verify sigs' ≠ .error .invalidCommitteeApproval := by
  intro h
  have hcommittee : ¬(r.verifyCall sigs').allowCommittee = true ∧
      committeeAccount ∈ requiredActive (r.verifyCall sigs').ops := VerifyCall.committee_of_verify h
  have hreject : r.verify sigs = .error .invalidCommitteeApproval := if_pos hcommittee
  rw [hreject] at hok
  cases hok

/-- Unless the committee is asked for, the loop leaves only keys that are needed,
and a set that is accepted if the one it started from was. -/
theorem minimizeLoop_spec (hr : r.Regular) (hkeys : r.getRequiredSignatures = .ok keys)
    (hsorted : result.Pairwise (· < ·)) (hsub : result.Sublist keys)
    (hs : s.Nodup) (hmem : ∀ k ∈ s, k ∈ result)
    (hneeded : ∀ k ∈ result, k ∉ s → r.Needed keys result k) :
    (r.minimizeLoop s result = .error .invalidCommitteeApproval ∧
      ∃ sigs, r.verify sigs = .error .invalidCommitteeApproval) ∨
    ∃ m, r.minimizeLoop s result = .ok m ∧ (r.verify result = .ok () → r.verify m = .ok ()) ∧
      ∀ k ∈ m, r.Needed keys m k := by
  induction s generalizing result with
  | nil => exact .inr ⟨result, rfl, id, fun k hk ↦ hneeded k hk (by simp)⟩
  | cons k s ih =>
      obtain ⟨hks, hs⟩ := List.nodup_cons.mp hs
      have hk := hmem k List.mem_cons_self
      have hnodup : result.Nodup := hsorted.imp Nat.ne_of_lt
      have herase : (result.erase k).Sublist keys := List.erase_sublist.trans hsub
      cases hverify : r.verify (result.erase k) with
      | ok u =>
          rw [minimizeLoop_of_ok hverify]
          refine (ih (hsorted.sublist List.erase_sublist) herase hs (fun x hx ↦ ?_)
            fun x hx hxs ↦ ?_).imp_right fun ⟨m, hm, hok, hrest⟩ ↦ ⟨m, hm, fun _ ↦ hok hverify, hrest⟩
          · have hxk : x ≠ k := fun h ↦ hks (h ▸ hx)
            exact (List.mem_erase_of_ne hxk).mpr (hmem x (List.mem_cons_of_mem k hx))
          · obtain ⟨hxk, hx⟩ := hnodup.mem_erase_iff.mp hx
            exact (hneeded x hx (by simp [hxk, hxs])).erase
      | error e =>
          cases e with
          | txIrrelevantSig => exact absurd hverify (hr.relevant keys hkeys _ herase)
          | invalidCommitteeApproval => exact .inl ⟨by rw [minimizeLoop, hverify], _, hverify⟩
          | txMissingOtherAuth _ | txMissingActiveAuth _ | txMissingOwnerAuth _ =>
              rw [minimizeLoop_of_missing (by trivial) hsorted hk hverify]
              refine ih hsorted hsub hs (fun x hx ↦ hmem x (List.mem_cons_of_mem k hx))
                fun x hx hxs ↦ ?_
              by_cases hxk : x = k
              · subst hxk
                exact ⟨_, _, herase, by trivial, hverify, .refl _⟩
              · exact hneeded x hx (by simp [hxk, hxs])

/-- What is asked of `minimize_required_signatures`. -/
structure Minimizes (r : SigningRequest) : Prop where
  minimal : ∀ keys, r.getRequiredSignatures = .ok keys → r.verify keys = .ok () →
    ∃ m, r.minimizeRequiredSignatures = .ok m ∧ r.verify m = .ok () ∧
      ∀ k ∈ m, r.verify (m.erase k) ≠ .ok ()
  relevant : ∀ sigs : List PublicKey, (∀ k ∈ sigs, k ∈ r.availableKeys) → r.verify sigs = .ok () →
    r.minimizeRequiredSignatures ≠ .error (.verifyAuthority .txIrrelevantSig)

theorem flatInsert_sorted (h : keys.Pairwise (· < ·)) : (flatInsert k keys).Pairwise (· < ·) := by
  induction keys with
  | nil => exact List.pairwise_singleton _ _
  | cons x keys ih =>
      obtain ⟨hx, hkeys⟩ := List.pairwise_cons.mp h
      unfold flatInsert
      split_ifs with hlt heq
      · refine List.pairwise_cons.mpr ⟨fun y hy ↦ ?_, h⟩
        rcases List.mem_cons.mp hy with rfl | hy
        · exact hlt
        · exact hlt.trans (hx y hy)
      · exact h
      · refine List.pairwise_cons.mpr ⟨fun y hy ↦ ?_, ih hkeys⟩
        rcases mem_flatInsert.mp hy with rfl | hy
        · exact lt_of_le_of_ne (not_lt.mp hlt) (Ne.symm heq)
        · exact hx y hy

theorem flatInsertAll_sorted (h : keys.Pairwise (· < ·)) :
    (flatInsertAll sigs keys).Pairwise (· < ·) := by
  induction sigs generalizing keys with
  | nil => exact h
  | cons k sigs ih => exact ih (flatInsert_sorted h)

theorem sorted_of_required (h : r.getRequiredSignatures = .ok keys) : keys.Pairwise (· < ·) := by
  unfold getRequiredSignatures at h
  cases hsigs : r.getSignatureKeys with
  | error e => simp [hsigs, bind, Except.bind] at h
  | ok sigs =>
      rw [hsigs] at h
      obtain rfl := Except.ok.inj h
      exact flatInsertAll_sorted .nil

theorem duplicate_of_error {e : SigningError} (h : r.getRequiredSignatures = .error e) :
    e = .txDuplicateSig := by
  unfold getRequiredSignatures getSignatureKeys at h
  split_ifs at h
  · cases h
  · exact (Except.error.inj h).symm

theorem Regular.minimizes (hr : r.Regular) : r.Minimizes := by
  have hloop : ∀ keys, r.getRequiredSignatures = .ok keys → _ := fun keys hkeys ↦
    minimizeLoop_spec hr hkeys (sorted_of_required hkeys) (.refl keys)
      ((sorted_of_required hkeys).imp Nat.ne_of_lt) (fun _ ↦ id) fun k hk h ↦ absurd hk h
  have hrun : ∀ keys, r.getRequiredSignatures = .ok keys → r.minimizeRequiredSignatures =
      (r.minimizeLoop keys keys).mapError .verifyAuthority := fun keys hkeys ↦ by
    unfold minimizeRequiredSignatures
    rw [hkeys]
    rfl
  constructor
  · intro keys hkeys hok
    rcases hloop keys hkeys with ⟨-, sigs, hsigs⟩ | ⟨m, hm, haccepted, hneeded⟩
    · exact absurd hsigs (not_committee_of_ok hok)
    · refine ⟨m, by rw [hrun keys hkeys, hm]; rfl, haccepted hok, fun k hk ↦ ?_⟩
      obtain ⟨sigs, e, hsigs, he, hverify, hsub⟩ := hneeded k hk
      exact hr.missing keys hkeys sigs hsigs e he hverify _ hsub
  · intro _ _ _ h
    cases hkeys : r.getRequiredSignatures with
    | error e =>
        unfold minimizeRequiredSignatures at h
        rw [hkeys, duplicate_of_error hkeys] at h
        cases h
    | ok keys =>
        rw [hrun keys hkeys] at h
        rcases hloop keys hkeys with ⟨hm, -⟩ | ⟨m, hm, -⟩ <;> rw [hm] at h <;> cases h

/-- An account that one heavy key or two light ones satisfy, or an account with
a key of its own. -/
def heavyRequest : SigningRequest where
  ops := [{ feePayer := 10 }]
  availableKeys := {1, 2, 3}
  getActive a :=
    if a = 10 then some { weightThreshold := 2, keyAuths := [(1, 1), (2, 2)], accountAuths := [(11, 1)] }
    else if a = 11 then some { weightThreshold := 1, keyAuths := [(3, 1)] }
    else none
  getOwner _ := none

theorem heavyRequest_uncut : heavyRequest.Uncut := by
  have hactive : ∀ a auth, (heavyRequest.verifyCall []).getActive a = some auth →
      a = 10 ∧ auth = ⟨2, [(11, 1)], [(1, 1), (2, 2)]⟩ ∨ a = 11 ∧ auth = ⟨1, [], [(3, 1)]⟩ := by
    intro a auth h
    simp only [heavyRequest, verifyCall] at h
    split_ifs at h with ha ha
    · exact .inl ⟨ha, (Option.some.inj h).symm⟩
    · exact .inr ⟨ha, (Option.some.inj h).symm⟩
  have hexamined : ∀ n auth, (heavyRequest.verifyCall []).Examined n auth →
      n = 2 ∧ auth = ⟨2, [(11, 1)], [(1, 1), (2, 2)]⟩ ∨ auth = ⟨1, [], [(3, 1)]⟩ := by
    intro n auth h
    induction h with
    | other h => cases h
    | active h hauth =>
        rcases hauth with hauth | hauth
        · rcases hactive _ _ hauth with ⟨-, rfl⟩ | ⟨-, rfl⟩
          · exact .inl ⟨rfl, rfl⟩
          · exact .inr rfl
        · cases hauth
    | owner h _ => cases h
    | entry _ he hauth ih =>
        rcases ih with ⟨-, rfl⟩ | rfl
        · obtain rfl := List.mem_singleton.mp he
          rcases hactive _ _ hauth with ⟨ha, -⟩ | ⟨-, rfl⟩
          · cases ha
          · exact .inr rfl
        · cases he
  constructor
  · intro n auth h
    rcases hexamined n auth h with ⟨-, rfl⟩ | rfl <;> simp [Authority.Light]
  · intro auth h e he
    rcases hexamined 0 auth h with ⟨h, -⟩ | rfl
    · cases h
    · cases he

/-- Accounts 10 and 11 are required.  With key 1 the check of 11 goes on to 13 and
15 and asks for key 2.  Without it, 10 needs 12, and the check of 13 that starts
there is cut at the depth limit before it comes to 15. -/
def cutRequest : SigningRequest where
  ops := [{ feePayer := 10, active := [11] }]
  availableKeys := {1, 2, 3}
  getActive a :=
    if a = 10 then some { weightThreshold := 1, keyAuths := [(1, 1)], accountAuths := [(12, 1)] }
    else if a = 11 then some { weightThreshold := 2, accountAuths := [(13, 1), (14, 1)] }
    else if a = 12 then some { weightThreshold := 2, accountAuths := [(14, 1), (13, 1)] }
    else if a = 13 then some { weightThreshold := 1, accountAuths := [(15, 1), (14, 1)] }
    else if a = 14 then some { weightThreshold := 1, keyAuths := [(3, 1)] }
    else if a = 15 then some { weightThreshold := 1, keyAuths := [(2, 1)] }
    else none
  getOwner _ := none

end SigningRequest

end KarmaCore.Authorities
