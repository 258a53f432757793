import Mathlib
import KarmaCore.Authority.SignState
import KarmaCore.Lib.Run

/-!
# Signatures by address

An authority may name addresses.  `signed_by` then looks for a key with the address
among the provided signatures and the available keys, in two maps that are made at
the first such question.  When neither has it, the end of the first is dereferenced.
-/

namespace KarmaCore.Authorities

abbrev Address := ℕ

/-- The hashes that make addresses of keys. -/
structure AddressHashes where
  ptsAddress : PublicKey → Bool → ℕ → Address
  address : PublicKey → Address

/-- The five addresses of a key. -/
def AddressHashes.addresses (h : AddressHashes) (k : PublicKey) : List Address :=
  [h.ptsAddress k false 56, h.ptsAddress k true 56, h.ptsAddress k false 0, h.ptsAddress k true 0,
    h.address k]

/-- The entry of an address in a map that has been filled key by key: the last key wins. -/
def AddressHashes.addressSigs (h : AddressHashes) (keys : Finset PublicKey) (a : Address) :
    Option PublicKey :=
  (keys.sort (· ≤ ·)).foldl (fun found k ↦ if a ∈ h.addresses k then some k else found) none

/-- `available_address_sigs` and `provided_address_sigs` once they are made. -/
structure AddressSigs where
  available : Address → Option PublicKey
  provided : Address → Option PublicKey

structure AddressSignState extends SignState where
  addressSigs : Option AddressSigs := none

namespace SignState

def providedKeys (s : SignState) : Finset PublicKey := (s.providedSignatures.map Prod.fst).toFinset

def usedKeys (s : SignState) : Finset PublicKey :=
  ((s.providedSignatures.filter fun sig ↦ sig.2).map Prod.fst).toFinset

/-- `provided_signatures[k] = true`. -/
def provide (k : PublicKey) (s : SignState) : SignState :=
  { s with
    providedSignatures :=
      if k ∈ s.providedSignatures.map Prod.fst then markUsed k s.providedSignatures
      else (k, true) :: s.providedSignatures }

end SignState

namespace AddressSignState

variable (h : AddressHashes)

/-- The two maps, made if they have not been yet. -/
def getAddressSigs (s : AddressSignState) : AddressSigs :=
  s.addressSigs.getD ⟨h.addressSigs s.availableKeys, h.addressSigs s.providedKeys⟩

/-- `signed_by( const address& )`; there is no result where a map is read past its end. -/
def signedByAddress (a : Address) (s : AddressSignState) : Option (Bool × AddressSignState) :=
  let sigs := s.getAddressSigs h
  let s := { s with addressSigs := some sigs }
  match sigs.provided a with
  | some k => some (true, { s with toSignState := s.toSignState.provide k })
  | none =>
    match sigs.available a with
    | some k =>
      if k ∈ s.availableKeys then some (true, { s with toSignState := s.toSignState.provide k })
      else some (false, s)
    | none => none

end AddressSignState

/-- What `check_authority` does to the state. -/
inductive SignEvent
  | signedByKey (k : PublicKey)
  | signedByAddress (a : Address)
  | approve (id : AccountId)

namespace AddressSignState

variable (h : AddressHashes)

def step (s : AddressSignState) : SignEvent → AddressSignState
  | .signedByKey k => { s with toSignState := (s.toSignState.signedBy k).2 }
  | .signedByAddress a =>
    match s.signedByAddress h a with
    | some (_, s') => s'
    | none => s
  | .approve id => { s with approvedBy := insert id s.approvedBy }

/-- The state the constructor leaves. -/
def initial (sigs : List PublicKey) (keys : Finset PublicKey) : AddressSignState where
  availableKeys := keys
  providedSignatures := sigs.map fun k ↦ (k, false)
  approvedBy := {tempAccount}

/-- A provided or available key has the address. -/
def Known (a : Address) (s : AddressSignState) : Prop :=
  ∃ k, (k ∈ s.providedKeys ∨ k ∈ s.availableKeys) ∧ a ∈ h.addresses k

/-- The answer is right, exactly one key with the address is marked and no other key is added,
and no map is read past its end. -/
structure Answers (a : Address) (s : AddressSignState) (signed : Bool) (s' : AddressSignState) : Prop where
  result : s.signedByAddress h a = some (signed, s')
  right : signed = true ↔ s.Known h a
  marks : signed = true → ∃ k, (k ∈ s.providedKeys ∨ k ∈ s.availableKeys) ∧ a ∈ h.addresses k ∧
    s'.providedKeys = insert k s.providedKeys ∧ s'.usedKeys = insert k s.usedKeys
  keeps : signed = false → s'.providedSignatures = s.providedSignatures

end AddressSignState

/-! ## The maps -/

variable {h : AddressHashes} {a : Address} {k : PublicKey}

theorem foldl_addressSigs {keys : List PublicKey} {found : Option PublicKey}
    (hk : keys.foldl (fun found k ↦ if a ∈ h.addresses k then some k else found) found = some k) :
    found = some k ∨ k ∈ keys ∧ a ∈ h.addresses k := by
  induction keys generalizing found with
  | nil => exact .inl hk
  | cons k' keys ih =>
      rw [List.foldl_cons] at hk
      rcases ih hk with hfound | hmem
      · split_ifs at hfound with ha
        · obtain rfl := Option.some.inj hfound
          exact .inr ⟨List.mem_cons_self, ha⟩
        · exact .inl hfound
      · exact .inr ⟨List.mem_cons_of_mem _ hmem.1, hmem.2⟩

theorem foldl_addressSigs_eq_none {keys : List PublicKey} {found : Option PublicKey} :
    keys.foldl (fun found k ↦ if a ∈ h.addresses k then some k else found) found = none ↔
      found = none ∧ ∀ k ∈ keys, a ∉ h.addresses k := by
  induction keys generalizing found with
  | nil => simp
  | cons k' keys ih =>
      rw [List.foldl_cons, ih]
      by_cases ha : a ∈ h.addresses k' <;> simp [ha]

theorem mem_of_addressSigs {keys : Finset PublicKey} (hk : h.addressSigs keys a = some k) :
    k ∈ keys ∧ a ∈ h.addresses k := by
  rcases foldl_addressSigs hk with hnone | hmem
  · cases hnone
  · simpa using hmem

theorem addressSigs_eq_none {keys : Finset PublicKey} :
    h.addressSigs keys a = none ↔ ∀ k ∈ keys, a ∉ h.addresses k := by
  unfold AddressHashes.addressSigs
  rw [foldl_addressSigs_eq_none]
  simp

/-! ## Marking a key -/

namespace SignState

variable {s : SignState}

@[simp] theorem map_markUsed (k : PublicKey) (signatures : List (PublicKey × Bool)) :
    (markUsed k signatures).map Prod.fst = signatures.map Prod.fst := by
  unfold markUsed
  rw [List.map_map]
  refine List.map_congr_left fun sig _ ↦ ?_
  by_cases hk : sig.1 = k <;> simp [hk]

@[simp] theorem providedKeys_provide (k : PublicKey) (s : SignState) :
    (s.provide k).providedKeys = insert k s.providedKeys := by
  unfold provide providedKeys
  dsimp only
  split_ifs with hk
  · rw [map_markUsed, Finset.insert_eq_of_mem (by simpa using hk)]
  · simp

theorem mem_usedKeys : k ∈ s.usedKeys ↔ (k, true) ∈ s.providedSignatures := by
  simp [usedKeys]

@[simp] theorem usedKeys_provide (k : PublicKey) (s : SignState) :
    (s.provide k).usedKeys = insert k s.usedKeys := by
  ext k'
  rw [Finset.mem_insert, mem_usedKeys, mem_usedKeys]
  unfold provide markUsed
  dsimp only
  split_ifs with hk
  · simp only [List.mem_map]
    constructor
    · rintro ⟨⟨k'', used⟩, hmem, heq⟩
      dsimp only at heq
      split_ifs at heq with hsame
      · exact .inl (Prod.mk.inj heq).1.symm
      · obtain ⟨rfl, rfl⟩ := Prod.mk.inj heq
        exact .inr hmem
    · rintro (rfl | hmem)
      · obtain ⟨⟨k'', used⟩, hmem, rfl⟩ := List.mem_map.mp hk
        exact ⟨(k'', used), hmem, by simp⟩
      · exact ⟨(k', true), hmem, by by_cases hsame : k' = k <;> simp [hsame]⟩
  · simp

@[simp] theorem availableKeys_provide (k : PublicKey) (s : SignState) :
    (s.provide k).availableKeys = s.availableKeys := rfl

@[simp] theorem availableKeys_signedBy (k : PublicKey) (s : SignState) :
    (s.signedBy k).2.availableKeys = s.availableKeys := by
  unfold signedBy examine
  split_ifs <;> rfl

/-- `signed_by( const public_key_type& )` adds an available key, if any. -/
theorem providedKeys_signedBy (k : PublicKey) (s : SignState) :
    (s.signedBy k).2.providedKeys = s.providedKeys ∨
      k ∈ s.availableKeys ∧ (s.signedBy k).2.providedKeys = insert k s.providedKeys := by
  unfold signedBy examine providedKeys
  split_ifs with hprovided havailable
  · exact .inl (by simp)
  · exact .inr ⟨havailable, by simp⟩
  · exact .inl rfl

end SignState

/-! ## What the maps hold along a run -/

namespace AddressSignState

variable (h) in
/-- The provided map is of keys that are provided still, and misses none that is not available. -/
def Consistent (s : AddressSignState) : Prop :=
  ∀ sigs, s.addressSigs = some sigs →
    sigs.available = h.addressSigs s.availableKeys ∧
      ∃ keys ⊆ s.providedKeys, sigs.provided = h.addressSigs keys ∧
        s.providedKeys ⊆ keys ∪ s.availableKeys

variable {s : AddressSignState}

/-- The maps after `signed_by` has made them, if it had to. -/
theorem getAddressSigs_spec (hs : s.Consistent h) :
    (s.getAddressSigs h).available = h.addressSigs s.availableKeys ∧
      ∃ keys ⊆ s.providedKeys, (s.getAddressSigs h).provided = h.addressSigs keys ∧
        s.providedKeys ⊆ keys ∪ s.availableKeys := by
  unfold getAddressSigs
  cases hsigs : s.addressSigs with
  | none => exact ⟨rfl, s.providedKeys, subset_rfl, rfl, Finset.subset_union_left⟩
  | some sigs => exact hs sigs hsigs

/-- More keys may be provided, if they are available. -/
theorem Consistent.grow {s' : AddressSignState} (hs : s.Consistent h)
    (hsigs : s'.addressSigs = s.addressSigs) (havailable : s'.availableKeys = s.availableKeys)
    (hmore : s.providedKeys ⊆ s'.providedKeys)
    (hfew : s'.providedKeys ⊆ s.providedKeys ∪ s.availableKeys) : s'.Consistent h := by
  intro sigs hsome
  rw [hsigs] at hsome
  obtain ⟨heq, keys, hkeys, hprovided, hcover⟩ := hs sigs hsome
  refine ⟨havailable ▸ heq, keys, hkeys.trans hmore, hprovided, ?_⟩
  rw [havailable]
  exact hfew.trans (Finset.union_subset hcover Finset.subset_union_right)

theorem consistent_initial (sigs : List PublicKey) (keys : Finset PublicKey) :
    (initial sigs keys).Consistent h := by
  intro made hmade
  cases hmade

/-- What the answer is, given where the key of the address is. -/
theorem signedByAddress_spec (hs : s.Consistent h) (a : Address) :
    (∃ k, (k ∈ s.providedKeys ∨ k ∈ s.availableKeys) ∧ a ∈ h.addresses k ∧
      s.signedByAddress h a = some (true,
        { s with addressSigs := some (s.getAddressSigs h), toSignState := s.toSignState.provide k })) ∨
    (¬ s.Known h a ∧ s.signedByAddress h a = none) := by
  obtain ⟨havailable, keys, hkeys, hprovided, hcover⟩ := getAddressSigs_spec hs
  unfold signedByAddress
  dsimp only
  rw [hprovided, havailable]
  cases hfound : h.addressSigs keys a with
  | some k =>
      obtain ⟨hk, ha⟩ := mem_of_addressSigs hfound
      exact .inl ⟨k, .inl (hkeys hk), ha, rfl⟩
  | none =>
      cases hfound' : h.addressSigs s.availableKeys a with
      | some k =>
          obtain ⟨hk, ha⟩ := mem_of_addressSigs hfound'
          exact .inl ⟨k, .inr hk, ha, if_pos hk⟩
      | none =>
          refine .inr ⟨?_, rfl⟩
          rintro ⟨k, hk, ha⟩
          have hmem : k ∈ keys ∪ s.availableKeys :=
            hk.elim (fun hk ↦ hcover hk) (Finset.mem_union_right keys)
          rcases Finset.mem_union.mp hmem with hk | hk
          · exact addressSigs_eq_none.mp hfound k hk ha
          · exact addressSigs_eq_none.mp hfound' k hk ha

theorem step_consistent (hs : s.Consistent h) (event : SignEvent) :
    (s.step h event).Consistent h := by
  cases event with
  | signedByKey k =>
      refine hs.grow rfl (SignState.availableKeys_signedBy k _) ?_ ?_ <;>
        unfold step <;> dsimp only <;>
        rcases SignState.providedKeys_signedBy k s.toSignState with heq | ⟨hk, heq⟩ <;> rw [heq]
      · exact Finset.subset_insert k _
      · exact Finset.subset_union_left
      · exact Finset.insert_subset (Finset.mem_union_right _ hk) Finset.subset_union_left
  | approve id => exact hs
  | signedByAddress a =>
      unfold step
      dsimp only
      rcases signedByAddress_spec hs a with ⟨k, hk, -, heq⟩ | ⟨-, heq⟩ <;> rw [heq]
      · have hmade : Consistent h { s with addressSigs := some (s.getAddressSigs h) } := by
          rintro _ ⟨⟩
          exact getAddressSigs_spec hs
        refine hmade.grow rfl rfl ?_ ?_ <;> rw [SignState.providedKeys_provide]
        · exact Finset.subset_insert k _
        · refine Finset.insert_subset ?_ Finset.subset_union_left
          rw [Finset.mem_union]
          exact hk
      · exact hs

theorem reaches_consistent {sigs : List PublicKey} {keys : Finset PublicKey}
    (hs : Run.Reaches (step h) (fun _ _ ↦ True) (initial sigs keys) s) : s.Consistent h :=
  hs.invariant (Consistent h) (consistent_initial sigs keys) fun _ event hs _ ↦
    step_consistent hs event

/-- Along every run of a check, `signed_by` answers for an address exactly when a provided
or available key has it. -/
theorem answers_iff_known {sigs : List PublicKey} {keys : Finset PublicKey}
    (hs : Run.Reaches (step h) (fun _ _ ↦ True) (initial sigs keys) s) (a : Address) :
    (∃ signed s', Answers h a s signed s') ↔ s.Known h a := by
  rcases signedByAddress_spec (reaches_consistent hs) a with ⟨k, hk, ha, heq⟩ | ⟨hunknown, heq⟩
  · refine iff_of_true ⟨true, _, heq, ?_, ?_, by simp⟩ ⟨k, hk, ha⟩
    · exact iff_of_true rfl ⟨k, hk, ha⟩
    · exact fun _ ↦ ⟨k, hk, ha, SignState.providedKeys_provide k _, SignState.usedKeys_provide k _⟩
  · refine iff_of_false ?_ hunknown
    rintro ⟨signed, s', hanswers⟩
    have hnone := hanswers.result
    rw [heq] at hnone
    cases hnone

theorem answers_iff_known_initial :
    (∃ signed s', Answers ⟨fun k _ _ ↦ k + 1, id⟩ 8 (initial [7] ∅) signed s') ↔
      (initial [7] ∅).Known ⟨fun k _ _ ↦ k + 1, id⟩ 8 :=
  answers_iff_known .refl 8

/-- One signature, and an authority with the address of another key. -/
theorem signedByAddress_foreign :
    (initial [7] ∅).signedByAddress ⟨fun k _ _ ↦ k + 1, id⟩ 42 = none ∧
      ¬ ∃ signed s', Answers ⟨fun k _ _ ↦ k + 1, id⟩ 42 (initial [7] ∅) signed s' := by
  have hnone : (initial [7] ∅).signedByAddress ⟨fun k _ _ ↦ k + 1, id⟩ 42 = none := by
    simp [signedByAddress, getAddressSigs, initial, SignState.providedKeys,
      AddressHashes.addressSigs, AddressHashes.addresses]
  refine ⟨hnone, ?_⟩
  rintro ⟨signed, s', hanswers⟩
  rw [hanswers.result] at hnone
  cases hnone

end AddressSignState

end KarmaCore.Authorities
