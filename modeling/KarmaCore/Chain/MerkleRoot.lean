import Mathlib
import KarmaCore.Lib.PairTree

/-!
# The merkle root of a block

The digests of the transactions are combined in place, level by level, by loops
that count in `uint32_t`.  They compute the root of the tree of pairs, as long
as their counters reach the number of transactions.
-/

namespace KarmaCore.Chain

open PairTree

variable {Tx Digest Checksum : Type}

/-- The hashes a block uses. -/
structure MerkleHash (Tx Digest Checksum : Type) where
  merkleDigest : Tx → Digest
  hashPair : Digest → Digest → Digest
  checksum : Digest → Checksum
  noDigest : Digest
  noChecksum : Checksum

variable (hash : MerkleHash Tx Digest Checksum)

/-- `ids[i] = transactions[i].merkle_digest()`. -/
def fillIds (transactions : List Tx) : ℕ → ℕ → List Digest → Option (List Digest)
  | 0, _, _ => none
  | fuel + 1, i, ids =>
      if h : i < transactions.length then
        fillIds transactions fuel ((i + 1) % 2 ^ 32) (ids.set i (hash.merkleDigest transactions[i]))
      else some ids

/-- `ids[k++] = hash(ids[i], ids[i+1])`. -/
def hashPairs (iMax : ℕ) : ℕ → ℕ → ℕ → List Digest → Option (List Digest × ℕ)
  | 0, _, _, _ => none
  | fuel + 1, i, k, ids =>
      if i < iMax then
        let pair := hash.hashPair (ids.getD i hash.noDigest) (ids.getD (i + 1) hash.noDigest)
        hashPairs iMax fuel ((i + 2) % 2 ^ 32) ((k + 1) % 2 ^ 32) (ids.set k pair)
      else some (ids, k)

/-- One turn of the outer loop. -/
def hashLevel (fuel : ℕ) (ids : List Digest) (currentNumberOfHashes : ℕ) :
    Option (List Digest × ℕ) := do
  let iMax := (currentNumberOfHashes - currentNumberOfHashes % 2) % 2 ^ 32
  let (ids, k) ← hashPairs hash iMax fuel 0 0 ids
  if currentNumberOfHashes % 2 = 1 then
    return (ids.set k (ids.getD iMax hash.noDigest), (k + 1) % 2 ^ 32)
  else return (ids, k)

def hashLevels : ℕ → List Digest → ℕ → Option (List Digest)
  | 0, _, _ => none
  | fuel + 1, ids, currentNumberOfHashes =>
      if 1 < currentNumberOfHashes then do
        let (ids, k) ← hashLevel hash fuel ids currentNumberOfHashes
        hashLevels fuel ids k
      else some ids

/-- Every loop takes at most `fuel` turns; `none` is a loop that has not ended. -/
def calculateMerkleRoot (fuel : ℕ) (transactions : List Tx) : Option Checksum :=
  if transactions.length = 0 then some hash.noChecksum
  else do
    let ids ← fillIds hash transactions fuel 0 (List.replicate transactions.length hash.noDigest)
    let ids ← hashLevels hash fuel ids ids.length
    return hash.checksum (ids.getD 0 hash.noDigest)

/-- The recursive definition. -/
def merkleRoot (transactions : List Tx) : Checksum :=
  match root hash.hashPair (transactions.map hash.merkleDigest) with
  | none => hash.noChecksum
  | some digest => hash.checksum digest

variable {hash} {transactions : List Tx} {ids : List Digest} {fuel i k iMax n : ℕ}

/-! ## The digests -/

theorem fillIds_eq (hrange : transactions.length < 2 ^ 32) (hi : i ≤ transactions.length)
    (hids : ids.length = transactions.length)
    (hdone : ids.take i = (transactions.take i).map hash.merkleDigest)
    (hfuel : transactions.length - i < fuel) :
    fillIds hash transactions fuel i ids = some (transactions.map hash.merkleDigest) := by
  induction fuel generalizing i ids with
  | zero => exact absurd hfuel (Nat.not_lt_zero _)
  | succ fuel ih =>
      rw [fillIds]
      split_ifs with hlt
      · rw [Nat.mod_eq_of_lt (by omega)]
        apply ih (Nat.succ_le_of_lt hlt) (by rw [List.length_set, hids]) _ (by omega)
        have hi' : i < ids.length := hids.symm ▸ hlt
        rw [List.take_succ_eq_append_getElem (by rwa [List.length_set]), List.getElem_set_self,
          List.take_set_of_le le_rfl, hdone, List.take_succ_eq_append_getElem hlt, List.map_append,
          List.map_singleton]
      · have hall : i = transactions.length := by omega
        rw [hall, ← hids, List.take_length, hids, List.take_length] at hdone
        rw [hdone]

/-- With as many transactions as there are numbers the loop does not end. -/
theorem fillIds_none (hrange : 2 ^ 32 ≤ transactions.length) (hi : i < 2 ^ 32) :
    fillIds hash transactions fuel i ids = none := by
  induction fuel generalizing i ids with
  | zero => rfl
  | succ fuel ih =>
      rw [fillIds, dif_pos (hi.trans_le hrange)]
      exact ih (Nat.mod_lt _ (by norm_num))

/-! ## One level in place -/

/-- The loop has written the level of the digests it has read, and leaves the rest alone. -/
theorem hashPairs_eq (hk : i = 2 * k) (hmax : iMax % 2 = 0) (hi : i ≤ iMax)
    (hlength : iMax ≤ ids.length) (hrange : iMax < 2 ^ 32) (hfuel : (iMax - i) / 2 < fuel) :
    ∃ ids', hashPairs hash iMax fuel i k ids = some (ids', iMax / 2) ∧
      ids'.length = ids.length ∧
      ids'.take (iMax / 2) = ids.take k ++ level hash.hashPair ((ids.drop i).take (iMax - i)) ∧
      ids'.drop iMax = ids.drop iMax := by
  induction fuel generalizing i k ids with
  | zero => exact absurd hfuel (Nat.not_lt_zero _)
  | succ fuel ih =>
      rw [hashPairs]
      by_cases hlt : i < iMax
      · have hi₁ : i < ids.length := by omega
        have hi₂ : i + 1 < ids.length := by omega
        have hread : (ids.drop i).take (iMax - i) =
            ids[i] :: ids[i + 1] :: (ids.drop (i + 2)).take (iMax - (i + 2)) := by
          obtain ⟨m, hm⟩ : ∃ m, iMax - i = m + 2 := ⟨iMax - i - 2, by omega⟩
          have hm' : iMax - (i + 2) = m := by omega
          rw [hm, hm', List.drop_eq_getElem_cons hi₁, List.drop_eq_getElem_cons hi₂,
            List.take_succ_cons, List.take_succ_cons]
        have hget : ids.getD i hash.noDigest = ids[i] := by simp [hi₁]
        have hget' : ids.getD (i + 1) hash.noDigest = ids[i + 1] := by simp [hi₂]
        have hwritten : (ids.set k (hash.hashPair ids[i] ids[i + 1])).take (k + 1) =
            ids.take k ++ [hash.hashPair ids[i] ids[i + 1]] := by
          rw [List.take_succ_eq_append_getElem (by rw [List.length_set]; omega),
            List.getElem_set_self, List.take_set_of_le le_rfl]
        have hlengthSet : iMax ≤ (ids.set k (hash.hashPair ids[i] ids[i + 1])).length := by
          rwa [List.length_set]
        have hi₃ : i + 2 = 2 * (k + 1) := by omega
        obtain ⟨ids', hids', hlength', htake, hdrop⟩ := ih hi₃ (by omega) hlengthSet (by omega)
        refine ⟨ids', ?_, by rw [hlength', List.length_set], ?_, ?_⟩
        · rw [if_pos hlt, hget, hget', Nat.mod_eq_of_lt (by omega), Nat.mod_eq_of_lt (by omega)]
          exact hids'
        · rw [htake, hwritten, hread, level, List.drop_set_of_lt (by omega), List.append_assoc]
          rfl
        · rw [hdrop, List.drop_set_of_lt (by omega)]
      · have heq : i = iMax := by omega
        have hk' : iMax / 2 = k := by omega
        refine ⟨ids, by rw [if_neg hlt, hk'], rfl, ?_, rfl⟩
        rw [heq, Nat.sub_self, List.take_zero, hk']
        simp [level]

/-- The rest of an odd level is carried up. -/
theorem hashLevel_eq (hn : n ≤ ids.length) (hrange : n < 2 ^ 32) (hfuel : n / 2 < fuel) :
    ∃ ids', hashLevel hash fuel ids n = some (ids', (n + 1) / 2) ∧ ids'.length = ids.length ∧
      ids'.take ((n + 1) / 2) = level hash.hashPair (ids.take n) := by
  have hmod : (n - n % 2) % 2 ^ 32 = n - n % 2 := Nat.mod_eq_of_lt (by omega)
  have hloop : ∃ ids', hashPairs hash (n - n % 2) fuel 0 0 ids = some (ids', (n - n % 2) / 2) ∧
      ids'.length = ids.length ∧
      ids'.take ((n - n % 2) / 2) =
        ids.take 0 ++ level hash.hashPair ((ids.drop 0).take (n - n % 2 - 0)) ∧
      ids'.drop (n - n % 2) = ids.drop (n - n % 2) :=
    hashPairs_eq rfl (by omega) (Nat.zero_le _) (by omega) (by omega) (by omega)
  obtain ⟨ids', hids', hlength, htake, hdrop⟩ := hloop
  rw [List.take_zero, List.nil_append, List.drop_zero, Nat.sub_zero] at htake
  rw [hashLevel, hmod]
  simp only [hids', bind, Option.bind]
  by_cases hodd : n % 2 = 1
  · have hmax : n - n % 2 = n - 1 := by omega
    have hhalf : (n - 1) / 2 + 1 = (n + 1) / 2 := by omega
    have hlast : n - 1 < ids.length := by omega
    have hget : ids'.getD (n - 1) hash.noDigest = ids[n - 1] := by
      have hfirst := congrArg List.head? hdrop
      rw [hmax, List.head?_drop, List.head?_drop, List.getElem?_eq_getElem hlast] at hfirst
      rw [List.getD_eq_getElem?_getD, hfirst]
      rfl
    have heven : (ids.take (n - 1)).length % 2 = 0 := by
      rw [List.length_take]
      omega
    rw [hmax] at htake
    refine ⟨_, by rw [if_pos hodd, hmax, hhalf, Nat.mod_eq_of_lt (by omega)]; rfl,
      by rw [List.length_set, hlength], ?_⟩
    rw [hget, ← hhalf, List.take_succ_eq_append_getElem (by rw [List.length_set]; omega),
      List.getElem_set_self, List.take_set_of_le le_rfl, htake]
    have hsplit : ids.take n = ids.take (n - 1) ++ [ids[n - 1]] := by
      have hsucc : n = n - 1 + 1 := by omega
      rw [← List.take_succ_eq_append_getElem hlast, ← hsucc]
    rw [hsplit, level_append _ heven]
    simp [level]
  · have hmax : n - n % 2 = n := by omega
    have hhalf : n / 2 = (n + 1) / 2 := by omega
    rw [hmax, hhalf] at htake
    exact ⟨ids', by rw [if_neg hodd, hmax, hhalf]; rfl, hlength, htake⟩

/-! ## All levels -/

/-- The first digest that is left is the root. -/
theorem hashLevels_eq (hpos : 0 < n) (hn : n ≤ ids.length) (hrange : n < 2 ^ 32)
    (hfuel : n < fuel) :
    ∃ ids', hashLevels hash fuel ids n = some ids' ∧
      root hash.hashPair (ids.take n) = some (ids'.getD 0 hash.noDigest) := by
  induction fuel generalizing n ids with
  | zero => exact absurd hfuel (Nat.not_lt_zero _)
  | succ fuel ih =>
      rw [hashLevels]
      have hread : (ids.take n).length = n := List.length_take_of_le hn
      by_cases hone : 1 < n
      · obtain ⟨ids', hlevel, hlength, htake⟩ :=
          hashLevel_eq hn hrange (show n / 2 < fuel by omega)
        have hread' : (n + 1) / 2 ≤ ids'.length := by omega
        obtain ⟨ids'', hlevels, hroot⟩ := ih (by omega) hread' (by omega) (by omega)
        refine ⟨ids'', ?_, ?_⟩
        · rw [if_pos hone, hlevel]
          exact hlevels
        · rw [root_of_two_le (by rw [hread]; omega), ← htake, hroot]
      · have hsingle : n = 1 := by omega
        have hfirst : 0 < ids.length := by omega
        refine ⟨ids, if_neg hone, ?_⟩
        rw [hsingle, List.take_succ_eq_append_getElem hfirst, List.take_zero, List.nil_append, root]
        simp [hfirst]

/-- The loops compute the recursive definition. -/
theorem calculateMerkleRoot_of_lt (hrange : transactions.length < 2 ^ 32)
    (hfuel : transactions.length < fuel) :
    calculateMerkleRoot hash fuel transactions = some (merkleRoot hash transactions) := by
  rw [calculateMerkleRoot]
  by_cases hempty : transactions.length = 0
  · rw [if_pos hempty, List.length_eq_zero_iff.mp hempty, merkleRoot, List.map_nil, root]
  · have hfill : fillIds hash transactions fuel 0
        (List.replicate transactions.length hash.noDigest) =
        some (transactions.map hash.merkleDigest) :=
      fillIds_eq hrange (Nat.zero_le _) (List.length_replicate ..) rfl (by omega)
    have hlength : (transactions.map hash.merkleDigest).length = transactions.length :=
      List.length_map ..
    have hall : ∃ ids', hashLevels hash fuel (transactions.map hash.merkleDigest)
        transactions.length = some ids' ∧
        root hash.hashPair ((transactions.map hash.merkleDigest).take transactions.length) =
          some (ids'.getD 0 hash.noDigest) :=
      hashLevels_eq (by omega) hlength.ge hrange hfuel
    obtain ⟨ids', hlevels, hroot⟩ := hall
    rw [← hlength, List.take_length] at hroot
    simp only [if_neg hempty, hfill, bind, Option.bind, hlength, hlevels, pure, merkleRoot, hroot]

theorem calculateMerkleRoot_none (hrange : 2 ^ 32 ≤ transactions.length) :
    calculateMerkleRoot hash fuel transactions = none := by
  have hsome : transactions.length ≠ 0 := by omega
  rw [calculateMerkleRoot, if_neg hsome, fillIds_none hrange (by norm_num)]
  rfl

/-- No two different values that are hashed for either list have one hash. -/
structure CollisionFree (hash : MerkleHash Tx Digest Checksum) (transactions transactions' : List Tx) :
    Prop where
  pairs : ∀ x ∈ combined hash.hashPair (transactions.map hash.merkleDigest),
    ∀ y ∈ combined hash.hashPair (transactions'.map hash.merkleDigest),
      hash.hashPair x.1 x.2 = hash.hashPair y.1 y.2 → x = y
  checksum : ∀ a ∈ root hash.hashPair (transactions.map hash.merkleDigest),
    ∀ b ∈ root hash.hashPair (transactions'.map hash.merkleDigest),
      hash.checksum a = hash.checksum b → a = b

/-- Without collisions lists of one length with one root have the same digests. -/
theorem digests_eq_of_merkleRoot_eq {transactions' : List Tx}
    (hfree : CollisionFree hash transactions transactions')
    (hlength : transactions.length = transactions'.length)
    (h : merkleRoot hash transactions = merkleRoot hash transactions') :
    transactions.map hash.merkleDigest = transactions'.map hash.merkleDigest := by
  have hlengths : (transactions.map hash.merkleDigest).length =
      (transactions'.map hash.merkleDigest).length := by
    rw [List.length_map, List.length_map, hlength]
  by_cases hempty : transactions.map hash.merkleDigest = []
  · rw [hempty] at hlengths ⊢
    exact (List.length_eq_zero_iff.mp hlengths.symm).symm
  · have hempty' : transactions'.map hash.merkleDigest ≠ [] := by
      intro hnil
      rw [hnil] at hlengths
      exact hempty (List.length_eq_zero_iff.mp hlengths)
    obtain ⟨a, ha⟩ : ∃ a, root hash.hashPair (transactions.map hash.merkleDigest) = some a :=
      root_isSome hempty
    obtain ⟨b, hb⟩ : ∃ b, root hash.hashPair (transactions'.map hash.merkleDigest) = some b :=
      root_isSome hempty'
    simp only [merkleRoot, ha, hb] at h
    have hab := hfree.checksum a ha b hb h
    exact root_inj hlengths hfree.pairs (by rw [ha, hb, hab])

/-- For every list the counters can number the loops compute the recursive root, and
the root tells the digests of lists of one length apart. -/
theorem calculateMerkleRoot_eq (hrange : transactions.length < 2 ^ 32) :
    (∀ fuel, transactions.length < fuel →
      calculateMerkleRoot hash fuel transactions = some (merkleRoot hash transactions)) ∧
    ∀ transactions', CollisionFree hash transactions transactions' →
      transactions.length = transactions'.length →
      merkleRoot hash transactions = merkleRoot hash transactions' →
        transactions.map hash.merkleDigest = transactions'.map hash.merkleDigest :=
  ⟨fun _ ↦ calculateMerkleRoot_of_lt hrange, fun _ ↦ digests_eq_of_merkleRoot_eq⟩

/-- Digests that keep what they are made of. -/
def plainHash : MerkleHash ℕ ℕ ℕ where
  merkleDigest := id
  hashPair := Nat.pair
  checksum := id
  noDigest := 0
  noChecksum := 0

/-- The third transaction is carried up past the first two. -/
theorem calculateMerkleRoot_three :
    calculateMerkleRoot plainHash 4 [3, 5, 7] = some (merkleRoot plainHash [3, 5, 7]) ∧
      calculateMerkleRoot plainHash 4 [3, 5, 7] = some (Nat.pair (Nat.pair 3 5) 7) :=
  ⟨(calculateMerkleRoot_eq (by decide)).1 4 (by decide), by decide⟩

/-- The first counter never reaches this number of transactions. -/
theorem calculateMerkleRoot_long :
    ¬∃ fuel root, calculateMerkleRoot plainHash fuel (List.replicate (2 ^ 32) 3) = some root := by
  rintro ⟨fuel, root, hroot⟩
  have hnone : calculateMerkleRoot plainHash fuel (List.replicate (2 ^ 32) 3) = none := by
    apply calculateMerkleRoot_none
    rw [List.length_replicate]
  exact nomatch hnone.symm.trans hroot

end KarmaCore.Chain
