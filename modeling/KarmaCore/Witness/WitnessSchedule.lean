import Mathlib
import KarmaCore.Transfer.TransferEvaluator
import KarmaCore.Witness.SlotTime

/-!
# The witness schedule

The shuffle is a permutation of the active witnesses, and as many consecutive
slots as there are scheduled witnesses schedule each of them once.
-/

namespace KarmaCore.Witness

open Transfer (get get_eq_ok)

/-! ## The shuffle -/

/-- `std::swap` of two places of a vector. -/
def swap {α : Type} (l : List α) (i j : ℕ) : List α :=
  if h : i < l.length ∧ j < l.length then (l.set i (l.get ⟨j, h.2⟩)).set j (l.get ⟨i, h.1⟩) else l

theorem swap_perm {α : Type} (l : List α) (i j : ℕ) : (swap l i j).Perm l := by
  unfold swap
  split_ifs with h
  · exact List.set_set_perm h.1 h.2
  · exact .refl l

/-- The generator at a place of the schedule, from the time of the head block. -/
def shuffleRandom (time i : ℕ) : BitVec 64 :=
  let nowHi := BitVec.ofNat 64 time <<< 32
  let k := nowHi + BitVec.ofNat 64 i * 2685821657736338717#64
  let k := k ^^^ (k >>> 12)
  let k := k ^^^ (k <<< 25)
  let k := k ^^^ (k >>> 27)
  k * 2685821657736338717#64

/-- One turn of the loop. -/
def shuffleAt (time : ℕ) (l : List WitnessId) (i : ℕ) : List WitnessId :=
  let jmax := l.length - i
  let j := i + (shuffleRandom time i).toNat % jmax
  swap l i j

def shuffle (time : ℕ) (l : List WitnessId) : List WitnessId :=
  (List.range l.length).foldl (shuffleAt time) l

theorem foldl_shuffleAt_perm (time : ℕ) (places : List ℕ) (l : List WitnessId) :
    (places.foldl (shuffleAt time) l).Perm l := by
  induction places generalizing l with
  | nil => exact .refl l
  | cons i places ih =>
      rw [List.foldl_cons]
      exact (ih (shuffleAt time l i)).trans (swap_perm l i _)

theorem shuffle_perm (time : ℕ) (l : List WitnessId) : (shuffle time l).Perm l :=
  foldl_shuffleAt_perm time _ l

namespace WitnessState

variable {s : WitnessState} {w : WitnessId} {n slotNum : ℕ}

def updateWitnessSchedule (s : WitnessState) : WitnessState :=
  if s.headBlockNum % s.activeWitnesses.ids.length = 0 then
    { s with currentShuffledWitnesses := shuffle s.time s.activeWitnesses.ids }
  else s

/-- `get_scheduled_witness`: without a schedule there is none. -/
def getScheduledWitness (slotNum : ℕ) (s : WitnessState) : Checked WitnessId :=
  let currentAslot := (s.currentAslot + slotNum) % 2 ^ 64
  get s.currentShuffledWitnesses[currentAslot % s.currentShuffledWitnesses.length]?

/-! ## Windows of slots -/

/-- Every residue comes once in as many consecutive numbers as there are residues. -/
theorem existsUnique_add_mod {j : ℕ} (a : ℕ) (hj : j < n) : ∃! i, i < n ∧ (a + i) % n = j := by
  have hn : 0 < n := (Nat.zero_le j).trans_lt hj
  have hmod := Nat.mod_lt a hn
  have hsum : a % n + (j + (n - a % n)) = j + n := by omega
  have hat : (a + (j + (n - a % n)) % n) % n = j := by
    rw [Nat.add_mod_mod, ← Nat.mod_add_mod, hsum, Nat.add_mod_right, Nat.mod_eq_of_lt hj]
  refine ⟨(j + (n - a % n)) % n, ⟨Nat.mod_lt _ hn, hat⟩, ?_⟩
  rintro i ⟨hi, hij⟩
  have hsame : a + i ≡ a + (j + (n - a % n)) % n [MOD n] := hij.trans hat.symm
  exact (Nat.ModEq.add_left_cancel' a hsame).eq_of_lt_of_lt hi (Nat.mod_lt _ hn)

theorem getScheduledWitness_eq_ok (hslot : s.currentAslot + slotNum < 2 ^ 64) :
    s.getScheduledWitness slotNum = .ok w ↔
      s.currentShuffledWitnesses[(s.currentAslot + slotNum) %
        s.currentShuffledWitnesses.length]? = some w := by
  rw [getScheduledWitness, get_eq_ok, Nat.mod_eq_of_lt hslot]

/-- A window of the schedule's length has exactly one slot of each scheduled witness. -/
theorem existsUnique_getScheduledWitness (hnodup : s.currentShuffledWitnesses.Nodup)
    (hslot : s.currentAslot + slotNum + s.currentShuffledWitnesses.length ≤ 2 ^ 64)
    (hw : w ∈ s.currentShuffledWitnesses) :
    ∃! i, i < s.currentShuffledWitnesses.length ∧
      s.getScheduledWitness (slotNum + i) = .ok w := by
  obtain ⟨j, hj, hat⟩ := List.getElem_of_mem hw
  have hiff : ∀ i < s.currentShuffledWitnesses.length,
      (s.getScheduledWitness (slotNum + i) = .ok w ↔
        (s.currentAslot + slotNum + i) % s.currentShuffledWitnesses.length = j) := by
    intro i hi
    rw [getScheduledWitness_eq_ok (by omega), ← add_assoc, List.getElem?_eq_some_iff]
    constructor
    · rintro ⟨hlt, heq⟩
      exact (hnodup.getElem_inj_iff).mp (heq.trans hat.symm)
    · rintro hplace
      exact ⟨hplace ▸ hj, by simp only [hplace, hat]⟩
  refine (existsUnique_congr fun i ↦ ?_).mpr
    (existsUnique_add_mod (s.currentAslot + slotNum) hj)
  exact and_congr_right (hiff i)

end WitnessState

end KarmaCore.Witness
