import Mathlib

/-!
# Block ciphers on a stream

A cipher turns blocks of one width into blocks of that width, and may keep a
state from block to block.  A decoder in the same state reads them back, however
the stream is cut at block boundaries.
-/

/-- A length-preserving cipher on blocks of width `w`, with a state of type `σ`. -/
structure BlockCipher (α σ : Type) (w : ℕ) where
  encode : σ → List α → List α × σ
  decode : σ → List α → List α × σ
  length_encode : ∀ s block, block.length = w → (encode s block).1.length = w
  decode_encode : ∀ s block, block.length = w →
    decode s (encode s block).1 = (block, (encode s block).2)

namespace BlockCipher

variable {α σ : Type} {w : ℕ} (c : BlockCipher α σ w)

/-- The first `n` blocks of a stream. -/
def encodeBlocks : ℕ → σ → List α → List α × σ
  | 0, s, _ => ([], s)
  | n + 1, s, stream =>
    let block := c.encode s (stream.take w)
    let rest := encodeBlocks n block.2 (stream.drop w)
    (block.1 ++ rest.1, rest.2)

def decodeBlocks : ℕ → σ → List α → List α × σ
  | 0, s, _ => ([], s)
  | n + 1, s, stream =>
    let block := c.decode s (stream.take w)
    let rest := decodeBlocks n block.2 (stream.drop w)
    (block.1 ++ rest.1, rest.2)

variable {c} {m n : ℕ} {s : σ} {stream rest : List α}

theorem take_of_blocks (h : w * (n + 1) ≤ stream.length) : (stream.take w).length = w := by
  apply List.length_take_of_le
  exact (Nat.le_mul_of_pos_right w n.succ_pos).trans h

theorem drop_of_blocks (h : w * (n + 1) ≤ stream.length) : w * n ≤ (stream.drop w).length := by
  rw [List.length_drop]
  rw [Nat.mul_succ] at h
  omega

theorem length_encodeBlocks (h : w * n ≤ stream.length) :
    (c.encodeBlocks n s stream).1.length = w * n := by
  induction n generalizing s stream with
  | zero => rfl
  | succ n ih =>
      simp only [encodeBlocks, List.length_append]
      rw [c.length_encode _ _ (take_of_blocks h), ih (drop_of_blocks h)]
      ring

/-- Encoding stops and goes on between two blocks. -/
theorem encodeBlocks_add (m n : ℕ) (s : σ) (stream : List α) :
    c.encodeBlocks (m + n) s stream =
      ((c.encodeBlocks m s stream).1 ++
          (c.encodeBlocks n (c.encodeBlocks m s stream).2 (stream.drop (w * m))).1,
        (c.encodeBlocks n (c.encodeBlocks m s stream).2 (stream.drop (w * m))).2) := by
  induction m generalizing s stream with
  | zero => simp [encodeBlocks]
  | succ m ih =>
      have hdrop : (stream.drop w).drop (w * m) = stream.drop (w * (m + 1)) := by
        rw [List.drop_drop, Nat.mul_succ, Nat.add_comm]
      rw [Nat.succ_add_eq_add_succ, Nat.add_succ]
      simp only [encodeBlocks, ih, hdrop, List.append_assoc]

/-- What follows the blocks is not looked at. -/
theorem encodeBlocks_append (h : w * n ≤ stream.length) :
    c.encodeBlocks n s (stream ++ rest) = c.encodeBlocks n s stream := by
  induction n generalizing s stream with
  | zero => rfl
  | succ n ih =>
      have hw : w ≤ stream.length := (Nat.le_mul_of_pos_right w n.succ_pos).trans h
      simp only [encodeBlocks, List.take_append_of_le_length hw, List.drop_append_of_le_length hw,
        ih (drop_of_blocks h)]

/-- A decoder in the encoder's state reads the blocks back and follows it. -/
theorem decodeBlocks_encodeBlocks (h : w * n ≤ stream.length) :
    c.decodeBlocks n s (c.encodeBlocks n s stream).1 =
      (stream.take (w * n), (c.encodeBlocks n s stream).2) := by
  induction n generalizing s stream with
  | zero => simp [decodeBlocks, encodeBlocks]
  | succ n ih =>
      have hblock := take_of_blocks h
      have hlength := c.length_encode s _ hblock
      have htake : stream.take (w * (n + 1)) = stream.take w ++ (stream.drop w).take (w * n) := by
        rw [Nat.mul_succ, Nat.add_comm, List.take_add]
      simp only [encodeBlocks, decodeBlocks]
      rw [List.take_left' hlength, List.drop_left' hlength, c.decode_encode _ _ hblock,
        ih (drop_of_blocks h), htake]

end BlockCipher
