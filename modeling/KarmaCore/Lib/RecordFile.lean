import Mathlib

/-!
# Files of records

A write overwrites what is at its position, and a gap between the end of the file
and the position is filled.  What is read where a write went is what was written;
elsewhere it is what was there, or filling.
-/

namespace RecordFile

variable {α : Type*} {zero : α} {pos pos' n i : ℕ} {data file : List α}

/-- What is read from a position on. -/
def slice (pos n : ℕ) (file : List α) : List α := (file.drop pos).take n

/-- The file up to a position, filled where it is shorter. -/
def upTo (zero : α) (pos : ℕ) (file : List α) : List α :=
  (file ++ List.replicate (pos - file.length) zero).take pos

def writeAt (zero : α) (pos : ℕ) (data file : List α) : List α :=
  upTo zero pos file ++ (data ++ file.drop (pos + data.length))

theorem length_upTo : (upTo zero pos file).length = pos := by
  rw [upTo, List.length_take, List.length_append, List.length_replicate]
  omega

theorem length_writeAt :
    (writeAt zero pos data file).length = max file.length (pos + data.length) := by
  rw [writeAt, List.length_append, length_upTo, List.length_append, List.length_drop]
  omega

theorem slice_append (h : pos + n ≤ file.length) : slice pos n (file ++ data) = slice pos n file := by
  rw [slice, slice, List.drop_append_of_le_length (by omega), List.take_append_of_le_length]
  rw [List.length_drop]
  omega

theorem slice_end : slice file.length data.length (file ++ data) = data := by
  rw [slice, List.drop_left, List.take_length]

theorem slice_take (h : pos + n ≤ i) : slice pos n (file.take i) = slice pos n file := by
  rw [slice, slice, List.drop_take, List.take_take, min_eq_left (by omega)]

theorem slice_writeAt_self : slice pos data.length (writeAt zero pos data file) = data := by
  rw [slice, writeAt, List.drop_left' length_upTo, List.take_left]

theorem slice_writeAt_of_ge (h : pos + data.length ≤ pos') :
    slice pos' n (writeAt zero pos data file) = slice pos' n file := by
  have hlength : (upTo zero pos file ++ data).length = pos + data.length := by
    rw [List.length_append, length_upTo]
  rw [slice, slice, writeAt, ← List.append_assoc, List.drop_append, hlength, List.drop_drop,
    List.drop_eq_nil_of_le (hlength.trans_le h), List.nil_append, Nat.add_sub_cancel' h]

/-- Before the position there is what was there. -/
theorem slice_writeAt_of_le (h : pos' + n ≤ pos) (hfile : pos' + n ≤ file.length) :
    slice pos' n (writeAt zero pos data file) = slice pos' n file := by
  rw [writeAt, slice_append (by rw [length_upTo]; exact h), upTo, slice_take h, slice_append hfile]

/-- In the gap there is filling. -/
theorem slice_writeAt_gap (h : pos' + n ≤ pos) (hfile : file.length ≤ pos') :
    slice pos' n (writeAt zero pos data file) = List.replicate n zero := by
  rw [writeAt, slice_append (by rw [length_upTo]; exact h), upTo, slice_take h, slice,
    List.drop_append, List.drop_eq_nil_of_le hfile, List.nil_append, List.drop_replicate,
    List.take_replicate, min_eq_left (by omega)]

/-! ## Numbers as bytes -/

/-- The low bytes of a number, the lowest first. -/
def toBytes : ℕ → ℕ → List UInt8
  | 0, _ => []
  | k + 1, n => UInt8.ofNat n :: toBytes k (n / 256)

def fromBytes : List UInt8 → ℕ
  | [] => 0
  | b :: bytes => b.toNat + 256 * fromBytes bytes

theorem length_toBytes (k n : ℕ) : (toBytes k n).length = k := by
  induction k generalizing n with
  | zero => rfl
  | succ k ih => rw [toBytes, List.length_cons, ih]

theorem fromBytes_toBytes {k n : ℕ} (h : n < 256 ^ k) : fromBytes (toBytes k n) = n := by
  induction k generalizing n with
  | zero =>
      rw [pow_zero, Nat.lt_one_iff] at h
      rw [toBytes, fromBytes, h]
  | succ k ih =>
      rw [pow_succ, ← Nat.div_lt_iff_lt_mul (by norm_num)] at h
      rw [toBytes, fromBytes, ih h, UInt8.toNat_ofNat']
      exact Nat.mod_add_div n 256

end RecordFile
