import Mathlib
import KarmaCore.Chain.ForkDatabase
import KarmaCore.Lib.RecordFile
import KarmaCore.Lib.Run

/-!
# The files of the block database

The index holds an entry for every block number, which tells where the block is in
the other file.  A read past the end of a file throws and leaves its stream failed,
and everything that is done with a failed stream throws until it is opened again.
-/

namespace KarmaCore.Chain

open RecordFile

/-! ## Index entries -/

structure IndexEntry where
  blockPos : ℕ := 0
  blockSize : ℕ := 0
  blockId : BlockId := .null
  deriving DecidableEq

namespace IndexEntry

/-- `sizeof( index_entry )`. -/
def size : ℕ := 32

/-- The entry as it lies in memory; an id begins with its number, the high byte first. -/
def pack (e : IndexEntry) : List UInt8 :=
  toBytes 8 e.blockPos ++ (toBytes 4 e.blockSize ++
    ((toBytes 4 e.blockId.num).reverse ++ toBytes 16 e.blockId.hash))

def unpack (bytes : List UInt8) : IndexEntry where
  blockPos := fromBytes (bytes.take 8)
  blockSize := fromBytes ((bytes.drop 8).take 4)
  blockId := ⟨fromBytes ((bytes.drop 12).take 4).reverse, fromBytes ((bytes.drop 16).take 16)⟩

/-- The parts fit in their bytes. -/
structure InRange (e : IndexEntry) : Prop where
  blockPos : e.blockPos < 2 ^ 63
  blockSize : e.blockSize < 2 ^ 32
  num : e.blockId.num < 2 ^ 32
  hash : e.blockId.hash < 2 ^ 128

theorem length_pack (e : IndexEntry) : e.pack.length = size := by
  simp only [pack, List.length_append, List.length_reverse, length_toBytes, size]

theorem unpack_pack {e : IndexEntry} (h : e.InRange) : unpack e.pack = e := by
  have hpos := fromBytes_toBytes (k := 8) (n := e.blockPos) (h.blockPos.trans (by norm_num))
  have hsize := fromBytes_toBytes (k := 4) (n := e.blockSize) (h.blockSize.trans_le (by norm_num))
  have hnum := fromBytes_toBytes (k := 4) (n := e.blockId.num) (h.num.trans_le (by norm_num))
  have hhash := fromBytes_toBytes (k := 16) (n := e.blockId.hash) (h.hash.trans_le (by norm_num))
  have hfirst : e.pack.take 8 = toBytes 8 e.blockPos := List.take_left' (length_toBytes 8 _)
  have hdrop : e.pack.drop 8 = toBytes 4 e.blockSize ++
      ((toBytes 4 e.blockId.num).reverse ++ toBytes 16 e.blockId.hash) :=
    List.drop_left' (length_toBytes 8 _)
  have hdrop' : e.pack.drop 12 = (toBytes 4 e.blockId.num).reverse ++ toBytes 16 e.blockId.hash := by
    rw [show 12 = 8 + 4 from rfl, ← List.drop_drop, hdrop, List.drop_left' (length_toBytes 4 _)]
  have hreverse : ((toBytes 4 e.blockId.num).reverse).length = 4 := by
    rw [List.length_reverse, length_toBytes]
  have hdrop'' : e.pack.drop 16 = toBytes 16 e.blockId.hash := by
    rw [show 16 = 12 + 4 from rfl, ← List.drop_drop, hdrop', List.drop_left' hreverse]
  have hlast : (toBytes 16 e.blockId.hash).take 16 = toBytes 16 e.blockId.hash :=
    List.take_of_length_le (length_toBytes 16 _).le
  rw [unpack, hfirst, hdrop, hdrop', hdrop'', hlast, List.take_left' (length_toBytes 4 _),
    List.take_left' hreverse, List.reverse_reverse, hpos, hsize, hnum, hhash]

/-- A gap in the index reads as an empty entry. -/
theorem unpack_zeros : unpack (List.replicate size 0) = {} := by
  decide

end IndexEntry

/-! ## Streams -/

structure FileStream where
  bytes : List UInt8 := []
  failed : Bool := false

namespace FileStream

/-- `seekg` to the end and `tellg`, which throw when the stream has failed. -/
def size (s : FileStream) : Option ℕ := if s.failed then none else some s.bytes.length

/-- `seekg` and `read`, which throw and leave the stream failed. -/
def read (pos n : ℕ) (s : FileStream) : Option (List UInt8) × FileStream :=
  if s.failed = true ∨ 2 ^ 63 ≤ pos then (none, { s with failed := true })
  else if n = 0 ∨ pos + n ≤ s.bytes.length then (some (slice pos n s.bytes), s)
  else (none, { s with failed := true })

/-- `seekp` and `write`. -/
def write (pos : ℕ) (data : List UInt8) (s : FileStream) : FileStream :=
  if s.failed then s else { s with bytes := writeAt 0 pos data s.bytes }

end FileStream

/-- How blocks are packed; `fc::raw::unpack` takes no block from nothing. -/
structure BlockFormat (Block : Type) where
  pack : Block → List UInt8
  unpack : List UInt8 → Option Block
  id : Block → BlockId
  unpack_pack : ∀ b, unpack (pack b) = some b
  unpack_nil : unpack [] = none

structure BlockFiles where
  index : FileStream := {}
  blocks : FileStream := {}

namespace BlockFiles

variable {Block : Type} (format : BlockFormat Block)

/-! ## `block_database` -/

/-- The position of an entry in the index. -/
def indexPos (num : ℕ) : ℕ := IndexEntry.size * num

def readEntry (num : ℕ) (f : BlockFiles) : Option IndexEntry × BlockFiles :=
  match f.index.read (indexPos num) IndexEntry.size with
  | (none, index) => (none, { f with index })
  | (some bytes, index) => (some (.unpack bytes), { f with index })

/-- The block of an entry, if it has the id of the entry. -/
def readBlock (e : IndexEntry) (f : BlockFiles) : Option Block × BlockFiles :=
  match f.blocks.read e.blockPos e.blockSize with
  | (none, blocks) => (none, { f with blocks })
  | (some data, blocks) =>
      ((format.unpack data).filter fun b ↦ format.id b = e.blockId, { f with blocks })

def store (id : BlockId) (b : Block) (f : BlockFiles) : BlockFiles :=
  let id := if id = .null then format.id b else id
  if f.blocks.failed then f
  else
    let e : IndexEntry := ⟨f.blocks.bytes.length, (format.pack b).length, id⟩
    { index := f.index.write (indexPos id.num) e.pack
      blocks := { f.blocks with bytes := f.blocks.bytes ++ format.pack b } }

/-- Nothing is removed of a number past the end, or of another id. -/
def remove (id : BlockId) (f : BlockFiles) : BlockFiles :=
  match f.index.size with
  | none => f
  | some size =>
      if size ≤ indexPos id.num then f
      else
        match f.readEntry id.num with
        | (none, f) => f
        | (some e, f) =>
            if e.blockId = id then
              { f with index := f.index.write (indexPos id.num) { e with blockSize := 0 }.pack }
            else f

/-- `none` is an exception. -/
def contains (id : BlockId) (f : BlockFiles) : Option Bool × BlockFiles :=
  if id = .null then (some false, f)
  else
    match f.index.size with
    | none => (none, f)
    | some size =>
        if size < indexPos id.num + IndexEntry.size then (some false, f)
        else
          match f.readEntry id.num with
          | (none, f) => (none, f)
          | (some e, f) => (some (e.blockId = id ∧ 0 < e.blockSize), f)

def fetchBlockId (num : ℕ) (f : BlockFiles) : Option BlockId × BlockFiles :=
  match f.index.size with
  | none => (none, f)
  | some size =>
      if size ≤ indexPos num then (none, f)
      else
        match f.readEntry num with
        | (none, f) => (none, f)
        | (some e, f) => (if e.blockId = .null then none else some e.blockId, f)

def fetchOptional (id : BlockId) (f : BlockFiles) : Option Block × BlockFiles :=
  match f.index.size with
  | none => (none, f)
  | some size =>
      if size ≤ indexPos id.num then (none, f)
      else
        match f.readEntry id.num with
        | (none, f) => (none, f)
        | (some e, f) => if e.blockId = id then f.readBlock format e else (none, f)

def fetchByNumber (num : ℕ) (f : BlockFiles) : Option Block × BlockFiles :=
  match f.index.size with
  | none => (none, f)
  | some size =>
      if size ≤ indexPos num then (none, f)
      else
        match f.readEntry num with
        | (none, f) => (none, f)
        | (some e, f) => f.readBlock format e

/-- `fc::resize_file`. -/
def resizeIndex (size : ℕ) (f : BlockFiles) : BlockFiles :=
  { f with index := { f.index with bytes := f.index.bytes.take size } }

/-- The entry is not empty and ends inside the file of blocks, in `int64_t`. -/
def EndsWithin (blocksSize : ℕ) (e : IndexEntry) : Prop :=
  0 < e.blockSize ∧ ((e.blockPos + e.blockSize : ℕ) : ℤ).bmod (2 ^ 64) ≤ blocksSize

instance (blocksSize : ℕ) (e : IndexEntry) : Decidable (EndsWithin blocksSize e) :=
  inferInstanceAs (Decidable (_ ∧ _))

/-- Entries at the end that have no block are cut off. -/
def lastFrom (blocksSize : ℕ) : ℕ → BlockFiles → Option IndexEntry × BlockFiles
  | 0, f => (none, f)
  | num + 1, f =>
      match f.readEntry num with
      | (none, f) => (none, f)
      | (some e, f) =>
          if EndsWithin blocksSize e then
            match f.readBlock format e with
            | (some _, f) => (some e, f)
            | (none, f) => lastFrom blocksSize num (f.resizeIndex (indexPos num))
          else lastFrom blocksSize num (f.resizeIndex (indexPos num))

def lastIndexEntry (f : BlockFiles) : Option IndexEntry × BlockFiles :=
  match f.index.size with
  | none => (none, f)
  | some size =>
      if size < IndexEntry.size then (none, f)
      else
        match f.blocks.size with
        | none => (none, f)
        | some blocksSize => lastFrom format blocksSize (size / IndexEntry.size) f

def last (f : BlockFiles) : Option Block × BlockFiles :=
  match f.lastIndexEntry format with
  | (none, f) => (none, f)
  | (some e, f) => f.fetchByNumber format e.blockId.num

def lastId (f : BlockFiles) : Option BlockId × BlockFiles :=
  match f.lastIndexEntry format with
  | (none, f) => (none, f)
  | (some e, f) => (some e.blockId, f)

/-- Closes and opens the files, which may have been truncated in between. -/
def reopen (indexSize blocksSize : ℕ) (f : BlockFiles) : BlockFiles where
  index := { bytes := f.index.bytes.take indexSize }
  blocks := { bytes := f.blocks.bytes.take blocksSize }

end BlockFiles

namespace BlockFiles

/-! ## The map that the files stand for -/

/-- What is stored under a number. -/
abbrev BlockMap (Block : Type) := ℕ → Option (BlockId × Block)

/-- The entry of a number in the index. -/
def entryAt (num : ℕ) (f : BlockFiles) : IndexEntry :=
  .unpack (slice (indexPos num) IndexEntry.size f.index.bytes)

variable {Block : Type} {format : BlockFormat Block}

/-- An entry stands for a block that lies in the file of blocks. -/
structure Holds (format : BlockFormat Block) (bytes : List UInt8) (e : IndexEntry) (num : ℕ)
    (id : BlockId) (b : Block) : Prop where
  num_pos : 0 < num
  id_num : id.num = num
  id_eq : id = format.id b
  blockId : e.blockId = id
  blockSize : 0 < e.blockSize
  inside : e.blockPos + e.blockSize ≤ bytes.length
  data : slice e.blockPos e.blockSize bytes = format.pack b

/-- An entry is empty, or stands for what is stored under its number. -/
def EntryFor (format : BlockFormat Block) (bytes : List UInt8) (e : IndexEntry) (num : ℕ) :
    Option (BlockId × Block) → Prop
  | none => e = {}
  | some (id, b) => Holds format bytes e num id b

/-- The files stand for a map: the index is made of whole entries, one for each number up to
the last, and no stream has failed. -/
structure Represents (format : BlockFormat Block) (f : BlockFiles) (m : BlockMap Block) : Prop where
  index_ok : f.index.failed = false
  blocks_ok : f.blocks.failed = false
  whole : IndexEntry.size ∣ f.index.bytes.length
  narrow : f.index.bytes.length ≤ indexPos (2 ^ 32)
  small : f.blocks.bytes.length < 2 ^ 63
  entry : ∀ num, indexPos num < f.index.bytes.length →
    EntryFor format f.blocks.bytes (f.entryAt num) num (m num)
  beyond : ∀ num, f.index.bytes.length ≤ indexPos num → m num = none

variable {f : BlockFiles} {m : BlockMap Block} {num : ℕ} {id : BlockId} {b : Block}

/-! ## Reading -/

theorem indexPos_lt_iff {k : ℕ} : indexPos num < IndexEntry.size * k ↔ num < k := by
  rw [indexPos, IndexEntry.size]
  omega

/-- A position inside the index is that of a whole entry. -/
theorem Represents.entry_inside (h : Represents format f m)
    (hnum : indexPos num < f.index.bytes.length) :
    indexPos num + IndexEntry.size ≤ f.index.bytes.length := by
  obtain ⟨k, hk⟩ := h.whole
  rw [hk, indexPos_lt_iff] at hnum
  rw [hk, indexPos, IndexEntry.size]
  omega

theorem Represents.readEntry (h : Represents format f m)
    (hnum : indexPos num < f.index.bytes.length) :
    f.readEntry num = (some (f.entryAt num), f) := by
  have hinside := h.entry_inside hnum
  have hnarrow := h.narrow
  have hpos : ¬2 ^ 63 ≤ indexPos num := by
    rw [indexPos, IndexEntry.size] at hnarrow hnum ⊢
    omega
  rw [BlockFiles.readEntry, FileStream.read, if_neg (not_or.mpr ⟨by simp [h.index_ok], hpos⟩),
    if_pos (.inr hinside)]
  rfl

theorem Represents.size (h : Represents format f m) :
    f.index.size = some f.index.bytes.length := by
  rw [FileStream.size, h.index_ok]
  rfl

/-- A block that is stored is read, and an empty entry reads no block. -/
theorem Represents.readBlock (h : Represents format f m)
    (hnum : indexPos num < f.index.bytes.length) :
    f.readBlock format (f.entryAt num) = ((m num).map Prod.snd, f) := by
  have hentry := h.entry num hnum
  cases hm : m num with
  | none =>
      rw [hm, EntryFor] at hentry
      rw [hentry, BlockFiles.readBlock, FileStream.read, if_neg (by simp [h.blocks_ok]),
        if_pos (.inl rfl), slice, List.take_zero]
      simp only [format.unpack_nil]
      rfl
  | some stored =>
      rw [hm] at hentry
      have hholds : Holds format f.blocks.bytes (f.entryAt num) num stored.1 stored.2 := hentry
      have hsmall := h.small
      have hinside := hholds.inside
      have hpos : ¬2 ^ 63 ≤ (f.entryAt num).blockPos := by
        have := hholds.blockSize
        omega
      rw [BlockFiles.readBlock, FileStream.read, if_neg (not_or.mpr ⟨by simp [h.blocks_ok], hpos⟩),
        if_pos (.inr hinside), hholds.data]
      simp only [format.unpack_pack, hholds.blockId, hholds.id_eq]
      simp

theorem Represents.fetchByNumber (h : Represents format f m) (num : ℕ) :
    f.fetchByNumber format num = ((m num).map Prod.snd, f) := by
  rw [BlockFiles.fetchByNumber, h.size]
  by_cases hnum : indexPos num < f.index.bytes.length
  · simp only [if_neg (not_le.mpr hnum), h.readEntry hnum]
    exact h.readBlock hnum
  · simp only [if_pos (not_lt.mp hnum), h.beyond num (not_lt.mp hnum), Option.map_none]

/-- The id in an entry tells whether something is stored. -/
theorem Represents.entry_blockId (h : Represents format f m)
    (hnum : indexPos num < f.index.bytes.length) :
    (m num = none ∧ f.entryAt num = {}) ∨ ∃ b, m num = some ((f.entryAt num).blockId, b) ∧
      Holds format f.blocks.bytes (f.entryAt num) num (f.entryAt num).blockId b := by
  have hentry := h.entry num hnum
  cases hm : m num with
  | none =>
      rw [hm] at hentry
      exact .inl ⟨rfl, hentry⟩
  | some stored =>
      rw [hm] at hentry
      have hholds : Holds format f.blocks.bytes (f.entryAt num) num stored.1 stored.2 := hentry
      refine .inr ⟨stored.2, ?_, ?_⟩
      · rw [hholds.blockId]
      · rw [hholds.blockId]
        exact hholds

theorem Holds.ne_null {bytes : List UInt8} {e : IndexEntry} (h : Holds format bytes e num id b) :
    id ≠ .null := by
  intro hnull
  have hnum := h.id_num
  rw [hnull] at hnum
  exact absurd hnum h.num_pos.ne

theorem Represents.fetchBlockId (h : Represents format f m) (num : ℕ) :
    f.fetchBlockId num = ((m num).map Prod.fst, f) := by
  rw [BlockFiles.fetchBlockId, h.size]
  by_cases hnum : indexPos num < f.index.bytes.length
  · simp only [if_neg (not_le.mpr hnum), h.readEntry hnum]
    rcases h.entry_blockId hnum with ⟨hm, hentry⟩ | ⟨b, hm, hholds⟩
    · rw [hm, hentry]
      rfl
    · rw [hm, if_neg hholds.ne_null]
      rfl
  · simp only [if_pos (not_lt.mp hnum), h.beyond num (not_lt.mp hnum), Option.map_none]

/-- What is stored under an id. -/
def lookup (m : BlockMap Block) (id : BlockId) : Option Block :=
  ((m id.num).filter fun stored ↦ stored.1 = id).map Prod.snd

theorem lookup_of_some {id' : BlockId} (hm : m id.num = some (id', b)) :
    lookup m id = if id' = id then some b else none := by
  rw [lookup, hm]
  split_ifs with hid
  · rw [Option.filter_some_pos (by simpa using hid)]
    rfl
  · rw [Option.filter_some_neg (by simpa using hid)]
    rfl

theorem Represents.fetchOptional (h : Represents format f m) (id : BlockId) :
    f.fetchOptional format id = (lookup m id, f) := by
  rw [BlockFiles.fetchOptional, h.size]
  by_cases hnum : indexPos id.num < f.index.bytes.length
  · simp only [if_neg (not_le.mpr hnum), h.readEntry hnum]
    have hread := h.readBlock hnum
    rcases h.entry_blockId hnum with ⟨hm, hentry⟩ | ⟨b, hm, hholds⟩
    · have hlookup : lookup m id = none := by
        rw [lookup, hm]
        rfl
      rw [hm] at hread
      rw [hread, hlookup, Option.map_none, ite_self]
    · rw [hm] at hread
      rw [hread, lookup_of_some hm]
      split_ifs <;> rfl
  · simp only [if_pos (not_lt.mp hnum), lookup, h.beyond id.num (not_lt.mp hnum),
      Option.filter_none, Option.map_none]

/-- A query that leaves the files as they are. -/
theorem Represents.of_query {β : Type} {x : β} {r : β × BlockFiles} (h : Represents format f m)
    (hr : r = (x, f)) : Represents format r.2 m := by
  rw [hr]
  exact h

/-- What is stored has its entry in the index. -/
theorem Represents.holds (h : Represents format f m) (hm : m num = some (id, b)) :
    Holds format f.blocks.bytes (f.entryAt num) num id b := by
  by_cases hnum : indexPos num < f.index.bytes.length
  · have hentry := h.entry num hnum
    rw [hm] at hentry
    exact hentry
  · rw [h.beyond num (not_lt.mp hnum)] at hm
    cases hm

theorem Represents.lookup_null (h : Represents format f m) : lookup m .null = none := by
  rw [lookup]
  cases hm : m BlockId.null.num with
  | none => rfl
  | some stored =>
      obtain ⟨id, b⟩ := stored
      have hne : id ≠ .null := (h.holds hm).ne_null
      rw [Option.filter_some_neg (by simpa using hne)]
      rfl

theorem Represents.contains (h : Represents format f m) (id : BlockId) :
    f.contains id = (some (lookup m id).isSome, f) := by
  rw [BlockFiles.contains]
  by_cases hnull : id = .null
  · rw [if_pos hnull, hnull, h.lookup_null]
    rfl
  rw [if_neg hnull]
  simp only [h.size]
  by_cases hnum : indexPos id.num < f.index.bytes.length
  · simp only [if_neg (not_lt.mpr (h.entry_inside hnum)), h.readEntry hnum]
    rcases h.entry_blockId hnum with ⟨hm, hentry⟩ | ⟨b, hm, hholds⟩
    · have hempty : ¬((f.entryAt id.num).blockId = id ∧ 0 < (f.entryAt id.num).blockSize) := by
        rw [hentry]
        exact fun hsize ↦ absurd hsize.2 (lt_irrefl 0)
      rw [lookup, hm, decide_eq_false hempty]
      rfl
    · rw [lookup_of_some hm]
      by_cases hid : (f.entryAt id.num).blockId = id
      · rw [if_pos hid, decide_eq_true (And.intro hid hholds.blockSize)]
        rfl
      · rw [if_neg hid, decide_eq_false fun hsize ↦ hid hsize.1]
        rfl
  · have hshort : f.index.bytes.length < indexPos id.num + IndexEntry.size :=
      (not_lt.mp hnum).trans_lt (Nat.lt_add_of_pos_right (by decide))
    rw [if_pos hshort, lookup, h.beyond id.num (not_lt.mp hnum)]
    rfl

/-- The last entry is that of the greatest number that is stored. -/
structure IsLast (m : BlockMap Block) (num : ℕ) (id : BlockId) (b : Block) : Prop where
  stored : m num = some (id, b)
  greatest : ∀ later, num < later → m later = none

/-! ## The last entry -/

/-- Files whose index is cut off at a whole entry. -/
theorem Represents.cut (h : Represents format f m) (count : ℕ) {blocks : FileStream}
    (hok : blocks.failed = false) (hsmall : blocks.bytes.length < 2 ^ 63)
    (hdata : ∀ num, num < count → indexPos num < f.index.bytes.length →
      EntryFor format blocks.bytes (f.entryAt num) num (m num)) :
    Represents format
      ⟨{ bytes := f.index.bytes.take (indexPos count) }, blocks⟩
      (fun num ↦ if num < count then m num else none) := by
  obtain ⟨k, hk⟩ := h.whole
  have hlength : (f.index.bytes.take (indexPos count)).length = IndexEntry.size * min count k := by
    rw [List.length_take, hk, indexPos, Nat.mul_min_mul_left]
  refine ⟨rfl, hok, ⟨_, hlength⟩, ?_, hsmall, ?_, ?_⟩
  · exact (List.length_take_le' _ _).trans h.narrow
  · intro num hnum
    rw [hlength, indexPos_lt_iff] at hnum
    have hcount : num < count := hnum.trans_le (min_le_left _ _)
    have hinside : indexPos num < f.index.bytes.length := by
      rw [hk, indexPos_lt_iff]
      exact hnum.trans_le (min_le_right _ _)
    have hslice : indexPos num + IndexEntry.size ≤ indexPos count := by
      rw [indexPos, indexPos, IndexEntry.size]
      omega
    have hentry := hdata num hcount hinside
    rw [if_pos hcount]
    rw [BlockFiles.entryAt] at hentry ⊢
    rwa [slice_take hslice]
  · intro num hnum
    rw [hlength, ← not_lt, indexPos_lt_iff, not_lt] at hnum
    by_cases hcount : num < count
    · rw [if_pos hcount]
      apply h.beyond
      rw [hk, ← not_lt, indexPos_lt_iff]
      omega
    · rw [if_neg hcount]

/-- Cutting off what is not stored changes nothing. -/
theorem Represents.resizeIndex (h : Represents format f m) {count : ℕ}
    (hnone : ∀ num, count ≤ num → m num = none) :
    Represents format (f.resizeIndex (indexPos count)) m := by
  have hcut := h.cut count h.blocks_ok h.small fun num _ hnum ↦ h.entry num hnum
  have hsame : (fun num ↦ if num < count then m num else none) = m := by
    funext num
    split_ifs with hcount
    · rfl
    · exact (hnone num (not_lt.mp hcount)).symm
  rw [hsame] at hcut
  have hindex : ({ f.index with bytes := f.index.bytes.take (indexPos count) } : FileStream) =
      { bytes := f.index.bytes.take (indexPos count) } := by
    simp only [h.index_ok]
  rw [BlockFiles.resizeIndex, hindex]
  exact hcut

theorem Holds.endsWithin {bytes : List UInt8} {e : IndexEntry}
    (h : Holds format bytes e num id b) (hsmall : bytes.length < 2 ^ 63) :
    EndsWithin bytes.length e := by
  have hinside := h.inside
  refine ⟨h.blockSize, ?_⟩
  rw [Int.bmod_eq_of_le (by omega) (by omega)]
  exact_mod_cast hinside

theorem Represents.lastFrom {k : ℕ} (h : Represents format f m)
    (hk : f.index.bytes.length = IndexEntry.size * k) :
    ∃ f', Represents format f' m ∧
      (lastFrom format f.blocks.bytes.length k f = (none, f') ∧ (∀ num, m num = none) ∨
        ∃ e num b, lastFrom format f.blocks.bytes.length k f = (some e, f') ∧
          IsLast m num e.blockId b) := by
  induction k generalizing f with
  | zero =>
      refine ⟨f, h, .inl ⟨rfl, fun num ↦ h.beyond num ?_⟩⟩
      rw [hk]
      exact Nat.zero_le _
  | succ k ih =>
      have hnum : indexPos k < f.index.bytes.length := by
        rw [hk, indexPos_lt_iff]
        exact Nat.lt_succ_self k
      have hlater (num : ℕ) (hlt : k < num) : m num = none := by
        apply h.beyond
        rw [hk, ← not_lt, indexPos_lt_iff]
        omega
      rw [BlockFiles.lastFrom]
      simp only [h.readEntry hnum]
      rcases h.entry_blockId hnum with ⟨hm, hentry⟩ | ⟨b, hm, hholds⟩
      · have hempty : ¬EndsWithin f.blocks.bytes.length (f.entryAt k) := by
          rw [hentry]
          exact fun hends ↦ absurd hends.1 (lt_irrefl 0)
        have hnone (num : ℕ) (hle : k ≤ num) : m num = none := by
          rcases hle.eq_or_lt with rfl | hlt
          · exact hm
          · exact hlater num hlt
        have hcut := h.resizeIndex hnone
        rw [if_neg hempty]
        have hlength : (f.resizeIndex (indexPos k)).index.bytes.length = IndexEntry.size * k := by
          rw [BlockFiles.resizeIndex, List.length_take, hk, indexPos, IndexEntry.size]
          omega
        exact ih hcut hlength
      · rw [if_pos (hholds.endsWithin h.small), h.readBlock hnum, hm]
        exact ⟨f, h, .inr ⟨_, k, b, rfl, hm, hlater⟩⟩

theorem Represents.lastIndexEntry (h : Represents format f m) :
    ∃ f', Represents format f' m ∧
      (f.lastIndexEntry format = (none, f') ∧ (∀ num, m num = none) ∨
        ∃ e num b, f.lastIndexEntry format = (some e, f') ∧ IsLast m num e.blockId b) := by
  obtain ⟨k, hk⟩ := h.whole
  have hblocks : f.blocks.size = some f.blocks.bytes.length := by
    rw [FileStream.size, h.blocks_ok]
    rfl
  have hdiv : f.index.bytes.length / IndexEntry.size = k := by
    rw [hk, IndexEntry.size]
    omega
  simp only [BlockFiles.lastIndexEntry, h.size, hblocks, hdiv]
  by_cases hshort : f.index.bytes.length < IndexEntry.size
  · rw [if_pos hshort]
    refine ⟨f, h, .inl ⟨rfl, fun num ↦ h.beyond num ?_⟩⟩
    rw [hk, IndexEntry.size] at hshort
    rw [hk, indexPos, IndexEntry.size]
    omega
  · rw [if_neg hshort]
    exact h.lastFrom hk

/-! ## The lookups agree -/

/-- All lookups agree with one map. -/
structure Agrees (format : BlockFormat Block) (f : BlockFiles) (m : BlockMap Block) : Prop where
  contains : ∀ id, (f.contains id).1 = some (lookup m id).isSome
  fetchBlockId : ∀ num, (f.fetchBlockId num).1 = (m num).map Prod.fst
  fetchOptional : ∀ id, (f.fetchOptional format id).1 = lookup m id
  fetchByNumber : ∀ num, (f.fetchByNumber format num).1 = (m num).map Prod.snd
  last : (∀ num, m num = none) ∧ (f.last format).1 = none ∧ (f.lastId format).1 = none ∨
    ∃ num id b, IsLast m num id b ∧ (f.last format).1 = some b ∧ (f.lastId format).1 = some id

theorem Represents.agrees (h : Represents format f m) : Agrees format f m where
  contains id := by rw [h.contains]
  fetchBlockId num := by rw [h.fetchBlockId]
  fetchOptional id := by rw [h.fetchOptional]
  fetchByNumber num := by rw [h.fetchByNumber]
  last := by
    obtain ⟨f', hf', ⟨hlast, hnone⟩ | ⟨e, num, b, hlast, hgreatest⟩⟩ := h.lastIndexEntry
    · refine .inl ⟨hnone, ?_, ?_⟩
      · rw [BlockFiles.last, hlast]
      · rw [BlockFiles.lastId, hlast]
    · refine .inr ⟨num, e.blockId, b, hgreatest, ?_, ?_⟩
      · rw [BlockFiles.last, hlast]
        simp only [hf'.fetchByNumber, (h.holds hgreatest.stored).id_num, hgreatest.stored,
          Option.map_some]
      · rw [BlockFiles.lastId, hlast]

/-! ## Writing -/

/-- One entry is written, and the others stand for what they stood for. -/
theorem Represents.write (h : Represents format f m) {e : IndexEntry} (hrange : e.InRange)
    (hnum : num < 2 ^ 32) {blocks : FileStream} (hok : blocks.failed = false)
    (hsmall : blocks.bytes.length < 2 ^ 63) {stored : Option (BlockId × Block)}
    (hnew : EntryFor format blocks.bytes e num stored)
    (hold : ∀ other, other ≠ num → indexPos other < f.index.bytes.length →
      EntryFor format blocks.bytes (f.entryAt other) other (m other)) :
    Represents format ⟨f.index.write (indexPos num) e.pack, blocks⟩
      (Function.update m num stored) := by
  obtain ⟨k, hk⟩ := h.whole
  have hindex : f.index.write (indexPos num) e.pack =
      { bytes := writeAt 0 (indexPos num) e.pack f.index.bytes } := by
    rw [FileStream.write, h.index_ok]
    rfl
  have hlength : (writeAt 0 (indexPos num) e.pack f.index.bytes).length =
      IndexEntry.size * max k (num + 1) := by
    rw [length_writeAt, e.length_pack, hk, indexPos, ← Nat.mul_succ, Nat.mul_max_mul_left]
  have hnarrow := h.narrow
  rw [hindex]
  refine ⟨rfl, hok, ⟨_, hlength⟩, ?_, hsmall, ?_, ?_⟩
  · rw [hk] at hnarrow
    rw [hlength]
    rw [indexPos, IndexEntry.size] at hnarrow ⊢
    omega
  · intro other hother
    rw [hlength, indexPos_lt_iff] at hother
    rw [BlockFiles.entryAt]
    rcases lt_trichotomy other num with hlt | rfl | hgt
    · rw [Function.update_of_ne hlt.ne]
      have hbefore : indexPos other + IndexEntry.size ≤ indexPos num := by
        rw [indexPos, indexPos, IndexEntry.size]
        omega
      by_cases hinside : other < k
      · have hinside' : indexPos other < f.index.bytes.length := by
          rw [hk, indexPos_lt_iff]
          exact hinside
        rw [slice_writeAt_of_le hbefore (h.entry_inside hinside')]
        exact hold other hlt.ne hinside'
      · have hend : f.index.bytes.length ≤ indexPos other := by
          rw [hk, ← not_lt, indexPos_lt_iff]
          exact hinside
        rw [slice_writeAt_gap hbefore hend, h.beyond other hend]
        exact IndexEntry.unpack_zeros
    · rw [Function.update_self, ← e.length_pack, slice_writeAt_self, IndexEntry.unpack_pack hrange]
      exact hnew
    · have hinside : indexPos other < f.index.bytes.length := by
        rw [hk, indexPos_lt_iff]
        omega
      have hafter : indexPos num + e.pack.length ≤ indexPos other := by
        rw [e.length_pack, indexPos, indexPos, IndexEntry.size]
        omega
      rw [Function.update_of_ne hgt.ne', slice_writeAt_of_ge hafter]
      exact hold other hgt.ne' hinside
  · intro other hother
    rw [hlength, ← not_lt, indexPos_lt_iff] at hother
    rw [Function.update_of_ne (by omega)]
    apply h.beyond
    rw [hk, ← not_lt, indexPos_lt_iff]
    omega

/-- Blocks that are appended leave the entries what they were. -/
theorem EntryFor.append {bytes data : List UInt8} {e : IndexEntry}
    {stored : Option (BlockId × Block)} (h : EntryFor format bytes e num stored) :
    EntryFor format (bytes ++ data) e num stored := by
  match stored, h with
  | none, h => exact h
  | some _, h =>
      have hinside := h.inside
      refine ⟨h.num_pos, h.id_num, h.id_eq, h.blockId, h.blockSize, ?_, ?_⟩
      · rw [List.length_append]
        omega
      · rw [slice_append hinside]
        exact h.data

/-- Cutting off blocks behind an entry leaves it what it was. -/
theorem EntryFor.take {bytes : List UInt8} {e : IndexEntry} {size : ℕ}
    {stored : Option (BlockId × Block)} (h : EntryFor format bytes e num stored)
    (hsize : e.blockPos + e.blockSize ≤ size) : EntryFor format (bytes.take size) e num stored := by
  match stored, h with
  | none, h => exact h
  | some _, h =>
      have hinside := h.inside
      refine ⟨h.num_pos, h.id_num, h.id_eq, h.blockId, h.blockSize, ?_, ?_⟩
      · rw [List.length_take]
        omega
      · rw [slice_take hsize]
        exact h.data

/-- What a block needs to be stored under its own id. -/
structure Storable (format : BlockFormat Block) (f : BlockFiles) (id : BlockId) (b : Block) :
    Prop where
  id_eq : id = .null ∨ id = format.id b
  num_pos : 0 < (format.id b).num
  num_lt : (format.id b).num < 2 ^ 32
  hash_lt : (format.id b).hash < 2 ^ 128
  size_lt : (format.pack b).length < 2 ^ 32
  small : f.blocks.bytes.length + (format.pack b).length < 2 ^ 63

theorem Storable.stored_id (hb : Storable format f id b) :
    (if id = .null then format.id b else id) = format.id b := by
  rcases hb.id_eq with rfl | rfl
  · rw [if_pos rfl]
  · rw [ite_self]

theorem length_pack_pos (format : BlockFormat Block) (b : Block) : 0 < (format.pack b).length := by
  rw [List.length_pos_iff]
  intro hnil
  have hread := format.unpack_pack b
  rw [hnil, format.unpack_nil] at hread
  exact nomatch hread

theorem Represents.store (h : Represents format f m) (hb : Storable format f id b) :
    Represents format (f.store format id b)
      (Function.update m (format.id b).num (some (format.id b, b))) := by
  have hsmall := hb.small
  simp only [BlockFiles.store, hb.stored_id, h.blocks_ok, Bool.false_eq_true, if_false]
  apply h.write
  · exact ⟨(Nat.le_add_right _ _).trans_lt hsmall, hb.size_lt, hb.num_lt, hb.hash_lt⟩
  · exact hb.num_lt
  · rfl
  · rw [List.length_append]
    exact hsmall
  · refine ⟨hb.num_pos, rfl, rfl, rfl, length_pack_pos format b, ?_, slice_end⟩
    rw [List.length_append]
  · intro other _ hother
    exact (h.entry other hother).append

/-- Removing what is not stored changes nothing. -/
theorem Represents.remove (h : Represents format f m) (hid : lookup m id = none) :
    Represents format (f.remove id) m := by
  simp only [BlockFiles.remove, h.size]
  by_cases hnum : indexPos id.num < f.index.bytes.length
  · simp only [if_neg (not_le.mpr hnum), h.readEntry hnum]
    split_ifs with hsame
    · rcases h.entry_blockId hnum with ⟨hm, hentry⟩ | ⟨b, hm, -⟩
      · have hnull : id = .null := by
          rw [← hsame, hentry]
        have hrange : IndexEntry.InRange {} := ⟨by norm_num, by norm_num, by decide, by decide⟩
        have hnum32 : id.num < 2 ^ 32 := by
          rw [hnull]
          decide
        have hempty : EntryFor format f.blocks.bytes {} id.num none := rfl
        have hwrite := h.write hrange hnum32 h.blocks_ok h.small hempty
          fun other _ hother ↦ h.entry other hother
        rw [← hm, Function.update_eq_self] at hwrite
        rw [hentry]
        exact hwrite
      · rw [lookup_of_some hm, if_pos hsame] at hid
        cases hid
    · exact h
  · simp only [if_pos (not_lt.mp hnum)]
    exact h

/-- A truncation between two entries that cuts off no block of an entry that is left. -/
structure CutsBetween (f : BlockFiles) (indexSize blocksSize : ℕ) : Prop where
  whole : IndexEntry.size ∣ indexSize ∨ f.index.bytes.length ≤ indexSize
  inside : ∀ num, num < indexSize / IndexEntry.size → indexPos num < f.index.bytes.length →
    (f.entryAt num).blockPos + (f.entryAt num).blockSize ≤ blocksSize

theorem Represents.reopen (h : Represents format f m) {indexSize blocksSize : ℕ}
    (hcut : CutsBetween f indexSize blocksSize) :
    Represents format (f.reopen indexSize blocksSize)
      (fun num ↦ if num < indexSize / IndexEntry.size then m num else none) := by
  obtain ⟨k, hk⟩ := h.whole
  have htake : f.index.bytes.take indexSize =
      f.index.bytes.take (indexPos (indexSize / IndexEntry.size)) := by
    rcases hcut.whole with hdvd | hall
    · rw [indexPos, Nat.mul_div_cancel' hdvd]
    · rw [List.take_of_length_le hall, List.take_of_length_le]
      rw [hk, IndexEntry.size] at hall
      rw [hk, indexPos, IndexEntry.size]
      omega
  rw [BlockFiles.reopen, htake]
  apply h.cut
  · rfl
  · exact (List.length_take_le' _ _).trans_lt h.small
  · intro num hcount hnum
    exact (h.entry num hnum).take (hcut.inside num hcount hnum)

theorem represents_empty : Represents format {} fun _ ↦ none where
  index_ok := rfl
  blocks_ok := rfl
  whole := dvd_zero _
  narrow := Nat.zero_le _
  small := by norm_num
  entry _ hnum := absurd hnum (Nat.not_lt_zero _)
  beyond _ _ := rfl

end BlockFiles

/-! ## Runs -/

/-- What is done with the files: blocks are stored and removed, the files are opened again
after they were cut off anywhere, and the lookups are called. -/
inductive BlockFileEvent (Block : Type)
  | store (id : BlockId) (b : Block)
  | remove (id : BlockId)
  | reopen (indexSize blocksSize : ℕ)
  | contains (id : BlockId)
  | fetchBlockId (num : ℕ)
  | fetchOptional (id : BlockId)
  | fetchByNumber (num : ℕ)
  | last
  | lastId

namespace BlockFileEvent

open BlockFiles

variable {Block : Type} (format : BlockFormat Block)

def filesStep (f : BlockFiles) : BlockFileEvent Block → BlockFiles
  | store id b => f.store format id b
  | remove id => f.remove id
  | reopen indexSize blocksSize => f.reopen indexSize blocksSize
  | contains id => (f.contains id).2
  | fetchBlockId num => (f.fetchBlockId num).2
  | fetchOptional id => (f.fetchOptional format id).2
  | fetchByNumber num => (f.fetchByNumber format num).2
  | last => (f.last format).2
  | lastId => (f.lastId format).2

/-- What the event means for the map. -/
def mapStep (m : BlockMap Block) : BlockFileEvent Block → BlockMap Block
  | store id b =>
      let id := if id = .null then format.id b else id
      Function.update m id.num (some (id, b))
  | remove id => if (lookup m id).isSome then Function.update m id.num none else m
  | reopen indexSize _ => fun num ↦ if num < indexSize / IndexEntry.size then m num else none
  | _ => m

def step (s : BlockFiles × BlockMap Block) (event : BlockFileEvent Block) :
    BlockFiles × BlockMap Block :=
  (event.filesStep format s.1, event.mapStep format s.2)

/-- A block is stored under its own id, nothing that is there is removed, and the files are cut
off between two entries and behind the blocks of those that are left. -/
def Ready (s : BlockFiles × BlockMap Block) : BlockFileEvent Block → Prop
  | store id b => Storable format s.1 id b
  | remove id => (s.1.contains id).1 = some false
  | reopen indexSize blocksSize => CutsBetween s.1 indexSize blocksSize
  | _ => True

variable {format} {s : BlockFiles × BlockMap Block}

theorem represents_step (h : Represents format s.1 s.2) (event : BlockFileEvent Block)
    (hready : event.Ready format s) :
    Represents format (step format s event).1 (step format s event).2 := by
  cases event with
  | store id b =>
      have hb : Storable format s.1 id b := hready
      simp only [step, filesStep, mapStep, hb.stored_id]
      exact h.store hb
  | remove id =>
      have hnone : lookup s.2 id = none := by
        have hcontains : (s.1.contains id).1 = some false := hready
        rw [h.contains] at hcontains
        simpa using hcontains
      have hmap : mapStep format s.2 (remove id) = s.2 := by
        rw [mapStep, hnone]
        rfl
      rw [step, hmap]
      exact h.remove hnone
  | reopen indexSize blocksSize => exact h.reopen hready
  | contains id => exact h.of_query (h.contains id)
  | fetchBlockId num => exact h.of_query (h.fetchBlockId num)
  | fetchOptional id => exact h.of_query (h.fetchOptional id)
  | fetchByNumber num => exact h.of_query (h.fetchByNumber num)
  | last =>
      obtain ⟨f', hf', ⟨hlast, -⟩ | ⟨e, num, b, hlast, -⟩⟩ := h.lastIndexEntry
      · rw [step, filesStep, BlockFiles.last, hlast]
        exact hf'
      · rw [step, filesStep, BlockFiles.last, hlast]
        exact hf'.of_query (hf'.fetchByNumber e.blockId.num)
  | lastId =>
      obtain ⟨f', hf', ⟨hlast, -⟩ | ⟨e, num, b, hlast, -⟩⟩ := h.lastIndexEntry
      · rw [step, filesStep, BlockFiles.lastId, hlast]
        exact hf'
      · rw [step, filesStep, BlockFiles.lastId, hlast]
        exact hf'

theorem represents_of_reaches
    (hs : Run.Reaches (step format) (fun s event ↦ event.Ready format s) ({}, fun _ ↦ none) s) :
    Represents format s.1 s.2 :=
  hs.invariant (fun s ↦ Represents format s.1 s.2) represents_empty
    fun _ event h hready ↦ represents_step h event hready

/-- While nothing that is there is removed and the files are cut off at whole entries, all
lookups agree with the map. -/
theorem agrees_of_reaches
    (hs : Run.Reaches (step format) (fun s event ↦ event.Ready format s) ({}, fun _ ↦ none) s) :
    Agrees format s.1 s.2 :=
  (represents_of_reaches hs).agrees

/-- Blocks of one byte, which is their number. -/
def byteFormat : BlockFormat UInt8 where
  pack b := [b]
  unpack := List.head?
  id b := ⟨b.toNat, 7⟩
  unpack_pack _ := rfl
  unpack_nil := rfl

/-- A block is stored and looked for, and the files are cut off in front of it. -/
def cutFiles : BlockFiles × BlockMap UInt8 :=
  [store ⟨1, 7⟩ 1, contains ⟨1, 7⟩, reopen 32 0].foldl (step byteFormat) ({}, fun _ ↦ none)

theorem agrees_cutFiles : Agrees byteFormat cutFiles.1 cutFiles.2 := by
  have hstored : Storable byteFormat {} ⟨1, 7⟩ 1 :=
    ⟨.inr rfl, by decide, by decide, by decide, by decide, by decide⟩
  have hcuts : CutsBetween ((({} : BlockFiles).store byteFormat ⟨1, 7⟩ 1).contains ⟨1, 7⟩).2 32 0 :=
    ⟨.inl (by decide), by decide⟩
  have hmeets : Run.Meets (step byteFormat) (fun s event ↦ event.Ready byteFormat s)
      ({}, fun _ ↦ none) [store ⟨1, 7⟩ 1, contains ⟨1, 7⟩, reopen 32 0] :=
    ⟨hstored, trivial, hcuts, trivial⟩
  exact agrees_of_reaches (Run.reaches_foldl hmeets)

/-- A block that was removed is not contained any more, and its id is still found. -/
theorem not_agrees_removed :
    ∃ s, Run.Reaches (step byteFormat) (fun _ _ ↦ True) ({}, fun _ ↦ none) s ∧
      ¬∃ m, Agrees byteFormat s.1 m := by
  refine ⟨_, .next (.remove ⟨1, 7⟩) (.next (.store ⟨1, 7⟩ 1) .refl trivial) trivial, ?_⟩
  rintro ⟨m, h⟩
  have hid : some (⟨1, 7⟩ : BlockId) = (m 1).map Prod.fst := h.fetchBlockId 1
  have hcontains : some false = some (lookup m ⟨1, 7⟩).isSome := h.contains ⟨1, 7⟩
  obtain ⟨⟨_, b⟩, hstored, rfl⟩ := Option.map_eq_some_iff.mp hid.symm
  have hlookup : lookup m ⟨1, 7⟩ = some b := by
    rw [lookup_of_some hstored, if_pos rfl]
  rw [hlookup] at hcontains
  cases hcontains

end BlockFileEvent

end KarmaCore.Chain
