import Mathlib
import KarmaCore.Protocol.Asset

/-!
# Blocks, the fork database and the block log

A block names its predecessor by id, and an id begins with the number of its
block.  The fork database links the recent blocks to a tree with a head; the
block log keeps one block for each number.
-/

namespace KarmaCore.Chain

structure BlockId where
  num : ℕ
  hash : ℕ
  deriving DecidableEq, Repr

/-- `block_id_type()`. -/
def BlockId.null : BlockId := ⟨0, 0⟩

structure ProcessedTransaction (Tx Res : Type) where
  trx : Tx
  operationResults : Res

structure SignedBlock (Tx Res : Type) where
  previous : BlockId
  timestamp : ℕ
  witness : ℕ
  transactionMerkleRoot : ℕ
  witnessSignature : ℕ
  transactions : List (ProcessedTransaction Tx Res)

variable {Tx Res : Type}

def SignedBlock.blockNum (b : SignedBlock Tx Res) : ℕ := b.previous.num + 1

/-- The id of a block, whose hash is that of its signed header. -/
def SignedBlock.id (hash : SignedBlock Tx Res → ℕ) (b : SignedBlock Tx Res) : BlockId :=
  ⟨b.blockNum, hash b⟩

/-! ## The fork database -/

/-- An item is known by its serial: `prev` is a weak pointer, which is lost with the item it
points to. -/
structure ForkItem (Tx Res : Type) where
  serial : ℕ
  prev : Option ℕ := none
  id : BlockId
  data : SignedBlock Tx Res

namespace ForkItem

def num (item : ForkItem Tx Res) : ℕ := item.data.blockNum
def previousId (item : ForkItem Tx Res) : BlockId := item.data.previous

end ForkItem

/-- `held` are the items that the caller keeps alive beside the index and the head. The index
of unlinked blocks is never filled. -/
structure ForkDatabase (Tx Res : Type) where
  index : List (ForkItem Tx Res) := []
  head : Option (ForkItem Tx Res) := none
  held : List (ForkItem Tx Res) := []
  maxSize : ℕ := 1024
  nextSerial : ℕ := 0

namespace ForkDatabase

variable (f : ForkDatabase Tx Res)

/-- `prev.lock()`. -/
def lock (item : ForkItem Tx Res) : Option (ForkItem Tx Res) := do
  let serial ← item.prev
  (f.head.toList ++ f.held ++ f.index).find? fun i ↦ i.serial = serial

def fetchBlock (id : BlockId) : Option (ForkItem Tx Res) := f.index.find? fun i ↦ i.id = id

def fetchBlockByNumber (num : ℕ) : List (ForkItem Tx Res) := f.index.filter fun i ↦ i.num = num

def popBlock : Checked (ForkDatabase Tx Res) :=
  match f.head with
  | none => .error (.assertion "no blocks to pop")
  | some head =>
      match f.lock head with
      | none => .error (.assertion "poping block would leave head block null")
      | some prev => .ok { f with head := some prev }

def startBlock (id : BlockId) (b : SignedBlock Tx Res) : ForkDatabase Tx Res :=
  let item : ForkItem Tx Res := ⟨f.nextSerial, none, id, b⟩
  { f with
    index := if (f.fetchBlock id).isSome then f.index else item :: f.index
    head := some item
    nextSerial := f.nextSerial + 1 }

/-- The item a block becomes, linked to its predecessor. -/
def link (id : BlockId) (b : SignedBlock Tx Res) : Checked (ForkItem Tx Res) :=
  let item : ForkItem Tx Res := ⟨f.nextSerial, none, id, b⟩
  if f.head.isSome ∧ b.previous ≠ .null then
    match f.fetchBlock b.previous with
    | none => .error (.assertion "block does not link to known chain")
    | some prev => .ok { item with prev := some prev.serial }
  else .ok item

/-- The ids are unique in the index; an item that is there already still becomes the head. -/
def insert (item : ForkItem Tx Res) : ForkDatabase Tx Res :=
  { f with
    index := if (f.fetchBlock item.id).isSome then f.index else item :: f.index
    nextSerial := f.nextSerial + 1 }

/-- Makes an item the head when it is the highest, and drops what is too old. -/
def raise (item : ForkItem Tx Res) : ForkDatabase Tx Res :=
  match f.head with
  | none => { f with head := some item }
  | some head =>
      if head.num < item.num then
        { f with head := some item
                 index := f.index.filter fun i ↦ item.num - min f.maxSize item.num ≤ i.num }
      else f

def pushBlock (id : BlockId) (b : SignedBlock Tx Res) : Checked (ForkDatabase Tx Res) := do
  require (∀ head ∈ f.head, head.num - f.maxSize < b.blockNum)
    "attempting to push a block that is too old"
  let item ← f.link id b
  return (f.insert item).raise item

def setMaxSize (size : ℕ) : ForkDatabase Tx Res :=
  match f.head with
  | none => { f with maxSize := size }
  | some head =>
      { f with maxSize := size, index := f.index.filter fun i ↦ head.num - size ≤ i.num }

def setHead (item : ForkItem Tx Res) : ForkDatabase Tx Res := { f with head := some item }

def remove (id : BlockId) : ForkDatabase Tx Res :=
  { f with index := f.index.filter fun i ↦ i.id ≠ id }

/-! `fetch_branch_from`: two branches, the highest items first. -/

/-- Goes down from an item to a number. -/
def descend (num : ℕ) : ℕ → ForkItem Tx Res → Checked (List (ForkItem Tx Res) × ForkItem Tx Res)
  | 0, _ => .error (.assertion "first_branch")
  | fuel + 1, item =>
      if num < item.num then
        match f.lock item with
        | none => .error (.assertion "first_branch")
        | some prev => do
            let (items, last) ← descend num fuel prev
            return (item :: items, last)
      else .ok ([], item)

/-- Goes down from two items of one number until they have the same predecessor. -/
def meet : ℕ → ForkItem Tx Res → ForkItem Tx Res →
    Checked (List (ForkItem Tx Res) × List (ForkItem Tx Res))
  | 0, _, _ => .error (.assertion "first_branch")
  | fuel + 1, first, second =>
      if first.previousId ≠ second.previousId then
        match f.lock first, f.lock second with
        | some first', some second' => do
            let (firsts, seconds) ← meet fuel first' second'
            return (first :: firsts, second :: seconds)
        | _, _ => .error (.assertion "first_branch")
      else .ok ([first], [second])

def fetchBranchFrom (first second : BlockId) :
    Checked (List (ForkItem Tx Res) × List (ForkItem Tx Res)) :=
  match f.fetchBlock first, f.fetchBlock second with
  | some first, some second => do
      let (firsts, first) ← f.descend second.num (first.num + 1) first
      let (seconds, second) ← f.descend first.num (second.num + 1) second
      let (firsts', seconds') ← f.meet (first.num + 1) first second
      return (firsts ++ firsts', seconds ++ seconds')
  | _, _ => .error (.assertion "first_branch_itr != _index.get<block_id>().end()")

end ForkDatabase

/-! ## The block log -/

/-- The entry under each number: the id it was stored with and the block. -/
structure BlockDatabase (Tx Res : Type) where
  entries : ℕ → Option (BlockId × SignedBlock Tx Res) := fun _ ↦ none
  last : ℕ := 0

namespace BlockDatabase

variable (hash : SignedBlock Tx Res → ℕ) (log : BlockDatabase Tx Res)

def store (id : BlockId) (b : SignedBlock Tx Res) : BlockDatabase Tx Res :=
  let id := if id = .null then b.id hash else id
  { entries := Function.update log.entries id.num (some (id, b)), last := max log.last id.num }

/-- A block is returned only under the id it has. -/
def fetchByNumber (num : ℕ) : Option (SignedBlock Tx Res) := do
  let (id, b) ← log.entries num
  if b.id hash = id then some b else none

def fetchOptional (id : BlockId) : Option (SignedBlock Tx Res) := do
  let (stored, b) ← log.entries id.num
  if stored = id ∧ b.id hash = id then some b else none

end BlockDatabase

end KarmaCore.Chain
