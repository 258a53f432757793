import Mathlib
import KarmaCore.Net.StcpSocket

/-!
# Messages on the encrypted socket

A message is sent as its header and its data, padded to whole blocks with
whatever the buffer held.  The reader learns the size from the first block and
computes the rest of the padding by another expression, in 32 bits.
-/

namespace KarmaCore.Net

/-- `MAX_MESSAGE_SIZE`. -/
def maxMessageSize : ℕ := 1024 * 1024 * 2

structure MessageHeader where
  size : UInt32
  msgType : UInt32
  deriving DecidableEq

/-- A message holds as much data as its header says. -/
structure Message extends MessageHeader where
  data : List UInt8
  length_data : data.length = size.toNat
  deriving DecidableEq

/-! ## The header as bytes -/

/-- A `uint32_t` in memory, the lowest byte first. -/
def bytesOf (x : UInt32) : List UInt8 :=
  [UInt8.ofNat x.toNat, UInt8.ofNat (x.toNat / 2 ^ 8), UInt8.ofNat (x.toNat / 2 ^ 16),
    UInt8.ofNat (x.toNat / 2 ^ 24)]

/-- The `uint32_t` that the memory holds from here on. -/
def uint32Of (bytes : List UInt8) : UInt32 :=
  UInt32.ofNat ((bytes.getD 0 0).toNat + 2 ^ 8 * (bytes.getD 1 0).toNat +
    2 ^ 16 * (bytes.getD 2 0).toNat + 2 ^ 24 * (bytes.getD 3 0).toNat)

@[simp] theorem length_bytesOf (x : UInt32) : (bytesOf x).length = 4 := rfl

theorem uint32Of_bytesOf (x : UInt32) (rest : List UInt8) : uint32Of (bytesOf x ++ rest) = x := by
  have hlt := x.toNat_lt
  apply UInt32.toNat_inj.mp
  simp only [uint32Of, bytesOf, List.cons_append, List.nil_append, List.getD_cons_zero,
    List.getD_cons_succ, UInt32.toNat_ofNat', UInt8.toNat_ofNat']
  omega

/-- `sizeof(message_header)`. -/
def headerSize : ℕ := 8

namespace MessageHeader

def bytes (h : MessageHeader) : List UInt8 := bytesOf h.size ++ bytesOf h.msgType

def ofBytes (buffer : List UInt8) : MessageHeader where
  size := uint32Of buffer
  msgType := uint32Of (buffer.drop 4)

@[simp] theorem length_bytes (h : MessageHeader) : h.bytes.length = headerSize := rfl

theorem ofBytes_bytes (h : MessageHeader) (rest : List UInt8) : ofBytes (h.bytes ++ rest) = h := by
  have hdrop : (h.bytes ++ rest).drop 4 = bytesOf h.msgType ++ rest := rfl
  rw [ofBytes, hdrop, uint32Of_bytesOf, bytes, List.append_assoc, uint32Of_bytesOf]

end MessageHeader

/-! ## Sending -/

variable {σ : Type} (c : BlockCipher UInt8 σ 16)

namespace Message

/-- The message is padded to a multiple of 16 bytes. -/
def sizeWithPadding (m : Message) : ℕ := 16 * ((headerSize + m.size.toNat + 15) / 16)

/-- The buffer that is sent.  The padding is what its memory held before. -/
def padded (m : Message) (memory : ℕ → UInt8) : List UInt8 :=
  m.bytes ++ m.data ++
    (List.range (m.sizeWithPadding - (headerSize + m.size.toNat))).map memory

theorem length_padded (m : Message) (memory : ℕ → UInt8) :
    (m.padded memory).length = m.sizeWithPadding := by
  simp only [padded, List.length_append, MessageHeader.length_bytes, m.length_data, List.length_map,
    List.length_range, sizeWithPadding, headerSize]
  omega

end Message

/-- The bytes that `send_message` writes, and the state of `_send_aes` after it. -/
def sendMessage (m : Message) (memory : ℕ → UInt8) (sendAes : σ) : List UInt8 × σ :=
  write c (m.padded memory) sendAes

/-- Messages sent one after the other, each from memory of its own. -/
def sendMessages : List (Message × (ℕ → UInt8)) → σ → List UInt8 × σ
  | [], sendAes => ([], sendAes)
  | (m, memory) :: ms, sendAes =>
    let sent := sendMessage c m memory sendAes
    let rest := sendMessages ms sent.2
    (sent.1 ++ rest.1, rest.2)

/-! ## Receiving -/

/-- `BUFFER_SIZE - sizeof(message_header)`. -/
def leftover : ℕ := 16 - headerSize

/-- `remaining_bytes_with_padding`, computed in `uint32_t`. -/
def remainingBytesWithPadding (size : UInt32) : UInt32 := 16 * ((size - 8 + 15) / 16)

/-- `vector::resize`. -/
def resize (n : ℕ) (data : List UInt8) : List UInt8 :=
  data.take n ++ List.replicate (n - data.length) 0

theorem length_resize (n : ℕ) (data : List UInt8) : (resize n data).length = n := by
  simp only [resize, List.length_append, List.length_take, List.length_replicate]
  omega

/-- The padding is truncated off. -/
def MessageHeader.message (h : MessageHeader) (data : List UInt8) : Message where
  toMessageHeader := h
  data := resize h.size.toNat data
  length_data := length_resize _ _

/-- What ends the loop: the socket, or a header. -/
inductive ReadEnd
  | eof
  | tooLarge (size : UInt32)
  deriving DecidableEq

/-- One round of `read_loop`. -/
def readMessage (socket : StcpSocket σ) : Except ReadEnd (Message × StcpSocket σ) :=
  match socket.read c 16 with
  | none => .error .eof
  | some (buffer, socket) =>
    let header := MessageHeader.ofBytes buffer
    if ¬header.size.toNat ≤ maxMessageSize then .error (.tooLarge header.size)
    else
      let remaining := (remainingBytesWithPadding header.size).toNat
      if remaining = 0 then .ok (header.message (buffer.drop headerSize), socket)
      else
        match socket.read c remaining with
        | none => .error .eof
        | some (rest, socket) => .ok (header.message (buffer.drop headerSize ++ rest), socket)

/-- The messages that `read_loop` hands over in some rounds, the socket after
them, and what ended the loop if it has ended. -/
def readLoop : ℕ → StcpSocket σ → List Message × StcpSocket σ × Option ReadEnd
  | 0, socket => ([], socket, none)
  | rounds + 1, socket =>
    match readMessage c socket with
    | .error e => ([], socket, some e)
    | .ok (m, socket) =>
      let rest := readLoop rounds socket
      (m :: rest.1, rest.2)

/-! ## The two computations of the padding -/

variable {c : BlockCipher UInt8 σ 16} {m : Message} {memory : ℕ → UInt8}

/-- How many blocks a message of this size takes beyond the first. -/
def moreBlocks (size : ℕ) : ℕ := (size + 7) / 16

theorem Message.sizeWithPadding_eq (m : Message) :
    m.sizeWithPadding = 16 * (1 + moreBlocks m.size.toNat) := by
  simp only [Message.sizeWithPadding, moreBlocks, headerSize]
  omega

/-- Below the first block the difference wraps, and the sum wraps back. -/
theorem remainingBytesWithPadding_eq {size : UInt32} (h : size.toNat ≤ maxMessageSize) :
    (remainingBytesWithPadding size).toNat = 16 * moreBlocks size.toNat := by
  have hsum : (size - 8 + 15).toNat = size.toNat + 7 := by
    rw [UInt32.toNat_add, UInt32.toNat_sub]
    simp only [maxMessageSize, UInt32.reduceToNat] at h ⊢
    omega
  rw [remainingBytesWithPadding, UInt32.toNat_mul, UInt32.toNat_div, hsum]
  simp only [maxMessageSize, moreBlocks, UInt32.reduceToNat] at h ⊢
  omega

/-- Enough of the bytes after the header give the message. -/
theorem message_take {k : ℕ} {more : List UInt8} (hk : m.size.toNat ≤ k) :
    m.toMessageHeader.message ((m.data ++ more).take k) = m := by
  have hle : m.data.length ≤ k := m.length_data ▸ hk
  have hdata : resize m.size.toNat ((m.data ++ more).take k) = m.data := by
    have htake : ((m.data ++ more).take k).take m.size.toNat = m.data := by
      rw [List.take_take, min_eq_left hk, List.take_left' m.length_data]
    have hlength : m.size.toNat ≤ ((m.data ++ more).take k).length := by
      rw [List.length_take, List.length_append, m.length_data]
      omega
    rw [resize, htake, Nat.sub_eq_zero_of_le hlength, List.replicate_zero, List.append_nil]
  cases m
  simp only [MessageHeader.message, Message.mk.injEq, true_and]
  exact hdata

/-! ## The bytes that are sent -/

/-- What is written for some messages, before the cipher. -/
def paddedAll (ms : List (Message × (ℕ → UInt8))) : List UInt8 :=
  (ms.map fun sent ↦ sent.1.padded sent.2).flatten

/-- How many blocks the messages take. -/
def blocksOf (ms : List (Message × (ℕ → UInt8))) : ℕ :=
  (ms.map fun sent ↦ 1 + moreBlocks sent.1.size.toNat).sum

theorem length_padded_blocks (m : Message) (memory : ℕ → UInt8) :
    (m.padded memory).length = 16 * (1 + moreBlocks m.size.toNat) := by
  rw [Message.length_padded, Message.sizeWithPadding_eq]

theorem length_paddedAll (ms : List (Message × (ℕ → UInt8))) :
    (paddedAll ms).length = 16 * blocksOf ms := by
  induction ms with
  | nil => rfl
  | cons sent ms ih =>
      simp only [paddedAll, blocksOf, List.map_cons, List.flatten_cons, List.length_append,
        List.sum_cons] at ih ⊢
      rw [length_padded_blocks, ih]
      ring

theorem length_sendMessage (aes : σ) :
    (sendMessage c m memory aes).1.length = 16 * (1 + moreBlocks m.size.toNat) := by
  have hlength := length_padded_blocks m memory
  rw [sendMessage, write_eq hlength, BlockCipher.length_encodeBlocks hlength.ge]

/-- Message by message or all at once, the same blocks are sent. -/
theorem sendMessages_eq (ms : List (Message × (ℕ → UInt8))) (aes : σ) :
    sendMessages c ms aes = c.encodeBlocks (blocksOf ms) aes (paddedAll ms) := by
  induction ms generalizing aes with
  | nil => rfl
  | cons sent ms ih =>
      have hlength := length_padded_blocks sent.1 sent.2
      have hall : paddedAll (sent :: ms) = sent.1.padded sent.2 ++ paddedAll ms := rfl
      have hblocks : blocksOf (sent :: ms) = 1 + moreBlocks sent.1.size.toNat + blocksOf ms := rfl
      rw [sendMessages, sendMessage, write_eq hlength, ih, hall, hblocks,
        BlockCipher.encodeBlocks_add (1 + moreBlocks sent.1.size.toNat) (blocksOf ms),
        BlockCipher.encodeBlocks_append hlength.ge, List.drop_left' hlength]

/-! ## The messages that are read -/

variable {socket : StcpSocket σ} {n : ℕ} {rest later : List UInt8} {final : σ}

/-- One round reads one message and leaves the socket at the next header. -/
theorem readMessage_of_carries (hsize : m.size.toNat ≤ maxMessageSize)
    (h : socket.Carries c (1 + moreBlocks m.size.toNat + n) (m.padded memory ++ rest) later final) :
    ∃ socket', readMessage c socket = .ok (m, socket') ∧ socket'.Carries c n rest later final := by
  obtain ⟨first, hfirst, hcarries⟩ := h.read (k := 1) (by omega)
  obtain ⟨after, hafter, hnext⟩ := hcarries.read (k := moreBlocks m.size.toNat) (by omega)
  -- after the header come the data, the padding and the next messages
  obtain ⟨tail, htail⟩ : ∃ tail, m.padded memory ++ rest = m.bytes ++ (m.data ++ tail) :=
    ⟨_, by rw [Message.padded, List.append_assoc, List.append_assoc]⟩
  have hbuffer : (m.padded memory ++ rest).take (16 * 1) = m.bytes ++ (m.data ++ tail).take 8 := by
    rw [htail, List.take_append, MessageHeader.length_bytes]
    rfl
  have hmore : (m.padded memory ++ rest).drop (16 * 1) = (m.data ++ tail).drop 8 := by
    rw [htail, List.drop_append, MessageHeader.length_bytes]
    rfl
  have hheader : (m.bytes ++ (m.data ++ tail).take 8).drop headerSize = (m.data ++ tail).take 8 :=
    List.drop_left' (MessageHeader.length_bytes _)
  rw [hbuffer] at hfirst
  rw [hmore] at hafter
  have hend : ((m.padded memory ++ rest).drop (16 * 1)).drop (16 * moreBlocks m.size.toNat) = rest := by
    rw [List.drop_drop, ← Nat.mul_add]
    exact List.drop_left' (length_padded_blocks m memory)
  rw [hend, Nat.add_assoc, Nat.add_sub_cancel_left, Nat.add_sub_cancel_left] at hnext
  simp only [readMessage, hfirst, MessageHeader.ofBytes_bytes, hheader, not_not.mpr hsize, if_false,
    remainingBytesWithPadding_eq hsize, hafter]
  by_cases hone : moreBlocks m.size.toNat = 0
  · -- all of the data came with the header
    have hle : m.size.toNat ≤ 8 := by
      rw [moreBlocks] at hone
      omega
    rw [hone] at hafter
    obtain rfl : first = after := (Prod.mk.inj (Option.some.inj hafter)).2
    rw [hone, if_pos rfl, message_take hle]
    exact ⟨first, rfl, hnext⟩
  · have hle : m.size.toNat ≤ 8 + 16 * moreBlocks m.size.toNat := by
      rw [moreBlocks]
      omega
    rw [if_neg (by omega), ← List.take_add, message_take hle]
    exact ⟨after, rfl, hnext⟩

/-- As many rounds as messages read them all, and the loop goes on from there. -/
theorem readLoop_of_carries {ms : List (Message × (ℕ → UInt8))}
    (hsizes : ∀ sent ∈ ms, sent.1.size.toNat ≤ maxMessageSize)
    (h : socket.Carries c (blocksOf ms) (paddedAll ms) later final) :
    ∃ socket', socket'.Carries c 0 [] later final ∧ ∀ rounds,
      readLoop c (ms.length + rounds) socket =
        (ms.map Prod.fst ++ (readLoop c rounds socket').1, (readLoop c rounds socket').2) := by
  induction ms generalizing socket with
  | nil =>
      refine ⟨socket, h, fun rounds ↦ ?_⟩
      rw [List.length_nil, Nat.zero_add]
      rfl
  | cons sent ms ih =>
      obtain ⟨next, hread, hnext⟩ := readMessage_of_carries (hsizes sent List.mem_cons_self) h
      obtain ⟨last, hlast, hrest⟩ := ih (fun m hm ↦ hsizes m (List.mem_cons_of_mem _ hm)) hnext
      refine ⟨last, hlast, fun rounds ↦ ?_⟩
      rw [List.length_cons, Nat.add_right_comm, readLoop, hread]
      simp only [hrest, List.map_cons, List.cons_append]

/-- A cipher that adds to each byte and changes what it adds from block to block. -/
def additiveCipher : BlockCipher UInt8 UInt8 16 where
  encode key block := (block.map (· + key), key + 1)
  decode key block := (block.map (· - key), key + 1)
  length_encode _ block h := by rw [List.length_map, h]
  decode_encode key block _ := by simp [Function.comp_def]

/-- An empty message, one that fills the first block and one that does not fit in it. -/
def edgeMessages : List (Message × (ℕ → UInt8)) :=
  [(⟨⟨0, 5001⟩, [], rfl⟩, fun _ ↦ 170),
    (⟨⟨8, 5002⟩, [1, 2, 3, 4, 5, 6, 7, 8], rfl⟩, fun _ ↦ 0),
    (⟨⟨9, 5003⟩, [1, 2, 3, 4, 5, 6, 7, 8, 9], rfl⟩, fun i ↦ UInt8.ofNat i)]

end KarmaCore.Net
