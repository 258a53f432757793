import Mathlib
import KarmaCore.Lib.BlockCipher

/-!
# The encrypted socket

`stcp_socket` writes through a cipher on blocks of 16 bytes, at most a buffer at
a time, and reads as much as has arrived, up to the next end of a block.  What
arrives when is not known.
-/

namespace KarmaCore.Net

variable {σ : Type}

/-- The length of `_read_buffer` and of `_write_buffer`. -/
def bufferLength : ℕ := 4096

/-! ## The plain socket -/

/-- The bytes that are still to be read, and how many of them each `readsome` finds. -/
structure TcpSocket where
  incoming : List UInt8
  arrivals : ℕ → ℕ

namespace TcpSocket

/-- The socket once `readsome` has taken `found` bytes. -/
def after (found : ℕ) (sock : TcpSocket) : TcpSocket where
  incoming := sock.incoming.drop found
  arrivals i := sock.arrivals (i + 1)

/-- It waits for one byte at least; without one it ends in `eof`. -/
def readsome (len : ℕ) (sock : TcpSocket) : Option (List UInt8 × TcpSocket) :=
  let found := max 1 (min (sock.arrivals 0) len)
  if sock.incoming = [] then none else some (sock.incoming.take found, sock.after found)

def read (len : ℕ) (sock : TcpSocket) : Option (List UInt8 × TcpSocket) :=
  if sock.incoming.length < len then none
  else some (sock.incoming.take len, { sock with incoming := sock.incoming.drop len })

end TcpSocket

/-! ## Reading -/

/-- A socket with the state of `_recv_aes`. -/
structure StcpSocket (σ : Type) where
  sock : TcpSocket
  recvAes : σ

namespace StcpSocket

variable (c : BlockCipher UInt8 σ 16)

/-- The bytes up to the end of a block that has begun to arrive. -/
def completeBlock (s : List UInt8) (sock : TcpSocket) : Option (List UInt8 × TcpSocket) :=
  if s.length % 16 = 0 then some (s, sock)
  else do
    let (more, sock) ← sock.read (16 - s.length % 16)
    return (s ++ more, sock)

def readsome (len : ℕ) (socket : StcpSocket σ) : Option (List UInt8 × StcpSocket σ) := do
  let (s, sock) ← socket.sock.readsome (min bufferLength len)
  let (s, sock) ← completeBlock s sock
  let (plain, recvAes) := c.decodeBlocks (s.length / 16) socket.recvAes s
  return (plain, { sock, recvAes })

/-- The loop of `read`: every round reads something, so `len` rounds are enough. -/
def readRounds : ℕ → ℕ → StcpSocket σ → Option (List UInt8 × StcpSocket σ)
  | _, 0, socket => some ([], socket)
  | 0, _ + 1, _ => none
  | rounds + 1, len + 1, socket => do
    let (s, socket) ← socket.readsome c (len + 1)
    let (rest, socket) ← readRounds rounds (len + 1 - s.length) socket
    return (s ++ rest, socket)

def read (len : ℕ) (socket : StcpSocket σ) : Option (List UInt8 × StcpSocket σ) :=
  socket.readRounds c len len

end StcpSocket

/-! ## Writing -/

/-- What `writesome` sends, how much of the buffer that is, and the state of `_send_aes`. -/
def writesome (c : BlockCipher UInt8 σ 16) (buffer : List UInt8) (sendAes : σ) :
    List UInt8 × ℕ × σ :=
  let len := min bufferLength buffer.length
  let ciphertext := c.encodeBlocks (len / 16) sendAes (buffer.take len)
  (ciphertext.1, len, ciphertext.2)

/-- The loop of `write`: every round sends something, so as many rounds as bytes are enough. -/
def writeRounds (c : BlockCipher UInt8 σ 16) : ℕ → List UInt8 → σ → List UInt8 × σ
  | 0, _, sendAes => ([], sendAes)
  | rounds + 1, buffer, sendAes =>
    if buffer = [] then ([], sendAes)
    else
      let (sent, len, sendAes) := writesome c buffer sendAes
      let (rest, sendAes) := writeRounds c rounds (buffer.drop len) sendAes
      (sent ++ rest, sendAes)

def write (c : BlockCipher UInt8 σ 16) (buffer : List UInt8) (sendAes : σ) : List UInt8 × σ :=
  writeRounds c buffer.length buffer sendAes

/-! ## What the socket writes is what it reads -/

variable {c : BlockCipher UInt8 σ 16} {aes : σ} {plain later : List UInt8} {n rounds : ℕ}

theorem writeRounds_eq (hn : plain.length = 16 * n) (hrounds : plain.length ≤ rounds) :
    writeRounds c rounds plain aes = c.encodeBlocks n aes plain := by
  induction rounds generalizing plain aes n with
  | zero =>
      obtain rfl : n = 0 := by omega
      rfl
  | succ rounds ih =>
      by_cases hnil : plain = []
      · subst hnil
        obtain rfl : n = 0 := by simpa using hn
        simp [writeRounds, BlockCipher.encodeBlocks]
      · have hpos : 0 < plain.length := List.length_pos_iff.mpr hnil
        -- a whole number of blocks goes out, and at least one
        obtain ⟨m, hm, hmpos, hle⟩ : ∃ m, min bufferLength plain.length = 16 * m ∧ 0 < m ∧ m ≤ n := by
          rw [hn, bufferLength]
          refine ⟨min 256 n, ?_, ?_, ?_⟩ <;> omega
        obtain ⟨k, rfl⟩ := Nat.exists_eq_add_of_le hle
        have hrest : writeRounds c rounds (plain.drop (16 * m)) (c.encodeBlocks m aes plain).2 =
            c.encodeBlocks k (c.encodeBlocks m aes plain).2 (plain.drop (16 * m)) := by
          apply ih
          · rw [List.length_drop]
            omega
          · rw [List.length_drop]
            omega
        have htake : c.encodeBlocks m aes (plain.take (16 * m)) = c.encodeBlocks m aes plain := by
          conv_rhs => rw [← List.take_append_drop (16 * m) plain]
          apply (BlockCipher.encodeBlocks_append _).symm
          rw [List.length_take_of_le (by omega)]
        have hblocks : 16 * m / 16 = m := Nat.mul_div_cancel_left m (by norm_num)
        simp only [writeRounds, if_neg hnil, writesome, hm, hblocks, htake, hrest,
          BlockCipher.encodeBlocks_add]

/-- A whole number of blocks is written as these blocks. -/
theorem write_eq (hn : plain.length = 16 * n) : write c plain aes = c.encodeBlocks n aes plain :=
  writeRounds_eq hn le_rfl

namespace StcpSocket

/-- The plain socket is read to the end of a block. -/
theorem completeBlock_readsome {sock : TcpSocket} {k : ℕ} (hk : 0 < k)
    (hlen : 16 * k ≤ sock.incoming.length) :
    ∃ m sock', 0 < m ∧ m ≤ k ∧ sock'.incoming = sock.incoming.drop (16 * m) ∧
      ((sock.readsome (min bufferLength (16 * k))).bind fun r ↦ completeBlock r.1 r.2) =
        some (sock.incoming.take (16 * m), sock') := by
  -- how much is found, at least a byte and at most what is asked for
  obtain ⟨f, hf⟩ : ∃ f, f = max 1 (min (sock.arrivals 0) (min bufferLength (16 * k))) := ⟨_, rfl⟩
  have hfpos : 1 ≤ f := hf ▸ le_max_left _ _
  have hfle : f ≤ 16 * k := by
    rw [hf, bufferLength]
    omega
  have hne : sock.incoming ≠ [] := by
    rintro hnil
    rw [hnil, List.length_nil] at hlen
    omega
  have hread : sock.readsome (min bufferLength (16 * k)) =
      some (sock.incoming.take f, sock.after f) := by
    rw [TcpSocket.readsome, if_neg hne, hf]
  have hlength : (sock.incoming.take f).length = f := List.length_take_of_le (hfle.trans hlen)
  rw [hread, Option.bind_some]
  by_cases hwhole : f % 16 = 0
  · have hm : f = 16 * (f / 16) := by omega
    refine ⟨f / 16, sock.after f, by omega, by omega, ?_, ?_⟩
    · rw [← hm, TcpSocket.after]
    · rw [completeBlock, hlength, if_pos hwhole, ← hm]
  · have hm : f + (16 - f % 16) = 16 * (f / 16 + 1) := by omega
    refine ⟨f / 16 + 1, { sock.after f with incoming := sock.incoming.drop (16 * (f / 16 + 1)) },
      by omega, by omega, rfl, ?_⟩
    have hrest : (sock.after f).read (16 - f % 16) = some ((sock.incoming.drop f).take (16 - f % 16),
        { sock.after f with incoming := sock.incoming.drop (16 * (f / 16 + 1)) }) := by
      rw [TcpSocket.read, if_neg (by simp only [TcpSocket.after, List.length_drop]; omega), ← hm,
        ← List.drop_drop]
      rfl
    simp only [completeBlock, hlength, if_neg hwhole, hrest, bind, Option.bind, pure]
    rw [← List.take_add, hm]

/-- The socket carries the blocks of `plain` and then `later`, its decoder in the
state the encoder had and in `final` when they are read. -/
structure Carries (c : BlockCipher UInt8 σ 16) (socket : StcpSocket σ) (n : ℕ)
    (plain later : List UInt8) (final : σ) : Prop where
  length : plain.length = 16 * n
  incoming : socket.sock.incoming = (c.encodeBlocks n socket.recvAes plain).1 ++ later
  state : (c.encodeBlocks n socket.recvAes plain).2 = final

variable {socket : StcpSocket σ} {final : σ} {k : ℕ}

/-- `readsome` reads some blocks, one at least, and leaves the others. -/
theorem Carries.readsome (h : socket.Carries c n plain later final) (hk : 0 < k) (hkn : k ≤ n) :
    ∃ m socket', 0 < m ∧ m ≤ k ∧ socket.readsome c (16 * k) = some (plain.take (16 * m), socket') ∧
      socket'.Carries c (n - m) (plain.drop (16 * m)) later final := by
  have hcipher : (c.encodeBlocks n socket.recvAes plain).1.length = 16 * n :=
    BlockCipher.length_encodeBlocks h.length.ge
  have harrives : 16 * k ≤ socket.sock.incoming.length := by
    rw [h.incoming, List.length_append, hcipher]
    omega
  obtain ⟨m, sock', hmpos, hmk, hsock, hread⟩ := completeBlock_readsome hk harrives
  obtain ⟨r, rfl⟩ : ∃ r, n = m + r := ⟨n - m, by omega⟩
  have hadd := BlockCipher.encodeBlocks_add (c := c) m r socket.recvAes plain
  have hfirst : (c.encodeBlocks m socket.recvAes plain).1.length = 16 * m := by
    apply BlockCipher.length_encodeBlocks
    rw [h.length]
    omega
  have hincoming : socket.sock.incoming = (c.encodeBlocks m socket.recvAes plain).1 ++
      ((c.encodeBlocks r (c.encodeBlocks m socket.recvAes plain).2 (plain.drop (16 * m))).1 ++
        later) := by
    rw [h.incoming, hadd, List.append_assoc]
  refine ⟨m, ⟨sock', (c.encodeBlocks m socket.recvAes plain).2⟩, hmpos, hmk, ?_, ?_, ?_, ?_⟩
  · obtain ⟨r', hsome, hcomplete⟩ := Option.bind_eq_some_iff.mp hread
    have hblocks : (socket.sock.incoming.take (16 * m)).length / 16 = m := by
      rw [hincoming, List.take_left' hfirst, hfirst, Nat.mul_div_cancel_left m (by norm_num)]
    have hdecode : c.decodeBlocks m socket.recvAes (socket.sock.incoming.take (16 * m)) =
        (plain.take (16 * m), (c.encodeBlocks m socket.recvAes plain).2) := by
      rw [hincoming, List.take_left' hfirst]
      apply BlockCipher.decodeBlocks_encodeBlocks
      rw [h.length]
      omega
    simp only [StcpSocket.readsome, hsome, hcomplete, hblocks, hdecode, bind, Option.bind, pure]
  · rw [List.length_drop, h.length]
    omega
  · rw [hsock, hincoming, List.drop_left' hfirst, Nat.add_sub_cancel_left]
  · rw [Nat.add_sub_cancel_left, ← h.state, hadd]

theorem Carries.readRounds {k rounds : ℕ} (h : socket.Carries c n plain later final) (hk : k ≤ n)
    (hrounds : 16 * k ≤ rounds) :
    ∃ socket', socket.readRounds c rounds (16 * k) = some (plain.take (16 * k), socket') ∧
      socket'.Carries c (n - k) (plain.drop (16 * k)) later final := by
  induction rounds generalizing socket n k plain with
  | zero =>
      obtain rfl : k = 0 := by omega
      exact ⟨socket, rfl, h⟩
  | succ rounds ih =>
      rcases Nat.eq_zero_or_pos k with rfl | hpos
      · exact ⟨socket, rfl, h⟩
      obtain ⟨m, next, hmpos, hmk, hread, hnext⟩ := h.readsome hpos hk
      have hlength : (plain.take (16 * m)).length = 16 * m := by
        rw [List.length_take_of_le (by rw [h.length]; omega)]
      obtain ⟨last, hrest, hlast⟩ := ih (k := k - m) hnext (by omega) (by omega)
      refine ⟨last, ?_, ?_⟩
      · obtain ⟨len, hlen⟩ : ∃ len, 16 * k = len + 1 := ⟨16 * k - 1, by omega⟩
        have hleft : len + 1 - 16 * m = 16 * (k - m) := by omega
        have htake : plain.take (16 * k) =
            plain.take (16 * m) ++ (plain.drop (16 * m)).take (16 * (k - m)) := by
          rw [← List.take_add]
          congr 1
          omega
        rw [hlen] at hread ⊢
        simp only [StcpSocket.readRounds, hread, hlength, hleft, hrest, bind, Option.bind, pure]
        rw [← hlen, htake]
      · have hdrop : (plain.drop (16 * m)).drop (16 * (k - m)) = plain.drop (16 * k) := by
          rw [List.drop_drop]
          congr 1
          omega
        rw [hdrop, Nat.sub_sub, Nat.add_sub_cancel' hmk] at hlast
        exact hlast

/-- Whole blocks that the socket carries are read, however they arrive. -/
theorem Carries.read (h : socket.Carries c n plain later final) (hk : k ≤ n) :
    ∃ socket', socket.read c (16 * k) = some (plain.take (16 * k), socket') ∧
      socket'.Carries c (n - k) (plain.drop (16 * k)) later final :=
  h.readRounds hk le_rfl

/-- A socket that carries nothing has nothing to read. -/
theorem read_eq_none (len : ℕ) (h : socket.sock.incoming = []) : socket.read c (len + 1) = none := by
  have hread : socket.sock.readsome (min bufferLength (len + 1)) = none := if_pos h
  simp only [StcpSocket.read, StcpSocket.readRounds, StcpSocket.readsome, hread, bind, Option.bind]

end StcpSocket

end KarmaCore.Net
