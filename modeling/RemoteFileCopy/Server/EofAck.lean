import RemoteFileCopy.Server.SendData

/-!
# Server/EofAck — which datagrams end the wait for the ack of an EOF

`wait_on_eof_ack_state` takes the checksum out of the datagram with `ntohs` and compares it with
the checksum of the datagram without it, which `createPDU` had stored in *host* order.  On a
little-endian host it therefore accepts a datagram whose two checksum bytes stand in the other order
(`accepts_iff`), and agrees with `in_cksum` where the order makes no difference
(`eof_ack_accepted_iff`).
-/

namespace RemoteFileCopy

variable {info : ServerInfo} {m stale : Bytes} {a : SockAddr}

/-- **A genuine ack of the EOF** numbered `eofSeq`: flag, number and checksum are right. -/
def GenuineEofAck (host : Host) (eofSeq : UInt32) (m : Bytes) : Prop :=
  m.getD 6 0 = 35 ∧ ntohl host.endian (loadU32 host.endian m) = eofSeq ∧ host.inCksum m = 0

/-- The datagram ends the child. -/
def Accepts (host : Host) (info : ServerInfo) (r : Received) : Prop :=
  (waitOnEofAckState host info (some r)).1 = .done

/-- The datagram with the two bytes of its checksum exchanged. -/
def exchangeChecksum (m : Bytes) : Bytes := writeAt m 4 [m.getD 5 0, m.getD 4 0]

/-- A datagram with a whole header, byte by byte. -/
theorem exists_header (h : 7 ≤ m.length) : ∃ s₀ s₁ s₂ s₃ c₀ c₁ f p,
    m = s₀ :: s₁ :: s₂ :: s₃ :: c₀ :: c₁ :: f :: p := by
  match m, h with
  | s₀ :: s₁ :: s₂ :: s₃ :: c₀ :: c₁ :: f :: p, _ => exact ⟨s₀, s₁, s₂, s₃, c₀, c₁, f, p, rfl⟩

/-- What a datagram that fits leaves in the receive array. -/
theorem safeRecvfrom_of_fits (hmax : m.length ≤ MAXBUF) :
    safeRecvfrom stale MAXBUF ⟨a, m⟩ = ⟨a, m ++ stale.drop m.length, m.length⟩ := by
  rw [safeRecvfrom, List.take_of_length_le hmax, Nat.min_eq_left hmax]

section Header

/-- Swapping a loaded pair loads it in the other order. -/
theorem ntohs_pairU16 (x y : UInt8) :
    ntohs .little (pairU16 .little x y) = pairU16 .little y x := by
  have hx := x.toNat_lt
  have hy := y.toNat_lt
  refine UInt16.toNat_inj.mp ?_
  rw [ntohs, toNat_swapU16, toNat_pairU16_little, toNat_pairU16_little]
  omega

variable {s₀ s₁ s₂ s₃ c₀ c₁ f : UInt8} {p : Bytes}

/-- **The test of the code** — flag, number, and the checksum bytes taken in network order. -/
theorem accepts_iff_header (hm : m = s₀ :: s₁ :: s₂ :: s₃ :: c₀ :: c₁ :: f :: p) :
    Accepts (.standard .little) info ⟨a, m ++ stale.drop m.length, m.length⟩
      ↔ f = 35 ∧ ntohl .little (loadU32 .little m) = info.eofSeq
        ∧ pairU16 .little c₁ c₀ = inCksum .little (s₀ :: s₁ :: s₂ :: s₃ :: 0 :: 0 :: f :: p) := by
  have htake : (m ++ stale.drop m.length).take m.length = m := List.take_left
  have htemp : (writeAt m 4 [0, 0]).take m.length = s₀ :: s₁ :: s₂ :: s₃ :: 0 :: 0 :: f :: p := by
    simp [hm, writeAt]
  have hload : ntohs .little (loadU16 .little (m ++ stale.drop m.length) 4)
      = pairU16 .little c₁ c₀ := by
    rw [hm]
    exact ntohs_pairU16 c₀ c₁
  have hflag : (m ++ stale.drop m.length).getD 6 0 = f := by rw [hm]; rfl
  have hseq : loadU32 .little (m ++ stale.drop m.length) = loadU32 .little m := by rw [hm]; rfl
  simp only [Accepts, waitOnEofAckState, Received.flag, Received.seqNum, Host.endian_standard,
    Host.inCksum_standard, htake, htemp, hload, hflag, hseq]
  split
  case isTrue h => exact iff_of_true rfl h
  case isFalse h => exact iff_of_false ServerState.noConfusion h

theorem wordSum_header (x y : UInt8) :
    wordSum .little (s₀ :: s₁ :: s₂ :: s₃ :: x :: y :: f :: p)
      = wordSum .little (s₀ :: s₁ :: s₂ :: s₃ :: 0 :: 0 :: f :: p)
        + (pairU16 .little x y).toNat := by
  have hzero : (pairU16 .little 0 0).toNat = 0 := rfl
  simp only [wordSum, hzero]
  omega

/-- What the code accepts is what checks out with the checksum bytes exchanged, unless they are the
word no checksum is. -/
theorem checksum_iff_header (hlen : p.length + 7 ≤ MAXBUF) (hf : f = 35) (x y : UInt8) :
    pairU16 .little x y = inCksum .little (s₀ :: s₁ :: s₂ :: s₃ :: 0 :: 0 :: f :: p)
      ↔ inCksum .little (s₀ :: s₁ :: s₂ :: s₃ :: x :: y :: f :: p) = 0
        ∧ pairU16 .little x y ≠ 65535 := by
  have hmax : MAXBUF = 1400 := rfl
  have hpos : 0 < wordSum .little (s₀ :: s₁ :: s₂ :: s₃ :: 0 :: 0 :: f :: p) := by
    have hflag : 0 < (35 : UInt8).toNat := by decide
    cases p <;> simp only [hf, wordSum, toNat_pairU16_little] <;> omega
  rw [eq_inCksum_iff (by simp; omega) hpos, inCksum_eq_zero_iff (by simp; omega),
    wordSum_header x y]
  exact and_congr_left' (and_iff_right (Nat.add_pos_left hpos _)).symm

end Header

/-- **When the code accepts** — a genuine ack, but for the order of its two checksum bytes. -/
theorem accepts_iff (h7 : 7 ≤ m.length) (hmax : m.length ≤ MAXBUF) :
    Accepts (.standard .little) info (safeRecvfrom stale MAXBUF ⟨a, m⟩)
      ↔ m.getD 6 0 = 35 ∧ ntohl .little (loadU32 .little m) = info.eofSeq
        ∧ inCksum .little (exchangeChecksum m) = 0 ∧ ¬ (m.getD 4 0 = 255 ∧ m.getD 5 0 = 255) := by
  obtain ⟨s₀, s₁, s₂, s₃, c₀, c₁, f, p, hm⟩ := exists_header h7
  have hlen : p.length + 7 ≤ MAXBUF := by rwa [hm] at hmax
  have hexchange : exchangeChecksum m = s₀ :: s₁ :: s₂ :: s₃ :: c₁ :: c₀ :: f :: p := by
    simp [hm, exchangeChecksum, writeAt]
  have htop : pairU16 .little c₁ c₀ = 65535 ↔ m.getD 4 0 = 255 ∧ m.getD 5 0 = 255 := by
    have h₀ := c₀.toNat_lt
    have h₁ := c₁.toNat_lt
    simp only [hm, List.getD_cons_succ, List.getD_cons_zero, ← UInt16.toNat_inj,
      toNat_pairU16_little, ← UInt8.toNat_inj]
    change _ = 65535 ↔ _ = 255 ∧ _ = 255
    omega
  rw [safeRecvfrom_of_fits hmax, accepts_iff_header hm, hexchange, ← htop,
    show m.getD 6 0 = f by rw [hm]; rfl]
  exact and_congr_right fun hf => and_congr_right fun _ => checksum_iff_header hlen hf c₁ c₀

/-- **A checksum that is right in both orders reads the same in both.** -/
theorem checksum_bytes_eq (h7 : 7 ≤ m.length) (hmax : m.length ≤ MAXBUF)
    (h : inCksum .little m = 0) (h' : inCksum .little (exchangeChecksum m) = 0) :
    m.getD 4 0 = m.getD 5 0 := by
  obtain ⟨s₀, s₁, s₂, s₃, c₀, c₁, f, p, hm⟩ := exists_header h7
  have hexchange : exchangeChecksum m = s₀ :: s₁ :: s₂ :: s₃ :: c₁ :: c₀ :: f :: p := by
    simp [hm, exchangeChecksum, writeAt]
  have hmaxbuf : MAXBUF = 1400 := rfl
  rw [inCksum_eq_zero_iff (by omega), hm, wordSum_header, toNat_pairU16_little] at h
  rw [inCksum_eq_zero_iff (by rw [hexchange]; simp [hm] at hmax ⊢; omega), hexchange,
    wordSum_header, toNat_pairU16_little] at h'
  have h₀ := c₀.toNat_lt
  have h₁ := c₁.toNat_lt
  simp only [hm, List.getD_cons_succ, List.getD_cons_zero, ← UInt8.toNat_inj]
  omega

/-- Equal bytes are exchanged for themselves. -/
theorem exchangeChecksum_of_eq (h7 : 7 ≤ m.length) (heq : m.getD 4 0 = m.getD 5 0) :
    exchangeChecksum m = m := by
  obtain ⟨s₀, s₁, s₂, s₃, c₀, c₁, f, p, hm⟩ := exists_header h7
  obtain rfl : c₀ = c₁ := by simpa [hm] using heq
  simp [hm, exchangeChecksum, writeAt]

/-- No PDU carries the checksum `0xFFFF`. -/
theorem checksum_eof_ack_ne (s : UInt32) :
    ¬ ((createPDU (.standard .little) s 35 []).getD 4 0 = 255
      ∧ (createPDU (.standard .little) s 35 []).getD 5 0 = 255) := by
  rintro ⟨h₄, h₅⟩
  have hload : loadU16 .little (createPDU (.standard .little) s 35 []) 4 = 65535 := by
    rw [loadU16, h₄, h₅]
    rfl
  have hpos : 0 < wordSum .little (zeroedPDU (.standard .little) s 35 []) := by
    have hflag : wordSum .little [35] = 35 := rfl
    simp only [zeroedPDU, Host.endian_standard, wordSum_storeU32_append, wordSum_storeU16_append,
      hflag]
    omega
  have hfield := loadU16_store .little (inCksum .little (zeroedPDU (.standard .little) s 35 []))
    (storeU32 .little (htonl .little s)) [35]
  rw [createPDU_eq] at hload
  exact ((eq_inCksum_iff (by simp [zeroedPDU]) hpos _).mp rfl).2 (hfield.symm.trans hload)

/-- **Which datagrams are judged rightly.** -/
theorem judged_rightly_iff (h7 : 7 ≤ m.length) (hmax : m.length ≤ MAXBUF) :
    (Accepts (.standard .little) info (safeRecvfrom stale MAXBUF ⟨a, m⟩)
        ↔ GenuineEofAck (.standard .little) info.eofSeq m)
      ↔ m.getD 6 0 ≠ 35 ∨ ntohl .little (loadU32 .little m) ≠ info.eofSeq
        ∨ inCksum .little m ≠ 0 ∧ inCksum .little (exchangeChecksum m) ≠ 0
        ∨ m.getD 4 0 = m.getD 5 0 ∧ m.getD 4 0 ≠ 255 := by
  have hboth := checksum_bytes_eq h7 hmax
  have hsame : m.getD 4 0 = m.getD 5 0 →
      (inCksum .little (exchangeChecksum m) = 0 ↔ inCksum .little m = 0) := fun heq => by
    rw [exchangeChecksum_of_eq h7 heq]
  rw [accepts_iff h7 hmax, GenuineEofAck, Host.endian_standard, Host.inCksum_standard]
  grind

/-- **When the ack of `send_eof_ack_state` is accepted.** -/
theorem accepts_eof_ack_iff : Accepts (.standard .little) info (safeRecvfrom stale MAXBUF
      ⟨a, createPDU (.standard .little) info.eofSeq 35 []⟩)
    ↔ (createPDU (.standard .little) info.eofSeq 35 []).getD 4 0
      = (createPDU (.standard .little) info.eofSeq 35 []).getD 5 0 := by
  have hlen : (createPDU (.standard .little) info.eofSeq 35 []).length = 7 :=
    length_createPDU _ _ _ _
  have hck : inCksum .little (createPDU (.standard .little) info.eofSeq 35 []) = 0 :=
    inCksum_createPDU .little _ _ _ (Nat.zero_le _)
  have hmax : (createPDU (.standard .little) info.eofSeq 35 []).length ≤ MAXBUF := by
    rw [hlen]
    decide
  rw [accepts_iff hlen.ge hmax]
  simp only [getD_createPDU, true_and]
  constructor
  · rintro ⟨-, hexchange, -⟩
    exact checksum_bytes_eq hlen.ge hmax hck hexchange
  · intro heq
    exact ⟨loadU32_createPDU (.standard .little) _ _ _,
      by rw [exchangeChecksum_of_eq hlen.ge heq, hck], checksum_eof_ack_ne _⟩

/-- **When `wait_on_eof_ack_state` accepts exactly the genuine acks.**  A datagram it judges
rightly exactly if its flag or its number is another, or its checksum is wrong in either order, or
its two checksum bytes are equal and not both `0xFF`; the ack that `send_eof_ack_state` builds it
accepts exactly if its two checksum bytes are equal. -/
theorem eof_ack_accepted_iff (info : ServerInfo) (stale : Bytes) (a : SockAddr) :
    (∀ m : Bytes, 7 ≤ m.length → m.length ≤ MAXBUF →
      ((Accepts (.standard .little) info (safeRecvfrom stale MAXBUF ⟨a, m⟩)
          ↔ GenuineEofAck (.standard .little) info.eofSeq m)
        ↔ m.getD 6 0 ≠ 35 ∨ ntohl .little (loadU32 .little m) ≠ info.eofSeq
          ∨ inCksum .little m ≠ 0 ∧ inCksum .little (exchangeChecksum m) ≠ 0
          ∨ m.getD 4 0 = m.getD 5 0 ∧ m.getD 4 0 ≠ 255))
    ∧ (Accepts (.standard .little) info (safeRecvfrom stale MAXBUF
          ⟨a, createPDU (.standard .little) info.eofSeq 35 []⟩)
        ↔ (createPDU (.standard .little) info.eofSeq 35 []).getD 4 0
          = (createPDU (.standard .little) info.eofSeq 35 []).getD 5 0) :=
  ⟨fun _ h7 hmax => judged_rightly_iff h7 hmax, accepts_eof_ack_iff⟩

/-- The ack of an EOF numbered 35, whose two checksum bytes are equal, is judged rightly. -/
theorem eof_ack_accepted_thirtyFive :
    Accepts (.standard .little) ⟨⟨1, 1⟩, none, 1, 1, [], 35, 0⟩ (safeRecvfrom [] MAXBUF
        ⟨⟨1, 1⟩, createPDU (.standard .little) 35 35 []⟩)
      ∧ GenuineEofAck (.standard .little) 35 (createPDU (.standard .little) 35 35 []) := by
  have h := eof_ack_accepted_iff ⟨⟨1, 1⟩, none, 1, 1, [], 35, 0⟩ [] ⟨1, 1⟩
  have haccepts := h.2.mpr (by decide +kernel)
  have hiff := (h.1 (createPDU (.standard .little) 35 35 []) (by decide +kernel)
    (by decide +kernel)).mpr (by decide +kernel)
  exact ⟨haccepts, hiff.mp haccepts⟩

/-- The ack of an EOF numbered 3 is genuine and is not accepted. -/
theorem genuine_eof_ack_refused : ¬ ∀ (info : ServerInfo) (stale : Bytes) (a : SockAddr)
    (m : Bytes), 7 ≤ m.length → m.length ≤ MAXBUF →
      (Accepts (.standard .little) info (safeRecvfrom stale MAXBUF ⟨a, m⟩)
        ↔ GenuineEofAck (.standard .little) info.eofSeq m) := by
  intro h
  have haccepts := (h ⟨⟨1, 1⟩, none, 1, 1, [], 3, 0⟩ [] ⟨1, 1⟩
    (createPDU (.standard .little) 3 35 []) (by decide +kernel) (by decide +kernel)).mpr
    ⟨by decide +kernel, by decide +kernel, by decide +kernel⟩
  exact absurd haccepts (by unfold Accepts; decide +kernel)

end RemoteFileCopy
