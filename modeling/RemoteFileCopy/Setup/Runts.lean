import RemoteFileCopy.Client.Kept
import RemoteFileCopy.Server.EofAck
import RemoteFileCopy.Setup.Unchecked

/-!
# Setup/Runts — datagrams shorter than their header

    | received, n bytes | what the array held before, from byte n on |
                                          ▴ flag, at byte 6

The four receive loops only ask whether `bytesRecv` is negative.  A datagram of at least seven bytes
fills in every field they look at; of a shorter one they take the rest from earlier contents of the
array, and `bytesRecv - 7` is negative.  What a handler does with a datagram is a function of the
datagram exactly if it has a whole header — or, in `wait_on_ack_state` and `wait_on_eof_ack_state`,
if there is nothing its missing bytes could make of it (`handlers_oblivious_iff`).
-/

namespace RemoteFileCopy

open Transition

/-- **An effect of the bytes received only** — the same for any two earlier contents of an array of
`size` bytes, the first `len` of them handed to `recvfrom`. -/
def Oblivious {α : Type} (size len : ℕ) (d : Datagram) (effect : Received → α) : Prop :=
  ∀ stale stale' : Bytes, stale.length = size → stale'.length = size →
    effect (safeRecvfrom stale len d) = effect (safeRecvfrom stale' len d)

/-- The length `process_transfer_state` passes to `fwrite` or to `buffer_packet`. -/
def passedLength {W : ℕ} (host : Host) (state : TransferState) (info : ReceiveInfo W)
    (r : Received) : Option ℤ :=
  if IsDataFlag r.flag ∧ state ≠ .flush ∧ info.expected ≤ r.seqNum host then some (r.bytesRecv - 7)
  else none

/-- **An ack of a number finds nothing to do**: nothing below it is stored, and its slot is free and
still carries it. -/
def CircularQueue.Harmless {W : ℕ} (window : CircularQueue W) (s : UInt32) : Prop :=
  (∀ i, ¬ window.Due (s.toNat - 1) i)
    ∧ ∃ i : Fin W, s.toNat % W = i ∧ (window.entries i).valid = false
      ∧ (window.entries i).sequenceNum = s

/-- The number and the checksum of an EOF ack, as `wait_on_eof_ack_state` wants them in a datagram
of `n` bytes, up to six. -/
def eofAckHeader (host : Host) (eofSeq : UInt32) (n : ℕ) : Bytes :=
  storeU32 host.endian (htonl host.endian eofSeq)
    ++ storeU16 host.endian (htons host.endian (host.inCksum
      ((storeU32 host.endian (htonl host.endian eofSeq) ++ [0, 0]).take n)))

/-! ## Whole headers -/

/-- Two receptions that no handler tells apart. -/
structure Received.Alike (host : Host) (r r' : Received) : Prop where
  srcAddr : r.srcAddr = r'.srcAddr
  seqNum : r.seqNum host = r'.seqNum host
  checksum : loadU16 host.endian r.buffer 4 = loadU16 host.endian r'.buffer 4
  flag : r.flag = r'.flag
  bytesRecv : r.bytesRecv = r'.bytesRecv
  bytes : r.buffer.take r.bytesRecv = r'.buffer.take r'.bytesRecv

section Header

variable {host : Host} {r r' : Received} {d : Datagram} {len : ℕ} {W : ℕ}

/-- **A whole header leaves nothing of the earlier contents.** -/
theorem alike_of_header (host : Host) (h7 : 7 ≤ d.bytes.length) (hlen : 7 ≤ len)
    (stale stale' : Bytes) :
    (safeRecvfrom stale len d).Alike host (safeRecvfrom stale' len d) := by
  have hbyte (i : ℕ) (hi : i < 7) : (safeRecvfrom stale len d).buffer.getD i 0
      = (safeRecvfrom stale' len d).buffer.getD i 0 := by
    rw [getD_safeRecvfrom, getD_safeRecvfrom, if_pos (by omega), if_pos (by omega)]
  have hbytes (stale : Bytes) : (safeRecvfrom stale len d).buffer.take
      (safeRecvfrom stale len d).bytesRecv = d.bytes.take len :=
    List.take_left' (by rw [List.length_take, Nat.min_comm]; rfl)
  refine ⟨rfl, ?_, ?_, hbyte 6 (by omega), rfl, (hbytes stale).trans (hbytes stale').symm⟩
  · rw [Received.seqNum, Received.seqNum, loadU32, loadU32, hbyte 0 (by omega), hbyte 1 (by omega),
      hbyte 2 (by omega), hbyte 3 (by omega)]
  · rw [loadU16, loadU16, hbyte 4 (by omega), hbyte 5 (by omega)]

theorem Received.Alike.payload (h : r.Alike host r') : r.payload = r'.payload := by
  rw [Received.payload, Received.payload, ← List.drop_take, ← List.drop_take, h.bytes, h.bytesRecv]

theorem Received.Alike.processTransferState_eq [NeZero W] (h : r.Alike host r')
    (state : TransferState) (info : ReceiveInfo W) :
    processTransferState host state info r = processTransferState host state info r' := by
  simp only [processTransferState, h.srcAddr, h.seqNum, h.flag, h.payload]

theorem Received.Alike.waitOnAckState_eq (h : r.Alike host r') (window : CircularQueue W)
    (info : ServerInfo) :
    waitOnAckState host window info (some r) = waitOnAckState host window info (some r') := by
  simp only [waitOnAckState, h.srcAddr, h.seqNum, h.flag]

theorem Received.Alike.writeFileOkAckState_eq (h : r.Alike host r') (c : Child) :
    writeFileOkAckState c (some r) = writeFileOkAckState c (some r') := by
  simp only [writeFileOkAckState, h.srcAddr, h.flag]

theorem Received.Alike.waitOnEofAckState_eq (h : r.Alike host r') (info : ServerInfo) :
    waitOnEofAckState host info (some r) = waitOnEofAckState host info (some r') := by
  have hbytes := h.bytes
  rw [h.bytesRecv] at hbytes
  simp only [waitOnEofAckState, h.srcAddr, h.seqNum, h.flag, h.checksum, h.bytesRecv, hbytes]

end Header

/-! ## Runts -/

/-- An array of `size` bytes with six given bytes and a flag in front. -/
def leftover (size : ℕ) (header : Bytes) (flag : UInt8) : Bytes :=
  header ++ flag :: List.replicate (size - 7) 0

section Runt

variable {host : Host} {d : Datagram} {stale : Bytes} {len size : ℕ} {W : ℕ}

theorem length_leftover {header : Bytes} (hheader : header.length = 6) (hsize : 7 ≤ size)
    (flag : UInt8) : (leftover size header flag).length = size := by
  simp only [leftover, List.length_append, List.length_cons, List.length_replicate]
  omega

/-- **The flag of a runt is that of whatever was there before.** -/
theorem flag_runt (h : d.bytes.length < 7) :
    (safeRecvfrom stale len d).flag = stale.getD 6 0 := by
  rw [Received.flag, getD_safeRecvfrom, if_neg (by omega)]

theorem flag_runt_leftover (h : d.bytes.length < 7) {header : Bytes} (hheader : header.length = 6)
    (flag : UInt8) : (safeRecvfrom (leftover size header flag) len d).flag = flag := by
  rw [flag_runt h, leftover, List.getD_eq_getElem?_getD,
    List.getElem?_append_right hheader.le, hheader]
  rfl

/-- A runt that repeats the front of the array leaves it as it was. -/
theorem buffer_of_isPrefix (hlen : d.bytes.length ≤ len) (h : d.bytes <+: stale) :
    (safeRecvfrom stale len d).buffer = stale := by
  obtain ⟨rest, rfl⟩ := h
  simp only [safeRecvfrom, List.take_of_length_le hlen, Nat.min_eq_left hlen, List.drop_left]

theorem length_buffer (h : len ≤ stale.length) :
    (safeRecvfrom stale len d).buffer.length = stale.length := by
  simp only [safeRecvfrom, List.length_append, List.length_take, List.length_drop]
  omega

theorem take_prefix_buffer (k : ℕ) (hk : k ≤ len) :
    d.bytes.take k <+: (safeRecvfrom stale len d).buffer.take k := by
  have hpre : d.bytes.take len <+: (safeRecvfrom stale len d).buffer := List.prefix_append _ _
  have htake := hpre.take k
  rwa [List.take_take, Nat.min_eq_left hk] at htake

/-- The number of a reception is what its first four bytes spell. -/
theorem seqNum_eq_iff {r : Received} (h : 4 ≤ r.buffer.length) (s : UInt32) :
    r.seqNum host = s
      ↔ r.buffer.take 4 = storeU32 host.endian (htonl host.endian s) := by
  have hfour : r.buffer.take 4 = [r.buffer.getD 0 0, r.buffer.getD 1 0, r.buffer.getD 2 0,
      r.buffer.getD 3 0] := by
    match r.buffer, h with
    | _ :: _ :: _ :: _ :: _, _ => rfl
  rw [Received.seqNum, ntohl_loadU32_eq_iff, hfour]

/-- The number a runt is read with begins with the bytes received. -/
theorem take_prefix_seqNum (hstale : len ≤ stale.length) (hlen : 4 ≤ len) :
    d.bytes.take 4 <+: storeU32 host.endian
      (htonl host.endian ((safeRecvfrom stale len d).seqNum host)) := by
  have hlength := length_buffer (d := d) hstale
  rw [← (seqNum_eq_iff (by omega) _).mp rfl]
  exact take_prefix_buffer 4 hlen

/-- Any number that does may be the one. -/
theorem seqNum_of_isPrefix {s : UInt32} (hstale : len ≤ stale.length) (hlen : 4 ≤ len)
    (hs : d.bytes.take 4 <+: storeU32 host.endian (htonl host.endian s))
    (hfront : storeU32 host.endian (htonl host.endian s) <+: stale) :
    (safeRecvfrom stale len d).seqNum host = s := by
  have hlength := length_buffer (d := d) hstale
  have hfour := length_storeU32 host.endian (htonl host.endian s)
  rw [seqNum_eq_iff (by omega)]
  rcases Nat.lt_or_ge d.bytes.length 4 with hshort | hlong
  · rw [List.take_of_length_le hshort.le] at hs
    rw [buffer_of_isPrefix (by omega) (hs.trans hfront)]
    exact (hfour ▸ List.prefix_iff_eq_take.mp hfront).symm
  · have htake : (d.bytes.take 4).length = 4 := by rw [List.length_take]; omega
    have hpre : d.bytes.take 4 <+: (safeRecvfrom stale len d).buffer.take 4 :=
      take_prefix_buffer 4 hlen
    rw [← hpre.eq_of_length_le (by rw [htake, List.length_take]; omega)]
    exact hs.eq_of_length (htake.trans hfour.symm)

end Runt

/-! ## The four handlers -/

section Handlers

variable {host : Host} {d : Datagram} {W : ℕ}

/-- **`process_transfer_state`** — a runt is the end of the file where the array held an EOF, and
nothing where it did not. -/
theorem transfer_oblivious_iff [NeZero W] (state : TransferState) (info : ReceiveInfo W) :
    Oblivious (MAXBUF + 7) (MAXBUF + 7) d (processTransferState host state info)
      ↔ 7 ≤ d.bytes.length := by
  refine ⟨fun h => ?_, fun h7 stale stale' _ _ =>
    (alike_of_header host h7 (by decide) stale stale').processTransferState_eq state info⟩
  by_contra hlt
  have hflag (f : UInt8) : (safeRecvfrom (leftover (MAXBUF + 7) [0, 0, 0, 0, 0, 0] f) (MAXBUF + 7)
      d).flag = f := flag_runt_leftover (by omega) rfl f
  have heq := h (leftover (MAXBUF + 7) [0, 0, 0, 0, 0, 0] 10)
    (leftover (MAXBUF + 7) [0, 0, 0, 0, 0, 0] 0) (length_leftover rfl (by decide) _)
    (length_leftover rfl (by decide) _)
  rw [turn_eof host state (hflag 10), turn_other host state (by rw [hflag]; decide)
    (by rw [hflag]; decide)] at heq
  cases congrArg Prod.fst (Except.ok.inj heq)

/-- What it passes on of a datagram with a whole header has a length. -/
theorem passedLength_bounds (state : TransferState) (info : ReceiveInfo W)
    (h7 : 7 ≤ d.bytes.length) (stale : Bytes) {k : ℤ}
    (hk : passedLength host state info (safeRecvfrom stale (MAXBUF + 7) d) = some k) :
    0 ≤ k ∧ k ≤ MAXBUF := by
  rw [passedLength] at hk
  split at hk
  · obtain rfl := Option.some_inj.mp hk
    simp only [safeRecvfrom]
    omega
  · cases hk

/-- **`write_file_ok_ack_state`** — a runt is an ack where the array held one. -/
theorem fileOkAck_oblivious_iff (c : Child) :
    Oblivious MAXBUF MAXBUF d (fun r => writeFileOkAckState c (some r))
      ↔ 7 ≤ d.bytes.length := by
  refine ⟨fun h => ?_, fun h7 stale stale' _ _ =>
    (alike_of_header (.standard .little) h7 (by decide) stale stale').writeFileOkAckState_eq c⟩
  by_contra hlt
  have hflag (f : UInt8) :
      (safeRecvfrom (leftover MAXBUF [0, 0, 0, 0, 0, 0] f) MAXBUF d).flag = f :=
    flag_runt_leftover (by omega) rfl f
  have heq := h (leftover MAXBUF [0, 0, 0, 0, 0, 0] 34) (leftover MAXBUF [0, 0, 0, 0, 0, 0] 0)
    (length_leftover rfl (by decide) _) (length_leftover rfl (by decide) _)
  have hother := (writeFileOkAck_iff c).mpr (show (safeRecvfrom _ MAXBUF d).flag ≠ 34 by
    rw [hflag 0]; decide)
  dsimp only at heq
  rw [← heq, writeFileOkAck_iff] at hother
  exact hother (hflag 34)

/-- What `wait_on_ack_state` returns for an ack it ignores. -/
theorem eq_of_ackIgnored {window : CircularQueue W} {info : ServerInfo} {r : Received}
    (h : AckIgnored host window info r) : waitOnAckState host window info (some r)
      = .ok (.sendData, window, { info with clientAddr := r.srcAddr }, []) := by
  by_cases hrr : r.flag = 5
  · have hself := (ackIgnored_rr_iff window info hrr).mp h
    simp only [waitOnAckState, if_pos hrr, hself]
    rfl
  · by_cases hsrej : r.flag = 6
    · have hnone := (ackIgnored_srej_iff window info hsrej).mp h
      simp only [waitOnAckState, if_neg hrr, if_pos hsrej, hnone]
      rfl
    · simp only [waitOnAckState, if_neg hrr, if_neg hsrej]
      rfl

/-- An ack of a harmless number is ignored, whatever its flag. -/
theorem CircularQueue.Harmless.ackIgnored {window : CircularQueue W} {r : Received}
    (h : window.Harmless (r.seqNum host)) (info : ServerInfo) :
    AckIgnored host window info r := by
  obtain ⟨hdue, i, hi, hfree, hseq⟩ := h
  rw [ackIgnored_iff]
  exact ⟨fun _ => ⟨fun hW => absurd i.pos (by omega), hdue⟩, fun _ => ⟨i, hi, hfree, hseq⟩⟩

/-- **`wait_on_ack_state`** — a runt may be an ack of any number its bytes begin. -/
theorem ack_oblivious_iff (window : CircularQueue W) (info : ServerInfo) :
    Oblivious MAXBUF 7 d (fun r => waitOnAckState host window info (some r))
      ↔ 7 ≤ d.bytes.length ∨ ∀ s : UInt32,
        d.bytes.take 4 <+: storeU32 host.endian (htonl host.endian s) → window.Harmless s := by
  constructor
  · intro h
    refine or_iff_not_imp_left.mpr fun hlt s hs => ?_
    have hheader : (storeU32 host.endian (htonl host.endian s) ++ [0, 0]).length = 6 := by simp
    let stale (f : UInt8) : Bytes :=
      leftover MAXBUF (storeU32 host.endian (htonl host.endian s) ++ [0, 0]) f
    have hlength (f : UInt8) : (stale f).length = MAXBUF := length_leftover hheader (by decide) f
    have hflag (f : UInt8) : (safeRecvfrom (stale f) 7 d).flag = f :=
      flag_runt_leftover (by omega) hheader f
    have hseq (f : UInt8) : (safeRecvfrom (stale f) 7 d).seqNum host = s := by
      refine seqNum_of_isPrefix (by rw [hlength]; decide) (by decide) hs ?_
      exact (List.prefix_append _ _).trans (List.prefix_append _ _)
    have hzero : AckIgnored host window info (safeRecvfrom (stale 0) 7 d) :=
      ackIgnored_of_other window info (by rw [hflag]; decide) (by rw [hflag]; decide)
    have hnothing (f : UInt8) : NothingToDo host window (safeRecvfrom (stale f) 7 d) := by
      obtain ⟨state, info', hother⟩ := hzero
      rw [← ackIgnored_iff window info]
      exact ⟨state, info', (h _ _ (hlength f) (hlength 0)).trans hother⟩
    obtain ⟨-, hdue⟩ := (hnothing 5).1 (hflag 5)
    have hfree := (hnothing 6).2 (hflag 6)
    rw [hseq] at hdue hfree
    exact ⟨hdue, hfree⟩
  · rintro (h7 | hharmless) stale stale' hstale hstale'
    · exact (alike_of_header host h7 le_rfl stale stale').waitOnAckState_eq window info
    · have hignored (stale : Bytes) (hstale : stale.length = MAXBUF) :
          AckIgnored host window info (safeRecvfrom stale 7 d) :=
        (hharmless _ (take_prefix_seqNum (by rw [hstale]; decide) (by decide))).ackIgnored info
      exact (eq_of_ackIgnored (hignored stale hstale)).trans
        (eq_of_ackIgnored (hignored stale' hstale')).symm

/-- **What `wait_on_eof_ack_state` makes of a runt** — an ack, if flag, number and checksum are in
the array. -/
theorem accepts_runt_iff {info : ServerInfo} {r : Received} (h7 : 7 ≤ r.buffer.length)
    (hn : r.bytesRecv < 7) : Accepts host info r
      ↔ r.flag = 35 ∧ r.buffer.take 6 = eofAckHeader host info.eofSeq r.bytesRecv := by
  obtain ⟨s₀, s₁, s₂, s₃, c₀, c₁, f, p, hm⟩ := exists_header h7
  have htemp : (writeAt (r.buffer.take r.bytesRecv) 4 [0, 0]).take r.bytesRecv
      = ([s₀, s₁, s₂, s₃] ++ [0, 0]).take r.bytesRecv := by
    rw [hm]
    generalize r.bytesRecv = n at hn
    match n, hn with
    | 0, _ | 1, _ | 2, _ | 3, _ | 4, _ | 5, _ | 6, _ => rfl
  have hnumber : r.seqNum host = info.eofSeq
      ↔ [s₀, s₁, s₂, s₃] = storeU32 host.endian (htonl host.endian info.eofSeq) := by
    rw [seqNum_eq_iff (by omega), hm]
    rfl
  have hchecksum (c : UInt16) : ntohs host.endian (loadU16 host.endian r.buffer 4) = c
      ↔ [c₀, c₁] = storeU16 host.endian (htons host.endian c) := by
    rw [ntohs_loadU16_eq_iff, hm]
    rfl
  have htake : r.buffer.take 6 = [s₀, s₁, s₂, s₃] ++ [c₀, c₁] := by rw [hm]; rfl
  have hiff : Accepts host info r ↔ r.flag = 35 ∧ r.seqNum host = info.eofSeq
      ∧ ntohs host.endian (loadU16 host.endian r.buffer 4)
        = host.inCksum (([s₀, s₁, s₂, s₃] ++ [0, 0]).take r.bytesRecv) := by
    simp only [Accepts, waitOnEofAckState, htemp]
    split
    case isTrue h => exact iff_of_true rfl h
    case isFalse h => exact iff_of_false ServerState.noConfusion h
  rw [hiff, hnumber, hchecksum, htake, eofAckHeader]
  refine and_congr_right fun _ => ⟨?_, fun h => ?_⟩
  · rintro ⟨hnet, hsum⟩
    rw [← hnet, ← hsum]
  · obtain ⟨hnet, hsum⟩ := List.append_inj h (by simp)
    exact ⟨hnet, by rwa [← hnet] at hsum⟩

/-- The number and the checksum are those of the array, from the last byte received on. -/
theorem accepts_safeRecvfrom_iff {info : ServerInfo} {stale : Bytes}
    (hstale : stale.length = MAXBUF + 7) (hlt : d.bytes.length < 7) :
    Accepts host info (safeRecvfrom stale MAXBUF d)
      ↔ (safeRecvfrom stale MAXBUF d).flag = 35 ∧ (safeRecvfrom stale MAXBUF d).buffer.take 6
        = eofAckHeader host info.eofSeq d.bytes.length := by
  have hmax : MAXBUF = 1400 := rfl
  have hbytesRecv : (safeRecvfrom stale MAXBUF d).bytesRecv = d.bytes.length := by
    simp only [safeRecvfrom]
    omega
  rw [accepts_runt_iff (by rw [length_buffer (by omega)]; omega) (by omega), hbytesRecv]

/-- What it returns for any other datagram. -/
theorem eq_of_not_accepts {info : ServerInfo} {r : Received} (h : ¬ Accepts host info r) :
    waitOnEofAckState host info (some r)
      = (.waitOnEofAck, { info with clientAddr := r.srcAddr }) := by
  rw [Accepts] at h
  simp only [waitOnEofAckState] at h ⊢
  split
  case isTrue hack => rw [if_pos hack] at h; exact absurd rfl h
  case isFalse => rfl

/-- **`wait_on_eof_ack_state`** — a runt is an ack where the array holds the rest of one. -/
theorem eofAck_oblivious_iff (info : ServerInfo) :
    Oblivious (MAXBUF + 7) MAXBUF d (fun r => waitOnEofAckState host info (some r))
      ↔ 7 ≤ d.bytes.length
        ∨ ¬ d.bytes <+: eofAckHeader host info.eofSeq d.bytes.length := by
  have hmax : MAXBUF = 1400 := rfl
  constructor
  · refine fun h => or_iff_not_imp_left.mpr fun hge hpre => ?_
    have hlt : d.bytes.length < 7 := by omega
    have hheader : (eofAckHeader host info.eofSeq d.bytes.length).length = 6 := by
      simp [eofAckHeader]
    let stale (f : UInt8) : Bytes :=
      leftover (MAXBUF + 7) (eofAckHeader host info.eofSeq d.bytes.length) f
    have hlength (f : UInt8) : (stale f).length = MAXBUF + 7 :=
      length_leftover hheader (by decide) f
    have hflag (f : UInt8) : (safeRecvfrom (stale f) MAXBUF d).flag = f :=
      flag_runt_leftover hlt hheader f
    have hbuffer (f : UInt8) : (safeRecvfrom (stale f) MAXBUF d).buffer = stale f :=
      buffer_of_isPrefix (by omega) (hpre.trans (List.prefix_append _ _))
    have hack := (accepts_safeRecvfrom_iff (hlength 35) hlt).mpr
      ⟨hflag 35, by rw [hbuffer]; exact List.take_left' hheader⟩
    have heq := h _ _ (hlength 35) (hlength 0)
    dsimp only at heq
    rw [Accepts, heq] at hack
    have hzero := ((accepts_safeRecvfrom_iff (hlength 0) hlt).mp hack).1
    rw [hflag] at hzero
    cases hzero
  · rintro (h7 | hpre) stale stale' hstale hstale'
    · exact (alike_of_header host h7 (by decide) stale stale').waitOnEofAckState_eq info
    · by_cases h7 : 7 ≤ d.bytes.length
      · exact (alike_of_header host h7 (by decide) stale stale').waitOnEofAckState_eq info
      · have hrefused (stale : Bytes) (hstale : stale.length = MAXBUF + 7) :
            waitOnEofAckState host info (some (safeRecvfrom stale MAXBUF d))
              = (.waitOnEofAck, { info with clientAddr := d.srcAddr }) := by
          refine eq_of_not_accepts fun hack => hpre ?_
          have hfields := ((accepts_safeRecvfrom_iff hstale (by omega)).mp hack).2
          have hreceived : d.bytes.take 6 <+: (safeRecvfrom stale MAXBUF d).buffer.take 6 :=
            take_prefix_buffer 6 (by decide)
          rwa [List.take_of_length_le (by omega), hfields] at hreceived
        exact (hrefused stale hstale).trans (hrefused stale' hstale').symm

end Handlers

/-! ## When a handler looks at the bytes received only -/

/-- **When the effect of a handler depends only on the bytes received** — in
`process_transfer_state`, whose lengths then have a sign, and in `write_file_ok_ack_state` exactly
if the header is whole; in `wait_on_ack_state`, if the header is whole or an ack of any number the
datagram begins finds nothing to do; in `wait_on_eof_ack_state`, if it is whole or the datagram does
not begin an ack of the EOF. -/
theorem handlers_oblivious_iff (host : Host) (d : Datagram) :
    (∀ (W : ℕ) [NeZero W] (state : TransferState) (info : ReceiveInfo W),
      (Oblivious (MAXBUF + 7) (MAXBUF + 7) d (processTransferState host state info)
        ∧ ∀ stale : Bytes, stale.length = MAXBUF + 7 → ∀ k : ℤ,
          passedLength host state info (safeRecvfrom stale (MAXBUF + 7) d) = some k →
            0 ≤ k ∧ k ≤ MAXBUF)
        ↔ 7 ≤ d.bytes.length)
    ∧ (∀ (W : ℕ) (window : CircularQueue W) (info : ServerInfo),
      Oblivious MAXBUF 7 d (fun r => waitOnAckState host window info (some r))
        ↔ 7 ≤ d.bytes.length ∨ ∀ s : UInt32,
          d.bytes.take 4 <+: storeU32 host.endian (htonl host.endian s) → window.Harmless s)
    ∧ (∀ c : Child, Oblivious MAXBUF MAXBUF d (fun r => writeFileOkAckState c (some r))
        ↔ 7 ≤ d.bytes.length)
    ∧ ∀ info : ServerInfo,
      Oblivious (MAXBUF + 7) MAXBUF d (fun r => waitOnEofAckState host info (some r))
        ↔ 7 ≤ d.bytes.length
          ∨ ¬ d.bytes <+: eofAckHeader host info.eofSeq d.bytes.length := by
  refine ⟨fun W _ state info => ⟨fun h => (transfer_oblivious_iff state info).mp h.1, fun h7 => ?_⟩,
    fun _ window info => ack_oblivious_iff window info, fileOkAck_oblivious_iff,
    eofAck_oblivious_iff⟩
  exact ⟨(transfer_oblivious_iff state info).mpr h7,
    fun stale _ _ hk => passedLength_bounds state info h7 stale hk⟩

/-- **Datagrams that arrive in one array**, each on top of what the ones before it have left. -/
def reusedArray (stale : Bytes) : List Datagram → List Arrival
  | [] => []
  | d :: ds => ⟨stale, d⟩ :: reusedArray (safeRecvfrom stale (MAXBUF + 7) d).buffer ds

/-- **An empty datagram repeats what came before it.**  Packets 2, 1 and 3 leave the receiver in
order and waiting for 3, which its flush has thrown away, and the header of 3 in the array: an empty
datagram is taken for packet 3, and `fwrite` is passed a length of -7.  In an array of zeros it
changes nothing.  The array of `write_file_ok_ack_state` holds whatever was on the stack, and an
empty datagram is an ack of the file if that has a 34 at byte 6. -/
theorem empty_datagram_reads_leftovers :
    (∃ (es : List (Edge (Client 4) Arrival (List Send))) (c : Client 4) (empty : Arrival),
      Run (clientMachine 4 (.standard .little)) (fun _ _ => True) (Client.enter 4 ⟨0, 0⟩) es c
        ∧ (es.map Edge.event).reverse ++ [empty]
          = reusedArray (List.replicate (MAXBUF + 7) 0) [(packetArrival 2).datagram,
              (packetArrival 1).datagram, (packetArrival 3).datagram, ⟨⟨1, 1⟩, []⟩]
        ∧ c.pc = .receiving .inOrder
        ∧ passedLength (.standard .little) .inOrder c.info empty.received = some (-7)
        ∧ (c.step (.standard .little) empty.stale empty.datagram).map (·.1.pc)
          = some (.aborted .negativeLength)
        ∧ (c.step (.standard .little) (List.replicate (MAXBUF + 7) 0) empty.datagram).map (·.1.pc)
          = some (.receiving .inOrder))
    ∧ ∃ (c : Child) (stale stale' : Bytes), stale.length = MAXBUF ∧ stale'.length = MAXBUF
        ∧ (writeFileOkAckState c (some (safeRecvfrom stale MAXBUF ⟨⟨1, 1⟩, []⟩))).pc
          = .next .sendData
        ∧ (writeFileOkAckState c (some (safeRecvfrom stale' MAXBUF ⟨⟨1, 1⟩, []⟩))).pc
          = .next .writeFileOkAck := by
  constructor
  · let zeros : Bytes := List.replicate (MAXBUF + 7) 0
    let arrivals := reusedArray zeros [(packetArrival 2).datagram, (packetArrival 1).datagram,
      (packetArrival 3).datagram, ⟨⟨1, 1⟩, []⟩]
    let empty : Arrival := ⟨(safeRecvfrom zeros (MAXBUF + 7) (packetArrival 3).datagram).buffer,
      ⟨⟨1, 1⟩, []⟩⟩
    obtain ⟨es, c, run, h⟩ := exists_run_of_replay (M := clientMachine 4 (.standard .little))
      (G := fun _ _ => True) (s := Client.enter 4 ⟨0, 0⟩) (arrivals.take 3)
      (P := fun es c => (es.map Edge.event).reverse ++ [empty] = arrivals
        ∧ c.pc = .receiving .inOrder
        ∧ passedLength (.standard .little) .inOrder c.info empty.received = some (-7)
        ∧ (c.step (.standard .little) empty.stale empty.datagram).map (·.1.pc)
          = some (.aborted .negativeLength)
        ∧ (c.step (.standard .little) zeros empty.datagram).map (·.1.pc)
          = some (.receiving .inOrder)) (by decide +kernel)
    exact ⟨es, c, empty, run, of_decide_eq_true h⟩
  · exact ⟨⟨.next .writeFileOkAck, .ofClient ⟨1, 1⟩, 0⟩, leftover MAXBUF [0, 0, 0, 0, 0, 0] 34,
      leftover MAXBUF [0, 0, 0, 0, 0, 0] 0, by decide +kernel⟩

end RemoteFileCopy
