import RemoteFileCopy.Wire.Checksum

/-!
# Wire/Pdu — datagrams, receive buffers and the PDU format

    | sequence number, 4 | checksum, 2 | flag, 1 | payload |

`createPDU` writes the sequence number in network order and the checksum in *host* order; `sendRr`
and `sendSrej` build the same seven bytes by hand, and `printPDU` and the receive loops take them
apart again.  A receive writes over the front of an array that keeps its old contents behind what
arrived (`safeRecvfrom`), and every field is read from the array, not from the datagram.
-/

namespace RemoteFileCopy

/-- The largest payload. -/
def MAXBUF : ℕ := 1400

/-- What the programs take from the machine they run on: its byte order, and the external
`in_cksum`. -/
structure Host where
  endian : Endian
  inCksum : Bytes → UInt16

/-- A host whose `in_cksum` is the standard Internet checksum. -/
def Host.standard (e : Endian) : Host := ⟨e, RemoteFileCopy.inCksum e⟩

@[simp] theorem Host.endian_standard (e : Endian) : (Host.standard e).endian = e := rfl

@[simp] theorem Host.inCksum_standard (e : Endian) (m : Bytes) :
    (Host.standard e).inCksum m = RemoteFileCopy.inCksum e m := rfl

/-- A `sockaddr_in6`, as far as the programs look at it: it is copied and compared. -/
structure SockAddr where
  host : ℕ
  port : UInt16
  deriving DecidableEq, Repr

/-- A datagram, with the address it came from. -/
structure Datagram where
  srcAddr : SockAddr
  bytes : Bytes
  deriving DecidableEq, Repr

/-- One call of `sendtoErr`. -/
structure Send where
  dest : SockAddr
  pdu : Bytes
  deriving DecidableEq, Repr

/-- What stops a program that C does not: undefined behaviour the source can run into. -/
inductive Fault
  /-- `memcpy` out of a `NULL` packet. -/
  | nullPacket
  /-- A negative length handed to `memcpy` or `fwrite`. -/
  | negativeLength
  /-- A write past the end of an array. -/
  | overflow
  /-- A remainder by zero. -/
  | divideByZero
  /-- A read from a `FILE` that is `NULL`. -/
  | nullFile
  deriving DecidableEq, Repr

/-- A sequence of two computations succeeds if both do. -/
theorem bind_eq_ok {α β : Type} {x : Except Fault α} {f : α → Except Fault β} {b : β} :
    (x >>= f) = .ok b ↔ ∃ a, x = .ok a ∧ f a = .ok b := by
  cases x with
  | error fault => simp [bind, Except.bind]
  | ok a => simp [bind, Except.bind]

/-! ## Encoders -/

/-- **`createPDU`** — its return value is the length of the list. -/
def createPDU (host : Host) (sequenceNumber : UInt32) (flag : UInt8) (payload : Bytes) : Bytes :=
  let sequenceNumberNetwork := htonl host.endian sequenceNumber
  let pduBuffer := storeU32 host.endian sequenceNumberNetwork ++ storeU16 host.endian 0
    ++ [flag] ++ payload
  let ckSum := host.inCksum pduBuffer
  writeAt pduBuffer 4 (storeU16 host.endian ckSum)

/-- The seven bytes `send_rr` and `send_srej` fill in by hand. -/
def controlPDU (host : Host) (flag : UInt8) (seq : UInt32) : Bytes :=
  let netSeq := htonl host.endian seq
  let pdu := storeU32 host.endian netSeq ++ [0, 0] ++ [flag]
  let checksum := host.inCksum pdu
  writeAt pdu 4 (storeU16 host.endian checksum)

/-- The PDU of `send_rr`. -/
def rrPDU (host : Host) (next : UInt32) : Bytes := controlPDU host 5 next

/-- The PDU of `send_srej`. -/
def srejPDU (host : Host) (missingSeq : UInt32) : Bytes := controlPDU host 6 missingSeq

/-! ## Receiving -/

/-- A receive array after `recvfrom` returned `bytesRecv`, and the source address it filled in. -/
structure Received where
  srcAddr : SockAddr
  buffer : Bytes
  bytesRecv : ℕ

/-- **`safeRecvfrom`** — at most `len` bytes of the datagram go to the front of the array, whose
earlier contents `stale` stay behind them.  A failing `recvfrom` exits, so none is returned. -/
def safeRecvfrom (stale : Bytes) (len : ℕ) (d : Datagram) : Received where
  srcAddr := d.srcAddr
  buffer := d.bytes.take len ++ stale.drop (min d.bytes.length len)
  bytesRecv := min d.bytes.length len

/-- The sequence number a receive loop extracts. -/
def Received.seqNum (host : Host) (r : Received) : UInt32 :=
  ntohl host.endian (loadU32 host.endian r.buffer)

/-- The flag a receive loop extracts. -/
def Received.flag (r : Received) : UInt8 := r.buffer.getD 6 0

/-- The payload a receive loop passes on: `bytesRecv - 7` bytes from `packet + 7`.  The length is
computed in `int`, and below the header it is negative. -/
def Received.payload (r : Received) : Except Fault Bytes :=
  if r.bytesRecv < 7 then .error .negativeLength
  else .ok ((r.buffer.drop 7).take (r.bytesRecv - 7))

/-- **A receive array, byte by byte** — what arrived, and behind it what was there. -/
theorem getD_safeRecvfrom (stale : Bytes) (len : ℕ) (d : Datagram) (i : ℕ) :
    (safeRecvfrom stale len d).buffer.getD i 0
      = if i < min d.bytes.length len then d.bytes.getD i 0 else stale.getD i 0 := by
  simp only [safeRecvfrom, List.getD_eq_getElem?_getD, List.getElem?_append, List.length_take,
    List.getElem?_drop, Nat.min_comm len]
  split
  case isTrue hi => rw [List.getElem?_take_of_lt (by omega)]
  case isFalse hi => rw [Nat.add_sub_cancel' (by omega)]

/-- The three fields of a PDU that anyone looks at. -/
structure Fields where
  seqNum : UInt32
  flag : UInt8
  payload : Bytes
  deriving DecidableEq, Repr

/-- **`printPDU`** — `none` where it exits on a bad checksum, else the fields it prints. -/
def printPDU (host : Host) (aPDU : Bytes) : Option Fields :=
  if host.inCksum aPDU ≠ 0 then none
  else some
    { seqNum := ntohl host.endian (loadU32 host.endian aPDU)
      flag := aPDU.getD 6 0
      payload := aPDU.drop 7 }

/-! ## The layout of a PDU -/

section Layout

variable (host : Host) (s : UInt32) (f : UInt8) (p : Bytes)

/-- What `createPDU` runs the checksum over: the PDU with its checksum field still zero. -/
def zeroedPDU : Bytes :=
  storeU32 host.endian (htonl host.endian s) ++ (storeU16 host.endian 0 ++ f :: p)

/-- **The layout** — sequence number, checksum, flag, payload. -/
theorem createPDU_eq :
    createPDU host s f p = storeU32 host.endian (htonl host.endian s)
      ++ (storeU16 host.endian (host.inCksum (zeroedPDU host s f p)) ++ f :: p) := by
  have h := writeAt_field (storeU32 host.endian (htonl host.endian s)) (storeU16 host.endian 0)
    (storeU16 host.endian (host.inCksum (zeroedPDU host s f p))) (f :: p) (by simp)
  rw [length_storeU32] at h
  simpa [createPDU, zeroedPDU] using h

@[simp] theorem length_createPDU : (createPDU host s f p).length = p.length + 7 := by
  simp [createPDU_eq]
  omega

/-- **The hand-built control PDUs are those of `createPDU`** with an empty payload. -/
theorem controlPDU_eq : controlPDU host f s = createPDU host s f [] := by
  have hzero : storeU16 host.endian 0 = [0, 0] := by cases host.endian <;> rfl
  simp only [controlPDU, createPDU, hzero, List.append_nil]

/-- The header in front of the payload, with the bytes of the checksum named. -/
theorem createPDU_header : ∃ c₀ c₁ : UInt8, createPDU host s f p
    = storeU32 host.endian (htonl host.endian s) ++ c₀ :: c₁ :: f :: p := by
  rw [createPDU_eq]
  cases host.endian <;> exact ⟨_, _, rfl⟩

/-! ### Reading the fields back -/

theorem loadU32_header (c₀ c₁ : UInt8) (m : Bytes) :
    ntohl host.endian (loadU32 host.endian
      (storeU32 host.endian (htonl host.endian s) ++ c₀ :: c₁ :: f :: m)) = s := by
  rw [loadU32_store, ntohl_htonl]

theorem flag_header (c₀ c₁ : UInt8) (m : Bytes) :
    (storeU32 host.endian (htonl host.endian s) ++ c₀ :: c₁ :: f :: m).getD 6 0 = f := by
  cases host.endian <;> rfl

theorem drop_header (c₀ c₁ : UInt8) (m : Bytes) :
    (storeU32 host.endian (htonl host.endian s) ++ c₀ :: c₁ :: f :: m).drop 7 = m := by
  cases host.endian <;> rfl

@[simp] theorem loadU32_createPDU :
    ntohl host.endian (loadU32 host.endian (createPDU host s f p)) = s := by
  obtain ⟨c₀, c₁, h⟩ := createPDU_header host s f p
  rw [h, loadU32_header]

/-- The flag of a PDU, at its place. -/
@[simp] theorem getD_createPDU : (createPDU host s f p).getD 6 0 = f := by
  obtain ⟨c₀, c₁, h⟩ := createPDU_header host s f p
  rw [h, flag_header]

@[simp] theorem drop_createPDU : (createPDU host s f p).drop 7 = p := by
  obtain ⟨c₀, c₁, h⟩ := createPDU_header host s f p
  rw [h, drop_header]

variable (stale : Bytes) (a : SockAddr) {len : ℕ}

/-- A receive into an array with room for the header keeps the header. -/
theorem safeRecvfrom_createPDU_buffer (hlen : 7 ≤ len) : ∃ c₀ c₁ : UInt8,
    (safeRecvfrom stale len ⟨a, createPDU host s f p⟩).buffer
      = storeU32 host.endian (htonl host.endian s)
        ++ c₀ :: c₁ :: f :: (p.take (len - 7) ++ stale.drop (min (p.length + 7) len)) := by
  obtain ⟨c₀, c₁, h⟩ := createPDU_header host s f p
  refine ⟨c₀, c₁, ?_⟩
  have hl : (createPDU host s f p).length = p.length + 7 := length_createPDU host s f p
  obtain ⟨k, rfl⟩ := Nat.exists_eq_add_of_le hlen
  have htake : (createPDU host s f p).take (7 + k)
      = storeU32 host.endian (htonl host.endian s) ++ c₀ :: c₁ :: f :: p.take k := by
    rw [h, show 7 + k = (storeU32 host.endian (htonl host.endian s)).length + (k + 3) by
      rw [length_storeU32]; omega, List.take_length_add_append]
    rfl
  simp only [safeRecvfrom, htake, hl, Nat.add_sub_cancel_left, List.append_assoc,
    List.cons_append]

@[simp] theorem seqNum_safeRecvfrom (hlen : 7 ≤ len) :
    (safeRecvfrom stale len ⟨a, createPDU host s f p⟩).seqNum host = s := by
  obtain ⟨c₀, c₁, h⟩ := safeRecvfrom_createPDU_buffer host s f p stale a hlen
  rw [Received.seqNum, h, loadU32_header]

@[simp] theorem flag_safeRecvfrom (hlen : 7 ≤ len) :
    (safeRecvfrom stale len ⟨a, createPDU host s f p⟩).flag = f := by
  obtain ⟨c₀, c₁, h⟩ := safeRecvfrom_createPDU_buffer host s f p stale a hlen
  rw [Received.flag, h, flag_header]

/-- A control PDU is received with its number. -/
theorem seqNum_controlPDU (hlen : 7 ≤ len) :
    (safeRecvfrom stale len ⟨a, controlPDU host f s⟩).seqNum host = s := by
  rw [controlPDU_eq, seqNum_safeRecvfrom _ _ _ _ _ _ hlen]

/-- A control PDU is received with its flag. -/
theorem flag_controlPDU (hlen : 7 ≤ len) :
    (safeRecvfrom stale len ⟨a, controlPDU host f s⟩).flag = f := by
  rw [controlPDU_eq, flag_safeRecvfrom _ _ _ _ _ _ hlen]

/-- **A PDU that fits the array is received with its payload.** -/
@[simp] theorem payload_safeRecvfrom (hlen : p.length + 7 ≤ len) :
    (safeRecvfrom stale len ⟨a, createPDU host s f p⟩).payload = .ok p := by
  obtain ⟨c₀, c₁, h⟩ := safeRecvfrom_createPDU_buffer host s f p stale a
    (show 7 ≤ len by omega)
  have hn : (safeRecvfrom stale len ⟨a, createPDU host s f p⟩).bytesRecv = p.length + 7 := by
    simp only [safeRecvfrom, length_createPDU]
    omega
  have hp : p.length ≤ len - 7 := by omega
  rw [Received.payload, if_neg (by omega), h, drop_header, hn, Nat.add_sub_cancel,
    List.take_of_length_le hp, List.take_append_length]

end Layout

/-! ## Encode, decode and error detection -/

section Standard

variable (e : Endian) (s : UInt32) (f : UInt8) (p : Bytes)

/-- **Every PDU checks out**: its word sum is that of the zeroed PDU plus the stored checksum. -/
theorem inCksum_createPDU (hp : p.length ≤ MAXBUF) :
    inCksum e (createPDU (.standard e) s f p) = 0 := by
  have hmax : MAXBUF = 1400 := rfl
  have hz : (zeroedPDU (.standard e) s f p).length = p.length + 7 := by
    simp [zeroedPDU]
    omega
  refine inCksum_eq_zero_of_wordSum (m := zeroedPDU (.standard e) s f p) (by omega)
    (by rw [length_createPDU]; omega) ?_
  simp only [createPDU_eq, zeroedPDU, Host.endian_standard, Host.inCksum_standard,
    wordSum_storeU32_append, wordSum_storeU16_append, UInt16.toNat_zero]
  omega

theorem printPDU_createPDU (hp : p.length ≤ MAXBUF) :
    printPDU (.standard e) (createPDU (.standard e) s f p) = some ⟨s, f, p⟩ := by
  have hc : (Host.standard e).inCksum (createPDU (.standard e) s f p) = 0 :=
    inCksum_createPDU e s f p hp
  rw [printPDU, if_neg (by simpa using hc), loadU32_createPDU, getD_createPDU, drop_createPDU]

/-- **Encode, decode and detect.**  A PDU has seven bytes more than its payload and checks out; both
decoders give back its three fields; no flipped bit goes unnoticed; and the two hand-built control
PDUs are `createPDU`'s own. -/
theorem createPDU_round_trip (stale : Bytes) (a : SockAddr) (hp : p.length ≤ MAXBUF) :
    (createPDU (.standard e) s f p).length = p.length + 7
      ∧ inCksum e (createPDU (.standard e) s f p) = 0
      ∧ printPDU (.standard e) (createPDU (.standard e) s f p) = some ⟨s, f, p⟩
      ∧ (safeRecvfrom stale (MAXBUF + 7) ⟨a, createPDU (.standard e) s f p⟩).seqNum (.standard e)
          = s
      ∧ (safeRecvfrom stale (MAXBUF + 7) ⟨a, createPDU (.standard e) s f p⟩).flag = f
      ∧ (safeRecvfrom stale (MAXBUF + 7) ⟨a, createPDU (.standard e) s f p⟩).payload = .ok p
      ∧ (∀ i < 8 * (p.length + 7), inCksum e (flipBit i (createPDU (.standard e) s f p)) ≠ 0)
      ∧ rrPDU (.standard e) s = createPDU (.standard e) s 5 []
      ∧ srejPDU (.standard e) s = createPDU (.standard e) s 6 [] := by
  have hmax : MAXBUF = 1400 := rfl
  have hlen := length_createPDU (.standard e) s f p
  have hck := inCksum_createPDU e s f p hp
  refine ⟨hlen, hck, printPDU_createPDU e s f p hp, seqNum_safeRecvfrom _ _ _ _ _ _ (by omega),
    flag_safeRecvfrom _ _ _ _ _ _ (by omega), payload_safeRecvfrom _ _ _ _ _ _ (by omega),
    fun i hi => ?_, controlPDU_eq _ _ _, controlPDU_eq _ _ _⟩
  exact inCksum_flipBit_ne_zero (by omega) hck (by omega)

/-- The round trip of a three-byte payload: an odd PDU, padded for the checksum. -/
theorem createPDU_round_trip_abc :
    inCksum .little (createPDU (.standard .little) 7 16 [97, 98, 99]) = 0
      ∧ inCksum .little (flipBit 60 (createPDU (.standard .little) 7 16 [97, 98, 99])) ≠ 0 := by
  have h := createPDU_round_trip .little 7 16 [97, 98, 99] [] ⟨0, 0⟩ (by decide)
  exact ⟨h.2.1, h.2.2.2.2.2.2.1 60 (by decide)⟩

end Standard

end RemoteFileCopy
