import RemoteFileCopy.Wire.Pdu

/-!
# Wire/ByteOrder — the same bytes on either host

    sequence number, sizes   htonl, htons, then memcpy      network order on either host
    checksum                 in_cksum, then memcpy          ?

`createPDU` stores the checksum in the order of the host.  But `in_cksum` has read the PDU in that
order too, and to read it in the other order multiplies the word sum by 256 modulo `65535`, which
swaps the bytes of the folded sum (`EndAround.foldTwice_mul`).  The two cancel: a PDU has the same
bytes on either host (`createPDU_standard`).
-/

namespace RemoteFileCopy

/-! ## Integers -/

theorem storeU16_htons (e : Endian) (x : UInt16) : storeU16 e (htons e x) = storeU16 .big x := by
  have hhigh : x.toNat / 256 < 256 := Nat.div_lt_of_lt_mul x.toNat_lt
  have hlow : x.toNat % 256 < 256 := Nat.mod_lt _ (by omega)
  cases e with
  | big => rfl
  | little =>
    simp only [storeU16, htons, toNat_swapU16, List.cons.injEq, and_true, ← UInt8.toNat_inj,
      UInt8.toNat_ofNat', Nat.reducePow]
    generalize x.toNat / 256 = high at *
    generalize x.toNat % 256 = low at *
    omega

theorem storeU32_htonl (e : Endian) (x : UInt32) : storeU32 e (htonl e x) = storeU32 .big x := by
  have h₀ : x.toNat % 256 < 256 := Nat.mod_lt _ (by omega)
  have h₁ : x.toNat / 256 % 256 < 256 := Nat.mod_lt _ (by omega)
  have h₂ : x.toNat / 65536 % 256 < 256 := Nat.mod_lt _ (by omega)
  have h₃ : x.toNat / 16777216 < 256 := Nat.div_lt_of_lt_mul x.toNat_lt
  cases e with
  | big => rfl
  | little =>
    simp only [storeU32, htonl, toNat_swapU32, List.cons.injEq, and_true, ← UInt8.toNat_inj,
      UInt8.toNat_ofNat', Nat.reducePow]
    -- what is left is about the four digits
    generalize x.toNat % 256 = d₀ at *
    generalize x.toNat / 256 % 256 = d₁ at *
    generalize x.toNat / 65536 % 256 = d₂ at *
    generalize x.toNat / 16777216 = d₃ at *
    omega

/-- A number on the wire is read the same on either host. -/
theorem ntohl_loadU32 (e : Endian) (m : Bytes) : ntohl e (loadU32 e m) = loadU32 .big m := by
  rw [ntohl_loadU32_eq_iff, storeU32_htonl, storeU32_loadU32]

/-! ## The checksum -/

theorem toNat_pairU16_big (a b : UInt8) :
    (pairU16 .big a b).toNat = 256 * a.toNat + b.toNat := by
  simp [toNat_pairU16, byteWeight]

/-- **To read a buffer in the other order** multiplies its word sum by 256, modulo `65535`. -/
theorem exists_wordSum_mul (m : Bytes) :
    ∃ k, 256 * wordSum .little m = wordSum .big m + 65535 * k := by
  induction m using wordSum.induct with
  | case1 => exact ⟨0, rfl⟩
  | case2 a =>
    refine ⟨0, ?_⟩
    simp only [wordSum, toNat_pairU16_big, toNat_pairU16_little, UInt8.toNat_zero]
    omega
  | case3 a b m ih =>
    obtain ⟨k, hk⟩ := ih
    refine ⟨k + b.toNat, ?_⟩
    simp only [wordSum, toNat_pairU16_big, toNat_pairU16_little]
    omega

/-- A buffer that sums to zero is all zeros, whichever way it is read. -/
theorem wordSum_big_eq_zero_iff (m : Bytes) : wordSum .big m = 0 ↔ wordSum .little m = 0 := by
  induction m using wordSum.induct with
  | case1 => rfl
  | case2 a =>
    simp only [wordSum, toNat_pairU16_big, toNat_pairU16_little, UInt8.toNat_zero]
    omega
  | case3 a b m ih =>
    simp only [wordSum, toNat_pairU16_big, toNat_pairU16_little]
    omega

/-- **The checksum on the other host** has its bytes swapped. -/
theorem inCksum_little {m : Bytes} (h : m.length ≤ 65536) :
    inCksum .little m = swapU16 (inCksum .big m) := by
  have hfold : EndAround.foldTwice 65536 (wordSum .big m)
      = EndAround.swap 256 (EndAround.foldTwice 65536 (wordSum .little m)) := by
    obtain ⟨k, hk⟩ := exists_wordSum_mul m
    have hmod : wordSum .big m ≡ 256 * wordSum .little m [MOD 256 * 256 - 1] := by
      rw [hk]
      exact (Nat.add_mul_mod_self_left _ _ _).symm
    exact EndAround.foldTwice_mul (by omega) (wordSum_lt h) (wordSum_lt h) hmod
      (wordSum_big_eq_zero_iff m)
  have hlt := EndAround.foldTwice_lt (B := 65536) (by omega) (wordSum_lt (e := .little) h)
  refine UInt16.toNat_inj.mp ?_
  rw [toNat_swapU16, toNat_inCksum h, toNat_inCksum h, hfold, EndAround.swap]
  omega

theorem storeU16_inCksum (e : Endian) {m : Bytes} (h : m.length ≤ 65536) :
    storeU16 e (inCksum e m) = storeU16 .big (inCksum .big m) := by
  cases e with
  | big => rfl
  | little => rw [inCksum_little h, ← storeU16_htons .little, htons]

/-! ## PDUs -/

/-- **A PDU has the same bytes on either host.** -/
theorem createPDU_standard (e : Endian) (s : UInt32) (f : UInt8) {p : Bytes}
    (hp : p.length ≤ MAXBUF) :
    createPDU (.standard e) s f p = createPDU (.standard .big) s f p := by
  have hzeroed : zeroedPDU (.standard e) s f p = zeroedPDU (.standard .big) s f p := by
    simp only [zeroedPDU, Host.endian_standard, storeU32_htonl]
    cases e <;> rfl
  have hlen : (zeroedPDU (.standard .big) s f p).length ≤ 65536 := by
    rw [MAXBUF] at hp
    simp only [zeroedPDU, List.length_append, List.length_cons, length_storeU32, length_storeU16]
    omega
  simp only [createPDU_eq, Host.endian_standard, Host.inCksum_standard, storeU32_htonl, hzeroed,
    storeU16_inCksum e hlen]

theorem controlPDU_standard (e : Endian) (f : UInt8) (s : UInt32) :
    controlPDU (.standard e) f s = controlPDU (.standard .big) f s := by
  rw [controlPDU_eq, controlPDU_eq, createPDU_standard e s f (Nat.zero_le _)]

theorem seqNum_standard (e : Endian) (r : Received) :
    r.seqNum (.standard e) = r.seqNum (.standard .big) :=
  ntohl_loadU32 e r.buffer

end RemoteFileCopy
