import RemoteFileCopy.Library.EndAround
import RemoteFileCopy.Wire.Bytes

/-!
# Wire/Checksum — `in_cksum`, the Internet checksum over host-order words

`in_cksum` is in the object library the programs link against; what the library documents is the
standard Internet checksum: the one's complement of the folded one's complement sum of the 16-bit
words of a buffer, read in host order, a trailing odd byte padded with zero.

A byte contributes its value times a weight that depends on its parity and on the host
(`wordSum_set`), and everything about the checksum is read off the natural sum of the words: it is
zero exactly when that sum is a positive multiple of `65535` (`inCksum_eq_zero_iff`).
-/

namespace RemoteFileCopy

/-- The sum of the 16-bit words of a buffer, before any fold. -/
def wordSum (e : Endian) : Bytes → ℕ
  | [] => 0
  | [a] => (pairU16 e a 0).toNat
  | a :: b :: m => (pairU16 e a b).toNat + wordSum e m

/-- **The Internet checksum** — the complement of the word sum, folded to sixteen bits. -/
def inCksum (e : Endian) (m : Bytes) : UInt16 :=
  UInt16.ofNat (65535 - EndAround.foldTwice 65536 (wordSum e m))

/-- What the byte at an offset is multiplied by in the word sum. -/
def byteWeight : Endian → ℕ → ℕ
  | .little, n => if n % 2 = 0 then 1 else 256
  | .big, n => if n % 2 = 0 then 256 else 1

theorem byteWeight_add_two (e : Endian) (n : ℕ) : byteWeight e (n + 2) = byteWeight e n := by
  cases e <;> simp [byteWeight]

/-! ## The word sum -/

theorem toNat_pairU16 (e : Endian) (a b : UInt8) :
    (pairU16 e a b).toNat = byteWeight e 0 * a.toNat + byteWeight e 1 * b.toNat := by
  have := a.toNat_lt
  have := b.toNat_lt
  cases e <;> simp [pairU16, byteWeight] <;> omega

theorem toNat_pairU16_little (a b : UInt8) :
    (pairU16 .little a b).toNat = a.toNat + 256 * b.toNat := by
  simp [toNat_pairU16, byteWeight]

/-- **Replacing one byte moves the word sum by the weighted difference.** -/
theorem wordSum_set (e : Endian) (m : Bytes) (n : ℕ) (x : UInt8) (hn : n < m.length) :
    wordSum e (m.set n x) + byteWeight e n * m[n].toNat
      = wordSum e m + byteWeight e n * x.toNat := by
  induction m using wordSum.induct generalizing n with
  | case1 => simp at hn
  | case2 a =>
    obtain rfl : n = 0 := by simpa using hn
    simp only [List.set_cons_zero, wordSum, toNat_pairU16, List.getElem_cons_zero]
    omega
  | case3 a b m ih =>
    match n, hn with
    | 0, _ =>
      simp only [List.set_cons_zero, wordSum, toNat_pairU16, List.getElem_cons_zero]
      omega
    | 1, _ =>
      simp only [List.set_cons_succ, List.set_cons_zero, wordSum, toNat_pairU16,
        List.getElem_cons_succ, List.getElem_cons_zero]
      omega
    | n + 2, hn =>
      have hn' : n < m.length := by simpa using hn
      have := ih n hn'
      simp only [List.set_cons_succ, wordSum, List.getElem_cons_succ, byteWeight_add_two]
      omega

/-- A field stored in host order is one word of the sum. -/
theorem wordSum_storeU16_append (e : Endian) (x : UInt16) (m : Bytes) :
    wordSum e (storeU16 e x ++ m) = x.toNat + wordSum e m := by
  have := x.toNat_lt
  cases e <;>
    simp only [storeU16, List.cons_append, List.nil_append, wordSum, pairU16,
      UInt8.toNat_ofNat', UInt16.toNat_ofNat'] <;> omega

/-- Four bytes ahead of a buffer add a number that does not depend on the buffer. -/
theorem wordSum_storeU32_append (e : Endian) (x : UInt32) (m : Bytes) :
    wordSum e (storeU32 e x ++ m) = wordSum e (storeU32 e x) + wordSum e m := by
  cases e <;> simp only [storeU32, List.cons_append, List.nil_append, wordSum] <;> omega

/-- A word sum is below `65536` for every two bytes. -/
theorem wordSum_le (e : Endian) (m : Bytes) : 2 * wordSum e m ≤ 65535 * (m.length + 1) := by
  induction m using wordSum.induct with
  | case1 => simp [wordSum]
  | case2 a =>
    have := (pairU16 e a 0).toNat_lt
    simp only [wordSum, List.length_singleton]
    omega
  | case3 a b m ih =>
    have := (pairU16 e a b).toNat_lt
    simp only [wordSum, List.length_cons]
    omega

/-- Any datagram is short enough for two folds to finish. -/
theorem wordSum_lt {e : Endian} {m : Bytes} (h : m.length ≤ 65536) :
    wordSum e m < 65536 * 65536 := by
  have := wordSum_le e m
  omega

/-! ## When the checksum is zero -/

/-- **A buffer checks out exactly when its word sum is a positive multiple of `65535`.** -/
theorem inCksum_eq_zero_iff {e : Endian} {m : Bytes} (h : m.length ≤ 65536) :
    inCksum e m = 0 ↔ 0 < wordSum e m ∧ 65535 ∣ wordSum e m := by
  have hlt := EndAround.foldTwice_lt (by omega) (wordSum_lt (e := e) h)
  rw [← EndAround.foldTwice_eq_top_iff (by omega) (wordSum_lt h), ← UInt16.toNat_inj]
  simp only [inCksum, UInt16.toNat_ofNat', UInt16.toNat_zero]
  omega

theorem toNat_inCksum {e : Endian} {m : Bytes} (h : m.length ≤ 65536) :
    (inCksum e m).toNat = 65535 - EndAround.foldTwice 65536 (wordSum e m) := by
  have hlt := EndAround.foldTwice_lt (by omega) (wordSum_lt (e := e) h)
  simp only [inCksum, UInt16.toNat_ofNat']
  omega

/-- **A buffer whose word sum is that of `m` plus the checksum of `m` checks out.** -/
theorem inCksum_eq_zero_of_wordSum {e : Endian} {m m' : Bytes} (h : m.length ≤ 65536)
    (h' : m'.length ≤ 65536) (hsum : wordSum e m' = wordSum e m + (inCksum e m).toNat) :
    inCksum e m' = 0 := by
  rw [inCksum_eq_zero_iff h', hsum, toNat_inCksum h]
  refine ⟨?_, EndAround.top_dvd_add_complement (by omega) (wordSum_lt h)⟩
  have hzero := EndAround.foldTwice_eq_zero_iff (B := 65536) (s := wordSum e m) (by omega)
  omega

/-- **The checksum is the one word other than `0xFFFF` that completes a buffer** which is not all
zeros. -/
theorem eq_inCksum_iff {e : Endian} {m : Bytes} (h : m.length ≤ 65536) (hpos : 0 < wordSum e m)
    (x : UInt16) : x = inCksum e m ↔ 65535 ∣ wordSum e m + x.toNat ∧ x ≠ 65535 := by
  have hx := x.toNat_lt
  have hiff := EndAround.eq_complement_iff (by omega) (wordSum_lt (e := e) h) hpos hx
  rw [← UInt16.toNat_inj, toNat_inCksum h, ne_eq, ← UInt16.toNat_inj]
  exact hiff

/-! ## Single-bit errors -/

/-- Flip bit `i` of a buffer, counting from the low bit of the first byte. -/
def flipBit (i : ℕ) (m : Bytes) : Bytes :=
  m.modify (i / 8) fun x => x ^^^ UInt8.ofNat (2 ^ (i % 8))

@[simp] theorem length_flipBit (i : ℕ) (m : Bytes) : (flipBit i m).length = m.length := by
  simp [flipBit]

/-- A flipped bit moves a byte by the power of two it stands for. -/
theorem toNat_xor_two_pow (x : UInt8) {k : ℕ} (hk : k < 8) :
    (x ^^^ UInt8.ofNat (2 ^ k)).toNat = x.toNat + 2 ^ k
      ∨ (x ^^^ UInt8.ofNat (2 ^ k)).toNat + 2 ^ k = x.toNat := by
  have h : ∀ (a : Fin 256) (k : Fin 8),
      (UInt8.ofNat a ^^^ UInt8.ofNat (2 ^ (k : ℕ))).toNat = a + 2 ^ (k : ℕ)
        ∨ (UInt8.ofNat a ^^^ UInt8.ofNat (2 ^ (k : ℕ))).toNat + 2 ^ (k : ℕ) = a := by
    decide +kernel
  simpa using h ⟨x.toNat, x.toNat_lt⟩ ⟨k, hk⟩

/-- **No single-bit error goes unnoticed** — it moves the word sum by a power of two below `65535`,
so a sum that was a multiple of `65535` no longer is. -/
theorem inCksum_flipBit_ne_zero {e : Endian} {m : Bytes} (h : m.length ≤ 65536)
    (hm : inCksum e m = 0) {i : ℕ} (hi : i < 8 * m.length) : inCksum e (flipBit i m) ≠ 0 := by
  have hn : i / 8 < m.length := by omega
  have hk : i % 8 < 8 := Nat.mod_lt _ (by omega)
  obtain ⟨-, hdvd⟩ := (inCksum_eq_zero_iff h).mp hm
  have hset : flipBit i m = m.set (i / 8) (m[i / 8] ^^^ UInt8.ofNat (2 ^ (i % 8))) := by
    rw [flipBit, List.modify_eq_set, List.getElem?_eq_getElem hn, Option.getD_some]
  have hsum := wordSum_set e m (i / 8) (m[i / 8] ^^^ UInt8.ofNat (2 ^ (i % 8))) hn
  have hpow : 2 ^ (i % 8) ≤ 2 ^ 7 := Nat.pow_le_pow_right (by omega) (by omega)
  have hpos : 0 < 2 ^ (i % 8) := Nat.two_pow_pos _
  have hw : byteWeight e (i / 8) = 1 ∨ byteWeight e (i / 8) = 256 := by
    cases e <;> simp only [byteWeight] <;> split <;> simp
  rw [Ne, inCksum_eq_zero_iff (by simpa using h), hset]
  rintro ⟨-, hdvd'⟩
  have hclose := @EndAround.not_dvd_of_close 65536
  rcases toNat_xor_two_pow m[i / 8] hk with hx | hx <;> rcases hw with hw | hw <;>
    rw [hw] at hsum
  · exact hclose (by omega) (by omega) hdvd hdvd'
  · exact hclose (by omega) (by omega) hdvd hdvd'
  · exact hclose (by omega) (by omega) hdvd' hdvd
  · exact hclose (by omega) (by omega) hdvd' hdvd

end RemoteFileCopy
