import Mathlib.Data.List.Basic
import Mathlib.Tactic.Common

/-!
# Wire/Bytes — host integers in memory and on the wire

`memcpy` of an integer moves its bytes in the order of the host; `htons`, `htonl` and their inverses
swap the bytes of a value on a little-endian host and do nothing on a big-endian one.  The programs
compose the two, and on either host the composite is the network's own order.

Memory is a list of bytes.  `writeAt` is `memcpy` into the middle of an array.
-/

namespace RemoteFileCopy

/-- A stretch of memory, or the contents of a datagram or a file. -/
abbrev Bytes := List UInt8

/-- The byte order of a host. -/
inductive Endian
  | little
  | big
  deriving DecidableEq, Repr

/-! ## Sixteen bits -/

/-- The two bytes `memcpy` takes out of a `uint16_t`. -/
def storeU16 : Endian → UInt16 → Bytes
  | .little, x => [UInt8.ofNat x.toNat, UInt8.ofNat (x.toNat / 256)]
  | .big, x => [UInt8.ofNat (x.toNat / 256), UInt8.ofNat x.toNat]

/-- The `uint16_t` two bytes are, first byte first. -/
def pairU16 : Endian → UInt8 → UInt8 → UInt16
  | .little, a, b => UInt16.ofNat (a.toNat + 256 * b.toNat)
  | .big, a, b => UInt16.ofNat (256 * a.toNat + b.toNat)

/-- The `uint16_t` that `memcpy` reads at an offset. -/
def loadU16 (e : Endian) (m : Bytes) (offset : ℕ) : UInt16 :=
  pairU16 e (m.getD offset 0) (m.getD (offset + 1) 0)

/-- The other byte order of a `uint16_t`. -/
def swapU16 (x : UInt16) : UInt16 := UInt16.ofNat (256 * (x.toNat % 256) + x.toNat / 256)

/-- Host to network order. -/
def htons : Endian → UInt16 → UInt16
  | .little, x => swapU16 x
  | .big, x => x

/-- Network to host order. -/
def ntohs : Endian → UInt16 → UInt16
  | .little, x => swapU16 x
  | .big, x => x

@[simp] theorem length_storeU16 (e : Endian) (x : UInt16) : (storeU16 e x).length = 2 := by
  cases e <;> rfl

theorem toNat_swapU16 (x : UInt16) : (swapU16 x).toNat = 256 * (x.toNat % 256) + x.toNat / 256 := by
  have := x.toNat_lt
  simp only [swapU16, UInt16.toNat_ofNat']
  omega

@[simp] theorem swapU16_swapU16 (x : UInt16) : swapU16 (swapU16 x) = x := by
  have := x.toNat_lt
  refine UInt16.toNat_inj.mp ?_
  rw [toNat_swapU16, toNat_swapU16]
  omega

@[simp] theorem ntohs_htons (e : Endian) (x : UInt16) : ntohs e (htons e x) = x := by
  cases e
  · exact swapU16_swapU16 x
  · rfl

@[simp] theorem htons_ntohs (e : Endian) (x : UInt16) : htons e (ntohs e x) = x := by
  cases e
  · exact swapU16_swapU16 x
  · rfl

/-- **What `memcpy` put into an array it reads back.** -/
theorem loadU16_store (e : Endian) (x : UInt16) (pre post : Bytes) :
    loadU16 e (pre ++ (storeU16 e x ++ post)) pre.length = x := by
  have := x.toNat_lt
  cases e <;>
    simp only [loadU16, storeU16, List.cons_append, List.nil_append,
      List.getD_eq_getElem?_getD, List.getElem?_append_right, Nat.le_refl, Nat.le_add_right,
      Nat.sub_self, Nat.add_sub_cancel_left, List.getElem?_cons_zero, List.getElem?_cons_succ,
      Option.getD_some, pairU16, UInt8.toNat_ofNat'] <;>
    refine UInt16.toNat_inj.mp ?_ <;>
    simp only [UInt16.toNat_ofNat'] <;> omega

/-- **What `memcpy` reads it writes back.** -/
theorem storeU16_loadU16 (e : Endian) (m : Bytes) (offset : ℕ) :
    storeU16 e (loadU16 e m offset) = [m.getD offset 0, m.getD (offset + 1) 0] := by
  have h₀ := (m.getD offset 0).toNat_lt
  have h₁ := (m.getD (offset + 1) 0).toNat_lt
  cases e <;>
    simp only [loadU16, storeU16, pairU16, List.cons.injEq, and_true, ← UInt8.toNat_inj,
      UInt8.toNat_ofNat', UInt16.toNat_ofNat'] <;> omega

/-- A `uint16_t` read in network order is the one whose bytes are there. -/
theorem ntohs_loadU16_eq_iff (e : Endian) (m : Bytes) (offset : ℕ) (x : UInt16) :
    ntohs e (loadU16 e m offset) = x
      ↔ [m.getD offset 0, m.getD (offset + 1) 0] = storeU16 e (htons e x) := by
  rw [← storeU16_loadU16]
  constructor
  · rintro rfl
    rw [htons_ntohs]
  · intro h
    rw [← ntohs_htons e x, ← loadU16_store e (htons e x) [] [], ← h, loadU16_store]

/-! ## Thirty-two bits -/

/-- The four bytes `memcpy` takes out of a `uint32_t`. -/
def storeU32 : Endian → UInt32 → Bytes
  | .little, x => [UInt8.ofNat x.toNat, UInt8.ofNat (x.toNat / 256),
      UInt8.ofNat (x.toNat / 65536), UInt8.ofNat (x.toNat / 16777216)]
  | .big, x => [UInt8.ofNat (x.toNat / 16777216), UInt8.ofNat (x.toNat / 65536),
      UInt8.ofNat (x.toNat / 256), UInt8.ofNat x.toNat]

/-- The `uint32_t` four bytes are, first byte first. -/
def quadU32 : Endian → UInt8 → UInt8 → UInt8 → UInt8 → UInt32
  | .little, a, b, c, d =>
      UInt32.ofNat (a.toNat + 256 * b.toNat + 65536 * c.toNat + 16777216 * d.toNat)
  | .big, a, b, c, d =>
      UInt32.ofNat (16777216 * a.toNat + 65536 * b.toNat + 256 * c.toNat + d.toNat)

/-- The `uint32_t` that `memcpy` reads at the start of an array. -/
def loadU32 (e : Endian) (m : Bytes) : UInt32 :=
  quadU32 e (m.getD 0 0) (m.getD 1 0) (m.getD 2 0) (m.getD 3 0)

/-- The other byte order of a `uint32_t`. -/
def swapU32 (x : UInt32) : UInt32 :=
  UInt32.ofNat (16777216 * (x.toNat % 256) + 65536 * (x.toNat / 256 % 256)
    + 256 * (x.toNat / 65536 % 256) + x.toNat / 16777216)

/-- Host to network order. -/
def htonl : Endian → UInt32 → UInt32
  | .little, x => swapU32 x
  | .big, x => x

/-- Network to host order. -/
def ntohl : Endian → UInt32 → UInt32
  | .little, x => swapU32 x
  | .big, x => x

@[simp] theorem length_storeU32 (e : Endian) (x : UInt32) : (storeU32 e x).length = 4 := by
  cases e <;> rfl

theorem toNat_swapU32 (x : UInt32) :
    (swapU32 x).toNat = 16777216 * (x.toNat % 256) + 65536 * (x.toNat / 256 % 256)
      + 256 * (x.toNat / 65536 % 256) + x.toNat / 16777216 := by
  have := x.toNat_lt
  simp only [swapU32, UInt32.toNat_ofNat']
  omega

/-- Swapping reverses the four digits to base 256. -/
theorem toNat_swapU32_of_digits {x : UInt32} {a b c d : ℕ} (ha : a < 256) (hb : b < 256)
    (hc : c < 256) (hx : x.toNat = a + 256 * b + 65536 * c + 16777216 * d) :
    (swapU32 x).toNat = d + 256 * c + 65536 * b + 16777216 * a := by
  rw [toNat_swapU32, hx]
  have h₀ : (a + 256 * b + 65536 * c + 16777216 * d) % 256 = a := by omega
  have h₁ : (a + 256 * b + 65536 * c + 16777216 * d) / 256 % 256 = b := by omega
  have h₂ : (a + 256 * b + 65536 * c + 16777216 * d) / 65536 % 256 = c := by omega
  have h₃ : (a + 256 * b + 65536 * c + 16777216 * d) / 16777216 = d := by omega
  rw [h₀, h₁, h₂, h₃]
  omega

@[simp] theorem swapU32_swapU32 (x : UInt32) : swapU32 (swapU32 x) = x := by
  have hx : x.toNat = x.toNat % 256 + 256 * (x.toNat / 256 % 256)
      + 65536 * (x.toNat / 65536 % 256) + 16777216 * (x.toNat / 16777216) := by omega
  have hlt := x.toNat_lt
  have hswap := toNat_swapU32_of_digits (by omega) (by omega) (by omega) hx
  refine UInt32.toNat_inj.mp ?_
  rw [toNat_swapU32_of_digits (by omega) (by omega) (by omega) hswap, ← hx]

@[simp] theorem ntohl_htonl (e : Endian) (x : UInt32) : ntohl e (htonl e x) = x := by
  cases e
  · exact swapU32_swapU32 x
  · rfl

@[simp] theorem htonl_ntohl (e : Endian) (x : UInt32) : htonl e (ntohl e x) = x := by
  cases e
  · exact swapU32_swapU32 x
  · rfl

/-- **A host-order load undoes a host-order store**, whatever follows it in memory. -/
@[simp] theorem loadU32_store (e : Endian) (x : UInt32) (post : Bytes) :
    loadU32 e (storeU32 e x ++ post) = x := by
  have := x.toNat_lt
  cases e <;>
    simp only [loadU32, storeU32, List.cons_append, List.nil_append, List.getD_cons_zero,
      List.getD_cons_succ, quadU32, UInt8.toNat_ofNat'] <;>
    refine UInt32.toNat_inj.mp ?_ <;>
    simp only [UInt32.toNat_ofNat'] <;> omega

theorem storeU32_loadU32 (e : Endian) (m : Bytes) :
    storeU32 e (loadU32 e m) = [m.getD 0 0, m.getD 1 0, m.getD 2 0, m.getD 3 0] := by
  have h₀ := (m.getD 0 0).toNat_lt
  have h₁ := (m.getD 1 0).toNat_lt
  have h₂ := (m.getD 2 0).toNat_lt
  have h₃ := (m.getD 3 0).toNat_lt
  cases e <;>
    simp only [loadU32, storeU32, quadU32, List.cons.injEq, and_true, ← UInt8.toNat_inj,
      UInt8.toNat_ofNat', UInt32.toNat_ofNat'] <;> omega

/-- A `uint32_t` read in network order is the one whose bytes are there. -/
theorem ntohl_loadU32_eq_iff (e : Endian) (m : Bytes) (x : UInt32) :
    ntohl e (loadU32 e m) = x
      ↔ [m.getD 0 0, m.getD 1 0, m.getD 2 0, m.getD 3 0] = storeU32 e (htonl e x) := by
  rw [← storeU32_loadU32]
  constructor
  · rintro rfl
    rw [htonl_ntohl]
  · intro h
    rw [← ntohl_htonl e x, ← loadU32_store e (htonl e x) [], ← h, loadU32_store]

/-! ## Writing into an array -/

/-- `memcpy(m + offset, bs, length of bs)`. -/
def writeAt (m : Bytes) (offset : ℕ) (bs : Bytes) : Bytes :=
  m.take offset ++ bs ++ m.drop (offset + bs.length)

/-- **Overwriting a field leaves what surrounds it.** -/
theorem writeAt_field (pre old new post : Bytes) (h : new.length = old.length) :
    writeAt (pre ++ old ++ post) pre.length new = pre ++ new ++ post := by
  rw [writeAt, h, ← List.length_append, List.drop_append_length, List.append_assoc pre old post,
    List.take_append_length]

end RemoteFileCopy
