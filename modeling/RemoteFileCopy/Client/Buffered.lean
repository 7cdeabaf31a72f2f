import RemoteFileCopy.Client.Faithful
import RemoteFileCopy.Client.Flush

/-!
# Client/Buffered — the receiver, for any payloads and any numbers

`Buffered P info` says that a valid slot holds the payload of a number in the window
`[expected, expected + W)`.  It speaks of no file and puts no bound on the numbers, so it holds
where `expected` wraps around, too: past `2 ^ 32 - 1` no slot is left valid.

A data packet keeps it as long as what is put into a free slot is from inside the window
(`Buffered.turn`) — the one condition the code never checks.
-/

namespace RemoteFileCopy

open CircularQueue (slot slot_eq_iff)

variable {W : ℕ} [NeZero W] {P : UInt32 → Bytes}

/-- The payloads of `n` numbers from `s` on. -/
def payloads (P : UInt32 → Bytes) (s : UInt32) (n : ℕ) : Bytes :=
  ((List.range n).map fun j => P (s + UInt32.ofNat j)).flatten

@[simp] theorem payloads_zero (s : UInt32) : payloads P s 0 = [] := rfl

@[simp] theorem payloads_one (s : UInt32) : payloads P s 1 = P s := by
  simp [payloads]

theorem payloads_add (s : UInt32) (m n : ℕ) :
    payloads P s (m + n) = payloads P s m ++ payloads P (s + UInt32.ofNat m) n := by
  simp [payloads, List.range_add, Function.comp_def, UInt32.ofNat_add, UInt32.add_assoc]

theorem toNat_lt_of_add_one_ne_zero {x : UInt32} (h : x + 1 ≠ 0) : x.toNat < 4294967295 := by
  have hlt := x.toNat_lt
  refine Nat.lt_of_le_of_ne (by omega) fun heq => h (UInt32.toNat_inj.mp ?_)
  rw [UInt32.toNat_add, heq]
  rfl

theorem toNat_add_ofNat_succ {x : UInt32} {j : ℕ} (hne : x + UInt32.ofNat (j + 1) ≠ 0) :
    (x + UInt32.ofNat (j + 1)).toNat = (x + UInt32.ofNat j).toNat + 1 := by
  rw [UInt32.ofNat_add, ← UInt32.add_assoc] at hne ⊢
  exact toNat_add_one (toNat_lt_of_add_one_ne_zero hne)

/-- **A valid slot holds the payload of a number in the window**, none above `highest`. -/
def Buffered (P : UInt32 → Bytes) (info : ReceiveInfo W) : Prop :=
  ∀ i, (info.buffer i).valid = true → ∃ t : UInt32, slot W t.toNat = i
    ∧ info.expected.toNat ≤ t.toNat ∧ t.toNat < info.expected.toNat + W
    ∧ t.toNat ≤ info.highest.toNat ∧ (info.buffer i).packet = P t

/-- No slot is valid. -/
def ReceiveInfo.Empty (info : ReceiveInfo W) : Prop := ∀ i, (info.buffer i).valid = false

/-- What a receiver in a state expects of its buffer: in order it is empty; out of order the slot of
`expected` is free; before a flush it is empty if `expected` has wrapped around. -/
def Expects (info : ReceiveInfo W) : TransferState → Prop
  | .inOrder => info.Empty
  | .outOfOrder => info.entry.valid = false
  | .flush => info.expected = 0 → info.Empty

namespace Buffered

variable {info info' : ReceiveInfo W}

/-- **The slot of a number in the window, if it is valid, holds that number's payload.** -/
theorem packet_of_valid (h : Buffered P info) {s : UInt32} (hle : info.expected.toNat ≤ s.toNat)
    (hlt : s.toNat < info.expected.toNat + W)
    (hv : (info.buffer (slot W s.toNat)).valid = true) :
    s.toNat ≤ info.highest.toNat ∧ (info.buffer (slot W s.toNat)).packet = P s := by
  obtain ⟨t, hslot, htle, htlt, hhigh, hp⟩ := h _ hv
  obtain rfl : t = s := UInt32.toNat_inj.mp <| SlidingWindow.eq_of_mod_eq_of_close
    (b := info.expected.toNat) (slot_eq_iff.mp hslot) htle htlt hle hlt
  exact ⟨hhigh, hp⟩

/-- With everything up to `highest` behind it the buffer is empty. -/
theorem empty_of_highest_lt (h : Buffered P info)
    (hlt : info.highest.toNat < info.expected.toNat) : info.Empty := by
  intro i
  by_contra hv
  obtain ⟨t, -, hle, -, hhigh, -⟩ := h i ((Bool.not_eq_false _).mp hv)
  omega

/-- **`expected` moves on** once its slot is free; where it wraps around, nothing is left. -/
theorem advance (h : Buffered P info) (info' : ReceiveInfo W) (hfree : info.entry.valid = false)
    (hb : info'.buffer = info.buffer) (he : info'.expected = info.expected + 1)
    (hh : info.highest.toNat ≤ info'.highest.toNat) :
    Buffered P info' ∧ (info'.expected = 0 → info'.Empty) := by
  have hmore : ∀ i, (info.buffer i).valid = true → ∃ t : UInt32, slot W t.toNat = i
      ∧ info.expected.toNat < t.toNat ∧ t.toNat < info.expected.toNat + W
      ∧ t.toNat ≤ info.highest.toNat ∧ (info.buffer i).packet = P t := by
    intro i hi
    obtain ⟨t, rfl, hle, hlt, hhigh, hp⟩ := h i hi
    refine ⟨t, rfl, Nat.lt_of_le_of_ne hle fun heq => ?_, hlt, hhigh, hp⟩
    rw [← heq] at hi
    rw [ReceiveInfo.entry, hi] at hfree
    cases hfree
  constructor
  · intro i hi
    rw [hb] at hi ⊢
    obtain ⟨t, hslot, hlt, hltW, hhigh, hp⟩ := hmore i hi
    have htlt := t.toNat_lt
    have hsucc : info'.expected.toNat = info.expected.toNat + 1 := by
      rw [he, toNat_add_one (by omega)]
    exact ⟨t, hslot, by omega, by omega, by omega, hp⟩
  · intro hzero i
    by_contra hv
    rw [hb] at hv
    obtain ⟨t, -, hlt, -⟩ := hmore i ((Bool.not_eq_false _).mp hv)
    have htlt := t.toNat_lt
    have hsucc : info'.expected.toNat = info.expected.toNat + 1 := by
      rw [he, toNat_add_one (by omega)]
    rw [hzero] at hsucc
    cases hsucc

/-- The address and the EOF number play no part. -/
theorem congr (h : Buffered P info) (hb : info'.buffer = info.buffer)
    (he : info'.expected = info.expected) (hh : info'.highest = info.highest) :
    Buffered P info' := by
  rw [Buffered, hb, he, hh]
  exact h

/-- A payload is buffered as itself if its slot is in use or its number is in the window. -/
theorem keep (h : Buffered P info) {s : UInt32} (hle : info.expected.toNat ≤ s.toNat)
    (hfits : (info.buffer (slot W s.toNat)).valid = true ∨ s.toNat < info.expected.toNat + W) :
    Buffered P (info.keep s (P s)) := by
  have hhigh : info.highest.toNat ≤ (info.keep s (P s)).highest.toNat
      ∧ s.toNat ≤ (info.keep s (P s)).highest.toNat := by
    simp only [ReceiveInfo.keep, gt_iff_lt, UInt32.lt_iff_toNat_lt]
    split <;> omega
  have hold : ∀ i, (info.buffer i).valid = true → ∃ t : UInt32, slot W t.toNat = i
      ∧ info.expected.toNat ≤ t.toNat ∧ t.toNat < info.expected.toNat + W
      ∧ t.toNat ≤ (info.keep s (P s)).highest.toNat ∧ (info.buffer i).packet = P t := by
    intro i hi
    obtain ⟨t, hslot, htle, htlt, hthigh, hp⟩ := h i hi
    exact ⟨t, hslot, htle, htlt, hthigh.trans hhigh.1, hp⟩
  intro i hi
  by_cases hv : (info.buffer (slot W s.toNat)).valid = true
  · simp only [ReceiveInfo.keep, if_pos hv] at hi ⊢
    exact hold i hi
  · rcases eq_or_ne i (slot W s.toNat) with rfl | hne
    · refine ⟨s, rfl, hle, hfits.resolve_left hv, hhigh.2, ?_⟩
      simp only [ReceiveInfo.keep, if_neg hv, Function.update_self]
    · simp only [ReceiveInfo.keep, if_neg hv, Function.update_of_ne hne] at hi ⊢
      exact hold i hi

theorem highest_keep (s : UInt32) (p : Bytes) :
    (info.keep s p).highest = info.highest ∨ (info.keep s p).highest = s := by
  simp only [ReceiveInfo.keep]
  split
  · exact .inr rfl
  · exact .inl rfl

/-- Buffering a later payload leaves the slot of `expected` free. -/
theorem entry_keep {s : UInt32} {p : Bytes} (hfree : info.entry.valid = false)
    (hlt : info.expected.toNat < s.toNat)
    (hfits : (info.buffer (slot W s.toNat)).valid = true ∨ s.toNat < info.expected.toNat + W) :
    (info.keep s p).entry.valid = false := by
  by_cases hv : (info.buffer (slot W s.toNat)).valid = true
  · simpa only [ReceiveInfo.keep, ReceiveInfo.entry, if_pos hv] using hfree
  · have hne : slot W info.expected.toNat ≠ slot W s.toNat := fun heq => by
      have := SlidingWindow.eq_of_mod_eq_of_close (b := info.expected.toNat)
        (slot_eq_iff.mp heq) le_rfl (Nat.lt_add_of_pos_right (Nat.pos_of_neZero W)) hlt.le
        (hfits.resolve_left hv)
      omega
    simpa only [ReceiveInfo.keep, ReceiveInfo.entry, if_neg hv, Function.update_of_ne hne]
      using hfree

/-! ## The flush loop -/

/-- **A turn of the flush loop writes the payload of `expected`.** -/
theorem flushOne (h : Buffered P info) (hc : info.canFlush = true) :
    Buffered P info.flushOne ∧ (info.flushOne.expected = 0 → info.flushOne.Empty)
      ∧ info.entry.packet = P info.expected := by
  have hv := (ReceiveInfo.canFlush_iff.mp hc).2
  have hW := Nat.pos_of_neZero W
  have hcleared : Buffered P { info with
      buffer := Function.update info.buffer (slot W info.expected.toNat)
        { info.entry with valid := false } } := by
    intro i hi
    have hne : i ≠ slot W info.expected.toNat := by
      rintro rfl
      simp at hi
    simp only [Function.update_of_ne hne] at hi ⊢
    exact h i hi
  have hadvance := hcleared.advance info.flushOne
    (by simp only [ReceiveInfo.entry, Function.update_self]) rfl rfl le_rfl
  exact ⟨hadvance.1, hadvance.2, (h.packet_of_valid le_rfl (by omega) hv).2⟩

/-- **Some turns of the flush loop**: the numbers they write do not wrap around before the last, and
each writes its own payload. -/
theorem iterate (h : Buffered P info) {n : ℕ}
    (hall : ∀ j < n, (ReceiveInfo.flushOne^[j] info).canFlush = true) :
    Buffered P (ReceiveInfo.flushOne^[n] info)
      ∧ (0 < n → (ReceiveInfo.flushOne^[n] info).expected = 0 →
          (ReceiveInfo.flushOne^[n] info).Empty)
      ∧ ∀ j < n, (info.expected + UInt32.ofNat j).toNat = info.expected.toNat + j
          ∧ (info.buffer (info.turnSlot j)).packet = P (info.expected + UInt32.ofNat j) := by
  induction n with
  | zero =>
    exact ⟨h, fun hn => absurd hn (Nat.lt_irrefl 0), fun j hj => absurd hj (Nat.not_lt_zero j)⟩
  | succ n ih =>
    obtain ⟨hbuf, hwrap, hturns⟩ := ih fun j hj => hall j (by omega)
    have hc := hall n (Nat.lt_succ_self n)
    obtain ⟨hnext, hwrap', hp⟩ := hbuf.flushOne hc
    rw [Function.iterate_succ_apply']
    refine ⟨hnext, fun _ => hwrap', fun j hj => ?_⟩
    rcases Nat.lt_succ_iff_lt_or_eq.mp hj with hj | rfl
    · exact hturns j hj
    refine ⟨?_, ?_⟩
    · cases j with
      | zero => simp
      | succ j =>
        have hprev := (hturns j (Nat.lt_succ_self j)).1
        have hne : (ReceiveInfo.flushOne^[j + 1] info).expected ≠ 0 := fun hzero => by
          have := (ReceiveInfo.canFlush_iff.mp hc).2
          rw [ReceiveInfo.entry, hwrap (Nat.succ_pos j) hzero] at this
          cases this
        rw [info.expected_iterate] at hne
        rw [toNat_add_ofNat_succ hne, hprev, Nat.add_assoc]
    · rw [← (info.buffer_iterate j _).1]
      rw [ReceiveInfo.entry, info.expected_iterate] at hp
      exact hp

/-- The flush loop keeps the buffer. -/
theorem flush_buffered (h : Buffered P info) : Buffered P info.flush :=
  ReceiveInfo.flush_induction h fun _ h hc => (h.flushOne hc).1

/-- What the flush loop writes, and where it stops. -/
theorem flush (h : Buffered P info) (hwrap : info.expected = 0 → info.Empty) :
    ∃ n < 4294967296, info.flush = ReceiveInfo.flushOne^[n] info
      ∧ info.flush.outFile = info.outFile ++ payloads P info.expected n
      ∧ ∀ j < n, (info.expected + UInt32.ofNat j).toNat = info.expected.toNat + j
        ∧ info.expected.toNat + j ≤ info.highest.toNat
        ∧ (info.buffer (info.turnSlot j)).valid = true := by
  obtain ⟨n, -, heq, hall⟩ := info.flush_eq_iterate
  obtain ⟨-, -, hturns⟩ := h.iterate hall
  have hvalid := info.valid_of_turns hall
  have hhigh : ∀ j < n, info.expected.toNat + j ≤ info.highest.toNat := fun j hj => by
    have := (ReceiveInfo.canFlush_iff.mp (hall j hj)).1
    rwa [info.expected_iterate, info.highest_iterate, (hturns j hj).1] at this
  refine ⟨n, ?_, heq, ?_, fun j hj =>
    ⟨(hturns j hj).1, hhigh j hj, (hvalid j hj).1⟩⟩
  · cases n with
    | zero => exact Nat.zero_lt_succ _
    | succ m =>
      have hlast := (hturns m (Nat.lt_succ_self m)).1
      have hlt := (info.expected + UInt32.ofNat m).toNat_lt
      have hne : info.expected.toNat ≠ 0 := fun hzero => by
        have hfirst := (hvalid 0 (Nat.succ_pos m)).1
        rw [hwrap (UInt32.toNat_inj.mp hzero)] at hfirst
        cases hfirst
      omega
  · rw [heq, info.outFile_iterate, payloads]
    congr 2
    exact List.map_congr_left fun j hj => (hturns j (List.mem_range.mp hj)).2

end Buffered

/-! ## One turn -/

/-- **The receiver moves on by `n` payloads.** -/
structure Advances (P : UInt32 → Bytes) (info info' : ReceiveInfo W) (n : ℕ) : Prop where
  lt : n < 4294967296
  expected : info'.expected = info.expected + UInt32.ofNat n
  out : info'.outFile = info.outFile ++ payloads P info.expected n

omit [NeZero W] in
theorem Advances.zero {info info' : ReceiveInfo W} (he : info'.expected = info.expected)
    (ho : info'.outFile = info.outFile) : Advances P info info' 0 :=
  ⟨Nat.zero_lt_succ _, by simp [he], by simp [ho]⟩

omit [NeZero W] in
theorem Advances.one {info info' : ReceiveInfo W} (he : info'.expected = info.expected + 1)
    (ho : info'.outFile = info.outFile ++ P info.expected) : Advances P info info' 1 :=
  ⟨by omega, he, by simp [ho]⟩

/-- A data packet with the payload of its number. -/
def Carries (P : UInt32 → Bytes) (host : Host) (r : Received) : Prop :=
  IsDataFlag r.flag ∧ r.payload = .ok (P (r.seqNum host))

/-- **A packet that is not buffered under the wrong number**: it is not buffered at all, or its
number is inside the window. -/
def Fits (state : TransferState) (info : ReceiveInfo W) (s : UInt32) : Prop :=
  state = .flush ∨ (info.buffer (slot W s.toNat)).valid = true
    ∨ s.toNat < info.expected.toNat + W

namespace Buffered

variable {info : ReceiveInfo W} {host : Host} {r : Received} {state : TransferState}

/-- **The flush loop moves the receiver on**, and where `highest` is not the last number of all it
does not wrap around. -/
theorem advances_flush (h : Buffered P info) (hwrap : info.expected = 0 → info.Empty) : ∃ n,
    Advances P info info.flush n ∧ (info.highest.toNat < 4294967295 →
      info.flush.expected.toNat = info.expected.toNat + n) := by
  obtain ⟨n, hn, heq, hout, hturns⟩ := h.flush hwrap
  have he : info.flush.expected = info.expected + UInt32.ofNat n := by
    rw [heq, ReceiveInfo.expected_iterate]
  refine ⟨n, ⟨hn, he, hout⟩, fun hhigh => ?_⟩
  rw [he]
  cases n with
  | zero => simp
  | succ m =>
    obtain ⟨hlast, hle, -⟩ := hturns m (Nat.lt_succ_self m)
    rw [UInt32.ofNat_add, ← UInt32.add_assoc]
    exact (toNat_add_one (by omega)).trans (by rw [hlast, Nat.add_assoc])

/-- **What a turn with a data packet comes to**: the buffer stays in order, and the receiver moves
on; where no number is the last of all, `expected` does not wrap around. -/
def Turns (P : UInt32 → Bytes) (host : Host) (state : TransferState) (info : ReceiveInfo W)
    (r : Received) : Prop :=
  ∃ state' info' sends n, processTransferState host state info r = .ok (some state', info', sends)
    ∧ Buffered P info' ∧ Expects info' state' ∧ Advances P info info' n
    ∧ (info'.highest = info.highest ∨ info'.highest = r.seqNum host)
    ∧ ((r.seqNum host).toNat < 4294967295 → info.highest.toNat < 4294967295 →
      info'.expected.toNat = info.expected.toNat + n)

/-- A flush writes what it can, and then either waits for the next gap or has emptied the buffer. -/
theorem turns_flush (h : Buffered P info) (hw : Expects info .flush) (hf : IsDataFlag r.flag) :
    Turns P host .flush info r := by
  have hbuf : Buffered P { info with serverAddr := r.srcAddr } := h.congr rfl rfl rfl
  obtain ⟨n, ⟨hn, he, hout⟩, hnext⟩ := hbuf.advances_flush hw
  have hadvances : Advances P info { info with serverAddr := r.srcAddr }.flush n := ⟨hn, he, hout⟩
  have hbuf' := hbuf.flush_buffered
  rcases turn_flush_cases host info hf with ⟨-, hfree, hturn⟩ | ⟨hlt, hturn⟩
  · exact ⟨_, _, _, n, hturn, hbuf', hfree, hadvances, .inl (ReceiveInfo.highest_flush _),
      fun _ => hnext⟩
  · refine ⟨_, _, _, n, hturn, hbuf', ?_, hadvances, .inl (ReceiveInfo.highest_flush _),
      fun _ => hnext⟩
    exact hbuf'.empty_of_highest_lt (by rwa [ReceiveInfo.highest_flush])

/-- **A turn with a data packet that fits** keeps the buffer and writes payloads in order. -/
theorem turn (h : Buffered P info) (hw : Expects info state) (hr : Carries P host r)
    (hfits : Fits state info (r.seqNum host)) : Turns P host state info r := by
  obtain ⟨hf, hp⟩ := hr
  cases state with
  | flush => exact h.turns_flush hw hf
  | inOrder =>
    have hempty : info.Empty := hw
    rcases Nat.lt_trichotomy (r.seqNum host).toNat info.expected.toNat with hlt | heq | hgt
    · exact ⟨_, _, _, 0, turn_lt host (by simp) hf (UInt32.lt_iff_toNat_lt.mpr hlt),
        h.congr rfl rfl rfl, hempty, .zero rfl rfl, .inl rfl, fun _ _ => rfl⟩
    · have heq := UInt32.toNat_inj.mp heq
      refine ⟨_, _, _, 1, turn_inOrder_eq host hf heq hp, fun i hi => ?_, hempty,
        .one rfl (by rw [heq]), .inr heq.symm, fun hlt _ => toNat_add_one (heq ▸ hlt)⟩
      rw [hempty i] at hi
      cases hi
    · have hin := hfits.resolve_left (by simp)
      refine ⟨_, _, _, 0, turn_inOrder_gt host hf (UInt32.lt_iff_toNat_lt.mpr hgt) hp,
        (h.keep hgt.le hin).congr rfl rfl rfl, entry_keep (hempty _) hgt hin, .zero rfl rfl,
        highest_keep (r.seqNum host) (P (r.seqNum host)), fun _ _ => rfl⟩
  | outOfOrder =>
    have hfree : info.entry.valid = false := hw
    rcases Nat.lt_trichotomy (r.seqNum host).toNat info.expected.toNat with hlt | heq | hgt
    · exact ⟨_, _, _, 0, turn_lt host (by simp) hf (UInt32.lt_iff_toNat_lt.mpr hlt),
        h.congr rfl rfl rfl, hfree, .zero rfl rfl, .inl rfl, fun _ _ => rfl⟩
    · have heq := UInt32.toNat_inj.mp heq
      have hnext := h.advance { info with
        serverAddr := r.srcAddr
        outFile := info.outFile ++ P (r.seqNum host)
        expected := info.expected + 1 } hfree rfl rfl le_rfl
      exact ⟨_, _, _, 1, turn_outOfOrder_eq host hf heq hp, hnext.1, hnext.2,
        .one rfl (by rw [heq]), .inl rfl, fun hlt _ => toNat_add_one (heq ▸ hlt)⟩
    · have hin := hfits.resolve_left (by simp)
      refine ⟨_, _, _, 0, turn_outOfOrder_gt host hf (UInt32.lt_iff_toNat_lt.mpr hgt) hp,
        (h.keep hgt.le hin).congr rfl rfl rfl, entry_keep hfree hgt hin, .zero rfl rfl,
        highest_keep (r.seqNum host) (P (r.seqNum host)), fun _ _ => rfl⟩

end Buffered

end RemoteFileCopy
