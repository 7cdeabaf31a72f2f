import RemoteFileCopy.Client.Turn
import RemoteFileCopy.Server.SourceFile

/-!
# Client/Faithful — the receiver writes the chunks in order

`Faithful b src info` is the receiver's half of the transfer: the output file is the chunks before
`expected`, and a valid slot holds the one chunk between `expected` and `highest` that the sender's
window leaves for its residue.  `Settled` adds what each of the three states knows about the gap.

Every turn that gets packets from inside the window keeps both (`dataTurn`).
-/

namespace RemoteFileCopy

open CircularQueue (slot slot_eq_iff)

variable {W : ℕ} [NeZero W] {b : ℕ} {src : Bytes}

/-- **The output and the buffer are the file's.** -/
structure Faithful (b : ℕ) (src : Bytes) (info : ReceiveInfo W) : Prop where
  out : info.outFile = chunks b src (info.expected.toNat - 1)
  pos : 1 ≤ info.expected.toNat
  slots : ∀ i, (info.buffer i).valid = true → ∃ s, info.expected.toNat ≤ s
    ∧ s ≤ info.highest.toNat ∧ slot W s = i ∧ (info.buffer i).packet = chunk b src s
  le_highest : info.expected.toNat ≤ info.highest.toNat + 1
  highest_lt : info.highest.toNat < info.expected.toNat + W
  fits : info.highest.toNat < 4294967295

/-- A number the receiver may hold in slot `i`. -/
def InReach (info : ReceiveInfo W) (i : Fin W) (s : ℕ) : Prop :=
  info.expected.toNat ≤ s ∧ s ≤ info.highest.toNat ∧ s < info.expected.toNat + W ∧ s % W = i

/-- What a receiver in a state knows: nothing is missing in order; out of order `expected` is, and
`highest` is buffered; before a flush `highest` still is. -/
def Settled (info : ReceiveInfo W) : TransferState → Prop
  | .inOrder => info.highest.toNat + 1 = info.expected.toNat
  | .outOfOrder => info.expected.toNat ≤ info.highest.toNat ∧ info.entry.valid = false
      ∧ (info.buffer (slot W info.highest.toNat)).valid = true
  | .flush => info.expected.toNat ≤ info.highest.toNat
      ∧ (info.buffer (slot W info.highest.toNat)).valid = true

/-- The invariant of a client. -/
structure Client.Inv (b : ℕ) (src : Bytes) (c : Client W) : Prop where
  faithful : Faithful b src c.info
  settled : ∀ state, c.pc = .receiving state → Settled c.info state
  running : ∀ fault, c.pc ≠ .aborted fault

/-- The client on entry: nothing written, nothing buffered. -/
theorem Client.inv_enter (a : SockAddr) : Client.Inv b src (Client.enter W a) where
  faithful :=
    { out := rfl
      pos := le_rfl
      slots := fun _ hi => by cases hi
      le_highest := le_rfl
      highest_lt := by
        change 0 < 1 + W
        omega
      fits := Nat.zero_lt_succ _ }
  settled state hpc := by
    obtain rfl := ClientPc.receiving.inj hpc
    rfl
  running _ := ClientPc.noConfusion

theorem toNat_add_one {x : UInt32} (h : x.toNat < 4294967295) : (x + 1).toNat = x.toNat + 1 := by
  rw [UInt32.toNat_add, UInt32.toNat_one]
  omega

namespace Faithful

variable {info : ReceiveInfo W}

/-! ## One slot, one number -/

/-- **A valid slot is the slot of exactly one number in reach**, and holds its chunk. -/
theorem slot_unique (h : Faithful b src info) {i : Fin W} (hi : (info.buffer i).valid = true) :
    (∃! s, InReach info i s)
      ∧ ∀ s, InReach info i s → (info.buffer i).packet = chunk b src s := by
  obtain ⟨s, hle, hhigh, rfl, hp⟩ := h.slots i hi
  have := h.highest_lt
  have huniq : ∀ t, InReach info (slot W s) t → t = s := fun t ⟨htle, hthigh, _, hmod⟩ =>
    SlidingWindow.eq_of_mod_eq_of_close (b := info.expected.toNat) hmod htle (by omega) hle
      (by omega)
  refine ⟨⟨s, ⟨hle, hhigh, by omega, rfl⟩, huniq⟩, fun t ht => ?_⟩
  rw [huniq t ht, hp]

/-- The slot of a number within reach, if it is valid, holds that number's chunk. -/
theorem packet_of_valid (h : Faithful b src info) {s : ℕ} (hle : info.expected.toNat ≤ s)
    (hlt : s < info.expected.toNat + W) (hv : (info.buffer (slot W s)).valid = true) :
    s ≤ info.highest.toNat ∧ (info.buffer (slot W s)).packet = chunk b src s := by
  obtain ⟨t, htle, hthigh, hslot, hp⟩ := h.slots _ hv
  have := h.highest_lt
  obtain rfl : t = s := SlidingWindow.eq_of_mod_eq_of_close (b := info.expected.toNat)
    (slot_eq_iff.mp hslot) htle (by omega) hle hlt
  exact ⟨hthigh, hp⟩

/-! ## The moves of the receiver -/

/-- The address and the EOF number play no part. -/
theorem congr (h : Faithful b src info) {info' : ReceiveInfo W} (hb : info'.buffer = info.buffer)
    (he : info'.expected = info.expected) (hh : info'.highest = info.highest)
    (ho : info'.outFile = info.outFile) : Faithful b src info' where
  out := by rw [ho, he, h.out]
  pos := he ▸ h.pos
  slots := by rw [hb, he, hh]; exact h.slots
  le_highest := by rw [he, hh]; exact h.le_highest
  highest_lt := by rw [he, hh]; exact h.highest_lt
  fits := hh ▸ h.fits

/-- **A turn of the flush loop writes the next chunk.** -/
theorem flushOne (h : Faithful b src info) (hc : info.canFlush = true) :
    Faithful b src info.flushOne := by
  obtain ⟨hle, hv⟩ := ReceiveInfo.canFlush_iff.mp hc
  have hW := Nat.pos_of_neZero W
  have hfits := h.fits
  have hsucc : (info.expected + 1).toNat = info.expected.toNat + 1 := toNat_add_one (by omega)
  have hpos := h.pos
  constructor
  case out =>
    have hp := (h.packet_of_valid le_rfl (by omega) hv).2
    change info.outFile ++ info.entry.packet = chunks b src ((info.expected + 1).toNat - 1)
    rw [hsucc, Nat.add_sub_cancel, ReceiveInfo.entry, hp, h.out]
    conv_rhs => rw [← Nat.sub_add_cancel hpos, chunks_succ, Nat.sub_add_cancel hpos]
  case pos => simp only [ReceiveInfo.flushOne, hsucc]; omega
  case slots =>
    intro i hi
    have hne : i ≠ slot W info.expected.toNat := by
      rintro rfl
      simp [ReceiveInfo.flushOne] at hi
    simp only [ReceiveInfo.flushOne, Function.update_of_ne hne, hsucc] at hi ⊢
    obtain ⟨s, hs, hhigh, rfl, hp⟩ := h.slots i hi
    have : s ≠ info.expected.toNat := fun heq => hne (by rw [heq])
    exact ⟨s, by omega, hhigh, rfl, hp⟩
  case le_highest => simp only [ReceiveInfo.flushOne, hsucc]; omega
  case highest_lt =>
    have := h.highest_lt
    simp only [ReceiveInfo.flushOne, hsucc]
    omega
  case fits => exact h.fits

/-- The packet `expected` was waiting for, written at once: its slot must not be in use. -/
theorem write (h : Faithful b src info) (hv : info.entry.valid = false) {highest : UInt32}
    (hle : info.expected.toNat ≤ highest.toNat) (hge : info.highest.toNat ≤ highest.toNat)
    (hlt : highest.toNat < info.expected.toNat + W) (hfits : highest.toNat < 4294967295)
    (a : SockAddr) :
    Faithful b src { info with
      serverAddr := a
      outFile := info.outFile ++ chunk b src info.expected.toNat
      expected := info.expected + 1
      highest := highest } := by
  have hsucc : (info.expected + 1).toNat = info.expected.toNat + 1 := toNat_add_one (by omega)
  have hpos := h.pos
  constructor
  case out =>
    change info.outFile ++ _ = chunks b src ((info.expected + 1).toNat - 1)
    rw [hsucc, Nat.add_sub_cancel, h.out]
    conv_rhs => rw [← Nat.sub_add_cancel hpos, chunks_succ, Nat.sub_add_cancel hpos]
  case pos => simp only [hsucc]; omega
  case slots =>
    intro i hi
    obtain ⟨s, hs, hhigh, rfl, hp⟩ := h.slots i hi
    have hne : s ≠ info.expected.toNat := fun heq => by
      rw [heq] at hi
      rw [ReceiveInfo.entry] at hv
      simp [hv] at hi
    exact ⟨s, by simp only [hsucc]; omega, by simp only; omega, rfl, hp⟩
  case le_highest => simp only [hsucc]; omega
  case highest_lt => simp only [hsucc]; omega
  case fits => exact hfits

/-- **A later packet of the window, buffered.** -/
theorem keep (h : Faithful b src info) {s : UInt32} (hlt : info.expected.toNat < s.toNat)
    (hW : s.toNat < info.expected.toNat + W) (hfits : s.toNat < 4294967295) :
    Faithful b src (info.keep s (chunk b src s.toNat)) := by
  have hhigh : info.highest.toNat ≤ (info.keep s (chunk b src s.toNat)).highest.toNat
      ∧ s.toNat ≤ (info.keep s (chunk b src s.toNat)).highest.toNat
      ∧ (info.keep s (chunk b src s.toNat)).highest.toNat ≤ max info.highest.toNat s.toNat := by
    simp only [ReceiveInfo.keep, gt_iff_lt, UInt32.lt_iff_toNat_lt]
    split <;> omega
  have := h.highest_lt
  have := h.fits
  constructor
  case out => exact h.out
  case pos => exact h.pos
  case slots =>
    intro i hi
    by_cases hs : slot W s.toNat = i
    · subst hs
      by_cases hv : (info.buffer (slot W s.toNat)).valid = true
      · have hp := (h.packet_of_valid hlt.le hW hv).2
        exact ⟨s.toNat, hlt.le, hhigh.2.1, rfl, by simp [ReceiveInfo.keep, hv, hp]⟩
      · exact ⟨s.toNat, hlt.le, hhigh.2.1, rfl, by simp [ReceiveInfo.keep, hv]⟩
    · have hsame : (info.keep s (chunk b src s.toNat)).buffer i = info.buffer i := by
        simp only [ReceiveInfo.keep]
        split
        · rfl
        · exact Function.update_of_ne (Ne.symm hs) _ _
      rw [hsame] at hi ⊢
      obtain ⟨t, htle, hthigh, rfl, hp⟩ := h.slots i hi
      exact ⟨t, htle, by omega, rfl, hp⟩
  case le_highest =>
    have := h.le_highest
    change info.expected.toNat ≤ _
    omega
  case highest_lt => change _ < info.expected.toNat + W; omega
  case fits => omega

/-- **The flush loop** keeps the invariant, moves `expected` up over slots in use only, and leaves
the slots of the numbers it did not reach. -/
theorem flush (h : Faithful b src info) :
    Faithful b src info.flush ∧ info.expected.toNat ≤ info.flush.expected.toNat
      ∧ (∀ s, info.flush.expected.toNat ≤ s → s < info.expected.toNat + W →
        info.flush.buffer (slot W s) = info.buffer (slot W s))
      ∧ ∀ s, info.expected.toNat ≤ s → s < info.flush.expected.toNat →
        (info.buffer (slot W s)).valid = true := by
  have hinv := ReceiveInfo.flush_induction (P := fun i => i.highest = info.highest
    ∧ Faithful b src i ∧ info.expected.toNat ≤ i.expected.toNat
    ∧ (∀ s, i.expected.toNat ≤ s → s < info.expected.toNat + W →
      i.buffer (slot W s) = info.buffer (slot W s))
    ∧ ∀ s, info.expected.toNat ≤ s → s < i.expected.toNat →
      (info.buffer (slot W s)).valid = true)
    ⟨rfl, h, le_rfl, fun _ _ _ => rfl, fun s hs hlt => absurd hs (Nat.not_le.mpr hlt)⟩ ?_
  · exact hinv.2
  rintro i ⟨hhi, hi, hle, hsame, hwritten⟩ hc
  have hfits := hi.fits
  have hlt := h.highest_lt
  obtain ⟨hhigh, hv⟩ := ReceiveInfo.canFlush_iff.mp hc
  rw [hhi] at hhigh
  have hsucc : (i.expected + 1).toNat = i.expected.toNat + 1 :=
    toNat_add_one (hhigh.trans_lt h.fits)
  refine ⟨hhi, hi.flushOne hc, ?_, fun s hs hsW => ?_, fun s hs hse => ?_⟩
  · simp only [ReceiveInfo.flushOne, hsucc]
    omega
  · simp only [ReceiveInfo.flushOne, hsucc] at hs
    have hne : slot W s ≠ slot W i.expected.toNat := fun heq => by
      have := SlidingWindow.eq_of_mod_eq_of_close (b := i.expected.toNat) (slot_eq_iff.mp heq)
        (by omega) (by omega) le_rfl (by omega)
      omega
    simp only [ReceiveInfo.flushOne, Function.update_of_ne hne]
    exact hsame s (by omega) hsW
  · simp only [ReceiveInfo.flushOne, hsucc] at hse
    rcases Nat.lt_succ_iff_lt_or_eq.mp hse with hse | rfl
    · exact hwritten s hs hse
    · rwa [← hsame _ le_rfl (by omega)]

/-- In order nothing is buffered. -/
theorem not_valid_of_inOrder (h : Faithful b src info) (hs : Settled info .inOrder) (i : Fin W) :
    (info.buffer i).valid = false := by
  by_contra hv
  obtain ⟨s, hle, hhigh, -⟩ := h.slots i ((Bool.not_eq_false _).mp hv)
  have : info.highest.toNat + 1 = info.expected.toNat := hs
  omega

/-- Out of order, `highest` is past `expected`. -/
theorem lt_highest (hs : Settled info .outOfOrder) :
    info.expected.toNat < info.highest.toNat := by
  obtain ⟨hle, he, hh⟩ := hs
  refine lt_of_le_of_ne hle fun heq => ?_
  rw [ReceiveInfo.entry, heq, hh] at he
  cases he

/-- **The flush loop reaches `n` exactly when every slot up to there is in use.** -/
theorem flush_expected_eq_iff (h : Faithful b src info) {n : ℕ}
    (hn : n ≤ info.expected.toNat + W) (hle : info.flush.expected.toNat ≤ n) :
    info.flush.expected.toNat = n ↔ ∀ s, info.expected.toNat ≤ s → s < n →
      (info.buffer (slot W s)).valid = true := by
  obtain ⟨-, hexp, hsame, hwritten⟩ := h.flush
  constructor
  · rintro rfl
    exact hwritten
  · intro hall
    by_contra hne
    have hlt : info.flush.expected.toNat < n := lt_of_le_of_ne hle hne
    have hv := hall _ hexp hlt
    have hhigh := (h.packet_of_valid hexp (by omega) hv).1
    have hc := ReceiveInfo.canFlush_flush info
    rw [← Bool.not_eq_true, ReceiveInfo.canFlush_iff, ReceiveInfo.highest_flush] at hc
    refine hc ⟨hhigh, ?_⟩
    rw [ReceiveInfo.entry, hsame _ le_rfl (by omega)]
    exact hv

end Faithful

/-! ## A turn with a packet from the window -/

section DataTurn

variable (host : Host) {info : ReceiveInfo W} {r : Received} {p : Bytes}

theorem Settled.congr {info' : ReceiveInfo W} {state : TransferState} (hs : Settled info state)
    (hb : info'.buffer = info.buffer) (he : info'.expected = info.expected)
    (hh : info'.highest = info.highest) : Settled info' state := by
  cases state <;> simpa [Settled, ReceiveInfo.entry, hb, he, hh] using hs

/-- A later packet leaves the gap open and the highest number buffered. -/
theorem settled_keep {s : UInt32} (hlt : info.expected.toNat < s.toNat)
    (hW : s.toNat < info.expected.toNat + W) (he : info.entry.valid = false)
    (hh : info.expected.toNat ≤ info.highest.toNat →
      (info.buffer (slot W info.highest.toNat)).valid = true) :
    Settled (info.keep s p) .outOfOrder := by
  have hne : slot W info.expected.toNat ≠ slot W s.toNat := fun heq => by
    have := SlidingWindow.eq_of_mod_eq_of_close (b := info.expected.toNat) (slot_eq_iff.mp heq)
      le_rfl (by omega) hlt.le hW
    omega
  have hkeep : ∀ i, (info.buffer i).valid = true → ((info.keep s p).buffer i).valid = true := by
    intro i hi
    simp only [ReceiveInfo.keep]
    split
    · exact hi
    · rcases eq_or_ne i (slot W s.toNat) with rfl | hi'
      · simp
      · rwa [Function.update_of_ne hi']
  have hself : ((info.keep s p).buffer (slot W s.toNat)).valid = true := by
    simp only [ReceiveInfo.keep]
    split <;> simp [*]
  refine ⟨?_, ?_, ?_⟩
  · simp only [ReceiveInfo.keep, gt_iff_lt, UInt32.lt_iff_toNat_lt]
    split <;> omega
  · change ((info.keep s p).buffer (slot W info.expected.toNat)).valid = false
    simp only [ReceiveInfo.keep]
    split
    · exact he
    · rwa [Function.update_of_ne hne]
  · by_cases hgt : s > info.highest
    · rwa [show (info.keep s p).highest = s by simp [ReceiveInfo.keep, hgt]]
    · rw [show (info.keep s p).highest = info.highest by simp [ReceiveInfo.keep, hgt]]
      refine hkeep _ (hh ?_)
      simp only [gt_iff_lt, UInt32.lt_iff_toNat_lt] at hgt
      omega

/-- What one turn may do to a receiver that keeps its invariant: where it ends up, and what it
answers. -/
structure GoodTurn (host : Host) (b : ℕ) (src : Bytes) (a : SockAddr) (info : ReceiveInfo W) (s : ℕ)
    (state' : TransferState) (info' : ReceiveInfo W) (sends : List Send) : Prop where
  faithful : Faithful b src info'
  settled : Settled info' state'
  expected_le : info.expected.toNat ≤ info'.expected.toNat
  highest_le : info'.highest.toNat ≤ max info.highest.toNat s
  addr : info'.serverAddr = a
  sends : ∀ m ∈ sends, m = ⟨a, rrPDU host info'.expected⟩
    ∨ m = ⟨a, srejPDU host info'.expected⟩ ∧ info'.expected.toNat ≤ info'.highest.toNat

/-- The turn goes on, and is a good one. -/
def TurnsWell (host : Host) (b : ℕ) (src : Bytes) (state : TransferState) (info : ReceiveInfo W)
    (r : Received) : Prop :=
  ∃ state' info' sends, processTransferState host state info r = .ok (some state', info', sends)
    ∧ GoodTurn host b src r.srcAddr info (r.seqNum host).toNat state' info' sends

/-- A packet from before `expected` changes nothing but the address. -/
theorem turnsWell_lt {state : TransferState} (h : Faithful b src info) (hs : Settled info state)
    (hstate : state ≠ .flush) (hf : IsDataFlag r.flag)
    (hlt : (r.seqNum host).toNat < info.expected.toNat) : TurnsWell host b src state info r := by
  refine ⟨_, _, _, turn_lt host hstate hf (UInt32.lt_iff_toNat_lt.mpr hlt), ?_⟩
  exact ⟨h.congr rfl rfl rfl rfl, hs.congr rfl rfl rfl, le_rfl, le_max_left _ _, rfl, by simp⟩

/-- The packet `expected` is written, in order or out of order. -/
theorem turnsWell_eq {state : TransferState} (h : Faithful b src info) (hs : Settled info state)
    (hstate : state ≠ .flush) (hf : IsDataFlag r.flag) (hp : r.payload = .ok p)
    (heq : (r.seqNum host).toNat = info.expected.toNat)
    (hfits : (r.seqNum host).toNat < 4294967295) (hchunk : p = chunk b src (r.seqNum host).toNat) :
    TurnsWell host b src state info r := by
  subst hchunk
  have hW := Nat.pos_of_neZero W
  have hhl := h.highest_lt
  have hhf := h.fits
  have heq' : r.seqNum host = info.expected := UInt32.toNat_inj.mp heq
  have hsucc : (info.expected + 1).toNat = info.expected.toNat + 1 := toNat_add_one (by omega)
  cases state with
  | inOrder =>
    have hord : info.highest.toNat + 1 = info.expected.toNat := hs
    refine ⟨_, _, _, turn_inOrder_eq host hf heq' hp, ?_⟩
    rw [heq]
    refine ⟨h.write (h.not_valid_of_inOrder hs _) le_rfl (by omega) (by omega) (by omega) _,
      hsucc.symm, ?_, le_max_right _ _, rfl, by simp⟩
    simp only [hsucc]
    omega
  | outOfOrder =>
    have hlth := Faithful.lt_highest hs
    refine ⟨_, _, _, turn_outOfOrder_eq host hf heq' hp, ?_⟩
    rw [heq]
    refine ⟨h.write hs.2.1 hlth.le le_rfl hhl hhf _, ⟨?_, hs.2.2⟩, ?_, le_max_left _ _, rfl,
      by simp⟩
    · simp only [hsucc]
      omega
    · simp only [hsucc]
      omega
  | flush => exact absurd rfl hstate

/-- A later packet of the window is buffered, in order or out of order. -/
theorem turnsWell_gt {state : TransferState} (h : Faithful b src info) (hs : Settled info state)
    (hstate : state ≠ .flush) (hf : IsDataFlag r.flag) (hp : r.payload = .ok p)
    (hgt : info.expected.toNat < (r.seqNum host).toNat)
    (hwin : (r.seqNum host).toNat < info.expected.toNat + W)
    (hfits : (r.seqNum host).toNat < 4294967295) (hchunk : p = chunk b src (r.seqNum host).toNat) :
    TurnsWell host b src state info r := by
  subst hchunk
  have hhigh : (info.keep (r.seqNum host) (chunk b src (r.seqNum host).toNat)).highest.toNat
      ≤ max info.highest.toNat (r.seqNum host).toNat := by
    simp only [ReceiveInfo.keep]
    split <;> omega
  cases state with
  | inOrder =>
    have hord : info.highest.toNat + 1 = info.expected.toNat := hs
    have hset := settled_keep (p := chunk b src (r.seqNum host).toNat) hgt hwin
      (h.not_valid_of_inOrder hs _) (fun hle => by omega)
    refine ⟨_, _, _, turn_inOrder_gt host hf (UInt32.lt_iff_toNat_lt.mpr hgt) hp, ?_⟩
    refine ⟨(h.keep hgt hwin hfits).congr rfl rfl rfl rfl, hset.congr rfl rfl rfl, le_rfl, hhigh,
      rfl, ?_⟩
    simp only [List.mem_singleton, forall_eq]
    exact .inr ⟨rfl, hset.1⟩
  | outOfOrder =>
    have hset := settled_keep (p := chunk b src (r.seqNum host).toNat) hgt hwin hs.2.1
      (fun _ => hs.2.2)
    refine ⟨_, _, _, turn_outOfOrder_gt host hf (UInt32.lt_iff_toNat_lt.mpr hgt) hp, ?_⟩
    exact ⟨(h.keep hgt hwin hfits).congr rfl rfl rfl rfl, hset.congr rfl rfl rfl, le_rfl, hhigh,
      rfl, by simp⟩
  | flush => exact absurd rfl hstate

/-- The flush writes what it can, whatever packet started it. -/
theorem turnsWell_flush (h : Faithful b src info) (hs : Settled info .flush)
    (hf : IsDataFlag r.flag) : TurnsWell host b src .flush info r := by
  have h' : Faithful b src { info with serverAddr := r.srcAddr } := h.congr rfl rfl rfl rfl
  obtain ⟨hfl, hle, hsame, -⟩ := h'.flush
  rcases turn_flush_cases host info hf with ⟨hmore, hfree, hturn⟩ | ⟨hall, hturn⟩
  · refine ⟨_, _, _, hturn, hfl, ⟨by simpa using hmore, hfree, ?_⟩, hle, by simp, by simp, ?_⟩
    · simp only [ReceiveInfo.highest_flush]
      rw [hsame _ hmore h.highest_lt]
      exact hs.2
    · intro m hm
      exact .inr ⟨List.mem_singleton.mp hm, by simpa using hmore⟩
  · have hsucc := hfl.le_highest
    simp only [ReceiveInfo.highest_flush] at hsucc
    refine ⟨_, _, _, hturn, hfl, ?_, hle, by simp, by simp, by simp⟩
    simp only [Settled, ReceiveInfo.highest_flush]
    omega

/-- **A turn with a packet of the window** — or with any packet from before `expected`, whatever it
carries — keeps the invariant, and is answered by an RR or a SREJ for the new `expected`. -/
theorem dataTurn {state : TransferState} (h : Faithful b src info) (hs : Settled info state)
    (hf : IsDataFlag r.flag) (hp : r.payload = .ok p)
    (hin : (r.seqNum host).toNat < info.expected.toNat
      ∨ (r.seqNum host).toNat < info.expected.toNat + W ∧ (r.seqNum host).toNat < 4294967295
        ∧ p = chunk b src (r.seqNum host).toNat) :
    ∃ state' info' sends, processTransferState host state info r = .ok (some state', info', sends)
      ∧ GoodTurn host b src r.srcAddr info (r.seqNum host).toNat state' info' sends := by
  by_cases hflush : state = .flush
  · subst hflush
    exact turnsWell_flush host h hs hf
  rcases lt_trichotomy (r.seqNum host).toNat info.expected.toNat with hlt | heq | hgt
  · exact turnsWell_lt host h hs hflush hf hlt
  · obtain ⟨-, hfits, hchunk⟩ := hin.resolve_left (by omega)
    exact turnsWell_eq host h hs hflush hf hp heq hfits hchunk
  · obtain ⟨hwin, hfits, hchunk⟩ := hin.resolve_left (by omega)
    exact turnsWell_gt host h hs hflush hf hp hgt hwin hfits hchunk

end DataTurn

end RemoteFileCopy
