import RemoteFileCopy.Client.Discards
import RemoteFileCopy.Client.Faithful

/-!
# Client/Gapped — a receiver whose sender has one slot more

The receive buffer has the `W` slots the user asked for; the sender's window has the size the server
read from the request, and need not be the same.  While `expected` is missing its own slot may serve
the number `expected + W`, so a sender one packet ahead of the buffer still does no harm:

    IN_ORDER      nothing is buffered
    OUT_OF_ORDER  the numbers after expected, up to expected + W      (`Gapped`)
    FLUSH         the numbers from expected, below expected + W       (`Faithful`)

Only an EOF that came into such a gap would flush the one for the other, and the sender has no EOF
to send before the window has room.
-/

namespace RemoteFileCopy

open CircularQueue (slot slot_eq_iff)

variable {W : ℕ} [NeZero W] {b : ℕ} {src : Bytes}

/-- **What is buffered is past the gap**, by no more than the buffer is long. -/
structure Gathered (b : ℕ) (src : Bytes) (info : ReceiveInfo W) : Prop where
  out : info.outFile = chunks b src (info.expected.toNat - 1)
  pos : 1 ≤ info.expected.toNat
  slots : ∀ i, (info.buffer i).valid = true → ∃ s, info.expected.toNat < s
    ∧ s ≤ info.highest.toNat ∧ slot W s = i ∧ (info.buffer i).packet = chunk b src s
  le_highest : info.expected.toNat ≤ info.highest.toNat + 1
  highest_le : info.highest.toNat ≤ info.expected.toNat + W
  fits : info.highest.toNat < 4294967295

/-- **A receiver out of order**: `highest` is buffered, `expected` is not. -/
structure Gapped (b : ℕ) (src : Bytes) (info : ReceiveInfo W) : Prop
    extends Gathered b src info where
  lt_highest : info.expected.toNat < info.highest.toNat
  top : (info.buffer (slot W info.highest.toNat)).valid = true

/-- What a receiver in a state keeps. -/
def Reassembles (b : ℕ) (src : Bytes) (info : ReceiveInfo W) : TransferState → Prop
  | .outOfOrder => Gapped b src info
  | state => Faithful b src info ∧ Settled info state

namespace Gathered

variable {info : ReceiveInfo W}

/-- The address and the EOF number play no part. -/
theorem congr (h : Gathered b src info) {info' : ReceiveInfo W} (hb : info'.buffer = info.buffer)
    (he : info'.expected = info.expected) (hh : info'.highest = info.highest)
    (ho : info'.outFile = info.outFile) : Gathered b src info' where
  out := by rw [ho, he, h.out]
  pos := he ▸ h.pos
  slots := by rw [hb, he, hh]; exact h.slots
  le_highest := by rw [he, hh]; exact h.le_highest
  highest_le := by rw [he, hh]; exact h.highest_le
  fits := hh ▸ h.fits

/-- In order nothing is buffered. -/
theorem of_inOrder (h : Faithful b src info) (hs : Settled info .inOrder) :
    Gathered b src info where
  out := h.out
  pos := h.pos
  slots i hi := by
    rw [h.not_valid_of_inOrder hs i] at hi
    cases hi
  le_highest := h.le_highest
  highest_le := h.highest_lt.le
  fits := h.fits

theorem highest_keep (info : ReceiveInfo W) (s : UInt32) (p : Bytes) :
    (info.keep s p).highest.toNat = max info.highest.toNat s.toNat := by
  simp only [ReceiveInfo.keep, gt_iff_lt, UInt32.lt_iff_toNat_lt]
  split <;> omega

/-- **A packet past the gap, buffered.** -/
theorem keep (h : Gathered b src info)
    (htop : info.expected.toNat < info.highest.toNat →
      (info.buffer (slot W info.highest.toNat)).valid = true)
    {s : UInt32} (hlt : info.expected.toNat < s.toNat) (hW : s.toNat ≤ info.expected.toNat + W)
    (hfits : s.toNat < 4294967295) :
    Gapped b src (info.keep s (chunk b src s.toNat)) := by
  have hhigh := highest_keep info s (chunk b src s.toNat)
  have hmax := h.highest_le
  have hmax' := h.fits
  have hexp : (info.keep s (chunk b src s.toNat)).expected = info.expected := rfl
  have hbuffer : ∀ i, ((info.keep s (chunk b src s.toNat)).buffer i = info.buffer i
      ∧ (i = slot W s.toNat → (info.buffer i).valid = true))
      ∨ i = slot W s.toNat
        ∧ (info.keep s (chunk b src s.toNat)).buffer i = ⟨chunk b src s.toNat, true⟩ := by
    intro i
    simp only [ReceiveInfo.keep]
    split
    case isTrue hv => exact .inl ⟨rfl, fun hi => hi ▸ hv⟩
    case isFalse =>
      rcases eq_or_ne i (slot W s.toNat) with rfl | hi
      · exact .inr ⟨rfl, Function.update_self _ _ _⟩
      · exact .inl ⟨Function.update_of_ne hi _ _, fun h => absurd h hi⟩
  constructor
  case toGathered =>
    constructor
    case out => exact h.out
    case pos => exact h.pos
    case slots =>
      intro i hi
      rw [hexp, hhigh]
      rcases hbuffer i with ⟨hsame, -⟩ | ⟨rfl, hnew⟩
      · rw [hsame] at hi ⊢
        obtain ⟨t, ht, hth, hslot, hp⟩ := h.slots i hi
        exact ⟨t, ht, hth.trans (le_max_left _ _), hslot, hp⟩
      · rw [hnew]
        exact ⟨s.toNat, hlt, le_max_right _ _, rfl, rfl⟩
    case le_highest => rw [hexp, hhigh]; omega
    case highest_le => rw [hexp, hhigh]; omega
    case fits => rw [hhigh]; omega
  case lt_highest => rw [hexp, hhigh]; omega
  case top =>
    rw [hhigh]
    rcases le_total info.highest.toNat s.toNat with hle | hle
    · rw [max_eq_right hle]
      rcases hbuffer (slot W s.toNat) with ⟨hsame, hv⟩ | ⟨-, hnew⟩
      · rw [hsame]
        exact hv rfl
      · rw [hnew]
    · rw [max_eq_left hle]
      have hv := htop (by omega)
      rcases hbuffer (slot W info.highest.toNat) with ⟨hsame, -⟩ | ⟨-, hnew⟩
      · rwa [hsame]
      · rw [hnew]

end Gathered

namespace Gapped

variable {info : ReceiveInfo W}

theorem congr (h : Gapped b src info) {info' : ReceiveInfo W} (hb : info'.buffer = info.buffer)
    (he : info'.expected = info.expected) (hh : info'.highest = info.highest)
    (ho : info'.outFile = info.outFile) : Gapped b src info' where
  toGathered := h.toGathered.congr hb he hh ho
  lt_highest := by rw [he, hh]; exact h.lt_highest
  top := by rw [hb, hh]; exact h.top

/-- **The missing packet closes the gap**, and what is buffered starts at the new `expected`. -/
theorem write (h : Gapped b src info) (a : SockAddr) :
    let info' := { info with
      serverAddr := a
      outFile := info.outFile ++ chunk b src info.expected.toNat
      expected := info.expected + 1 }
    Faithful b src info' ∧ Settled info' .flush := by
  have hlt := h.lt_highest
  have hfits := h.fits
  have hle := h.highest_le
  have hpos := h.pos
  have hsucc : (info.expected + 1).toNat = info.expected.toNat + 1 := toNat_add_one (by omega)
  refine ⟨?_, ?_, h.top⟩
  · constructor
    case out =>
      change info.outFile ++ _ = chunks b src ((info.expected + 1).toNat - 1)
      rw [hsucc, Nat.add_sub_cancel, h.out]
      conv_rhs => rw [← Nat.sub_add_cancel hpos, chunks_succ, Nat.sub_add_cancel hpos]
    case pos => simp only [hsucc]; omega
    case slots =>
      intro i hi
      obtain ⟨s, hs, hhigh, hslot, hp⟩ := h.slots i hi
      exact ⟨s, by simp only [hsucc]; omega, hhigh, hslot, hp⟩
    case le_highest => simp only [hsucc]; omega
    case highest_lt => simp only [hsucc]; omega
    case fits => exact hfits
  · simp only [hsucc]
    omega

/-- **A gap the buffer reaches past only by its own length** is the gap of a sender with as many
slots. -/
theorem faithful (h : Gapped b src info)
    (hlt : info.highest.toNat < info.expected.toNat + W) :
    Faithful b src info ∧ Settled info .outOfOrder := by
  have hlth := h.lt_highest
  refine ⟨⟨h.out, h.pos, fun i hi => ?_, h.le_highest, hlt, h.fits⟩, hlth.le, ?_, h.top⟩
  · obtain ⟨s, hs, hrest⟩ := h.slots i hi
    exact ⟨s, hs.le, hrest⟩
  · by_contra hv
    obtain ⟨s, hs, hhigh, hslot, -⟩ := h.slots _ ((Bool.not_eq_false _).mp hv)
    have := SlidingWindow.eq_of_mod_eq_of_close (b := info.expected.toNat) (slot_eq_iff.mp hslot)
      hs.le (by omega) le_rfl (by omega)
    omega

/-- A receiver that is out of order in the narrow sense is so in the wide one. -/
theorem of_faithful (h : Faithful b src info) (hs : Settled info .outOfOrder) :
    Gapped b src info where
  out := h.out
  pos := h.pos
  slots i hi := by
    obtain ⟨s, hle, hhigh, rfl, hp⟩ := h.slots i hi
    have hne : s ≠ info.expected.toNat := fun heq => by
      have hfree := hs.2.1
      rw [ReceiveInfo.entry, ← heq, hi] at hfree
      cases hfree
    exact ⟨s, lt_of_le_of_ne hle hne.symm, hhigh, rfl, hp⟩
  le_highest := h.le_highest
  highest_le := h.highest_lt.le
  fits := h.fits
  lt_highest := Faithful.lt_highest hs
  top := hs.2.2

end Gapped

namespace Reassembles

variable {info : ReceiveInfo W} {state : TransferState}

theorem of_settled (h : Faithful b src info) (hs : Settled info state) :
    Reassembles b src info state := by
  cases state with
  | inOrder | flush => exact ⟨h, hs⟩
  | outOfOrder => exact Gapped.of_faithful h hs

theorem out (h : Reassembles b src info state) :
    info.outFile = chunks b src (info.expected.toNat - 1) := by
  cases state with
  | inOrder | flush => exact h.1.out
  | outOfOrder => exact Gapped.toGathered h |>.out

theorem pos (h : Reassembles b src info state) : 1 ≤ info.expected.toNat := by
  cases state with
  | inOrder | flush => exact h.1.pos
  | outOfOrder => exact Gapped.toGathered h |>.pos

theorem le_highest (h : Reassembles b src info state) :
    info.expected.toNat ≤ info.highest.toNat + 1 := by
  cases state with
  | inOrder | flush => exact h.1.le_highest
  | outOfOrder => exact Gapped.toGathered h |>.le_highest

theorem congr (h : Reassembles b src info state) {info' : ReceiveInfo W}
    (hb : info'.buffer = info.buffer) (he : info'.expected = info.expected)
    (hh : info'.highest = info.highest) (ho : info'.outFile = info.outFile) :
    Reassembles b src info' state := by
  cases state with
  | inOrder | flush => exact ⟨h.1.congr hb he hh ho, h.2.congr hb he hh⟩
  | outOfOrder => exact Gapped.congr h hb he hh ho

/-- Where `highest` is within the buffer, every state is the narrow one. -/
theorem faithful (h : Reassembles b src info state)
    (hlt : info.highest.toNat < info.expected.toNat + W) : Faithful b src info := by
  cases state with
  | inOrder | flush => exact h.1
  | outOfOrder => exact (Gapped.faithful h hlt).1

end Reassembles

/-! ## A turn -/

section Turn

variable (host : Host) {info : ReceiveInfo W} {r : Received} {p : Bytes}

/-- What one turn may do to a receiver. -/
structure WideTurn (host : Host) (b : ℕ) (src : Bytes) (a : SockAddr) (info : ReceiveInfo W) (s : ℕ)
    (state' : TransferState) (info' : ReceiveInfo W) (sends : List Send) : Prop where
  reassembles : Reassembles b src info' state'
  expected_le : info.expected.toNat ≤ info'.expected.toNat
  highest_le : info'.highest.toNat ≤ max info.highest.toNat s
  sends : ∀ m ∈ sends, m = ⟨a, rrPDU host info'.expected⟩
    ∨ m = ⟨a, srejPDU host info'.expected⟩ ∧ info'.expected.toNat ≤ info'.highest.toNat

theorem GoodTurn.wide {host : Host} {a : SockAddr} {s : ℕ} {state' : TransferState}
    {info' : ReceiveInfo W} {sends : List Send}
    (h : GoodTurn host b src a info s state' info' sends) :
    WideTurn host b src a info s state' info' sends :=
  ⟨.of_settled h.faithful h.settled, h.expected_le, h.highest_le, h.sends⟩

/-- The turn goes on, and is a good one. -/
def TurnsWide (host : Host) (b : ℕ) (src : Bytes) (state : TransferState) (info : ReceiveInfo W)
    (r : Received) : Prop :=
  ∃ state' info' sends, processTransferState host state info r = .ok (some state', info', sends)
    ∧ WideTurn host b src r.srcAddr info (r.seqNum host).toNat state' info' sends

theorem TurnsWell.wide {state : TransferState} (h : TurnsWell host b src state info r) :
    TurnsWide host b src state info r := by
  obtain ⟨state', info', sends, hturn, hg⟩ := h
  exact ⟨state', info', sends, hturn, hg.wide⟩

/-- **In order**, with any packet up to `expected + W`. -/
theorem turnsWide_inOrder (h : Faithful b src info) (hs : Settled info .inOrder)
    (hf : IsDataFlag r.flag) (hp : r.payload = .ok p)
    (hin : (r.seqNum host).toNat < info.expected.toNat
      ∨ (r.seqNum host).toNat ≤ info.expected.toNat + W ∧ (r.seqNum host).toNat < 4294967295
        ∧ p = chunk b src (r.seqNum host).toNat) : TurnsWide host b src .inOrder info r := by
  rcases lt_trichotomy (r.seqNum host).toNat info.expected.toNat with hlt | heq | hgt
  · exact (turnsWell_lt host h hs (by simp) hf hlt).wide
  · obtain ⟨-, hfits, hchunk⟩ := hin.resolve_left (by omega)
    exact (turnsWell_eq host h hs (by simp) hf hp heq hfits hchunk).wide
  · obtain ⟨hwin, hfits, rfl⟩ := hin.resolve_left (by omega)
    have hord : info.highest.toNat + 1 = info.expected.toNat := hs
    have hgap := (Gathered.of_inOrder h hs).keep (fun hlt => by omega) hgt hwin hfits
    have hhigh := Gathered.highest_keep info (r.seqNum host) (chunk b src (r.seqNum host).toNat)
    refine ⟨_, _, _, turn_inOrder_gt host hf (UInt32.lt_iff_toNat_lt.mpr hgt) hp,
      hgap.congr rfl rfl rfl rfl, le_rfl, hhigh.le, ?_⟩
    simp only [List.mem_singleton, forall_eq]
    exact .inr ⟨rfl, hgap.lt_highest.le⟩

/-- **Out of order**, with any packet up to `expected + W`. -/
theorem turnsWide_outOfOrder (h : Gapped b src info) (hf : IsDataFlag r.flag)
    (hp : r.payload = .ok p)
    (hin : (r.seqNum host).toNat < info.expected.toNat
      ∨ (r.seqNum host).toNat ≤ info.expected.toNat + W ∧ (r.seqNum host).toNat < 4294967295
        ∧ p = chunk b src (r.seqNum host).toNat) : TurnsWide host b src .outOfOrder info r := by
  rcases lt_trichotomy (r.seqNum host).toNat info.expected.toNat with hlt | heq | hgt
  · refine ⟨_, _, _, turn_lt host (by simp) hf (UInt32.lt_iff_toNat_lt.mpr hlt), ?_⟩
    exact ⟨h.congr rfl rfl rfl rfl, le_rfl, le_max_left _ _, by simp⟩
  · obtain ⟨-, -, rfl⟩ := hin.resolve_left (by omega)
    have hlth := h.lt_highest
    have hfits := h.fits
    have hsucc : (info.expected + 1).toNat = info.expected.toNat + 1 := toNat_add_one (by omega)
    have hturn := turn_outOfOrder_eq host hf (UInt32.toNat_inj.mp heq) hp
    rw [heq] at hturn
    refine ⟨_, _, _, hturn, h.write r.srcAddr, ?_, le_max_left _ _, by simp⟩
    simp only [hsucc]
    omega
  · obtain ⟨hwin, hfits, rfl⟩ := hin.resolve_left (by omega)
    have hgap := h.toGathered.keep (fun _ => h.top) hgt hwin hfits
    have hhigh := Gathered.highest_keep info (r.seqNum host) (chunk b src (r.seqNum host).toNat)
    exact ⟨_, _, _, turn_outOfOrder_gt host hf (UInt32.lt_iff_toNat_lt.mpr hgt) hp,
      hgap.congr rfl rfl rfl rfl, le_rfl, hhigh.le, by simp⟩

/-- **A turn with a packet up to `expected + W`** — or with any packet from before `expected`. -/
theorem wideTurn {state : TransferState} (h : Reassembles b src info state) (hf : IsDataFlag r.flag)
    (hp : r.payload = .ok p)
    (hin : (r.seqNum host).toNat < info.expected.toNat
      ∨ (r.seqNum host).toNat ≤ info.expected.toNat + W ∧ (r.seqNum host).toNat < 4294967295
        ∧ p = chunk b src (r.seqNum host).toNat) : TurnsWide host b src state info r := by
  cases state with
  | inOrder => exact turnsWide_inOrder host h.1 h.2 hf hp hin
  | outOfOrder => exact turnsWide_outOfOrder host h hf hp hin
  | flush => exact (turnsWell_flush host h.1 h.2 hf).wide

end Turn

/-! ## The client -/

/-- **The invariant of a client** beside a sender with one slot more. -/
structure Client.Wide (b : ℕ) (src : Bytes) (c : Client W) : Prop where
  out : c.info.outFile = chunks b src (c.info.expected.toNat - 1)
  reassembles : ∀ state, c.pc = .receiving state → Reassembles b src c.info state
  running : ∀ fault, c.pc ≠ .aborted fault

namespace Client.Wide

variable {c : Client W} (host : Host)

theorem enter (a : SockAddr) : Client.Wide b src (Client.enter W a) where
  out := rfl
  reassembles state hpc :=
    have h : Client.Inv b src (Client.enter W a) := Client.inv_enter a
    .of_settled h.faithful (h.settled state hpc)
  running _ := ClientPc.noConfusion

/-- **A turn with a chunk**, under its own number up to `expected + W` or under any number below
`expected`. -/
theorem deliver_data (h : Client.Wide b src c) {n : UInt32} {s : ℕ} {flag : UInt8}
    (hflag : IsDataFlag flag) (hlen : (chunk b src s).length ≤ MAXBUF)
    (hn : n.toNat < c.info.expected.toNat
      ∨ n.toNat ≤ c.info.expected.toNat + W ∧ n.toNat < 4294967295 ∧ n.toNat = s)
    {state : TransferState} (hpc : c.pc = .receiving state) (stale : Bytes) (a : SockAddr) :
    ∃ state' info' sends,
      c.step host stale ⟨a, createPDU host n flag (chunk b src s)⟩
          = some (⟨.receiving state', info'⟩, sends)
        ∧ WideTurn host b src a c.info n.toNat state' info' sends := by
  set r := safeRecvfrom stale (MAXBUF + 7) ⟨a, createPDU host n flag (chunk b src s)⟩ with hr
  have hmax : MAXBUF = 1400 := rfl
  have hseq : r.seqNum host = n := by simp [hr]
  have hpay : r.payload = .ok (chunk b src s) := payload_safeRecvfrom _ _ _ _ _ _ (by omega)
  obtain ⟨state', info', sends, hturn, hg⟩ := wideTurn host (h.reassembles state hpc)
    (by simpa [hr] using hflag) hpay
    (by rw [hseq]; exact hn.imp_right fun hn => ⟨hn.1, hn.2.1, by rw [hn.2.2]⟩)
  rw [hseq] at hg
  exact ⟨state', info', sends, Client.step_of_turn host hpc hturn, hg⟩

/-- A turn that goes on keeps the invariant. -/
theorem of_turn {state' : TransferState} {info' : ReceiveInfo W}
    (h : Reassembles b src info' state') : Client.Wide b src ⟨.receiving state', info'⟩ where
  out := h.out
  reassembles state hpc := by
    obtain rfl := ClientPc.receiving.inj hpc
    exact h
  running := by simp

end Client.Wide

end RemoteFileCopy
