import RemoteFileCopy.DataPhase.Safety

/-!
# DataPhase/Recovery — does a timeout get a full window moving again?

The server waits on a full window, the client has not seen the end, and nothing is in flight.  A
timeout resends the packet of the *first* slot — comment and name say oldest — and the client
answers a packet it does not need with silence.  So the window moves again exactly when the client
is about to flush, or needs that packet, or is in order and behind it:

    client        resent packet        answer          then
    FLUSH         any                  RR, or SREJ     released, or resent and released
    in order      = expected           RR              released
    in order      > expected           SREJ            resent, acknowledged, released
    out of order  = expected           RR              released
    otherwise                          none            nothing

and the child must have a timeout left to wait for the answer (`recovers_iff`).

All of it while the numbers have not run out (`Headroom`).  An RR lets go of numbers below its own,
so nothing lets go of packet `2^32 - 1`, and the number after it is zero.
-/

namespace RemoteFileCopy

open CircularQueue (slot)
open Transition

variable {W : ℕ} [NeZero W] {cfg : Config} {s : DataPhase W}

/-- The network delivers, and nothing else happens. -/
def Delivering (s : DataPhase W) : NetEvent → Prop
  | .deliver side i _ bytes => (s.inFlight side)[i]? = some bytes
  | _ => False

/-- **A timeout gets the window moving**: once everything it provokes is delivered, as far as that
can be, fewer entries are in the server's window than before. -/
def Recovers (cfg : Config) (s : DataPhase W) : Prop :=
  ∃ s' sends, s.step cfg .quiet = some (s', sends)
    ∧ Inevitably (DataPhase.machine W cfg) Delivering
        (fun t => t.server.window.ValidCount < s.server.window.ValidCount) s'

/-- **The last number there is, is not given to a packet** — the server may read the end of the file
at it, and nothing more. -/
def Headroom (s : DataPhase W) : NetEvent → Prop
  | .run => s.server.info.file ≠ some [] → s.server.sequenceNum.toNat < 4294967295
  | _ => True

/-! ## One datagram in flight -/

section Single

variable {Q : DataPhase W → Prop}

theorem stuck_of_silent (hc : s.toClient = []) (hs : s.toServer = []) :
    Stuck (DataPhase.machine W cfg) Delivering s := by
  intro ev hg
  cases ev with
  | deliver side i stale bytes => cases side <;> simp [Delivering, DataPhase.inFlight, hc, hs] at hg
  | _ => cases hg

/-- **The one datagram in flight arrives**, whatever the receive array held. -/
theorem inevitably_deliver (side : Side) {d : Bytes} (hd : s.inFlight side = [d])
    (hother : ∀ side' ≠ side, s.inFlight side' = [])
    (hstep : ∀ stale, ∃ t o, s.step cfg (.deliver side 0 stale d) = some (t, o)
      ∧ Inevitably (DataPhase.machine W cfg) Delivering Q t) :
    Inevitably (DataPhase.machine W cfg) Delivering Q s := by
  obtain ⟨t, o, ht, -⟩ := hstep []
  refine .step (e := .deliver side 0 [] d) (by simp [Delivering, hd]) ht ?_
  intro ev t' o' hg hs'
  cases ev with
  | deliver side' i stale bytes =>
    by_cases hside : side' = side
    · subst hside
      obtain ⟨rfl, rfl⟩ : i = 0 ∧ bytes = d := by
        simpa [Delivering, hd, List.getElem?_singleton, eq_comm] using hg
      obtain ⟨t, o, ht, hnext⟩ := hstep stale
      obtain ⟨rfl, -⟩ : t = t' ∧ o = o' := by simpa using ht.symm.trans hs'
      exact hnext
    · simp [Delivering, hother side' hside] at hg
  | _ => cases hg

/-- **The one datagram in flight reaches the client.** -/
theorem inevitably_client {d : Bytes} (hc : s.toClient = [d]) (hs : s.toServer = [])
    (hstep : ∀ stale, ∃ c sends, s.client.step cfg.host stale ⟨cfg.childAddr, d⟩ = some (c, sends)
      ∧ Inevitably (DataPhase.machine W cfg) Delivering Q
          { s with
            client := c
            toClient := []
            toServer := DataPhase.arriving cfg.childAddr sends }) :
    Inevitably (DataPhase.machine W cfg) Delivering Q s := by
  refine inevitably_deliver .client hc (fun side' hne => ?_) fun stale => ?_
  · cases side' with
    | server => exact hs
    | client => exact absurd rfl hne
  · obtain ⟨c, sends, hcl, hnext⟩ := hstep stale
    refine ⟨_, sends, ?_, hnext⟩
    rw [DataPhase.step_deliver_client cfg hc]
    simp only [DataPhase.clientStep, hcl, hs, Option.map_some, List.nil_append]

/-- **The one datagram in flight reaches the server.** -/
theorem inevitably_server {d : Bytes} (hc : s.toClient = []) (hs : s.toServer = [d])
    (hstep : ∀ stale, ∃ σ sends,
      s.server.step cfg.host (.receive stale ⟨cfg.clientAddr, d⟩) = some (σ, sends)
      ∧ Inevitably (DataPhase.machine W cfg) Delivering Q
          { s with
            server := σ
            toServer := []
            toClient := DataPhase.arriving cfg.clientAddr sends }) :
    Inevitably (DataPhase.machine W cfg) Delivering Q s := by
  refine inevitably_deliver .server hs (fun side' hne => ?_) fun stale => ?_
  · cases side' with
    | server => exact absurd rfl hne
    | client => exact hc
  · obtain ⟨σ, sends, hsv, hnext⟩ := hstep stale
    refine ⟨_, sends, ?_, hnext⟩
    rw [DataPhase.step_deliver_server cfg hs]
    simp only [DataPhase.serverStep, hsv, hc, Option.map_some, List.nil_append]

end Single

/-! ## The client's answer -/

section Answer

variable {client : Client W} {state : TransferState} {n : UInt32} {flag : UInt8} {p : Bytes}

/-- **The packet that is due** is acknowledged. -/
theorem Client.step_expected (hpc : client.pc = .receiving state) (hstate : state ≠ .flush)
    (hflag : IsDataFlag flag) (hp : p.length ≤ MAXBUF) (hexp : client.info.expected = n)
    (host : Host) (stale : Bytes) (a : SockAddr) :
    ∃ c, client.step host stale ⟨a, createPDU host n flag p⟩
      = some (c, [⟨a, rrPDU host (n + 1)⟩]) := by
  have hmax : MAXBUF = 1400 := rfl
  set r := safeRecvfrom stale (MAXBUF + 7) ⟨a, createPDU host n flag p⟩ with hr
  have hf : IsDataFlag r.flag := by simpa [hr] using hflag
  have hseq : r.seqNum host = client.info.expected := by simp [hr, hexp]
  have hpay : r.payload = .ok p := payload_safeRecvfrom _ _ _ _ _ _ (by omega)
  cases state with
  | inOrder =>
    have hturn := turn_inOrder_eq host hf hseq hpay
    rw [hexp] at hturn
    exact ⟨_, Client.step_of_turn host hpc hturn⟩
  | outOfOrder =>
    have hturn := turn_outOfOrder_eq host hf hseq hpay
    rw [hexp] at hturn
    exact ⟨_, Client.step_of_turn host hpc hturn⟩
  | flush => exact absurd rfl hstate

/-- **A packet that is not due** is not answered, unless it opens a gap. -/
theorem Client.step_unanswered (hpc : client.pc = .receiving state) (hstate : state ≠ .flush)
    (hflag : IsDataFlag flag) (hp : p.length ≤ MAXBUF) (hne : n ≠ client.info.expected)
    (hgap : state = .inOrder → ¬ client.info.expected < n) (host : Host) (stale : Bytes)
    (a : SockAddr) :
    ∃ c, client.step host stale ⟨a, createPDU host n flag p⟩ = some (c, []) := by
  have hmax : MAXBUF = 1400 := rfl
  set r := safeRecvfrom stale (MAXBUF + 7) ⟨a, createPDU host n flag p⟩ with hr
  have hf : IsDataFlag r.flag := by simpa [hr] using hflag
  have hseq : r.seqNum host = n := by simp [hr]
  rcases UInt32.lt_or_lt_of_ne hne with hlt | hgt
  · have hturn := turn_lt host hstate hf (hseq ▸ hlt)
    exact ⟨_, Client.step_of_turn host hpc hturn⟩
  · cases state with
    | inOrder => exact absurd hgt (hgap rfl)
    | flush => exact absurd rfl hstate
    | outOfOrder =>
      have hturn := turn_outOfOrder_gt host hf (hseq ▸ hgt)
        (payload_safeRecvfrom _ _ _ _ _ _ (by omega))
      exact ⟨_, Client.step_of_turn host hpc hturn⟩

end Answer

/-! ## The server on a full window -/

/-- The server waits on the full window `w`. -/
structure Waits (cfg : Config) (σ : Server W) (w : SlidingWindow W) : Prop where
  inv : Server.Inv cfg.host cfg.b cfg.source σ w
  pc : σ.pc = .fill
  full : w.Full

namespace Waits

variable {σ : Server W} {w : SlidingWindow W}

theorem listening (h : Waits cfg σ w) : σ.Listening :=
  .inl ⟨h.pc, h.inv.holds.isFull_iff.mpr h.full⟩

theorem validCount (h : Waits cfg σ w) : σ.window.ValidCount = W := by
  have := h.full
  rw [h.inv.holds.count]
  simp only [SlidingWindow.Full] at this
  omega

theorem heard (h : Waits cfg σ w) (a : SockAddr) : Waits cfg (σ.heard a σ.window) w :=
  ⟨h.inv.heard a, h.pc, h.full⟩

/-! ## What gets it moving -/

/-- **An RR past the base** makes room. -/
theorem of_rr (h : Waits cfg s.server w) {n : UInt32} (hc : s.toClient = [])
    (hs : s.toServer = [rrPDU cfg.host n]) (hn : w.base < n.toNat) :
    Inevitably (DataPhase.machine W cfg) Delivering
      (fun t => t.server.window.ValidCount < W) s := by
  refine inevitably_server hc hs fun stale => ?_
  obtain ⟨q, hstep, hi⟩ := h.inv.step_rr h.listening n stale cfg.clientAddr
  refine ⟨_, _, hstep, .stuck (stuck_of_silent rfl rfl) ?_⟩
  have hcount := hi.holds.count
  have hfull := h.full
  have hle := w.base_le
  have := Nat.pos_of_neZero W
  simp only [SlidingWindow.Full] at hfull
  simp only [SlidingWindow.next_release, SlidingWindow.base_release] at hcount
  change (s.server.heard cfg.clientAddr q).window.ValidCount < W
  omega

/-- **The packet the client needs** brings an RR past it. -/
theorem of_expected (h : Waits cfg s.server w) {n : UInt32} {flag : UInt8}
    (hc : s.toClient = [createPDU cfg.host n flag (chunk cfg.b cfg.source n.toNat)])
    (hs : s.toServer = []) (hflag : IsDataFlag flag) {state : TransferState}
    (hpc : s.client.pc = .receiving state) (hstate : state ≠ .flush)
    (hexp : s.client.info.expected = n) (hn : n.toNat ∈ w) :
    Inevitably (DataPhase.machine W cfg) Delivering
      (fun t => t.server.window.ValidCount < W) s := by
  obtain ⟨hbase, hlt⟩ := SlidingWindow.mem_iff.mp hn
  have hpos := h.inv.pos
  have hnext := h.inv.next
  have hseq := s.server.sequenceNum.toNat_lt
  have hshort := h.inv.short n.toNat (by omega) hlt
  have hsucc : (n + 1).toNat = n.toNat + 1 := toNat_add_one (by omega)
  refine inevitably_client hc hs fun stale => ?_
  obtain ⟨c, hstep⟩ :=
    Client.step_expected hpc hstate hflag hshort hexp cfg.host stale cfg.childAddr
  refine ⟨c, _, hstep, ?_⟩
  refine of_rr (s := { s with client := c, toClient := [], toServer := _ }) h (n := n + 1) rfl ?_ ?_
  · simp
  · omega

/-- **A SREJ for the packet the client needs** brings that packet. -/
theorem of_srej (h : Waits cfg s.server w) {n : UInt32} (hc : s.toClient = [])
    (hs : s.toServer = [srejPDU cfg.host n]) (hpc : s.client.pc = .receiving .outOfOrder)
    (hexp : s.client.info.expected = n) (hn : n.toNat ∈ w) :
    Inevitably (DataPhase.machine W cfg) Delivering
      (fun t => t.server.window.ValidCount < W) s := by
  refine inevitably_server hc hs fun stale => ?_
  refine ⟨_, _, h.inv.step_srej h.listening hn stale cfg.clientAddr, ?_⟩
  refine of_expected (s := { s with server := _, toServer := [], toClient := _ })
    (h.heard cfg.clientAddr) (n := n) ?_ rfl (show IsDataFlag 17 by decide) hpc (by simp) hexp hn
  simp

/-- **A resent packet in `FLUSH`** wakes the flush, and the answer is a SREJ for the next gap or an
RR past everything received. -/
theorem of_flush (h : Waits cfg s.server w) (hclient : Client.Inv cfg.b cfg.source s.client)
    (hbase : w.base ≤ s.expected) (hhigh : s.client.info.highest.toNat < w.next) {n : UInt32}
    {p : Bytes} (hc : s.toClient = [createPDU cfg.host n 18 p]) (hs : s.toServer = [])
    (hpc : s.client.pc = .receiving .flush) :
    Inevitably (DataPhase.machine W cfg) Delivering
      (fun t => t.server.window.ValidCount < W) s := by
  have hmax : MAXBUF = 1400 := rfl
  refine inevitably_client hc hs fun stale => ?_
  set r := safeRecvfrom stale (MAXBUF + 7) ⟨cfg.childAddr, createPDU cfg.host n 18 p⟩ with hr
  have hf : Faithful cfg.b cfg.source { s.client.info with serverAddr := r.srcAddr } :=
    hclient.faithful.congr rfl rfl rfl rfl
  have hgap : s.client.info.expected.toNat ≤ s.client.info.highest.toNat :=
    (hclient.settled _ hpc).1
  obtain ⟨-, hexp, -⟩ := hf.flush
  rcases turn_flush_cases cfg.host s.client.info (r := r) (by simp [hr, IsDataFlag])
    with ⟨hmore, -, hturn⟩ | ⟨hall, hturn⟩
  · refine ⟨_, _, Client.step_of_turn cfg.host hpc hturn, ?_⟩
    refine of_srej (s := { s with client := _, toClient := [], toServer := _ }) h rfl ?_ rfl rfl
      ⟨hbase.trans hexp, hmore.trans_lt hhigh⟩
    simp [hr, safeRecvfrom]
  · refine ⟨_, _, Client.step_of_turn cfg.host hpc hturn, ?_⟩
    refine of_rr (s := { s with client := _, toClient := [], toServer := _ }) h rfl ?_
      (hbase.trans_lt (hgap.trans_lt hall))
    simp [hr, safeRecvfrom]

/-- **A resent packet past a gap** brings a SREJ for the gap. -/
theorem of_gap (h : Waits cfg s.server w) (hbase : w.base ≤ s.expected) {n : UInt32} {p : Bytes}
    (hp : p.length ≤ MAXBUF) (hc : s.toClient = [createPDU cfg.host n 18 p]) (hs : s.toServer = [])
    (hn : n.toNat ∈ w) (hpc : s.client.pc = .receiving .inOrder)
    (hgt : s.client.info.expected < n) :
    Inevitably (DataPhase.machine W cfg) Delivering
      (fun t => t.server.window.ValidCount < W) s := by
  have hmax : MAXBUF = 1400 := rfl
  refine inevitably_client hc hs fun stale => ?_
  set r := safeRecvfrom stale (MAXBUF + 7) ⟨cfg.childAddr, createPDU cfg.host n 18 p⟩ with hr
  have hturn : processTransferState cfg.host .inOrder s.client.info r = _ :=
    turn_inOrder_gt cfg.host (by simp [hr, IsDataFlag]) (by simpa [hr] using hgt)
      (payload_safeRecvfrom _ _ _ _ _ _ (by omega))
  refine ⟨_, _, Client.step_of_turn cfg.host hpc hturn, ?_⟩
  refine of_srej (s := { s with client := _, toClient := [], toServer := _ }) h rfl ?_ rfl rfl
    ⟨hbase, (UInt32.lt_iff_toNat_lt.mp hgt).trans (SlidingWindow.mem_iff.mp hn).2⟩
  simp [hr, safeRecvfrom, ReceiveInfo.keep]

/-- **A resent packet that the client answers** gets the window moving. -/
theorem of_resent (h : Waits cfg s.server w) (hclient : Client.Inv cfg.b cfg.source s.client)
    (hbase : w.base ≤ s.expected) (hhigh : s.client.info.highest.toNat < w.next) {n : UInt32}
    (hc : s.toClient = [createPDU cfg.host n 18 (chunk cfg.b cfg.source n.toNat)])
    (hs : s.toServer = []) (hn : n.toNat ∈ w) {state : TransferState}
    (hpc : s.client.pc = .receiving state) (hanswer : state = .flush
      ∨ n = s.client.info.expected ∨ state = .inOrder ∧ s.client.info.expected < n) :
    Inevitably (DataPhase.machine W cfg) Delivering
      (fun t => t.server.window.ValidCount < W) s := by
  obtain ⟨hle, hlt⟩ := SlidingWindow.mem_iff.mp hn
  have hpos := h.inv.pos
  have hshort := h.inv.short n.toNat (by omega) hlt
  by_cases hflush : state = .flush
  · subst hflush
    exact h.of_flush hclient hbase hhigh hc hs hpc
  rcases hanswer.resolve_left hflush with heq | ⟨rfl, hgt⟩
  · exact h.of_expected hc hs (by decide) hpc hflush heq.symm hn
  · exact h.of_gap hbase hshort hc hs hn hpc hgt

end Waits

/-! ## What does not -/

/-- **A resent packet that the client does not answer** changes nothing at the server. -/
theorem inevitably_unanswered {n : UInt32} {p : Bytes} (hp : p.length ≤ MAXBUF)
    (hc : s.toClient = [createPDU cfg.host n 18 p]) (hs : s.toServer = [])
    {state : TransferState} (hpc : s.client.pc = .receiving state)
    (hanswer : ¬ (state = .flush ∨ n = s.client.info.expected
      ∨ state = .inOrder ∧ s.client.info.expected < n)) :
    Inevitably (DataPhase.machine W cfg) Delivering (fun t => t.server = s.server) s := by
  simp only [not_or, not_and] at hanswer
  obtain ⟨hflush, hne, hgt⟩ := hanswer
  refine inevitably_client hc hs fun stale => ?_
  obtain ⟨c, hstep⟩ := Client.step_unanswered hpc hflush (show IsDataFlag 18 by decide) hp hne hgt
    cfg.host stale cfg.childAddr
  exact ⟨c, [], hstep, .stuck (stuck_of_silent rfl rfl) rfl⟩

/-- **A server that has given up** hears nothing. -/
theorem inevitably_unheard {d : Bytes} (hdone : s.server.pc = .next .done)
    (hc : s.toClient = [d]) (hs : s.toServer = [])
    (hstep : ∀ stale, (s.client.step cfg.host stale ⟨cfg.childAddr, d⟩).isSome) :
    Inevitably (DataPhase.machine W cfg) Delivering (fun t => t.server = s.server) s := by
  refine inevitably_client hc hs fun stale => ?_
  obtain ⟨⟨c, sends⟩, hcl⟩ := Option.isSome_iff_exists.mp (hstep stale)
  refine ⟨c, sends, hcl, .stuck (fun ev hg => ?_) rfl⟩
  cases ev with
  | deliver side i stale bytes =>
    cases side with
    | client => simp [Delivering, DataPhase.inFlight] at hg
    | server =>
      simp [DataPhase.machine, DataPhase.step, DataPhase.serverStep, DataPhase.setInFlight,
        Server.step, hdone]
  | _ => cases hg

/-! ## The timeout -/

/-- The child after a timeout. -/
def Server.timedOut (σ : Server W) : Server W :=
  { σ with
    pc := if σ.timeoutCount + 1 ≥ 10 then .next .done else .fill
    timeoutCount := σ.timeoutCount + 1 }

/-- **A timeout on a full window** puts the packet of the first slot in flight. -/
theorem step_quiet {w : SlidingWindow W} (h : Joint cfg s w) (hfill : s.server.pc = .fill)
    (hfull : w.Full) (hc : s.toClient = []) : ∃ n sends, n.toNat ∈ w
      ∧ (s.server.window.entries (slot W 0)).sequenceNum = n
      ∧ s.step cfg .quiet = some ({ s with
          server := s.server.timedOut
          toClient := [createPDU cfg.host n 18 (chunk cfg.b cfg.source n.toNat)] }, sends) := by
  obtain ⟨σ', w', sends, hstep, he, -⟩ := h.server.takes_quiet hfill hfull
  cases he with
  | resent k hpc hfull hk hslot =>
    have hval := CircularQueue.toNat_ofNat_of_mem h.server.holds hk
    refine ⟨UInt32.ofNat k, [⟨s.server.info.clientAddr,
      createPDU cfg.host (UInt32.ofNat k) 18 (chunk cfg.b cfg.source k)⟩], by rwa [hval], ?_, ?_⟩
    · rw [← hslot, h.server.holds.stored k hk]
    · simp only [DataPhase.step, DataPhase.serverStep, hstep, Option.map_some]
      simp [hc, h.addr, hval, Server.timedOut]
  | drained hpc | eofQuiet hpc => simp [hfill] at hpc

/-- **The client answers the packet of the first slot**, and the child will be there to hear it. -/
def Answered (s : DataPhase W) : Prop :=
  s.server.timeoutCount < 9
    ∧ (s.client.pc = .receiving .flush
      ∨ (s.server.window.entries (slot W 0)).sequenceNum = s.client.info.expected
      ∨ s.client.pc = .receiving .inOrder
        ∧ s.client.info.expected < (s.server.window.entries (slot W 0)).sequenceNum)

instance : Decidable (Answered s) := inferInstanceAs (Decidable (_ ∧ (_ ∨ _ ∨ _ ∧ _)))

/-- **A timeout that nobody answers, or the last one**, leaves the child as it is after it. -/
theorem Joint.inevitably_timedOut {w : SlidingWindow W} (h : Joint cfg s w) {n : UInt32}
    (hn : n.toNat ∈ w) (hs : s.toServer = []) {state : TransferState}
    (hpc : s.client.pc = .receiving state)
    (hno : ¬ (s.server.timeoutCount < 9 ∧ (state = .flush ∨ n = s.client.info.expected
      ∨ state = .inOrder ∧ s.client.info.expected < n))) :
    Inevitably (DataPhase.machine W cfg) Delivering (fun t => t.server = s.server.timedOut)
      { s with
        server := s.server.timedOut
        toClient := [createPDU cfg.host n 18 (chunk cfg.b cfg.source n.toNat)] } := by
  have hpos := h.server.pos
  obtain ⟨hbase, hlt⟩ := SlidingWindow.mem_iff.mp hn
  have hshort := h.server.short n.toNat (by omega) hlt
  by_cases hcount : s.server.timeoutCount < 9
  · exact inevitably_unanswered (s := { s with server := _, toClient := _ }) hshort rfl hs hpc
      fun hanswer => hno ⟨hcount, hanswer⟩
  · refine inevitably_unheard (s := { s with server := _, toClient := _ }) ?_ rfl hs fun stale => ?_
    · exact if_pos (by omega)
    · obtain ⟨c, sends, hcl, -⟩ := h.client_deliver
        (.data n n.toNat 18 (by decide) (by omega) hlt (.inl rfl)) hpc stale cfg.childAddr
      exact Option.isSome_iff_exists.mpr ⟨_, hcl⟩

/-- What a timeout on a full window does to the composed system, from its invariant. -/
theorem Joint.recovers_of_full {w : SlidingWindow W} (h : Joint cfg s w)
    (hfill : s.server.pc = .fill) (hfull : s.server.window.isFull = true)
    (hopen : s.client.pc ≠ .done) (hsilent : s.toClient = [] ∧ s.toServer = []) :
    Recovers cfg s ↔ Answered s := by
  have hw := h.server.holds.isFull_iff.mp hfull
  have hcount := (Waits.mk h.server hfill hw).validCount
  obtain ⟨n, sends, hn, hfirst, hstep⟩ := step_quiet h hfill hw hsilent.1
  obtain ⟨state, hpc⟩ : ∃ state, s.client.pc = .receiving state := by
    cases hpc : s.client.pc with
    | receiving state => exact ⟨state, rfl⟩
    | done => exact absurd hpc hopen
    | aborted fault => exact absurd hpc (h.client.running fault)
  simp only [Answered, hfirst, hpc, ClientPc.receiving.injEq]
  constructor
  · rintro ⟨s', sends', hs', hrec⟩
    obtain ⟨rfl, -⟩ : _ = s' ∧ _ := by simpa using hstep.symm.trans hs'
    by_contra hcond
    obtain ⟨t, hlt, hsame⟩ : ∃ t : DataPhase W,
        t.server.window.ValidCount < s.server.window.ValidCount
          ∧ t.server = s.server.timedOut :=
      hrec.and_exists (h.inevitably_timedOut hn hsilent.2 hpc hcond)
    rw [hsame] at hlt
    exact lt_irrefl _ hlt
  · rintro ⟨hcount', hanswer⟩
    refine ⟨_, _, hstep, ?_⟩
    rw [hcount]
    have hwaits : Waits cfg s.server.timedOut w :=
      ⟨h.server.move (by split <;> simp) (by split <;> simp) _,
        if_neg (by omega), hw⟩
    exact Waits.of_resent (s := { s with server := _, toClient := _ }) hwaits h.client h.base_le
      h.highest_lt rfl hsilent.2 hn hpc hanswer

/-! ## Runs -/

/-- **Headroom is a number for every chunk still to be sent.** -/
theorem Joint.headroom_iff {w : SlidingWindow W} (h : Joint cfg s w) :
    Headroom s .run ↔ (w.next ≤ numChunks cfg.b cfg.source → w.next < 4294967295) := by
  have hpos : 1 ≤ w.next := h.server.pos.trans w.base_le
  rw [Headroom, h.server.file, ← h.server.next, ← chunk_ne_nil_iff hpos, chunk]
  refine ⟨fun hroom hmore => hroom fun hempty => hmore ?_, fun hroom hmore => ?_⟩
  · rw [Option.some_inj.mp hempty, List.take_nil]
  · by_cases hb : cfg.b = 0
    · -- nothing is ever read, and the first number is the last
      have hle := h.server.le_numChunks
      simp only [numChunks, hb, Nat.div_zero] at hle
      omega
    · refine hroom fun hnil => hmore ?_
      rw [(List.take_eq_nil_iff.mp hnil).resolve_left hb]

/-- **The joint invariant holds after every run with headroom**, however long the file is. -/
theorem Joint.of_headroom {es : List (Edge (DataPhase W) NetEvent (List Send))}
    (run : Run (DataPhase.machine W cfg) DataPhase.Unaltered (DataPhase.enter W cfg) es s)
    (hroom : ∀ x ∈ es, Headroom x.source x.event) : ∃ w, Joint cfg s w := by
  refine (run.strengthen hroom).invariant (P := fun s => ∃ w, Joint cfg s w) ⟨_, Joint.enter⟩ ?_
  rintro s ev t o ⟨w, h⟩ ⟨hg, hroom⟩ hs
  exact h.step_of_last (fun hev => h.headroom_iff.mp (hev ▸ hroom)) (.inl hg) hs

/-- A file with fewer chunks than there are numbers leaves headroom in every run. -/
theorem headroom_of_run (hK : numChunks cfg.b cfg.source < 4294967295)
    {es : List (Edge (DataPhase W) NetEvent (List Send))}
    (run : Run (DataPhase.machine W cfg) DataPhase.Unaltered (DataPhase.enter W cfg) es s) :
    ∀ x ∈ es, Headroom x.source x.event := by
  intro x hx
  obtain ⟨⟨_, run'⟩, -, -⟩ := run.edge hx
  obtain ⟨w, h⟩ := Joint.of_run hK run'
  cases x.event with
  | run => exact h.headroom_iff.mpr fun hmore => hmore.trans_lt hK
  | _ => trivial

/-- **Exactly when a timeout gets a full window moving**, while the numbers have not run out: it is
not the last one, and its packet is one that the client answers. -/
theorem recovers_iff {es : List (Edge (DataPhase W) NetEvent (List Send))}
    (run : Run (DataPhase.machine W cfg) DataPhase.Unaltered (DataPhase.enter W cfg) es s)
    (hroom : ∀ x ∈ es, Headroom x.source x.event) (hfill : s.server.pc = .fill)
    (hfull : s.server.window.isFull = true) (hopen : s.client.pc ≠ .done)
    (hsilent : s.toClient = [] ∧ s.toServer = []) : Recovers cfg s ↔ Answered s := by
  obtain ⟨w, h⟩ := Joint.of_headroom run hroom
  exact h.recovers_of_full hfill hfull hopen hsilent

/-- The only packet of a window of one is lost, and resent. -/
theorem recovers_iff_lost : ∃ s : DataPhase 1, s.expected = 1 ∧ Recovers twoChunks s := by
  obtain ⟨es, s, run, h⟩ := exists_run_of_replay (M := DataPhase.machine 1 twoChunks)
    (G := DataPhase.Unaltered) (s := DataPhase.enter 1 twoChunks)
    [.run, .lose .client 0, .quiet]
    (P := fun _ s => s.expected = 1 ∧ Answered s ∧ s.server.pc = .fill
      ∧ s.server.window.isFull = true ∧ s.client.pc ≠ .done ∧ s.toClient = [] ∧ s.toServer = [])
    (by decide +kernel)
  obtain ⟨hexp, hanswer, hfill, hfull, hopen, hsilent⟩ := of_decide_eq_true h
  have hroom := headroom_of_run (by decide) run
  exact ⟨s, hexp, (recovers_iff run hroom hfill hfull hopen hsilent).mpr hanswer⟩

/-- **A lost RR stalls a full window**: the client has written the packet that is resent, and
ignores it. -/
theorem lost_rr_stalls : ∃ (es : List (Edge (DataPhase 1) NetEvent (List Send)))
    (s : DataPhase 1),
      Run (DataPhase.machine 1 twoChunks) DataPhase.Unaltered (DataPhase.enter 1 twoChunks) es s
        ∧ s.server.pc = .fill ∧ s.server.window.isFull = true ∧ s.client.pc ≠ .done
        ∧ (s.toClient = [] ∧ s.toServer = []) ∧ ¬ Recovers twoChunks s := by
  obtain ⟨es, s, run, h⟩ := exists_run_of_replay (M := DataPhase.machine 1 twoChunks)
    (G := DataPhase.Unaltered) (s := DataPhase.enter 1 twoChunks)
    [.run, .deliver .client 0 [] (dataPDU (.standard .little) 1 [65, 66] 1), .lose .server 0,
      .quiet]
    (P := fun _ s => ¬ Answered s ∧ s.server.pc = .fill ∧ s.server.window.isFull = true
      ∧ s.client.pc ≠ .done ∧ s.toClient = [] ∧ s.toServer = []) (by decide +kernel)
  obtain ⟨hanswer, hfill, hfull, hopen, hsilent⟩ := of_decide_eq_true h
  obtain ⟨w, hj⟩ := Joint.of_run (by decide) run
  exact ⟨es, s, run, hfill, hfull, hopen, hsilent, fun hrec => hanswer
    ((hj.recovers_of_full hfill hfull hopen hsilent).mp hrec)⟩

end RemoteFileCopy
