import RemoteFileCopy.Client.Discards
import RemoteFileCopy.Client.Faithful
import RemoteFileCopy.DataPhase.Compose
import RemoteFileCopy.Server.Contiguous

/-!
# DataPhase/Joint — what holds of both programs and of every datagram in flight

The sender's window and the receiver's `expected` meet in the middle:

    base ≤ expected ≤ next ≤ base + W,      highest < next

A packet on its way to the client carries its own chunk, or a number the client is past; an ack on
its way to the server names no number the client has not written.  With that the sender never lets
go of what is not written, and the receiver's slots never hold two numbers of one residue.

`Joint.step` keeps all of it for datagrams that arrive as they were sent — and for altered ones
that are `Tolerable`, which is where the programs do not look at the checksum.
-/

namespace RemoteFileCopy

open CircularQueue (slot)
open Transition

/-! ## Datagrams in flight -/

/-- **A datagram on its way to the client**: a data packet the server has sent, under its own number
or one below `e`; or the EOF. -/
inductive ToClient (cfg : Config) (e next : ℕ) : Bytes → Prop
  | data (n : UInt32) (s : ℕ) (flag : UInt8) (hflag : IsDataFlag flag) (hs : 1 ≤ s)
      (hlt : s < next) (hn : n.toNat = s ∨ n.toNat < e) :
      ToClient cfg e next (createPDU cfg.host n flag (chunk cfg.b cfg.source s))
  | eof (n : UInt32) (hn : n.toNat = next) (hend : next = numChunks cfg.b cfg.source + 1) :
      ToClient cfg e next (createPDU cfg.host n 10 [])

/-- **A datagram on its way to the server**: an RR or a SREJ for a number the client has reached, or
the ack of the EOF. -/
inductive ToServer (cfg : Config) (e next : ℕ) : Bytes → Prop
  | rr (n : UInt32) (hpos : 1 ≤ n.toNat) (hle : n.toNat ≤ e) :
      ToServer cfg e next (rrPDU cfg.host n)
  | srej (n : UInt32) (hpos : 1 ≤ n.toNat) (hle : n.toNat ≤ e) (hlt : n.toNat < next) :
      ToServer cfg e next (srejPDU cfg.host n)
  | eofAck (n : UInt32) : ToServer cfg e next (createPDU cfg.host n 35 [])

section Mono

variable {cfg : Config} {e e' next next' : ℕ} {d : Bytes}

theorem ToClient.mono (h : ToClient cfg e next d) (he : e ≤ e') (hnext : next ≤ next')
    (hend : next' ≤ numChunks cfg.b cfg.source + 1) : ToClient cfg e' next' d := by
  cases h with
  | data n s flag hflag hs hlt hn => exact .data n s flag hflag hs (by omega) (by omega)
  | eof n hn hlast => exact .eof n (by omega) (by omega)

theorem ToServer.mono (h : ToServer cfg e next d) (he : e ≤ e') (hnext : next ≤ next') :
    ToServer cfg e' next' d := by
  cases h with
  | rr n hpos hle => exact .rr n hpos (by omega)
  | srej n hpos hle hlt => exact .srej n hpos (by omega) (by omega)
  | eofAck n => exact .eofAck n

end Mono

/-! ## The server's half -/

section Server

variable {W : ℕ} [NeZero W] {cfg : Config} {e : ℕ}

/-- **An ack that does no harm**: an RR lets go of nothing the client has not written, and a SREJ
that finds a packet finds its own, or names a number the client is past. -/
def AckFits (host : Host) (e : ℕ) (σ : Server W) (stale : Bytes) (d : Datagram) : Prop :=
  let r := safeRecvfrom stale 7 d
  let entry := σ.window.entries (slot W (r.seqNum host).toNat)
  σ.Listening → (r.flag = 5 → (r.seqNum host).toNat ≤ e)
    ∧ (r.flag = 6 → entry.valid = true →
        entry.sequenceNum = r.seqNum host ∨ (r.seqNum host).toNat < e)

instance (host : Host) (σ : Server W) (stale : Bytes) (d : Datagram) :
    Decidable (AckFits host e σ stale d) :=
  inferInstanceAs (Decidable (_ → (_ → _) ∧ (_ → _ → _ ∨ _)))

variable {σ σ' : Server W} {w w' : SlidingWindow W} {ev : ServerEvent} {sends : List Send}

/-- **What the client sends does no harm** when it arrives as it was sent. -/
theorem ToServer.ackFits {d : Bytes} (h : ToServer cfg e w.next d)
    (hi : Server.Inv cfg.host cfg.b cfg.source σ w) (hle : w.base ≤ e) (stale : Bytes)
    (a : SockAddr) : AckFits cfg.host e σ stale ⟨a, d⟩ := by
  intro _
  cases h with
  | rr n hpos hn =>
    rw [rrPDU, controlPDU_eq]
    simpa using hn
  | srej n hpos hn hlt =>
    rw [srejPDU, controlPDU_eq]
    simp only [flag_safeRecvfrom, seqNum_safeRecvfrom, le_refl]
    refine ⟨fun hf => absurd hf (by decide), fun _ _ => ?_⟩
    rcases hn.lt_or_eq with hn | hn
    · exact .inr hn
    · rw [hi.holds.stored n.toNat (SlidingWindow.mem_iff.mpr ⟨by omega, hlt⟩)]
      exact .inl UInt32.ofNat_toNat
  | eofAck n =>
    simp only [flag_safeRecvfrom, le_refl]
    exact ⟨fun hf => absurd hf (by decide), fun hf => absurd hf (by decide)⟩

/-- **One step of the server beside the client**: it lets go of nothing unwritten, and whatever it
sends is in order. -/
theorem Effect.beside (h : Effect cfg.host cfg.b cfg.source σ w ev σ' w' sends)
    (hi : Server.Inv cfg.host cfg.b cfg.source σ w)
    (hi' : Server.Inv cfg.host cfg.b cfg.source σ' w') (hbase : w.base ≤ e) (hnext : e ≤ w.next)
    (haddr : σ.info.clientAddr = cfg.clientAddr)
    (hack : ∀ stale d, ev = .receive stale d →
      d.srcAddr = cfg.clientAddr ∧ AckFits cfg.host e σ stale d) :
    w'.base ≤ e ∧ σ'.info.clientAddr = cfg.clientAddr
      ∧ ∀ m ∈ sends, m.dest = cfg.clientAddr ∧ ToClient cfg e w'.next m.pdu := by
  have hpos := hi.pos
  cases h with
  | sent q hpc hroom hmore =>
    refine ⟨hbase, haddr, ?_⟩
    simp only [List.mem_singleton, forall_eq]
    have hval : (UInt32.ofNat w.next).toNat = w.next := by rw [hi.next, UInt32.ofNat_toNat]
    exact ⟨haddr, .data _ _ 16 (by decide) (by omega) (Nat.lt_succ_self _) (.inl hval)⟩
  | eof hpc hroom hend =>
    refine ⟨hbase, haddr, ?_⟩
    simp only [List.mem_singleton, forall_eq]
    exact ⟨haddr, .eof _ hi.next.symm hend⟩
  | resent s hpc hfull hs hslot =>
    refine ⟨hbase, haddr, ?_⟩
    simp only [List.mem_singleton, forall_eq]
    have hval := CircularQueue.toNat_ofNat_of_mem hi.holds hs
    have := SlidingWindow.mem_iff.mp hs
    exact ⟨haddr, .data _ s 18 (by decide) (by omega) this.2 (.inl hval)⟩
  | eofResent hpc hcount =>
    refine ⟨hbase, haddr, ?_⟩
    obtain ⟨hend, -, hpdu⟩ := hi.eof (.inr hpc)
    simp only [List.mem_singleton, forall_eq, hpdu]
    exact ⟨haddr, .eof _ hi.next.symm hend⟩
  | overflow | drained | eofQuiet | gaveUp => exact ⟨hbase, haddr, by simp⟩
  | @released q hl stale d hflag =>
    obtain ⟨hsrc, hfits⟩ := hack stale d rfl
    have := (hfits hl).1 hflag
    refine ⟨?_, hsrc, by simp⟩
    rw [SlidingWindow.base_release]
    omega
  | @answered s hl stale d hflag hs hslot =>
    obtain ⟨hsrc, hfits⟩ := hack stale d rfl
    refine ⟨hbase, hsrc, ?_⟩
    simp only [List.mem_singleton, forall_eq]
    have hentry := hi.holds.stored s hs
    have hval := CircularQueue.toNat_ofNat_of_mem hi.holds hs
    have hbounds := SlidingWindow.mem_iff.mp hs
    have hn := (hfits hl).2 hflag (by rw [← hslot, hentry])
    rw [← hslot, hentry] at hn
    refine ⟨hsrc, .data _ s 17 (by decide) (by omega) hbounds.2 ?_⟩
    exact hn.imp_left fun heq => by rw [← heq]; exact hval
  | ignored | refused => exact ⟨hbase, (hack _ _ rfl).1, by simp⟩
  | faulted => exact ⟨hbase, haddr, by simp⟩
  | eofHeard => exact ⟨hbase, (hack _ _ rfl).1, by simp⟩

end Server

/-! ## The client's half -/

section Client

variable {W : ℕ} [NeZero W] {cfg : Config} {c : Client W} {next : ℕ}

/-- **A turn with a chunk**, under its own number within the window or under any number below
`expected`. -/
theorem Client.Inv.deliver_data (h : Client.Inv cfg.b cfg.source c) {n : UInt32} {s : ℕ}
    {flag : UInt8} (hflag : IsDataFlag flag) (hlen : (chunk cfg.b cfg.source s).length ≤ MAXBUF)
    (hn : n.toNat < c.info.expected.toNat
      ∨ n.toNat < c.info.expected.toNat + W ∧ n.toNat < 4294967295 ∧ n.toNat = s)
    {state : TransferState} (hpc : c.pc = .receiving state) (stale : Bytes) (a : SockAddr) :
    ∃ state' info' sends,
      c.step cfg.host stale ⟨a, createPDU cfg.host n flag (chunk cfg.b cfg.source s)⟩
          = some (⟨.receiving state', info'⟩, sends)
        ∧ GoodTurn cfg.host cfg.b cfg.source a c.info n.toNat state' info' sends := by
  set r := safeRecvfrom stale (MAXBUF + 7)
    ⟨a, createPDU cfg.host n flag (chunk cfg.b cfg.source s)⟩ with hr
  have hmax : MAXBUF = 1400 := rfl
  have hseq : r.seqNum cfg.host = n := by simp [hr]
  have hpay : r.payload = .ok (chunk cfg.b cfg.source s) :=
    payload_safeRecvfrom _ _ _ _ _ _ (by omega)
  obtain ⟨state', info', sends, hturn, hg⟩ := dataTurn cfg.host h.faithful
    (h.settled state hpc) (by simpa [hr] using hflag) hpay
    (by rw [hseq]; exact hn.imp_right fun hn => ⟨hn.1, hn.2.1, by rw [hn.2.2]⟩)
  rw [hseq] at hg
  exact ⟨state', info', sends, Client.step_of_turn cfg.host hpc hturn, hg⟩

theorem Client.receiving_of_step {host : Host} {stale : Bytes} {d : Datagram}
    {r : Client W × List Send} (h : c.step host stale d = some r) :
    ∃ state, c.pc = .receiving state := by
  unfold Client.step at h
  split at h
  · exact ⟨_, ‹_›⟩
  · cases h

/-- **The last turn**: flush, and acknowledge the EOF. -/
theorem Client.step_eof {state : TransferState} (hpc : c.pc = .receiving state) (n : UInt32)
    (stale : Bytes) (a : SockAddr) :
    c.step cfg.host stale ⟨a, createPDU cfg.host n 10 []⟩
      = some (⟨.done, { c.info with serverAddr := a, eofSeq := n }.flush⟩,
        [⟨a, createPDU cfg.host n 35 []⟩]) := by
  set r := safeRecvfrom stale (MAXBUF + 7) ⟨a, createPDU cfg.host n 10 []⟩ with hr
  have hmax : MAXBUF = 1400 := rfl
  have hturn : processTransferState cfg.host state c.info r = _ :=
    turn_eof cfg.host state (by simp [hr])
  have hseq : r.seqNum cfg.host = n := by simp [hr]
  rw [hseq] at hturn
  exact Client.step_of_last_turn cfg.host hpc hturn

/-- The client throws a datagram away, or is not receiving any more. -/
def Client.Discards (host : Host) (c : Client W) (stale : Bytes) (d : Datagram) : Prop :=
  match c.pc with
  | .receiving state =>
      RemoteFileCopy.Discards host state c.info (safeRecvfrom stale (MAXBUF + 7) d)
  | _ => True

instance (host : Host) (c : Client W) (stale : Bytes) (d : Datagram) :
    Decidable (c.Discards host stale d) :=
  match h : c.pc with
  | .receiving state =>
    decidable_of_iff
      (RemoteFileCopy.Discards host state c.info (safeRecvfrom stale (MAXBUF + 7) d))
      (by simp [Client.Discards, h])
  | .done => .isTrue (by simp [Client.Discards, h])
  | .aborted _ => .isTrue (by simp [Client.Discards, h])

/-- What a turn does to a client that keeps its invariant, and what it answers. -/
structure Advance (cfg : Config) (next : ℕ) (a : SockAddr) (c c' : Client W)
    (sends : List Send) : Prop where
  inv : Client.Inv cfg.b cfg.source c'
  expected_le : c.info.expected.toNat ≤ c'.info.expected.toNat
  le_next : c'.info.expected.toNat ≤ next
  highest_lt : c'.info.highest.toNat < next
  sends : ∀ m ∈ sends, m.dest = a ∧ ToServer cfg c'.info.expected.toNat next m.pdu

/-- **A turn with a datagram as the server sent it.** -/
theorem Client.Inv.deliver {base : ℕ} {bytes : Bytes} (h : Client.Inv cfg.b cfg.source c)
    (hd : ToClient cfg c.info.expected.toNat next bytes)
    (hshort : ∀ s, 1 ≤ s → s < next → (chunk cfg.b cfg.source s).length ≤ MAXBUF)
    (hbase : base ≤ c.info.expected.toNat) (hle : c.info.expected.toNat ≤ next)
    (hnext : next ≤ base + W) (hfits : next ≤ 4294967295) (hhigh : c.info.highest.toNat < next)
    {state : TransferState} (hpc : c.pc = .receiving state) (stale : Bytes) (a : SockAddr) :
    ∃ c' sends, c.step cfg.host stale ⟨a, bytes⟩ = some (c', sends)
      ∧ Advance cfg next a c c' sends := by
  cases hd with
  | data n s flag hflag hs hlt hn =>
    obtain ⟨state', info', sends, hstep, hg⟩ := h.deliver_data hflag (hshort s hs hlt)
      (hn.symm.imp_right fun hn => ⟨by omega, by omega, hn⟩) hpc stale a
    refine ⟨_, sends, hstep, ⟨hg.faithful, fun _ hst => ?_, by simp⟩, hg.expected_le, ?_, ?_,
      fun m hm => ?_⟩
    · obtain rfl := ClientPc.receiving.inj hst
      exact hg.settled
    · have := hg.faithful.le_highest
      have := hg.highest_le
      change info'.expected.toNat ≤ next
      omega
    · have := hg.highest_le
      change info'.highest.toNat < next
      omega
    · have := hg.highest_le
      rcases hg.sends m hm with rfl | ⟨rfl, hhe⟩
      · exact ⟨rfl, .rr _ hg.faithful.pos le_rfl⟩
      · exact ⟨rfl, .srej _ hg.faithful.pos le_rfl (by omega)⟩
  | eof n hn hend =>
    have hf : Faithful cfg.b cfg.source { c.info with serverAddr := a, eofSeq := n } :=
      h.faithful.congr rfl rfl rfl rfl
    obtain ⟨hfl, hexp, -⟩ := hf.flush
    have hle' := hfl.le_highest
    rw [ReceiveInfo.highest_flush] at hle'
    refine ⟨_, _, Client.step_eof hpc n stale a, ⟨hfl, by simp, by simp⟩, hexp,
      hle'.trans hhigh, by simpa using hhigh, fun m hm => ?_⟩
    obtain rfl := List.mem_singleton.mp hm
    exact ⟨rfl, .eofAck _⟩

end Client

/-! ## Both halves -/

section Joint

variable {W : ℕ} [NeZero W] (cfg : Config)

/-- The receiver's next number. -/
abbrev DataPhase.expected (s : DataPhase W) : ℕ := s.client.info.expected.toNat

/-- **What holds of the composed system.** -/
structure Joint (s : DataPhase W) (w : SlidingWindow W) : Prop where
  server : Server.Inv cfg.host cfg.b cfg.source s.server w
  client : Client.Inv cfg.b cfg.source s.client
  base_le : w.base ≤ s.expected
  le_next : s.expected ≤ w.next
  highest_lt : s.client.info.highest.toNat < w.next
  addr : s.server.info.clientAddr = cfg.clientAddr
  toClient : ∀ d ∈ s.toClient, ToClient cfg s.expected w.next d
  toServer : ∀ d ∈ s.toServer, ToServer cfg s.expected w.next d

/-- **A datagram that does no harm whatever was done to it**: the client throws it away, or the
server lets go of nothing unwritten and relabels nothing for it. -/
def Tolerable (s : DataPhase W) : NetEvent → Prop
  | .deliver .client _ stale bytes => s.client.Discards cfg.host stale ⟨cfg.childAddr, bytes⟩
  | .deliver .server _ stale bytes =>
      AckFits cfg.host s.expected s.server stale ⟨cfg.clientAddr, bytes⟩
  | _ => True

instance (s : DataPhase W) : (ev : NetEvent) → Decidable (Tolerable cfg s ev)
  | .deliver .client _ stale bytes =>
    inferInstanceAs (Decidable (s.client.Discards cfg.host stale ⟨cfg.childAddr, bytes⟩))
  | .deliver .server _ stale bytes =>
    inferInstanceAs (Decidable (AckFits cfg.host s.expected s.server stale ⟨cfg.clientAddr, bytes⟩))
  | .run | .quiet | .lose _ _ | .duplicate _ _ => .isTrue trivial

variable {cfg} {s s' : DataPhase W} {w : SlidingWindow W} {sends : List Send}

theorem DataPhase.mem_arriving {a : SockAddr} {d : Bytes} :
    d ∈ DataPhase.arriving a sends ↔ ∃ m ∈ sends, m.dest = a ∧ m.pdu = d := by
  simp [DataPhase.arriving, and_assoc]

theorem Joint.enter : Joint (W := W) cfg (DataPhase.enter W cfg) (.empty 1) where
  server := Server.inv_enter _ _ _
  client := Client.inv_enter _
  base_le := le_rfl
  le_next := le_rfl
  highest_lt := Nat.zero_lt_one
  addr := rfl
  toClient d hd := by cases hd
  toServer d hd := by cases hd

namespace Joint

/-- Nothing is lost by forgetting or copying datagrams. -/
theorem setInFlight (h : Joint cfg s w) {side : Side} {ds : List Bytes}
    (hsub : ∀ d ∈ ds, d ∈ s.inFlight side) : Joint cfg (s.setInFlight side ds) w := by
  cases side with
  | server => exact { h with toServer := fun d hd => h.toServer d (hsub d hd) }
  | client => exact { h with toClient := fun d hd => h.toClient d (hsub d hd) }

theorem erase (h : Joint cfg s w) (side : Side) (i : ℕ) :
    Joint cfg (s.setInFlight side ((s.inFlight side).eraseIdx i)) w :=
  h.setInFlight fun _ hd => List.mem_of_mem_eraseIdx hd

/-- **A step of the server**, unless it sends a packet under the last number there is. -/
theorem serverStep_of_last (h : Joint cfg s w) {ev : ServerEvent}
    (hlast : ev = .run → w.next ≤ numChunks cfg.b cfg.source → w.next < 4294967295)
    (hs : s.serverStep cfg ev = some (s', sends))
    (hack : ∀ stale d, ev = .receive stale d →
      d.srcAddr = cfg.clientAddr ∧ AckFits cfg.host s.expected s.server stale d) :
    ∃ w', Joint cfg s' w'
      ∧ ∀ m ∈ sends, m.dest = cfg.clientAddr ∧ ToClient cfg s.expected w'.next m.pdu := by
  obtain ⟨σ', hstep, rfl⟩ := DataPhase.serverStep_eq_some hs
  obtain ⟨w', he, hi'⟩ := h.server.step_of_last hlast hstep
  obtain ⟨hbase, haddr, hsends⟩ := he.beside h.server hi' h.base_le h.le_next h.addr hack
  have hle := he.window_le.2
  refine ⟨w', ⟨hi', h.client, hbase, h.le_next.trans hle, h.highest_lt.trans_le hle, haddr,
    fun d hd => ?_, fun d hd => (h.toServer d hd).mono le_rfl hle⟩, hsends⟩
  rcases List.mem_append.mp hd with hd | hd
  · exact (h.toClient d hd).mono le_rfl hle hi'.le_numChunks
  · obtain ⟨m, hm, -, rfl⟩ := DataPhase.mem_arriving.mp hd
    exact (hsends m hm).2

/-- **A step of the server.** -/
theorem serverStep (h : Joint cfg s w) (hK : numChunks cfg.b cfg.source < 4294967295)
    {ev : ServerEvent} (hs : s.serverStep cfg ev = some (s', sends))
    (hack : ∀ stale d, ev = .receive stale d →
      d.srcAddr = cfg.clientAddr ∧ AckFits cfg.host s.expected s.server stale d) :
    ∃ w', Joint cfg s' w'
      ∧ ∀ m ∈ sends, m.dest = cfg.clientAddr ∧ ToClient cfg s.expected w'.next m.pdu :=
  h.serverStep_of_last (fun _ hmore => hmore.trans_lt hK) hs hack

/-- The client after a turn, beside the server. -/
theorem advance (h : Joint cfg s w) {c : Client W} {a : SockAddr}
    (hadv : Advance cfg w.next a s.client c sends) :
    Joint cfg { s with
      client := c
      toServer := s.toServer ++ DataPhase.arriving cfg.childAddr sends }
      w where
  server := h.server
  client := hadv.inv
  base_le := h.base_le.trans hadv.expected_le
  le_next := hadv.le_next
  highest_lt := hadv.highest_lt
  addr := h.addr
  toClient d hd := (h.toClient d hd).mono hadv.expected_le le_rfl h.server.le_numChunks
  toServer d hd := by
    rcases List.mem_append.mp hd with hd | hd
    · exact (h.toServer d hd).mono hadv.expected_le le_rfl
    · obtain ⟨m, hm, -, rfl⟩ := DataPhase.mem_arriving.mp hd
      exact (hadv.sends m hm).2

/-- A turn of the client with a datagram as the server sent it. -/
theorem client_deliver (h : Joint cfg s w) {bytes : Bytes}
    (hd : ToClient cfg s.expected w.next bytes) {state : TransferState}
    (hpc : s.client.pc = .receiving state) (stale : Bytes) (a : SockAddr) :
    ∃ c sends, s.client.step cfg.host stale ⟨a, bytes⟩ = some (c, sends)
      ∧ Advance cfg w.next a s.client c sends :=
  h.client.deliver hd h.server.short h.base_le h.le_next w.bounded
    (by have := h.server.next; have := s.server.sequenceNum.toNat_lt; omega) h.highest_lt hpc stale
    a

/-- A turn of the client with a datagram it throws away. -/
theorem client_discard (h : Joint cfg s w) {state : TransferState}
    (hpc : s.client.pc = .receiving state) {stale : Bytes} {d : Datagram}
    (hd : s.client.Discards cfg.host stale d) :
    ∃ c sends, s.client.step cfg.host stale d = some (c, sends)
      ∧ Advance cfg w.next d.srcAddr s.client c sends := by
  simp only [Client.Discards, hpc] at hd
  refine ⟨⟨.receiving state, _⟩, [], Client.step_of_turn cfg.host hpc hd.turn, ?_⟩
  refine ⟨⟨h.client.faithful.congr rfl rfl rfl rfl, fun _ hst => ?_, by simp⟩, le_rfl, h.le_next,
    h.highest_lt, by simp⟩
  obtain rfl := ClientPc.receiving.inj hst
  exact (h.client.settled state hpc).congr rfl rfl rfl

/-- **A step of the client**, with a datagram as it was sent or one it throws away. -/
theorem clientStep (h : Joint cfg s w) {stale bytes : Bytes}
    (hs : s.clientStep cfg stale bytes = some (s', sends))
    (hd : ToClient cfg s.expected w.next bytes
      ∨ s.client.Discards cfg.host stale ⟨cfg.childAddr, bytes⟩) :
    Advance cfg w.next cfg.childAddr s.client s'.client sends ∧ Joint cfg s' w := by
  obtain ⟨c, hstep, rfl⟩ := DataPhase.clientStep_eq_some hs
  obtain ⟨state, hpc⟩ := Client.receiving_of_step hstep
  have hadv : Advance cfg w.next cfg.childAddr s.client c sends := by
    obtain ⟨c', sends', hstep', hadv⟩ := hd.elim
      (fun hd => h.client_deliver hd hpc stale cfg.childAddr)
      (fun hd => h.client_discard hpc hd)
    obtain ⟨rfl, rfl⟩ : c' = c ∧ sends' = sends := by simpa using hstep'.symm.trans hstep
    exact hadv
  exact ⟨hadv, h.advance hadv⟩

/-- **One step keeps the joint invariant**, if what it delivers is as it was sent, or does no harm,
and it sends no packet under the last number. -/
theorem step_of_last (h : Joint cfg s w) {ev : NetEvent}
    (hlast : ev = .run → w.next ≤ numChunks cfg.b cfg.source → w.next < 4294967295)
    (hev : s.Unaltered ev ∨ Tolerable cfg s ev) (hs : s.step cfg ev = some (s', sends)) :
    ∃ w', Joint cfg s' w' := by
  cases ev with
  | run => exact (h.serverStep_of_last (fun _ => hlast rfl) hs (by simp)).imp fun _ h => h.1
  | quiet => exact (h.serverStep_of_last (by simp) hs (by simp)).imp fun _ h => h.1
  | deliver side i stale bytes =>
    simp only [DataPhase.step] at hs
    split at hs
    case isFalse => cases hs
    have h' := h.erase side i
    cases side with
    | server =>
      refine (h'.serverStep_of_last (by simp) hs fun stale' d hd => ?_).imp fun _ h => h.1
      obtain ⟨rfl, rfl⟩ := by simpa using hd
      refine ⟨rfl, hev.elim (fun hev => ?_) id⟩
      have hmem := h.toServer _ (List.mem_of_getElem? hev)
      exact hmem.ackFits h.server h.base_le _ _
    | client =>
      refine ⟨w, (h'.clientStep hs (hev.imp_left fun hev => ?_)).2⟩
      exact h.toClient _ (List.mem_of_getElem? hev)
  | lose side i =>
    simp only [DataPhase.step] at hs
    split at hs
    case isFalse => cases hs
    obtain ⟨rfl, -⟩ := by simpa using hs
    exact ⟨w, h.erase side i⟩
  | duplicate side i =>
    obtain ⟨d, hd, heq⟩ := Option.map_eq_some_iff.mp hs
    obtain ⟨rfl, -⟩ := by simpa using heq
    refine ⟨w, h.setInFlight fun d' hd' => ?_⟩
    rcases List.mem_append.mp hd' with hd' | hd'
    · exact hd'
    · obtain rfl := List.mem_singleton.mp hd'
      exact List.mem_of_getElem? hd

/-- **One step keeps the joint invariant**, if what it delivers is as it was sent, or does no
harm. -/
theorem step (h : Joint cfg s w) (hK : numChunks cfg.b cfg.source < 4294967295) {ev : NetEvent}
    (hev : s.Unaltered ev ∨ Tolerable cfg s ev) (hs : s.step cfg ev = some (s', sends)) :
    ∃ w', Joint cfg s' w' :=
  h.step_of_last (fun _ hmore => hmore.trans_lt hK) hev hs

/-- **The joint invariant holds after every run** over a network that does not alter datagrams. -/
theorem of_run (hK : numChunks cfg.b cfg.source < 4294967295)
    {es : List (Edge (DataPhase W) NetEvent (List Send))}
    (run : Run (DataPhase.machine W cfg) DataPhase.Unaltered (DataPhase.enter W cfg) es s) :
    ∃ w, Joint cfg s w :=
  run.invariant (P := fun s => ∃ w, Joint cfg s w) ⟨_, Joint.enter⟩
    fun _ _ _ _ ⟨_, h⟩ hg hs => h.step hK (.inl hg) hs

end Joint

end Joint

end RemoteFileCopy
