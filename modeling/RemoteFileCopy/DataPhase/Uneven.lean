import RemoteFileCopy.Client.Gapped
import RemoteFileCopy.DataPhase.Joint

/-!
# DataPhase/Uneven — a sender with `V` slots and a receiver with `W`

The child's window has the size it took from the request, `rcopy`'s buffer the size it was asked
for.  `Uneven` is what holds of the two halves of a transfer between them, and of the datagrams in
flight each way — of which of them, not of their order or number, so that a network may lose, delay
and duplicate what it likes.  Up to `V = W + 1` every step of either half keeps it
(`Uneven.serverStep`, `Uneven.clientStep`).

Beside the datagrams of the data phase those of the handshake may still be on their way, and do no
harm: neither side acts on their flags.
-/

namespace RemoteFileCopy

open CircularQueue (slot)

/-! ## Datagrams in flight -/

/-- **A datagram on its way to the client**: a packet, or the EOF of a window with room, or one the
client ignores. -/
def ForClient (cfg : Config) (V e next : ℕ) (d : Bytes) : Prop :=
  ToClient cfg e next d ∧ (d.getD 6 0 = 10 → next < e + V)
    ∨ 7 ≤ d.length ∧ ¬ IsDataFlag (d.getD 6 0) ∧ d.getD 6 0 ≠ 10

/-- **A datagram on its way to the child**: an answer of the client, or one the child takes for no
RR and no SREJ. -/
def ForServer (cfg : Config) (e next : ℕ) (d : Bytes) : Prop :=
  ToServer cfg e next d ∨ 7 ≤ d.length ∧ d.getD 6 0 ≠ 5 ∧ d.getD 6 0 ≠ 6

section InFlight

variable {cfg : Config} {V e e' next next' : ℕ} {d : Bytes}

/-- A whole header is read from the datagram itself. -/
theorem flag_of_header (h : 7 ≤ d.length) (len : ℕ) (hlen : 7 ≤ len) (stale : Bytes)
    (a : SockAddr) : (safeRecvfrom stale len ⟨a, d⟩).flag = d.getD 6 0 := by
  rw [Received.flag, getD_safeRecvfrom, if_pos (by simp only; omega)]

/-- **A turn with a flag the client does not know** only changes where it would answer. -/
theorem Client.step_other {W : ℕ} [NeZero W] (host : Host) {c : Client W} {state : TransferState}
    (hpc : c.pc = .receiving state) (hlen : 7 ≤ d.length) (hdata : ¬ IsDataFlag (d.getD 6 0))
    (heof : d.getD 6 0 ≠ 10) (stale : Bytes) (a : SockAddr) : c.step host stale ⟨a, d⟩
      = some (⟨.receiving state, { c.info with serverAddr := a }⟩, []) := by
  have hmax : MAXBUF = 1400 := rfl
  have hflag := flag_of_header hlen (MAXBUF + 7) (by omega) stale a
  exact Client.step_of_turn host hpc
    (turn_other host state (by rwa [hflag]) (by rwa [hflag]))

/-- The EOF carries the number after the last. -/
theorem ToClient.next_of_eof (h : ToClient cfg e next d) (hflag : d.getD 6 0 = 10) :
    next = numChunks cfg.b cfg.source + 1 := by
  cases h with
  | data n s flag hf =>
    rw [getD_createPDU] at hflag
    exact absurd hflag hf.ne_eof
  | eof n hn hend => exact hend

theorem ForClient.mono (h : ForClient cfg V e next d) (he : e ≤ e') (hnext : next ≤ next')
    (hend : next' ≤ numChunks cfg.b cfg.source + 1) : ForClient cfg V e' next' d := by
  refine h.imp_left fun ⟨hd, heof⟩ => ⟨hd.mono he hnext hend, fun hflag => ?_⟩
  have hlast := hd.next_of_eof hflag
  have := heof hflag
  omega

theorem ForServer.mono (h : ForServer cfg e next d) (he : e ≤ e') (hnext : next ≤ next') :
    ForServer cfg e' next' d :=
  h.imp_left fun h => h.mono he hnext

end InFlight

/-! ## The two halves -/

variable {V W : ℕ} [NeZero V] [NeZero W] {cfg : Config}

/-- **What holds of a transfer** between a child with `V` slots and a client with `W`, with the
datagrams `toClient` and `toServer` in flight between them. -/
structure Uneven (cfg : Config) (σ : Server V) (c : Client W) (toClient toServer : Bytes → Prop)
    (w : SlidingWindow V) : Prop where
  server : Server.Inv cfg.host cfg.b cfg.source σ w
  client : Client.Wide cfg.b cfg.source c
  base_le : w.base ≤ c.info.expected.toNat
  le_next : c.info.expected.toNat ≤ w.next
  highest_lt : c.info.highest.toNat < w.next
  addr : σ.info.clientAddr = cfg.clientAddr
  room : σ.pc = .next .waitOnEofAck ∨ σ.pc = .next .resendEof → ¬ w.Full
  toClient : ∀ d, toClient d → ForClient cfg V c.info.expected.toNat w.next d
  toServer : ∀ d, toServer d → ForServer cfg c.info.expected.toNat w.next d

namespace Uneven

variable {σ σ' : Server V} {c c' : Client W} {toClient toServer : Bytes → Prop}
  {w : SlidingWindow V} {ev : ServerEvent} {sends : List Send}

/-- Two halves that have just begun, with nothing but the handshake in flight. -/
theorem enter {a : SockAddr} {windowSize : UInt16}
    (hclient : ∀ d, toClient d → 7 ≤ d.length ∧ ¬ IsDataFlag (d.getD 6 0) ∧ d.getD 6 0 ≠ 10)
    (hserver : ∀ d, toServer d → 7 ≤ d.length ∧ d.getD 6 0 ≠ 5 ∧ d.getD 6 0 ≠ 6) :
    Uneven cfg (Server.enter V cfg.clientAddr cfg.source windowSize cfg.bufferSize)
      (Client.enter W a) toClient toServer (.empty 1) where
  server := Server.inv_enter _ _ _
  client := Client.Wide.enter a
  base_le := le_rfl
  le_next := le_rfl
  highest_lt := Nat.zero_lt_one
  addr := rfl
  room h := by simp [Server.enter] at h
  toClient d hd := .inr (hclient d hd)
  toServer d hd := .inr (hserver d hd)

/-! ### The child's steps -/

/-- A packet is not the EOF. -/
theorem not_eof_of_mem {m : Send} {a : SockAddr} {n : UInt32} {flag : UInt8} {p : Bytes}
    (hm : m ∈ [⟨a, createPDU cfg.host n flag p⟩]) (hflag : flag ≠ 10) : m.pdu.getD 6 0 ≠ 10 := by
  obtain rfl := List.mem_singleton.mp hm
  rwa [getD_createPDU]

/-- **What a step of the child does to the room for the EOF.** -/
theorem room_step (h : Uneven cfg σ c toClient toServer w) {w' : SlidingWindow V}
    (he : Effect cfg.host cfg.b cfg.source σ w ev σ' w' sends) :
    (σ'.pc = .next .waitOnEofAck ∨ σ'.pc = .next .resendEof → ¬ w'.Full)
      ∧ ∀ m ∈ sends, m.pdu.getD 6 0 = 10 → ¬ w'.Full := by
  cases he with
  | sent q hpc hroom hmore =>
    exact ⟨by simp, fun m hm hflag => absurd hflag (not_eof_of_mem hm (by decide))⟩
  | eof hpc hroom hend => exact ⟨fun _ => hroom, fun _ _ _ => hroom⟩
  | resent s hpc hfull hs hslot =>
    refine ⟨fun hpc' => ?_, fun m hm hflag => absurd hflag (not_eof_of_mem hm (by decide))⟩
    by_cases hten : σ.timeoutCount + 1 ≥ 10 <;> simp [hten] at hpc'
  | overflow | drained | gaveUp => simp
  | released q hl | refused hl | ignored hl =>
    have hpc : σ.pc = .fill ∨ σ.pc = .drain := hl.imp_left And.left
    rcases hpc with hpc | hpc <;> simp [Server.heard, hpc]
  | answered s hl =>
    have hpc : σ.pc = .fill ∨ σ.pc = .drain := hl.imp_left And.left
    refine ⟨?_, fun m hm hflag => absurd hflag (not_eof_of_mem hm (by decide))⟩
    rcases hpc with hpc | hpc <;> simp [Server.heard, hpc]
  | faulted => simp
  | eofQuiet hpc => exact ⟨fun _ => h.room (.inl hpc), by simp⟩
  | eofResent hpc hcount => exact ⟨fun _ => h.room (.inr hpc), fun _ _ _ => h.room (.inr hpc)⟩
  | eofHeard state hpc hstate => exact ⟨fun _ => h.room (.inl hpc), by simp⟩

/-- **What is on its way to the child does no harm.** -/
theorem ackFits (h : Uneven cfg σ c toClient toServer w) {d : Bytes} (hd : toServer d)
    (stale : Bytes) (a : SockAddr) :
    AckFits cfg.host c.info.expected.toNat σ stale ⟨a, d⟩ := by
  rcases h.toServer d hd with hd | ⟨hlen, hrr, hsrej⟩
  · exact hd.ackFits h.server h.base_le stale a
  · intro _
    simp only [flag_of_header hlen 7 le_rfl]
    exact ⟨fun hf => absurd hf hrr, fun hf => absurd hf hsrej⟩

/-- **A step of the child**, which hears only its client. -/
theorem serverStep (h : Uneven cfg σ c toClient toServer w)
    (hK : numChunks cfg.b cfg.source < 4294967295) (hs : σ.step cfg.host ev = some (σ', sends))
    (hheard : ∀ stale d, ev = .receive stale d → d.srcAddr = cfg.clientAddr ∧ toServer d.bytes) :
    (∃ w', Uneven cfg σ' c (fun d => toClient d ∨ ∃ m ∈ sends, m.pdu = d) toServer w')
      ∧ ∀ m ∈ sends, m.dest = cfg.clientAddr := by
  obtain ⟨w', he, hi'⟩ := h.server.step hK hs
  obtain ⟨hbase, haddr, hsends⟩ := he.beside h.server hi' h.base_le h.le_next h.addr
    fun stale d hev => ⟨(hheard stale d hev).1, h.ackFits (hheard stale d hev).2 stale d.srcAddr⟩
  obtain ⟨hroom, heof⟩ := h.room_step he
  have hle := he.window_le.2
  refine ⟨⟨w', hi', h.client, hbase, h.le_next.trans hle, h.highest_lt.trans_le hle, haddr, hroom,
    ?_, fun d hd => (h.toServer d hd).mono le_rfl hle⟩, fun m hm => (hsends m hm).1⟩
  rintro d (hd | ⟨m, hm, rfl⟩)
  · exact (h.toClient d hd).mono le_rfl hle hi'.le_numChunks
  · refine .inl ⟨(hsends m hm).2, fun hflag => ?_⟩
    have hfull := heof m hm hflag
    have := w'.bounded
    simp only [SlidingWindow.Full] at hfull
    omega

/-! ### The client's steps -/

/-- **A turn with a packet.** -/
theorem client_data (h : Uneven cfg σ c toClient toServer w) (hVW : V ≤ W + 1)
    (hK : numChunks cfg.b cfg.source < 4294967295) {n : UInt32} {s : ℕ} {flag : UInt8}
    (hflag : IsDataFlag flag) (hs : 1 ≤ s) (hlt : s < w.next)
    (hn : n.toNat = s ∨ n.toNat < c.info.expected.toNat) {state : TransferState}
    (hpc : c.pc = .receiving state) (stale : Bytes) (a : SockAddr) :
    ∃ c' sends, c.step cfg.host stale ⟨a, createPDU cfg.host n flag (chunk cfg.b cfg.source s)⟩
        = some (c', sends)
      ∧ Uneven cfg σ c' toClient (fun d => toServer d ∨ ∃ m ∈ sends, m.pdu = d) w
      ∧ ∀ m ∈ sends, m.dest = a := by
  have hbounded := w.bounded
  have hbase := h.base_le
  have hlast := h.server.le_numChunks
  obtain ⟨state', info', sends, hstep, ht⟩ := h.client.deliver_data cfg.host hflag
    (h.server.short s hs hlt) (hn.symm.imp_right fun hn => ⟨by omega, by omega, hn⟩) hpc stale a
  have hhigh : info'.highest.toNat < w.next :=
    ht.highest_le.trans_lt (max_lt h.highest_lt (by have := h.le_next; omega))
  have hle := ht.reassembles.le_highest
  refine ⟨_, sends, hstep, ⟨h.server, .of_turn ht.reassembles, h.base_le.trans ht.expected_le,
    by simp only; omega, hhigh, h.addr, h.room,
    fun d hd => (h.toClient d hd).mono ht.expected_le le_rfl hlast, ?_⟩, fun m hm => ?_⟩
  · rintro d (hd | ⟨m, hm, rfl⟩)
    · exact (h.toServer d hd).mono ht.expected_le le_rfl
    · rcases ht.sends m hm with rfl | ⟨rfl, hmore⟩
      · exact .inl (.rr _ ht.reassembles.pos le_rfl)
      · exact .inl (.srej _ ht.reassembles.pos le_rfl (by omega))
  · rcases ht.sends m hm with rfl | ⟨rfl, -⟩ <;> rfl

/-- **The EOF finds no packet a buffer length past the gap**, so what it flushes is in order. -/
theorem client_eof (h : Uneven cfg σ c toClient toServer w) (hVW : V ≤ W + 1) {n : UInt32}
    (hroom : w.next < c.info.expected.toNat + V) {state : TransferState}
    (hpc : c.pc = .receiving state) (stale : Bytes) (a : SockAddr) :
    ∃ c' sends, c.step cfg.host stale ⟨a, createPDU cfg.host n 10 []⟩ = some (c', sends)
      ∧ Uneven cfg σ c' toClient (fun d => toServer d ∨ ∃ m ∈ sends, m.pdu = d) w
      ∧ ∀ m ∈ sends, m.dest = a := by
  have hhigh := h.highest_lt
  have hf : Faithful cfg.b cfg.source { c.info with serverAddr := a, eofSeq := n } :=
    ((h.client.reassembles state hpc).faithful (by omega)).congr rfl rfl rfl rfl
  obtain ⟨hfl, hexp, -⟩ := hf.flush
  have hle := hfl.le_highest
  rw [ReceiveInfo.highest_flush] at hle
  refine ⟨_, _, Client.step_eof hpc n stale a, ⟨h.server, ⟨hfl.out, by simp, by simp⟩,
    h.base_le.trans hexp, hle.trans hhigh, by simpa using hhigh, h.addr, h.room,
    fun d hd => (h.toClient d hd).mono hexp le_rfl h.server.le_numChunks, ?_⟩, by simp⟩
  rintro d (hd | ⟨m, hm, rfl⟩)
  · exact (h.toServer d hd).mono hexp le_rfl
  · obtain rfl := List.mem_singleton.mp hm
    exact .inl (.eofAck _)

/-- A turn with a datagram the client ignores. -/
theorem client_other (h : Uneven cfg σ c toClient toServer w) {d : Bytes} (hlen : 7 ≤ d.length)
    (hdata : ¬ IsDataFlag (d.getD 6 0)) (heof : d.getD 6 0 ≠ 10) {state : TransferState}
    (hpc : c.pc = .receiving state) (stale : Bytes) (a : SockAddr) :
    ∃ c' sends, c.step cfg.host stale ⟨a, d⟩ = some (c', sends)
      ∧ Uneven cfg σ c' toClient (fun d => toServer d ∨ ∃ m ∈ sends, m.pdu = d) w
      ∧ ∀ m ∈ sends, m.dest = a := by
  refine ⟨_, _, Client.step_other cfg.host hpc hlen hdata heof stale a, ⟨h.server,
    .of_turn ((h.client.reassembles state hpc).congr rfl rfl rfl rfl), h.base_le, h.le_next,
    h.highest_lt, h.addr, h.room, h.toClient, ?_⟩, by simp⟩
  rintro d (hd | ⟨m, hm, -⟩)
  · exact h.toServer d hd
  · cases hm

/-- **A step of the client**, with a datagram that was in flight to it. -/
theorem clientStep (h : Uneven cfg σ c toClient toServer w) (hVW : V ≤ W + 1)
    (hK : numChunks cfg.b cfg.source < 4294967295) {stale d : Bytes} {a : SockAddr}
    (hd : toClient d) (hs : c.step cfg.host stale ⟨a, d⟩ = some (c', sends)) :
    Uneven cfg σ c' toClient (fun d => toServer d ∨ ∃ m ∈ sends, m.pdu = d) w
      ∧ ∀ m ∈ sends, m.dest = a := by
  obtain ⟨state, hpc⟩ := Client.receiving_of_step hs
  have hturn : ∃ c' sends, c.step cfg.host stale ⟨a, d⟩ = some (c', sends)
      ∧ Uneven cfg σ c' toClient (fun d => toServer d ∨ ∃ m ∈ sends, m.pdu = d) w
      ∧ ∀ m ∈ sends, m.dest = a := by
    rcases h.toClient d hd with ⟨hd, heof⟩ | ⟨hlen, hdata, heof⟩
    · cases hd with
      | data n s flag hflag hpos hlt hn => exact h.client_data hVW hK hflag hpos hlt hn hpc stale a
      | eof n hn hend => exact h.client_eof hVW (heof (getD_createPDU _ _ _ _)) hpc stale a
    · exact h.client_other hlen hdata heof hpc stale a
  obtain ⟨c₁, sends₁, hs₁, h₁⟩ := hturn
  obtain ⟨rfl, rfl⟩ := Prod.mk.inj (Option.some_inj.mp (hs₁.symm.trans hs))
  exact h₁

/-- **The output of a transfer** is a prefix of the file. -/
theorem outFile_prefix (h : Uneven cfg σ c toClient toServer w) :
    c.info.outFile <+: cfg.source := by
  rw [h.client.out, chunks_eq_take]
  exact List.take_prefix _ _

end Uneven

end RemoteFileCopy
