import RemoteFileCopy.DataPhase.EndOfFile

/-!
# DataPhase/LossFree — over FIFO channels every run ends, with the whole file

When nothing is lost the client stays in order and the channels hold what is between the two
programs' counters, and nothing else:

    toClient    packets  expected … next - 1
    toServer    RRs      base + 1 … expected

until the EOF follows the last packet (`Ending`) and the client is done (`Ended`).  So some step is
possible until the child is done too, and every step lowers `pending`
(`loss_free_total_correctness`).
-/

namespace RemoteFileCopy

open CircularQueue (slot)
open Transition

variable {W : ℕ} [NeZero W] (cfg : Config)

/-! ## What is in flight -/

/-- The datagrams `f` gives the numbers from `lo` up to `hi`, without `hi`. -/
def span (f : ℕ → Bytes) (lo hi : ℕ) : List Bytes := (List.range' lo (hi - lo)).map f

section Span

variable {f : ℕ → Bytes} {lo hi : ℕ}

theorem span_eq_nil_iff : span f lo hi = [] ↔ hi ≤ lo := by
  rw [span, List.map_eq_nil_iff, List.range'_eq_nil_iff]
  omega

theorem span_cons (h : lo < hi) : span f lo hi = f lo :: span f (lo + 1) hi := by
  obtain ⟨k, rfl⟩ := Nat.exists_eq_add_of_lt h
  rw [span, span, show lo + k + 1 - lo = k + 1 by omega, show lo + k + 1 - (lo + 1) = k by omega,
    List.range'_succ, List.map_cons]

theorem span_concat (h : lo ≤ hi) : span f lo (hi + 1) = span f lo hi ++ [f hi] := by
  rw [span, span, show hi + 1 - lo = hi - lo + 1 by omega, List.range'_concat, List.map_append,
    Nat.one_mul, Nat.add_sub_cancel' h]
  rfl

end Span

/-- The packets from `lo` up to `hi`. -/
def packets (lo hi : ℕ) : List Bytes := span (dataPDU cfg.host cfg.b cfg.source) lo hi

/-- The RRs from `lo` up to `hi`. -/
def rrs (lo hi : ℕ) : List Bytes := span (fun n => rrPDU cfg.host (UInt32.ofNat n)) lo hi

/-! ## The phases of a run -/

/-- **Packets flow**: the client is in order, and the channels hold what is between the
counters. -/
structure Flowing (s : DataPhase W) (w : SlidingWindow W) : Prop where
  server : Server.Inv cfg.host cfg.b cfg.source s.server w
  client : Client.Inv cfg.b cfg.source s.client
  addr : s.server.info.clientAddr = cfg.clientAddr
  base_le : w.base ≤ s.expected
  le_next : s.expected ≤ w.next
  inOrder : s.client.pc = .receiving .inOrder
  sending : s.server.pc = .fill ∨ s.server.pc = .drain
  toClient : s.toClient = packets cfg s.expected w.next
  toServer : s.toServer = rrs cfg (w.base + 1) (s.expected + 1)

/-- **The EOF is on its way** behind the last packets; only RRs come back. -/
structure Ending (s : DataPhase W) (w : SlidingWindow W) : Prop where
  server : Server.Inv cfg.host cfg.b cfg.source s.server w
  client : Client.Inv cfg.b cfg.source s.client
  le_next : s.expected ≤ w.next
  close : w.next ≤ s.expected + W
  inOrder : s.client.pc = .receiving .inOrder
  waiting : s.server.pc = .next .waitOnEofAck
  toClient : s.toClient = packets cfg s.expected w.next
    ++ [createPDU cfg.host s.server.sequenceNum 10 []]
  toServer : ∀ d ∈ s.toServer, ∃ n, d = rrPDU cfg.host n

/-- **The client is done**, with the whole file; the child is at one of its last states. -/
structure Ended (s : DataPhase W) (w : SlidingWindow W) : Prop where
  server : Server.Inv cfg.host cfg.b cfg.source s.server w
  client : s.client.pc = .done
  whole : s.client.info.outFile = cfg.source
  last : s.server.pc = .next .waitOnEofAck ∨ s.server.pc = .next .resendEof
    ∨ s.server.pc = .next .done

/-- A run over FIFO channels is in one of three phases. -/
def Phased (s : DataPhase W) : Prop :=
  ∃ w, Flowing cfg s w ∨ Ending cfg s w ∨ Ended cfg s w

/-! ## What is left to do -/

/-- The steps a child at `pc` may still take by itself. -/
def ServerPc.weight : ServerPc → ℕ
  | .drain => 6
  | .fill => 5
  | .next .waitOnEofAck => 2
  | .next .resendEof => 1
  | _ => 0

/-- **What is left to do** — a bound on the steps still to come.  A packet still to be sent costs
five: its send, the end of the drain loop after it, its delivery, and the delivery of its RR. -/
def pending (s : DataPhase W) : ℕ :=
  5 * (numChunks cfg.b cfg.source + 1 - s.server.sequenceNum.toNat) + s.server.pc.weight
    + 2 * s.toClient.length + s.toServer.length + 4 * (10 - s.server.info.eofResendCount)

variable {cfg} {s s' : DataPhase W} {w : SlidingWindow W} {sends : List Send} {ev : NetEvent}

/-! ## The client's turns -/

/-- **The next packet, in order**, is written and acknowledged. -/
theorem Client.Inv.deliver_next {c : Client W} (h : Client.Inv cfg.b cfg.source c)
    (hpc : c.pc = .receiving .inOrder) (hfits : c.info.expected.toNat < 4294967295)
    (hlen : (chunk cfg.b cfg.source c.info.expected.toNat).length ≤ MAXBUF) (stale : Bytes)
    (a : SockAddr) :
    ∃ c', c.step cfg.host stale
          ⟨a, dataPDU cfg.host cfg.b cfg.source c.info.expected.toNat⟩
        = some (c', [⟨a, rrPDU cfg.host (UInt32.ofNat (c.info.expected.toNat + 1))⟩])
      ∧ Client.Inv cfg.b cfg.source c' ∧ c'.pc = .receiving .inOrder
      ∧ c'.info.expected.toNat = c.info.expected.toNat + 1 := by
  have hmax : MAXBUF = 1400 := rfl
  have hW := Nat.pos_of_neZero W
  have hsucc : c.info.expected + 1 = UInt32.ofNat (c.info.expected.toNat + 1) := by
    rw [← UInt32.toNat_inj, toNat_add_one hfits, UInt32.toNat_ofNat']
    omega
  obtain ⟨state', info', sends, hstep, hg⟩ := h.deliver_data (n := c.info.expected)
    (s := c.info.expected.toNat) (show IsDataFlag 16 by decide) hlen
    (.inr ⟨by omega, hfits, rfl⟩) hpc stale a
  set r := safeRecvfrom stale (MAXBUF + 7)
    ⟨a, createPDU cfg.host c.info.expected 16 (chunk cfg.b cfg.source c.info.expected.toNat)⟩
    with hr
  have hturn : processTransferState cfg.host .inOrder c.info r = _ :=
    turn_inOrder_eq cfg.host (by simp [hr, IsDataFlag]) (by simp [hr])
      (payload_safeRecvfrom _ _ _ _ _ _ (by omega))
  rw [hsucc] at hturn
  have hstep' := Client.step_of_turn cfg.host hpc hturn
  obtain ⟨⟨rfl, rfl⟩, rfl⟩ := by simpa using hstep'.symm.trans hstep
  rw [dataPDU, UInt32.ofNat_toNat]
  refine ⟨_, hstep', ⟨hg.faithful, fun _ hst => ?_, by simp⟩, rfl, ?_⟩
  · obtain rfl := ClientPc.receiving.inj hst
    exact hg.settled
  · change (UInt32.ofNat (c.info.expected.toNat + 1)).toNat = _
    rw [← hsucc, toNat_add_one hfits]

/-- **The EOF, in order**, ends the client with everything it had written. -/
theorem Client.Inv.deliver_eof {c : Client W} (h : Client.Inv cfg.b cfg.source c)
    (hpc : c.pc = .receiving .inOrder) (n : UInt32) (stale : Bytes) (a : SockAddr) :
    ∃ c', c.step cfg.host stale ⟨a, createPDU cfg.host n 10 []⟩
        = some (c', [⟨a, createPDU cfg.host n 35 []⟩])
      ∧ c'.pc = .done ∧ c'.info.outFile = chunks cfg.b cfg.source (c.info.expected.toNat - 1) := by
  refine ⟨_, Client.step_eof hpc n stale a, rfl, ?_⟩
  have hf : Faithful cfg.b cfg.source { c.info with serverAddr := a, eofSeq := n } :=
    h.faithful.congr rfl rfl rfl rfl
  obtain ⟨hfl, hexp, -⟩ := hf.flush
  have hle := hfl.le_highest
  rw [ReceiveInfo.highest_flush] at hle
  have hsettled : c.info.highest.toNat + 1 = c.info.expected.toNat := h.settled _ hpc
  have hsame := le_antisymm (hle.trans hsettled.le) hexp
  rw [hfl.out, hsame]

/-! ## The child's last states -/

omit [NeZero W] in
/-- An RR that comes after the EOF is not its ack. -/
theorem Server.step_rr_waiting {σ : Server W} (hpc : σ.pc = .next .waitOnEofAck) (host : Host)
    (n : UInt32) (stale : Bytes) (a : SockAddr) :
    σ.step host (.receive stale ⟨a, rrPDU host n⟩)
      = some ({ σ with info := { σ.info with clientAddr := a } }, []) := by
  have hmax : MAXBUF = 1400 := rfl
  have hflag : (safeRecvfrom stale MAXBUF ⟨a, rrPDU host n⟩).flag = 5 :=
    flag_controlPDU host n 5 stale a (by omega)
  have hstays : waitOnEofAckState host σ.info (some (safeRecvfrom stale MAXBUF ⟨a, rrPDU host n⟩))
      = (.waitOnEofAck, { σ.info with clientAddr := a }) :=
    if_neg fun h => absurd (hflag.symm.trans h.1) (by decide)
  simp only [Server.step, hpc, hstays]

/-! ## Flowing -/

namespace Flowing

/-- A run starts with nothing in flight. -/
theorem enter : Flowing (W := W) cfg (DataPhase.enter W cfg) (.empty 1) where
  server := Server.inv_enter _ _ _
  client := Client.inv_enter _
  addr := rfl
  base_le := le_rfl
  le_next := le_rfl
  inOrder := rfl
  sending := .inl rfl
  toClient := rfl
  toServer := rfl

/-- **The child runs**: the next packet joins the others, or the EOF follows them, or the read
overflows the array. -/
theorem run_cases (h : Flowing cfg s w)
    (hlast : w.next ≤ numChunks cfg.b cfg.source → w.next < 4294967295)
    (hs : s.serverStep cfg .run = some (s', sends)) :
    ((∃ hroom, Flowing cfg s' (w.push hroom) ∧ s'.server.pc = .drain) ∨ Ending cfg s' w
        ∨ s'.server.pc = .aborted .overflow ∧ MAXBUF < cfg.b)
      ∧ pending cfg s' < pending cfg s := by
  obtain ⟨σ', hstep, rfl⟩ := DataPhase.serverStep_eq_some hs
  obtain ⟨w', he, hi'⟩ := h.server.step_of_last (fun _ => hlast) hstep
  cases he with
  | sent q hpc hroom hmore =>
    refine ⟨.inl ⟨hroom, ⟨hi', h.client, h.addr, h.base_le, h.le_next.trans (Nat.le_succ _),
      h.inOrder, .inr rfl, ?_, h.toServer⟩, rfl⟩, ?_⟩
    · simp [h.toClient, h.addr, packets, span_concat h.le_next]
    · have hnext := h.server.next
      have hnext' : w.next + 1 = (s.server.sequenceNum + 1).toNat := hi'.next
      simp only [pending, h.addr, hpc, ServerPc.weight, DataPhase.arriving_self,
        List.length_append, List.length_singleton]
      omega
  | eof hpc hroom hend =>
    refine ⟨.inr (.inl ⟨hi', h.client, h.le_next,
      w.bounded.trans (Nat.add_le_add_right h.base_le W), h.inOrder, rfl, ?_, fun d hd => ?_⟩), ?_⟩
    · simp [h.toClient, h.addr]
    · rw [h.toServer] at hd
      obtain ⟨n, -, rfl⟩ := List.mem_map.mp hd
      exact ⟨_, rfl⟩
    · simp only [pending, h.addr, hpc, ServerPc.weight, DataPhase.arriving_self,
        List.length_append, List.length_singleton]
      omega
  | overflow hpc hbig =>
    refine ⟨.inr (.inr ⟨rfl, hbig⟩), ?_⟩
    simp [pending, hpc, ServerPc.weight]
  | eofResent hpc | gaveUp hpc => rcases h.sending with h | h <;> simp [hpc] at h

/-- **The child runs** on reads that fit: the next packet joins the others, or the EOF follows
them. -/
theorem run (h : Flowing cfg s w) (hK : numChunks cfg.b cfg.source < 4294967295)
    (hb : cfg.b ≤ MAXBUF) (hs : s.serverStep cfg .run = some (s', sends)) :
    ((∃ w', Flowing cfg s' w') ∨ ∃ w', Ending cfg s' w') ∧ pending cfg s' < pending cfg s := by
  obtain ⟨hor, hlt⟩ := h.run_cases (fun hmore => hmore.trans_lt hK) hs
  rcases hor with ⟨hroom, h', -⟩ | h' | ⟨-, hbig⟩
  · exact ⟨.inl ⟨_, h'⟩, hlt⟩
  · exact ⟨.inr ⟨_, h'⟩, hlt⟩
  · exact absurd hb (Nat.not_le.mpr hbig)

/-- **The drain loop ends**; no poll times out on a full window. -/
theorem quiet (h : Flowing cfg s w) (hg : s.Fifo .quiet)
    (hs : s.serverStep cfg .quiet = some (s', sends)) :
    Flowing cfg s' w ∧ pending cfg s' < pending cfg s := by
  obtain ⟨σ', hstep, rfl⟩ := DataPhase.serverStep_eq_some hs
  obtain ⟨w', he, hi'⟩ := h.server.step_of_last (fun hev => by cases hev) hstep
  cases he with
  | drained hpc =>
    refine ⟨⟨hi', h.client, h.addr, h.base_le, h.le_next, h.inOrder, .inl rfl, ?_, h.toServer⟩, ?_⟩
    · simp [h.toClient]
    · simp [pending, hpc, ServerPc.weight]
  | resent k hpc hfull hk hslot =>
    obtain ⟨hc, hsv⟩ := hg.resolve_left (by simp [hpc])
    rw [h.toClient, packets, span_eq_nil_iff] at hc
    rw [h.toServer, rrs, span_eq_nil_iff] at hsv
    have := SlidingWindow.mem_iff.mp hk
    omega
  | eofQuiet hpc => rcases h.sending with h | h <;> simp [hpc] at h

/-- **The first RR reaches the child** and releases the base. -/
theorem deliver_server (h : Flowing cfg s w) {stale bytes : Bytes} {rest : List Bytes}
    (hd : s.toServer = bytes :: rest)
    (hs : { s with toServer := rest }.serverStep cfg (.receive stale ⟨cfg.clientAddr, bytes⟩)
      = some (s', sends)) :
    Flowing cfg s' (w.release (w.base + 1)) ∧ pending cfg s' < pending cfg s := by
  have hl : s.server.Listening := by
    rcases h.sending with hpc | hpc
    · by_contra hno
      have hroom : s.server.window.isFull = false := by simpa [Server.Listening, hpc] using hno
      simp [DataPhase.serverStep, Server.step, hpc, hroom] at hs
    · exact .inr hpc
  have hlt : w.base + 1 < s.expected + 1 := by
    by_contra hno
    rw [h.toServer, rrs, span_eq_nil_iff.mpr (Nat.le_of_not_lt hno)] at hd
    cases hd
  have hlen := congrArg List.length hd
  rw [h.toServer, rrs, span_cons hlt] at hd
  obtain ⟨rfl, rfl⟩ := List.cons.inj hd
  have hval : (UInt32.ofNat (w.base + 1)).toNat = w.base + 1 := by
    have := h.server.next
    have := s.server.sequenceNum.toNat_lt
    have := h.le_next
    rw [UInt32.toNat_ofNat']
    omega
  obtain ⟨q, hstep, hi⟩ := h.server.step_rr hl (UInt32.ofNat (w.base + 1)) stale cfg.clientAddr
  obtain ⟨rfl, -⟩ := DataPhase.eq_of_serverStep hs hstep
  have hbase : (w.release (w.base + 1)).base = w.base + 1 := by
    have := h.le_next
    rw [SlidingWindow.base_release]
    omega
  rw [hval] at hi
  refine ⟨⟨hi, h.client, rfl, ?_, h.le_next, h.inOrder, h.sending, ?_, ?_⟩, ?_⟩
  · rw [hbase]
    exact Nat.lt_of_succ_lt_succ hlt
  · simpa using h.toClient
  · rw [hbase]
    rfl
  · simp [pending, Server.heard, hlen]

/-- **The next packet reaches the client**, which acknowledges it. -/
theorem deliver_client (h : Flowing cfg s w) {stale bytes : Bytes} {rest : List Bytes}
    (hd : s.toClient = bytes :: rest)
    (hs : { s with toClient := rest }.clientStep cfg stale bytes = some (s', sends)) :
    Flowing cfg s' w ∧ pending cfg s' < pending cfg s := by
  have hlen := congrArg List.length hd
  have hlt : s.client.info.expected.toNat < w.next := by
    by_contra hno
    rw [h.toClient, packets, span_eq_nil_iff.mpr (Nat.le_of_not_lt hno)] at hd
    cases hd
  rw [h.toClient, packets, span_cons hlt] at hd
  obtain ⟨rfl, rfl⟩ := List.cons.inj hd
  have hpos := h.server.pos
  have hbase : w.base ≤ s.client.info.expected.toNat := h.base_le
  obtain ⟨c, hstep, hi, hpc, hexp⟩ := h.client.deliver_next h.inOrder
    (by have := h.server.next; have := s.server.sequenceNum.toNat_lt; omega)
    (h.server.short _ (by omega) hlt) stale cfg.childAddr
  obtain ⟨rfl, -⟩ := DataPhase.eq_of_clientStep hs hstep
  refine ⟨⟨h.server, hi, h.addr, ?_, ?_, hpc, h.sending, ?_, ?_⟩, ?_⟩
  · simp only [DataPhase.expected, hexp]
    omega
  · simp only [DataPhase.expected, hexp]
    exact hlt
  · simp only [DataPhase.expected, hexp]
    rfl
  · simp only [DataPhase.expected, hexp]
    rw [rrs, span_concat (by omega), h.toServer]
    simp [rrs]
  · simp only [pending, hlen, DataPhase.arriving_self, List.length_append, List.length_cons,
      List.length_nil]
    omega

/-- **The client takes the next packet**, if one is in flight. -/
theorem client_takes (h : Flowing cfg s w) (hlt : s.expected < w.next) :
    ∃ ev s' sends, s.Fifo ev ∧ s.step cfg ev = some (s', sends) ∧ Flowing cfg s' w
      ∧ s'.expected = s.expected + 1 ∧ s'.server = s.server := by
  have hd := h.toClient
  rw [packets, span_cons hlt] at hd
  have hfits : s.client.info.expected.toNat < 4294967295 := by
    have := h.server.next
    have := s.server.sequenceNum.toNat_lt
    change s.expected < 4294967295
    omega
  obtain ⟨c, hstep, -, -, hexp⟩ := h.client.deliver_next h.inOrder hfits
    (h.server.short _ h.client.faithful.pos hlt) [] cfg.childAddr
  have hs := DataPhase.clientStep_of_step cfg
    (s := { s with toClient := packets cfg (s.expected + 1) w.next }) hstep
  exact ⟨.deliver .client 0 [] _, _, _, ⟨rfl, by simp only [DataPhase.inFlight, hd]; rfl⟩,
    (DataPhase.step_deliver_client cfg hd [] _).trans hs, (h.deliver_client hd hs).1, hexp, rfl⟩

/-- **A child that listens takes the next RR**, if one is in flight. -/
theorem server_takes (h : Flowing cfg s w) (hl : s.server.Listening) (hlt : w.base < s.expected) :
    ∃ ev s' sends, s.Fifo ev ∧ s.step cfg ev = some (s', sends)
      ∧ Flowing cfg s' (w.release (w.base + 1)) ∧ s'.server.pc = s.server.pc := by
  have hd := h.toServer
  rw [rrs, span_cons (Nat.succ_lt_succ hlt)] at hd
  obtain ⟨q, hstep, -⟩ := h.server.step_rr hl (UInt32.ofNat (w.base + 1)) [] cfg.clientAddr
  have hs := DataPhase.serverStep_of_step cfg
    (s := { s with toServer := rrs cfg (w.base + 1 + 1) (s.expected + 1) }) hstep
  exact ⟨.deliver .server 0 [] _, _, _, ⟨rfl, by simp only [DataPhase.inFlight, hd]; rfl⟩,
    (DataPhase.step_deliver_server cfg hd [] _).trans hs, (h.deliver_server hd hs).1, rfl⟩

end Flowing

/-! ## Ending -/

namespace Ending

/-- **An RR reaches the waiting child**, which stays where it is. -/
theorem deliver_server (h : Ending cfg s w) {stale bytes : Bytes} {rest : List Bytes}
    (hd : s.toServer = bytes :: rest)
    (hs : { s with toServer := rest }.serverStep cfg (.receive stale ⟨cfg.clientAddr, bytes⟩)
      = some (s', sends)) :
    Ending cfg s' w ∧ pending cfg s' < pending cfg s := by
  have hlen := congrArg List.length hd
  have hrr := h.toServer
  rw [hd, List.forall_mem_cons] at hrr
  obtain ⟨⟨n, rfl⟩, hrest⟩ := hrr
  have hstep := Server.step_rr_waiting h.waiting cfg.host n stale cfg.clientAddr
  obtain ⟨rfl, -⟩ := DataPhase.eq_of_serverStep hs hstep
  refine ⟨⟨⟨h.server.holds, h.server.next, h.server.pos, h.server.bufferSize, h.server.file,
    h.server.short, h.server.le_numChunks, h.server.eof⟩, h.client, h.le_next, h.close, h.inOrder,
    h.waiting, ?_, hrest⟩, ?_⟩
  · simpa using h.toClient
  · simp [pending, hlen]

/-- **A packet reaches the client**, which acknowledges it. -/
theorem deliver_packet (h : Ending cfg s w) (hlt : s.expected < w.next) {stale bytes : Bytes}
    {rest : List Bytes} (hd : s.toClient = bytes :: rest)
    (hs : { s with toClient := rest }.clientStep cfg stale bytes = some (s', sends)) :
    Ending cfg s' w ∧ pending cfg s' < pending cfg s := by
  have hlen := congrArg List.length hd
  have hpos := h.client.faithful.pos
  have hlt' : s.client.info.expected.toNat < w.next := hlt
  have hclose : w.next ≤ s.client.info.expected.toNat + W := h.close
  have hnext := h.server.next
  rw [h.toClient, packets, span_cons hlt, List.cons_append] at hd
  obtain ⟨rfl, rfl⟩ := List.cons.inj hd
  obtain ⟨c, hstep, hi, hpc, hexp⟩ := h.client.deliver_next h.inOrder
    (by have := s.server.sequenceNum.toNat_lt; omega) (h.server.short _ hpos hlt') stale
    cfg.childAddr
  obtain ⟨rfl, -⟩ := DataPhase.eq_of_clientStep hs hstep
  refine ⟨⟨h.server, hi, ?_, ?_, hpc, h.waiting, ?_, fun d hd => ?_⟩, ?_⟩
  · simp only [DataPhase.expected, hexp]
    exact hlt
  · simp only [DataPhase.expected, hexp]
    omega
  · simp only [DataPhase.expected, hexp]
    rfl
  · rcases List.mem_append.mp hd with hd | hd
    · exact h.toServer d hd
    · obtain rfl : d = _ := by simpa using hd
      exact ⟨_, rfl⟩
  · simp only [pending, hlen, DataPhase.arriving_self, List.length_append, List.length_cons,
      List.length_nil]
    omega

/-- **The EOF reaches the client**, which acknowledges it and has the whole file. -/
theorem deliver_eof (h : Ending cfg s w) (hb : 0 < cfg.b) (hle : w.next ≤ s.expected)
    {stale bytes : Bytes} {rest : List Bytes} (hd : s.toClient = bytes :: rest)
    (hs : { s with toClient := rest }.clientStep cfg stale bytes = some (s', sends)) :
    (Ended cfg s' w ∧ sends = [⟨cfg.childAddr,
        createPDU cfg.host (UInt32.ofNat (numChunks cfg.b cfg.source + 1)) 35 []⟩])
      ∧ pending cfg s' < pending cfg s := by
  have hlen := congrArg List.length hd
  have hexpected : s.client.info.expected.toNat = w.next := h.le_next.antisymm hle
  obtain ⟨hend, -⟩ := h.server.eof (.inl h.waiting)
  rw [h.toClient, packets, span_eq_nil_iff.mpr hle, List.nil_append] at hd
  obtain ⟨rfl, rfl⟩ := List.cons.inj hd
  obtain ⟨c, hstep, hpc, hout⟩ := h.client.deliver_eof h.inOrder s.server.sequenceNum stale
    cfg.childAddr
  obtain ⟨rfl, rfl⟩ := DataPhase.eq_of_clientStep hs hstep
  have hseq : s.server.sequenceNum = UInt32.ofNat (numChunks cfg.b cfg.source + 1) := by
    rw [← hend, h.server.next, UInt32.ofNat_toNat]
  refine ⟨⟨⟨h.server, hpc, ?_, .inl h.waiting⟩, by rw [hseq]⟩, ?_⟩
  · have hk : s.client.info.expected.toNat - 1 = numChunks cfg.b cfg.source := by omega
    change c.info.outFile = _
    rw [hout, hk, chunks_numChunks hb]
  · simp only [pending, hlen, DataPhase.arriving_self, List.length_append, List.length_cons,
      List.length_nil]
    omega

/-- **A packet or the EOF reaches the client**; at the EOF it has the whole file. -/
theorem deliver_client (h : Ending cfg s w) (hb : 0 < cfg.b) {stale bytes : Bytes}
    {rest : List Bytes} (hd : s.toClient = bytes :: rest)
    (hs : { s with toClient := rest }.clientStep cfg stale bytes = some (s', sends)) :
    (Ending cfg s' w ∨ Ended cfg s' w ∧ sends = [⟨cfg.childAddr,
        createPDU cfg.host (UInt32.ofNat (numChunks cfg.b cfg.source + 1)) 35 []⟩])
      ∧ pending cfg s' < pending cfg s := by
  rcases lt_or_ge s.expected w.next with hlt | hle
  · obtain ⟨h', hpending⟩ := h.deliver_packet hlt hd hs
    exact ⟨.inl h', hpending⟩
  · obtain ⟨h', hpending⟩ := h.deliver_eof hb hle hd hs
    exact ⟨.inr h', hpending⟩

end Ending

/-! ## Ended -/

namespace Ended

/-- **A step of the child** leaves the client as it is. -/
theorem serverStep (h : Ended cfg s w) (hK : numChunks cfg.b cfg.source < 4294967295)
    {ev : ServerEvent} (hs : s.serverStep cfg ev = some (s', sends)) :
    (∃ w', Ended cfg s' w') ∧ (pending cfg s' < pending cfg s
      ∨ (∃ stale d, ev = .receive stale d) ∧ pending cfg s' ≤ pending cfg s) := by
  obtain ⟨σ', hstep, rfl⟩ := DataPhase.serverStep_eq_some hs
  obtain ⟨w', he, hi'⟩ := h.server.step hK hstep
  have hlast := h.last
  cases he with
  | sent q hpc | eof hpc | overflow hpc | resent k hpc | drained hpc => simp [hpc] at hlast
  | released q hl | answered k hl | refused hl | ignored hl | faulted hl =>
    rcases hl with ⟨hpc, -⟩ | hpc <;> simp [hpc] at hlast
  | eofQuiet hpc =>
    refine ⟨⟨w, hi', h.client, h.whole, .inr (.inl rfl)⟩, .inl ?_⟩
    simp [pending, hpc, ServerPc.weight]
  | eofResent hpc hcount =>
    have harr : (DataPhase.arriving cfg.clientAddr
        [⟨s.server.info.clientAddr, s.server.info.eofPacket⟩]).length ≤ 1 := by
      simpa [DataPhase.arriving] using List.length_filter_le _ [_]
    refine ⟨⟨w, hi', h.client, h.whole, .inl rfl⟩, .inl ?_⟩
    simp only [pending, hpc, ServerPc.weight, List.length_append]
    omega
  | gaveUp hpc hcount =>
    refine ⟨⟨w, hi', h.client, h.whole, .inr (.inr rfl)⟩, .inl ?_⟩
    simp [pending, hpc, ServerPc.weight]
  | @eofHeard state hpc stale d hstate =>
    refine ⟨⟨w, hi', h.client, h.whole, ?_⟩, .inr ⟨⟨_, _, rfl⟩, ?_⟩⟩
    · rcases hstate with rfl | rfl
      · exact .inr (.inr rfl)
      · exact .inl rfl
    · rcases hstate with rfl | rfl <;> simp [pending, hpc, ServerPc.weight]

end Ended

/-! ## Every step -/

namespace Phased

theorem enter : Phased (W := W) cfg (DataPhase.enter W cfg) := ⟨_, .inl Flowing.enter⟩

/-- The ack of the EOF goes out in the step that ends the client. -/
def Acknowledges (cfg : Config) (s s' : DataPhase W) (sends : List Send) : Prop :=
  s.client.pc ≠ .done → s'.client.pc = .done → sends = [⟨cfg.childAddr,
    createPDU cfg.host (UInt32.ofNat (numChunks cfg.b cfg.source + 1)) 35 []⟩]

/-- **A step of the child.** -/
theorem serverStep (h : Phased cfg s) (hK : numChunks cfg.b cfg.source < 4294967295)
    (hb : cfg.b ≤ MAXBUF) (hev : ev = .run ∨ ev = .quiet) (hg : s.Fifo ev)
    (hs : s.step cfg ev = some (s', sends)) :
    Phased cfg s' ∧ pending cfg s' < pending cfg s ∧ s'.client = s.client := by
  have hclient : s'.client = s.client := by
    rcases hev with rfl | rfl <;>
    · obtain ⟨σ', -, rfl⟩ := DataPhase.serverStep_eq_some hs
      rfl
  obtain ⟨w, h | h | h⟩ := h
  · rcases hev with rfl | rfl
    · obtain ⟨hor, hlt⟩ := h.run hK hb hs
      exact ⟨hor.elim (fun ⟨w, h⟩ => ⟨w, .inl h⟩) (fun ⟨w, h⟩ => ⟨w, .inr (.inl h)⟩), hlt, hclient⟩
    · obtain ⟨h', hlt⟩ := h.quiet hg hs
      exact ⟨⟨w, .inl h'⟩, hlt, hclient⟩
  · rcases hev with rfl | rfl
    · simp [DataPhase.step, DataPhase.serverStep, Server.step, h.waiting] at hs
    · have hne : s.toClient ≠ [] := by simp [h.toClient]
      simp [DataPhase.Fifo, h.waiting, hne] at hg
  · rcases hev with rfl | rfl <;>
    · obtain ⟨⟨w', h'⟩, hlt⟩ := h.serverStep hK hs
      exact ⟨⟨w', .inr (.inr h')⟩, hlt.resolve_right (by simp), hclient⟩

/-- **A delivery to the child.** -/
theorem deliver_server (h : Phased cfg s) (hK : numChunks cfg.b cfg.source < 4294967295)
    {stale bytes : Bytes} {rest : List Bytes} (hd : s.toServer = bytes :: rest)
    (hs : { s with toServer := rest }.serverStep cfg (.receive stale ⟨cfg.clientAddr, bytes⟩)
      = some (s', sends)) :
    Phased cfg s' ∧ pending cfg s' < pending cfg s ∧ s'.client = s.client := by
  have hclient : s'.client = s.client := by
    obtain ⟨σ', -, rfl⟩ := DataPhase.serverStep_eq_some hs
    rfl
  obtain ⟨w, h | h | h⟩ := h
  · obtain ⟨h', hlt⟩ := h.deliver_server hd hs
    exact ⟨⟨_, .inl h'⟩, hlt, hclient⟩
  · obtain ⟨h', hlt⟩ := h.deliver_server hd hs
    exact ⟨⟨w, .inr (.inl h')⟩, hlt, hclient⟩
  · have hrest : Ended cfg { s with toServer := rest } w := ⟨h.server, h.client, h.whole, h.last⟩
    obtain ⟨⟨w', h'⟩, hle⟩ := hrest.serverStep hK hs
    have hlen : pending cfg { s with toServer := rest } + 1 = pending cfg s := by
      simp only [pending, hd, List.length_cons]
      omega
    refine ⟨⟨w', .inr (.inr h')⟩, ?_, hclient⟩
    rcases hle with hlt | ⟨-, hle⟩ <;> omega

/-- **A delivery to the client.** -/
theorem deliver_client (h : Phased cfg s) (hb : 0 < cfg.b) {stale bytes : Bytes}
    {rest : List Bytes} (hd : s.toClient = bytes :: rest)
    (hs : { s with toClient := rest }.clientStep cfg stale bytes = some (s', sends)) :
    Phased cfg s' ∧ pending cfg s' < pending cfg s ∧ Acknowledges cfg s s' sends := by
  obtain ⟨w, h | h | h⟩ := h
  · obtain ⟨h', hlt⟩ := h.deliver_client hd hs
    exact ⟨⟨w, .inl h'⟩, hlt, fun _ hdone => by simp [h'.inOrder] at hdone⟩
  · obtain ⟨h' | ⟨h', hack⟩, hlt⟩ := h.deliver_client hb hd hs
    · exact ⟨⟨w, .inr (.inl h')⟩, hlt, fun _ hdone => by simp [h'.inOrder] at hdone⟩
    · exact ⟨⟨w, .inr (.inr h')⟩, hlt, fun _ _ => hack⟩
  · simp [DataPhase.clientStep, Client.step, h.client] at hs

/-- **A datagram for a client that has ended** is dropped. -/
theorem lose (h : Phased cfg s) {d : Bytes} {rest : List Bytes} (hd : s.toClient = d :: rest)
    (hg : ¬ s.Receiving) : Phased cfg { s with toClient := rest }
      ∧ pending cfg { s with toClient := rest } < pending cfg s := by
  obtain ⟨w, h | h | h⟩ := h
  · exact absurd (by simp [DataPhase.Receiving, h.inOrder]) hg
  · exact absurd (by simp [DataPhase.Receiving, h.inOrder]) hg
  · refine ⟨⟨w, .inr (.inr ⟨h.server, h.client, h.whole, h.last⟩)⟩, ?_⟩
    simp only [pending, hd, List.length_cons]
    omega

/-- **One step over FIFO channels** stays within the phases, leaves less to do, and acknowledges the
EOF if it ends the client. -/
theorem step (h : Phased cfg s) (hK : numChunks cfg.b cfg.source < 4294967295)
    (hb : 1 ≤ cfg.b ∧ cfg.b ≤ MAXBUF) (hg : s.Fifo ev) (hs : s.step cfg ev = some (s', sends)) :
    Phased cfg s' ∧ pending cfg s' < pending cfg s ∧ Acknowledges cfg s s' sends := by
  cases ev with
  | run | quiet =>
    obtain ⟨h', hlt, hclient⟩ := h.serverStep hK hb.2 (by simp) hg hs
    exact ⟨h', hlt, fun hne hdone => absurd (hclient ▸ hdone) hne⟩
  | duplicate side i => exact hg.elim
  | lose side i =>
    obtain ⟨rfl, rfl, hrecv⟩ := hg
    cases hd : s.toClient with
    | nil => simp [DataPhase.step, DataPhase.inFlight, hd] at hs
    | cons d rest =>
      obtain ⟨rfl, -⟩ := by simpa [DataPhase.step, DataPhase.inFlight, DataPhase.setInFlight, hd]
        using hs
      obtain ⟨h', hlt⟩ := h.lose hd hrecv
      exact ⟨h', hlt, fun hne hdone => absurd hdone hne⟩
  | deliver side i stale bytes =>
    obtain ⟨rfl, rest, hd⟩ := hg.oldest
    cases side with
    | server =>
      rw [DataPhase.step_deliver_server cfg hd] at hs
      obtain ⟨h', hlt, hclient⟩ := h.deliver_server hK hd hs
      exact ⟨h', hlt, fun hne hdone => absurd (hclient ▸ hdone) hne⟩
    | client =>
      rw [DataPhase.step_deliver_client cfg hd] at hs
      exact h.deliver_client hb.1 hd hs

end Phased

/-! ## No run is stuck before its end -/

section Stuck

variable (hstuck : Stuck (DataPhase.machine W cfg) DataPhase.Fifo s)

include hstuck

/-- Where no step is possible, the client does not take the oldest datagram in flight to it. -/
theorem client_step_of_stuck {d : Bytes} {rest : List Bytes} (hd : s.toClient = d :: rest) :
    s.client.step cfg.host [] ⟨cfg.childAddr, d⟩ = none := by
  have h : s.step cfg (.deliver .client 0 [] d) = none :=
    hstuck (.deliver .client 0 [] d) ⟨rfl, by simp [DataPhase.inFlight, hd]⟩
  rw [DataPhase.step_deliver_client cfg hd] at h
  exact Option.map_eq_none_iff.mp h

/-- Where no step is possible, the child does not take the oldest datagram in flight to it. -/
theorem server_step_of_stuck {d : Bytes} {rest : List Bytes} (hd : s.toServer = d :: rest) :
    s.server.step cfg.host (.receive [] ⟨cfg.clientAddr, d⟩) = none := by
  have h : s.step cfg (.deliver .server 0 [] d) = none :=
    hstuck (.deliver .server 0 [] d) ⟨rfl, by simp [DataPhase.inFlight, hd]⟩
  rw [DataPhase.step_deliver_server cfg hd] at h
  exact Option.map_eq_none_iff.mp h

/-- The drain loop can always end. -/
theorem pc_ne_drain_of_stuck : s.server.pc ≠ .drain := fun hpc => by
  have hquiet : s.step cfg .quiet = none := hstuck .quiet (.inl hpc)
  simp [DataPhase.step, DataPhase.serverStep, Server.step, hpc] at hquiet

/-- **While packets flow a full window has something to wait for.** -/
theorem Flowing.not_full_of_stuck (h : Flowing cfg s w) : ¬ w.Full := by
  intro hfull
  have hW := Nat.pos_of_neZero W
  have hpc := h.sending.resolve_right (pc_ne_drain_of_stuck hstuck)
  have hl : s.server.Listening := .inl ⟨hpc, h.server.holds.isFull_iff.mpr hfull⟩
  rcases h.base_le.lt_or_eq with hlt | heq
  · obtain ⟨ev, s', sends, hg, hs, -⟩ := h.server_takes hl hlt
    exact absurd ((hstuck ev hg).symm.trans hs) (by simp)
  · have hlt : s.expected < w.next := by
      simp only [SlidingWindow.Full] at hfull
      omega
    obtain ⟨ev, s', sends, hg, hs, -⟩ := h.client_takes hlt
    exact absurd ((hstuck ev hg).symm.trans hs) (by simp)

/-- **While packets flow some step is possible.** -/
theorem Flowing.not_stuck (h : Flowing cfg s w) (hK : numChunks cfg.b cfg.source < 4294967295) :
    False := by
  have hpc := h.sending.resolve_right (pc_ne_drain_of_stuck hstuck)
  obtain ⟨σ', w', sends, hstep, -⟩ := h.server.takes_run (fun hmore => hmore.trans_lt hK) hpc
    (h.not_full_of_stuck hstuck)
  have hrun : s.step cfg .run = none := hstuck .run trivial
  simp [DataPhase.step, DataPhase.serverStep, hstep] at hrun

/-- **While the EOF is on its way the client can take the next datagram.** -/
theorem Ending.not_stuck (h : Ending cfg s w) : False := by
  have hnext := h.server.next
  have hle : s.client.info.expected.toNat ≤ w.next := h.le_next
  rcases hle.lt_or_eq with hlt | heq
  · have hd := h.toClient
    rw [packets, span_cons hlt, List.cons_append] at hd
    obtain ⟨c, hstep, -⟩ := h.client.deliver_next h.inOrder
      (by have := s.server.sequenceNum.toNat_lt; omega)
      (h.server.short _ h.client.faithful.pos hlt) [] cfg.childAddr
    exact absurd (hstep.symm.trans (client_step_of_stuck hstuck hd)) (by simp)
  · have hd := h.toClient
    rw [packets, span_eq_nil_iff.mpr heq.ge, List.nil_append] at hd
    obtain ⟨c, hstep, -⟩ := h.client.deliver_eof h.inOrder s.server.sequenceNum [] cfg.childAddr
    exact absurd (hstep.symm.trans (client_step_of_stuck hstuck hd)) (by simp)

/-- **Once the client is done, only the child's end has no step.** -/
theorem Ended.done_of_stuck (h : Ended cfg s w) : s.server.pc = .next .done := by
  have hc : s.toClient = [] := by
    cases hd : s.toClient with
    | nil => rfl
    | cons d rest =>
      have hlose : s.step cfg (.lose .client 0) = none :=
        hstuck (.lose .client 0) ⟨rfl, rfl, by simp [DataPhase.Receiving, h.client]⟩
      simp [DataPhase.step, DataPhase.inFlight, hd] at hlose
  rcases h.last with hpc | hpc | hpc
  · cases hd : s.toServer with
    | cons d rest =>
      have hnone := server_step_of_stuck hstuck hd
      simp [Server.step, hpc] at hnone
    | nil =>
      have hquiet : s.step cfg .quiet = none := hstuck .quiet (.inr ⟨hc, hd⟩)
      simp [DataPhase.step, DataPhase.serverStep, Server.step, hpc] at hquiet
  · have hrun : s.step cfg .run = none := hstuck .run trivial
    simp [DataPhase.step, DataPhase.serverStep, Server.step, hpc] at hrun
  · exact hpc

/-- **A state without a step is complete.** -/
theorem Phased.complete_of_stuck (h : Phased cfg s)
    (hK : numChunks cfg.b cfg.source < 4294967295) :
    s.client.pc = .done ∧ s.client.info.outFile = cfg.source ∧ s.server.pc = .next .done := by
  obtain ⟨w, h | h | h⟩ := h
  · exact (h.not_stuck hstuck hK).elim
  · exact (h.not_stuck hstuck).elim
  · exact ⟨h.client, h.whole, h.done_of_stuck hstuck⟩

end Stuck

/-! ## Whole runs -/

/-- **Loss-free total correctness.**  A run over FIFO channels takes at most five steps a chunk and
forty-five more; and where no step is left the client has acknowledged the EOF and is done, its
output is the file, and the child is done. -/
theorem loss_free_total_correctness (hK : numChunks cfg.b cfg.source < 4294967295)
    (hb : 1 ≤ cfg.b ∧ cfg.b ≤ MAXBUF) {es : List (Edge (DataPhase W) NetEvent (List Send))}
    (run : Run (DataPhase.machine W cfg) DataPhase.Fifo (DataPhase.enter W cfg) es s) :
    es.length ≤ 5 * numChunks cfg.b cfg.source + 45
      ∧ (Stuck (DataPhase.machine W cfg) DataPhase.Fifo s →
          s.client.pc = .done ∧ s.client.info.outFile = cfg.source ∧ s.server.pc = .next .done
            ∧ ∃ x ∈ es, x.output = [⟨cfg.childAddr,
                createPDU cfg.host (UInt32.ofNat (numChunks cfg.b cfg.source + 1)) 35 []⟩]) := by
  have hstep : ∀ s ev t o, Phased (W := W) cfg s → s.Fifo ev →
      (DataPhase.machine W cfg).step s ev = some (t, o) → Phased cfg t :=
    fun s ev t o h hg hs => (h.step hK hb hg hs).1
  constructor
  · have hlen := run.length_add_measure_le (pending cfg) Phased.enter hstep
      fun s ev t o h hg hs => (h.step hK hb hg hs).2.1
    have henter : pending cfg (DataPhase.enter W cfg) = 5 * numChunks cfg.b cfg.source + 45 := by
      simp [pending, DataPhase.enter, Server.enter, ServerPc.weight]
    omega
  · intro hstuck
    have h := run.invariant Phased.enter hstep
    obtain ⟨hdone, hout, hserver⟩ := Phased.complete_of_stuck hstuck h hK
    refine ⟨hdone, hout, hserver, ?_⟩
    obtain ⟨x, hx, hsource, htarget⟩ := run.exists_crossing (P := fun s => s.client.pc = .done)
      (by simp [DataPhase.enter, Client.enter]) hdone
    obtain ⟨⟨es', run'⟩, hg, hs⟩ := run.edge hx
    exact ⟨x, hx, ((run'.invariant Phased.enter hstep).step hK hb hg hs).2.2 hsource htarget⟩

/-- Two chunks and the EOF, acknowledged, between two big-endian hosts: some run goes as far as it
can, and it ends with the whole file. -/
theorem loss_free_total_correctness_two :
    ∃ (es : List (Edge (DataPhase 2) NetEvent (List Send))) (s : DataPhase 2),
      Run (DataPhase.machine 2 { twoChunks with host := .standard .big }) DataPhase.Fifo
          (DataPhase.enter 2 { twoChunks with host := .standard .big }) es s
        ∧ es.length ≤ 55 ∧ s.client.pc = .done ∧ s.client.info.outFile = [65, 66]
        ∧ s.server.pc = .next .done := by
  let cfg : Config := { twoChunks with host := .standard .big }
  have hK : numChunks cfg.b cfg.source < 4294967295 := by decide
  have hb : 1 ≤ cfg.b ∧ cfg.b ≤ MAXBUF := by decide
  have hlen {es : List (Edge (DataPhase 2) NetEvent (List Send))} {s : DataPhase 2}
      (run : Run (DataPhase.machine 2 cfg) DataPhase.Fifo (DataPhase.enter 2 cfg) es s) :
      es.length ≤ 55 :=
    (loss_free_total_correctness hK hb run).1.trans (by decide)
  obtain ⟨es, s, run, hstuck⟩ := exists_stuck_of_length_le hlen
  obtain ⟨hdone, hout, hserver, -⟩ := (loss_free_total_correctness hK hb run).2 hstuck
  exact ⟨es, s, run, hlen run, hdone, hout, hserver⟩

end RemoteFileCopy
