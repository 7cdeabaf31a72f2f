import RemoteFileCopy.System.Schedules
import RemoteFileCopy.System.Turns

/-!
# System/Progress — every step of a prompt run is progress

Whose step it is decides which stage changes: `Stage.run` and `Stage.hear` are those of the `rcopy`,
`Stage.childStep` and `Stage.childHear` those of its child, `Stage.accept` and `Stage.fork` those of
the accept loop, and `Stage.lose` is what is dropped when the `rcopy` has ended.  Each leads to a
stage with less to do.
-/

namespace RemoteFileCopy

open Transition

namespace World

variable {ι : Type} {site : Site ι} {i : ι}

/-- **What a copy needs to complete**: nothing fails on the way to its data phase, its child has a
window, its reads fit the array, and its chunks can be numbered. -/
structure Completes (site : Site ι) (i : ι) : Prop extends Admitted site i where
  window : 0 < (site.windowSize i).toNat
  reads : 1 ≤ (site.bufferSize i).toNat ∧ (site.bufferSize i).toNat ≤ MAXBUF
  chunks : numChunks (site.bufferSize i).toNat (site.source i) < 4294967295

variable {w w' : World site} {n : ℕ} {a b p : SockAddr} {sends : List Send}
  {s : DataPhase (site.windowSize i).toNat}

theorem channel_eq_nil {src dest : SockAddr}
    (h : ∀ f ∈ w.inFlight, ¬ f.IsOn src dest) : w.channel src dest = [] := by
  rw [channel, List.map_eq_nil_iff, List.filter_eq_nil_iff]
  exact fun f hf hon => h f hf (of_decide_eq_true hon)

/-- Nobody but its child answers a socket. -/
theorem Serving.eq_of_child {c d : ProcessClient} {toClient toServer : List Bytes}
    (h : w.Serving i p a c toClient toServer) (hd : w.children b = some d)
    (hmem : d.clientAddr ∈ (w.rcopy i).sockets) : b = a ∧ d = c := by
  rw [h.sockets, List.mem_singleton] at hmem
  obtain rfl := h.only b d hd hmem
  exact ⟨rfl, Option.some_inj.mp (hd.symm.trans h.child)⟩

/-- What a child was asked for is what the owner of its socket asks for. -/
theorem Wired.serves (hw : w.Wired) {c : ProcessClient} (hc : w.children a = some c)
    (hmem : c.clientAddr ∈ (w.rcopy i).sockets) : site.Serves i c := by
  obtain ⟨-, j, hj, hserves, -⟩ := hw.child a c hc
  obtain rfl := (hw.socket i _ hmem).2.2 j hj
  exact hserves

theorem pending_enter [NeZero (site.windowSize i).toNat] : pending (site.config i p a)
    (.enter (site.windowSize i).toNat (site.config i p a)) = load site i := by
  simp [pending, DataPhase.enter, Server.enter, ServerPc.weight, load, Site.config, Config.b]

/-! ## The `rcopy` -/

section Rcopy

variable [DecidableEq ι]

/-- **It enters its receive loop**, if it has accepted its child. -/
theorem Receives.run (hc : Completes site i) (hr : Receives site i w a s n)
    (hs : w.rcopyStep i (.run b) = some (w', sends)) :
    n = 1 ∧ Receives site i w' a s 0 ∧ ∀ {c toClient toServer}, w.Wired →
      w.Serving i p a c toClient toServer → w'.Serving i p a c toClient toServer := by
  obtain ⟨q, hstep, rfl⟩ := rcopyStep_eq_some hs
  rcases hr.pc with ⟨hpc, rfl⟩ | ⟨hpc, -⟩
  · rw [RcopyProcess.step_waitOnData (site.setup i) hpc hc.calloc hc.creates] at hstep
    obtain ⟨rfl, rfl⟩ := Prod.mk.inj (Option.some_inj.mp hstep)
    refine ⟨rfl, ⟨?_, ?_, .inr ⟨?_, rfl⟩⟩, fun hw h => ?_⟩
    · rw [rcopy_setRcopy_self]
      exact hr.accepted
    · rw [rcopy_setRcopy_self]
      exact hr.alike
    · rw [rcopy_setRcopy_self]
    · simpa using h.setRcopy hw (q := { w.rcopy i with pc := .receiving }) h.sockets [] (by simp)
  · simp [RcopyProcess.step, Rcopy.step, hpc, exchangeStep] at hstep

variable [NeZero (site.windowSize i).toNat]

/-- **It asks**, from a socket of its own. -/
theorem Stage.ask (hw : w.Wired) (hb : w.Fresh b) (hsockets : (w.rcopy i).sockets = [])
    (hpc : (w.rcopy i).pc = .next .waitOnFileOk)
    (hs : w.rcopyStep i (.run b) = some (w', sends)) : Stage site i w' (load site i + 7) := by
  obtain ⟨q, hstep, rfl⟩ := rcopyStep_eq_some hs
  rw [RcopyProcess.step_waitOnFileOk (site.setup i) hpc] at hstep
  obtain ⟨rfl, rfl⟩ := Prod.mk.inj (Option.some_inj.mp hstep)
  set q := (w.rcopy i).setUp ((w.rcopy i).move b (.polling 0)) with hdef
  have hq : q.sockets = [b] := by
    simp [hdef, RcopyProcess.setUp, Rcopy.move, RcopyPc.polls, hsockets]
  obtain ⟨halone, hforked, hflight⟩ := hw.untouched hb
  refine .requested b ?_ ⟨?_, halone, ?_, ?_⟩
  · rw [rcopy_setRcopy_self]
    rfl
  · rw [rcopy_setRcopy_self, hq]
  · rw [List.filter_eq_nil_iff]
    exact fun r hr heq => hforked r hr (of_decide_eq_true heq)
  · rw [channel_setRcopy (by rw [hq, List.head?_cons]), if_pos rfl,
      channel_eq_nil fun f hf hon => (hflight f hf).1 hon.1]
    simp [DataPhase.arriving, filenameRequest, Site.setup]

/-- **The `rcopy` goes on**: it asks, or enters its receive loop. -/
theorem Stage.run (hc : Completes site i) (hw : w.Wired) (h : Stage site i w n) (hb : w.Fresh b)
    (hs : w.rcopyStep i (.run b) = some (w', sends)) : ∃ m < n, Stage site i w' m := by
  cases h with
  | asking m hsockets hpc =>
    rcases hpc with ⟨hpc, rfl⟩ | ⟨hpc, rfl⟩
    · obtain ⟨q, hstep, rfl⟩ := rcopyStep_eq_some hs
      rw [RcopyProcess.step_start (site.setup i) hpc] at hstep
      obtain ⟨rfl, rfl⟩ := Prod.mk.inj (Option.some_inj.mp hstep)
      refine ⟨_, by omega, .asking 0 ?_ (.inr ⟨?_, rfl⟩)⟩
      · rw [rcopy_setRcopy_self]
        exact hsockets
      · rw [rcopy_setRcopy_self]
        rfl
    · exact ⟨_, by omega, .ask hw hb hsockets hpc hs⟩
  | requested p hpc | forked p r hpc | started p a r hpc | replied p a hpc =>
    obtain ⟨q, hstep, -⟩ := rcopyStep_eq_some hs
    simp [RcopyProcess.step, Rcopy.step, hpc, exchangeStep] at hstep
  | acked p a m hr h =>
    obtain ⟨rfl, hr', hserving⟩ := hr.run hc hs
    exact ⟨_, by omega, .acked p a 0 hr' (hserving hw h)⟩
  | ready p a m hr h =>
    obtain ⟨rfl, hr', hserving⟩ := hr.run hc hs
    exact ⟨_, by omega, .ready p a 0 hr' (hserving hw h)⟩
  | transfer p a s m hp hr h =>
    obtain ⟨rfl, hr', hserving⟩ := hr.run hc hs
    exact ⟨_, by omega, .transfer p a s 0 hp hr' (hserving hw h)⟩

variable {d : Datagram} {stale : Bytes}

/-- **It accepts its child**, and the ack is on its way. -/
theorem Stage.accepted (hc : Completes site i) (hw : w.Wired)
    (hpc : (w.rcopy i).pc = .polling 0) (h : w.Serving i p a (waiting site i p) [] [])
    (hsrc : d.srcAddr = a) (hflag : (safeRecvfrom stale (MAXBUF + 7) d).flag = 9)
    (hs : w.rcopyStep i (.receive stale d) = some (w', sends)) :
    Stage site i w' (load site i + 2 + 1) := by
  obtain ⟨q, hstep, rfl⟩ := rcopyStep_eq_some hs
  rw [RcopyProcess.step_ok (site.setup i) hpc hc.creates hflag, hsrc] at hstep
  obtain ⟨rfl, rfl⟩ := Prod.mk.inj (Option.some_inj.mp hstep)
  have hdata : (w.rcopy i).data = _ := hw.data i (hw.asks i (by rw [hpc]; trivial))
  have h' := h.setRcopy hw (q := (w.rcopy i).setUp ((w.rcopy i).hear a (.next .waitOnData)))
    h.sockets [⟨a, fileOkAckPDU (site.setup i).host⟩] (by simp)
  rw [List.nil_append, DataPhase.arriving_self] at h'
  refine .acked p a 1 ⟨?_, ?_, .inl ⟨?_, rfl⟩⟩ h'
  · rw [rcopy_setRcopy_self]
    rfl
  · rw [rcopy_setRcopy_self, RcopyProcess.setUp, hdata]
    exact Alike.enter _
  · rw [rcopy_setRcopy_self]
    rfl

/-- **It hears its child in its receive loop**, as the client of the data phase does. -/
theorem Stage.received (hc : Completes site i) (hw : w.Wired)
    (hp : Phased (site.config i p a) s) (hr : Receives site i w a s n) {rest : List Bytes}
    (hcons : s.toClient = d.bytes :: rest)
    (h : w.Serving i p a (.transfer s.server) rest s.toServer) (hsrc : d.srcAddr = a)
    (hs : w.rcopyStep i (.receive stale d) = some (w', sends)) :
    ∃ m < pending (site.config i p a) s + n, Stage site i w' m := by
  obtain ⟨q, hstep, rfl⟩ := rcopyStep_eq_some hs
  rcases hr.pc with ⟨hpc, rfl⟩ | ⟨hpc, rfl⟩
  · simp [RcopyProcess.step, Rcopy.step, hpc, exchangeStep] at hstep
  rw [RcopyProcess.step_receiving (site.setup i) hpc] at hstep
  obtain ⟨⟨c', sends'⟩, hclient, heq⟩ := Option.map_eq_some_iff.mp hstep
  obtain ⟨rfl, rfl⟩ := Prod.mk.inj heq
  have hclient' : (w.rcopy i).data.step (site.config i p a).host stale ⟨a, d.bytes⟩
      = some (c', sends') := hsrc ▸ hclient
  obtain ⟨c, hc₁, halike⟩ := hr.alike.step hp hcons hclient'
  have hstep₁ := (DataPhase.step_deliver_client (site.config i p a) hcons stale _).trans
    (DataPhase.clientStep_of_step (site.config i p a) (s := { s with toClient := rest }) hc₁)
  have hfifo : s.Fifo (.deliver .client 0 stale d.bytes) :=
    ⟨rfl, by simp [DataPhase.inFlight, hcons]⟩
  obtain ⟨hp', hlt, -⟩ := hp.step hc.chunks hc.reads hfifo hstep₁
  have h' := h.setRcopy hw (q := { w.rcopy i with data := c' }) h.sockets sends' fun m hm =>
    (Client.step_dest (a := ⟨stale, d⟩) hclient m hm).trans hsrc
  refine ⟨_, hlt, .transfer p a _ 0 hp' ⟨?_, ?_, .inr ⟨?_, rfl⟩⟩ h'⟩
  · rw [rcopy_setRcopy_self]
    exact hr.accepted
  · rw [rcopy_setRcopy_self]
    exact halike
  · rw [rcopy_setRcopy_self]
    exact hpc

/-- **The `rcopy` hears its child.** -/
theorem Stage.hear (hc : Completes site i) (hw : w.Wired) (h : Stage site i w n) {k : ℕ}
    {f : Flight} (hk : w.inFlight[k]? = some f) (hold : w.OldestAt k)
    (hhead : (w.rcopy i).sockets.head? = some f.dest)
    (hs : (w.without k).rcopyStep i (.receive stale f.datagram) = some (w', sends)) :
    ∃ m < n, Stage site i w' m := by
  have hmax : MAXBUF = 1400 := rfl
  have hw₁ : (w.without k).Wired := hw.without k
  obtain ⟨d, hd, haddr, -⟩ := hw.heard_by_rcopy (List.mem_of_getElem? hk) hhead
  have served : ∀ p, (w.rcopy i).sockets = [p] → f.dest = p := fun p hp => by
    simpa [hp, eq_comm] using hhead
  cases h with
  | asking m hsockets hpc => simp [hsockets] at hhead
  | requested p hpc h | forked p r hpc h =>
    exact absurd (haddr.symm.trans (served p h.sockets)) (h.alone _ d hd)
  | started p a r hpc h =>
    obtain ⟨-, rest, hcons, -⟩ := h.heard hw hk hold (served p h.sockets)
    cases hcons
  | acked p a m hr h | ready p a m hr h =>
    obtain ⟨-, rest, hcons, -⟩ := h.heard hw hk hold (served p h.sockets)
    cases hcons
  | replied p a hpc h =>
    obtain ⟨hsrc, rest, hcons, h₁⟩ := h.heard hw hk hold (served p h.sockets)
    obtain ⟨hbytes, rfl⟩ := List.cons.inj hcons
    have hflag : (safeRecvfrom stale (MAXBUF + 7) f.datagram).flag = 9 := by
      have : f.datagram = ⟨a, okPDU site i⟩ := by rw [← hsrc, hbytes]
      rw [this, okPDU, flag_safeRecvfrom _ _ _ _ _ _ (by omega)]
    exact ⟨_, by omega, .accepted hc hw₁ hpc h₁ hsrc hflag hs⟩
  | transfer p a s m hp hr h =>
    obtain ⟨hsrc, rest, hcons, h₁⟩ := h.heard hw hk hold (served p h.sockets)
    exact Stage.received hc hw₁ hp (hr.congr rfl) hcons h₁ hsrc hs

end Rcopy

/-! ## Its child -/

/-- **A child goes on by itself**: it runs, or its poll finds nothing, and there is nothing to find
or it does not wait for anything. -/
def GoesOn (w : World site) (a : SockAddr) (c : ProcessClient) (ev : ServerEvent) : Prop :=
  ev = .run ∨ ev = .quiet
    ∧ (c.draining ∨ ∀ f ∈ w.inFlight, f.datagram.srcAddr ≠ a ∧ f.dest ≠ a)

/-- A child that waits does not go on while something is on its way. -/
theorem Serving.not_goesOn {toClient toServer : List Bytes}
    (h : w.Serving i p a (waiting site i p) toClient toServer)
    (hne : toClient ≠ [] ∨ toServer ≠ []) {ev : ServerEvent}
    (hev : w.GoesOn a (waiting site i p) ev) {r : ProcessClient × List Send}
    (hs : (waiting site i p).step site.host site.fopen ev = some r) : False := by
  rcases hev with rfl | ⟨rfl, hdrain | hsilent⟩
  · simp [ProcessClient.step, waiting] at hs
  · simp [ProcessClient.draining, waiting] at hdrain
  · obtain ⟨rfl, rfl⟩ := h.empty_of_silent hsilent
    simp at hne

variable [NeZero (site.windowSize i).toNat]

/-- **It replies**, and waits for its ack. -/
theorem Stage.reply (hc : Completes site i) (hw : w.Wired) {r : Received}
    (hpc : (w.rcopy i).pc = .polling 0) (h : w.Serving i p a (.start r) [] [])
    {c : ProcessClient}
    (hs : ProcessClient.step site.host site.fopen (.start r) .run = some (c, sends)) :
    Stage site i (w.setChild a c sends) (load site i + 4) := by
  have hp : r.srcAddr = p := h.addr
  obtain ⟨stale, hr⟩ := hw.serves h.child (h.addr ▸ h.mem)
  rw [hp] at hr
  rw [ProcessClient.step, hr, start_admitted hc.toAdmitted] at hs
  obtain ⟨rfl, rfl⟩ := Prod.mk.inj (Option.some_inj.mp hs)
  have h' := h.setChild hw (waiting site i p) [⟨p, okPDU site i⟩] rfl
  rw [List.nil_append, DataPhase.arriving_self] at h'
  exact .replied p a hpc h'

/-- **It has its ack.** -/
theorem Stage.acknowledged (hw : w.Wired)
    (hr : Receives site i w a (.enter _ (site.config i p a)) n)
    (h : w.Serving i p a (waiting site i p) [] []) {f : Flight}
    (hf : f.datagram = ⟨p, fileOkAckPDU site.host⟩) {stale : Bytes} {c : ProcessClient}
    (hs : (waiting site i p).step site.host site.fopen (.receive stale f.datagram)
      = some (c, sends)) : Stage site i (w.setChild a c sends) (load site i + 1 + n) := by
  have hmax : MAXBUF = 1400 := rfl
  have hflag : (safeRecvfrom stale MAXBUF f.datagram).flag = 34 := by
    rw [hf, fileOkAckPDU, flag_safeRecvfrom _ _ _ _ _ _ (by omega)]
  have hsrc : (safeRecvfrom stale MAXBUF f.datagram).srcAddr = p := congrArg Datagram.srcAddr hf
  simp only [ProcessClient.step, waiting, writeFileOkAckState, hflag, if_true, hsrc] at hs
  obtain ⟨rfl, rfl⟩ := Prod.mk.inj (Option.some_inj.mp hs)
  have h' := h.setChild hw (.handshake ⟨.next .sendData, site.opened i p, 0⟩) [] rfl
  rw [DataPhase.arriving_nil, List.append_nil] at h'
  exact .ready p a n (hr.congr rfl) h'

/-- **It starts its transfer.** -/
theorem Stage.begin (hw : w.Wired) (hr : Receives site i w a (.enter _ (site.config i p a)) n)
    (h : w.Serving i p a (.handshake ⟨.next .sendData, site.opened i p, 0⟩) [] []) :
    Stage site i (w.setChild a (.transfer (Server.start (site.opened i p))) [])
      (load site i + n) := by
  have h' := h.setChild hw (.transfer (Server.start (site.opened i p))) [] rfl
  rw [DataPhase.arriving_nil, List.append_nil] at h'
  rw [← pending_enter]
  exact .transfer p a (.enter _ (site.config i p a)) n Phased.enter (hr.congr rfl) h'

/-- **It takes a step of its transfer**, as the child of the data phase does. -/
theorem Stage.served (hc : Completes site i) (hw : w.Wired)
    (hp : Phased (site.config i p a) s) (hr : Receives site i w a s n) {rest : List Bytes}
    (h : w.Serving i p a (.transfer s.server) s.toClient rest) {ev : NetEvent} (hg : s.Fifo ev)
    {σ : Server (site.windowSize i).toNat} (haddr : (ProcessClient.transfer σ).clientAddr = p)
    (hs : s.step (site.config i p a) ev = some ({ s with
      server := σ
      toClient := s.toClient ++ DataPhase.arriving p sends
      toServer := rest }, sends)) :
    ∃ m < pending (site.config i p a) s + n,
      Stage site i (w.setChild a (.transfer σ) sends) m := by
  obtain ⟨hp', hlt, -⟩ := hp.step hc.chunks hc.reads hg hs
  exact ⟨_, Nat.add_lt_add_right hlt n, .transfer p a _ n hp' ⟨hr.accepted, hr.alike, hr.pc⟩
    (h.setChild hw _ _ haddr)⟩

/-- **The child goes on**: it replies, starts its transfer, or takes a step of it. -/
theorem Stage.childStep (hc : Completes site i) (hw : w.Wired) (h : Stage site i w n)
    {c : ProcessClient} (hchild : w.children a = some c)
    (hmem : c.clientAddr ∈ (w.rcopy i).sockets) {ev : ServerEvent} (hev : w.GoesOn a c ev)
    (hs : w.childStep a ev = some (w', sends)) : ∃ m < n, Stage site i w' m := by
  obtain ⟨d, c', hd, hstep, rfl⟩ := childStep_eq_some hs
  obtain rfl := Option.some_inj.mp (hd.symm.trans hchild)
  have hsrc : ∀ stale x, ev = .receive stale x → x.srcAddr = d.clientAddr := by
    rcases hev with rfl | ⟨rfl, -⟩ <;> simp
  obtain ⟨haddr, -⟩ := ProcessClient.step_wired hstep hsrc (hw.serves hchild hmem)
  cases h with
  | asking m hsockets hpc => simp [hsockets] at hmem
  | requested p hpc h | forked p r hpc h =>
    rw [h.sockets, List.mem_singleton] at hmem
    exact absurd hmem (h.alone a d hchild)
  | started p b r hpc h =>
    obtain ⟨rfl, rfl⟩ := h.eq_of_child hchild hmem
    rcases hev with rfl | ⟨rfl, -⟩
    · exact ⟨_, by omega, .reply hc hw hpc h hstep⟩
    · cases hstep
  | replied p b hpc h =>
    obtain ⟨rfl, rfl⟩ := h.eq_of_child hchild hmem
    exact (h.not_goesOn (.inl (List.cons_ne_nil _ _)) hev hstep).elim
  | acked p b m hr h =>
    obtain ⟨rfl, rfl⟩ := h.eq_of_child hchild hmem
    exact (h.not_goesOn (.inr (List.cons_ne_nil _ _)) hev hstep).elim
  | ready p b m hr h =>
    obtain ⟨rfl, rfl⟩ := h.eq_of_child hchild hmem
    rcases hev with rfl | ⟨rfl, -⟩
    · obtain ⟨rfl, rfl⟩ := Prod.mk.inj (Option.some_inj.mp hstep)
      exact ⟨_, by omega, .begin hw hr h⟩
    · cases hstep
  | transfer p b s m hp hr h =>
    obtain ⟨rfl, rfl⟩ := h.eq_of_child hchild hmem
    obtain ⟨⟨σ, sends'⟩, hserver, heq⟩ := Option.map_eq_some_iff.mp hstep
    obtain ⟨rfl, rfl⟩ := Prod.mk.inj heq
    have hs := DataPhase.serverStep_of_step (site.config i p a) (s := s) hserver
    have haddr := haddr.trans h.addr
    rcases hev with rfl | ⟨rfl, hdrain | hsilent⟩
    · have hfifo : s.Fifo .run := trivial
      exact Stage.served hc hw hp hr h hfifo haddr hs
    · have hfifo : s.Fifo .quiet := .inl (of_decide_eq_true hdrain)
      exact Stage.served hc hw hp hr h hfifo haddr hs
    · have hfifo : s.Fifo .quiet := .inr (h.empty_of_silent hsilent)
      exact Stage.served hc hw hp hr h hfifo haddr hs

/-- **The child hears its `rcopy`.** -/
theorem Stage.childHear (hc : Completes site i) (hw : w.Wired) (h : Stage site i w n) {k : ℕ}
    {f : Flight} (hk : w.inFlight[k]? = some f) (hold : w.OldestAt k) {c : ProcessClient}
    (hchild : w.children f.dest = some c) (hmem : c.clientAddr ∈ (w.rcopy i).sockets)
    {stale : Bytes}
    (hs : (w.without k).childStep f.dest (.receive stale f.datagram) = some (w', sends)) :
    ∃ m < n, Stage site i w' m := by
  obtain ⟨d, c', hd, hstep, rfl⟩ := childStep_eq_some hs
  obtain rfl := Option.some_inj.mp (hd.symm.trans hchild)
  have hw₁ : (w.without k).Wired := hw.without k
  have hheard := (hw.heard_by_child (List.mem_of_getElem? hk) hchild).1
  obtain ⟨haddr, -⟩ := ProcessClient.step_wired hstep
    (fun _ _ hx => by cases hx; exact hheard) (hw.serves hchild hmem)
  cases h with
  | asking m hsockets hpc => simp [hsockets] at hmem
  | requested p hpc h | forked p r hpc h =>
    rw [h.sockets, List.mem_singleton] at hmem
    exact absurd hmem (h.alone _ d hchild)
  | started p b r hpc h | replied p b hpc h =>
    obtain ⟨hdest, rfl⟩ := h.eq_of_child hchild hmem
    obtain ⟨-, rest, hcons, -⟩ := h.childHeard hw hk hold hdest
    cases hcons
  | ready p b m hr h =>
    obtain ⟨hdest, rfl⟩ := h.eq_of_child hchild hmem
    obtain ⟨-, rest, hcons, -⟩ := h.childHeard hw hk hold hdest
    cases hcons
  | acked p b m hr h =>
    obtain ⟨hdest, rfl⟩ := h.eq_of_child hchild hmem
    obtain ⟨hsrc, rest, hcons, h₁⟩ := h.childHeard hw hk hold hdest
    obtain ⟨hbytes, rfl⟩ := List.cons.inj hcons
    have hf : f.datagram = ⟨p, fileOkAckPDU site.host⟩ := by rw [← hsrc, hbytes]
    rw [hdest]
    exact ⟨_, by omega, .acknowledged hw₁ (hr.congr rfl) h₁ hf hstep⟩
  | transfer p b s m hp hr h =>
    obtain ⟨hdest, rfl⟩ := h.eq_of_child hchild hmem
    obtain ⟨hsrc, rest, hcons, h₁⟩ := h.childHeard hw hk hold hdest
    obtain ⟨⟨σ, sends'⟩, hserver, heq⟩ := Option.map_eq_some_iff.mp hstep
    obtain ⟨rfl, rfl⟩ := Prod.mk.inj heq
    have hserver' : s.server.step (site.config i p b).host
        (.receive stale ⟨p, f.datagram.bytes⟩) = some (σ, sends') := by
      rw [← hsrc]
      exact hserver
    have hs₁ := (DataPhase.step_deliver_server (site.config i p b) hcons stale _).trans
      (DataPhase.serverStep_of_step (site.config i p b) (s := { s with toServer := rest }) hserver')
    have hfifo : s.Fifo (.deliver .server 0 stale f.datagram.bytes) :=
      ⟨rfl, by simp [DataPhase.inFlight, hcons]⟩
    rw [hdest]
    exact Stage.served hc hw₁ hp (hr.congr rfl) h₁ hfifo (haddr.trans h.addr) hs₁

/-! ## The accept loop -/

/-- **The request is heard.** -/
theorem Stage.accept (h : Stage site i w n) {k : ℕ} {f : Flight} (hk : w.inFlight[k]? = some f)
    (hold : w.OldestAt k) (hdest : f.dest = site.serverAddr)
    (hmem : f.datagram.srcAddr ∈ (w.rcopy i).sockets) (stale : Bytes) :
    ∃ m < n, Stage site i ((w.without k).accept (safeRecvfrom stale MAXBUF f.datagram)) m := by
  have hmax : MAXBUF = 1400 := rfl
  have served : ∀ p, (w.rcopy i).sockets = [p] → f.datagram.srcAddr = p := fun p hp => by
    simpa [hp] using hmem
  have serving : ∀ p a c toClient toServer, ¬ w.Serving i p a c toClient toServer :=
    fun p a c _ _ h => h.no_request hk (served p h.sockets) hdest
  cases h with
  | asking m hsockets hpc => simp [hsockets] at hmem
  | started p a r hpc h | replied p a hpc h => exact (serving _ _ _ _ _ h).elim
  | acked p a m hr h | ready p a m hr h => exact (serving _ _ _ _ _ h).elim
  | transfer p a s m hp hr h => exact (serving _ _ _ _ _ h).elim
  | forked p r hpc h =>
    have hchannel := channel_without hold hk
    rw [served p h.sockets, hdest, h.requests] at hchannel
    cases hchannel
  | requested p hpc h =>
    have hsrc := served p h.sockets
    have hchannel := channel_without hold hk
    rw [hsrc, hdest, h.requests] at hchannel
    obtain ⟨hbytes, hrest⟩ := List.cons.inj hchannel
    set r := safeRecvfrom stale MAXBUF f.datagram with hr
    have hflag : r.flag = 8 := by
      have : f.datagram = ⟨p, filenamePDU site.host (site.rcopy i).argv⟩ := by rw [← hsrc, hbytes]
      rw [hr, this, filenamePDU, flag_safeRecvfrom _ _ _ _ _ _ (by omega)]
    have hr : r.srcAddr = p := hsrc
    rw [World.accept, if_pos hflag]
    refine ⟨_, by omega, .forked p r hpc ⟨h.sockets, h.alone, ?_, hrest.symm⟩⟩
    change List.filter _ (w.forked ++ [r]) = [r]
    rw [List.filter_append, h.forked]
    simp [hr]

/-- **Its child opens a socket.** -/
theorem Stage.fork (hw : w.Wired) (h : Stage site i w n) {j : ℕ} {r : Received}
    (hj : w.forked[j]? = some r) (ha : w.Fresh a) (hmem : r.srcAddr ∈ (w.rcopy i).sockets) :
    ∃ m < n, Stage site i { w with
      forked := w.forked.eraseIdx j
      children := Function.update w.children a (some (.start r)) } m := by
  have served : ∀ p, (w.rcopy i).sockets = [p] → r.srcAddr = p := fun p hp => by
    simpa [hp] using hmem
  have none_forked : ∀ p, (w.rcopy i).sockets = [p] →
      w.forked.filter (fun r => r.srcAddr = p) ≠ [] := by
    intro p hp hnil
    rw [List.filter_eq_nil_iff] at hnil
    exact hnil r (List.mem_of_getElem? hj) (decide_eq_true (served p hp))
  cases h with
  | asking m hsockets hpc => simp [hsockets] at hmem
  | requested p hpc h => exact (none_forked p h.sockets h.forked).elim
  | started p b r' hpc h | replied p b hpc h => exact (none_forked p h.sockets h.forked).elim
  | acked p b m hr h | ready p b m hr h => exact (none_forked p h.sockets h.forked).elim
  | transfer p b s m hp hr h => exact (none_forked p h.sockets h.forked).elim
  | forked p r' hpc h =>
    have hr := served p h.sockets
    obtain ⟨-, -, hflight⟩ := hw.untouched ha
    refine ⟨_, by omega, .started p a r hpc ⟨h.sockets, Function.update_self _ _ _, hr,
      fun b d hd hdp => ?_, ?_, h.requests, ?_, ?_⟩⟩
    · by_contra hne
      exact h.alone b d ((Function.update_of_ne hne _ _).symm.trans hd) hdp
    · exact (Channel.filter_eraseIdx_of_singleton h.forked hj hr).2
    · exact channel_eq_nil fun f hf hon => (hflight f hf).1 hon.1
    · exact channel_eq_nil fun f hf hon => (hflight f hf).2 hon.2

/-! ## What is dropped -/

/-- **An `rcopy` that has ended drops what comes.** -/
theorem Stage.lose (hw : w.Wired) (h : Stage site i w n) {k : ℕ}
    {f : Flight} (hk : w.inFlight[k]? = some f) (hold : w.OldestAt k)
    (hhead : (w.rcopy i).sockets.head? = some f.dest) (hend : (w.rcopy i).Ended) :
    ∃ m < n, Stage site i (w.without k) m := by
  have asks : (w.rcopy i).pc ≠ .polling 0 := by
    intro hpc
    have hdata := hw.data i (hw.asks i (by rw [hpc]; trivial))
    rcases hend with hend | hend
    · simp [hpc] at hend
    · simp [hdata, Client.enter] at hend
  have ended : ∀ a s m, Receives site i w a s m → s.client.pc = .done := by
    intro a s m hr
    rcases hend with hend | hend
    · rcases hr.pc with ⟨hpc, -⟩ | ⟨hpc, -⟩ <;> simp [hpc] at hend
    · exact hr.alike.pc.symm.trans hend
  cases h with
  | asking m hsockets hpc => simp [hsockets] at hhead
  | requested p hpc | forked p r hpc | started p a r hpc | replied p a hpc => exact (asks hpc).elim
  | acked p a m hr | ready p a m hr =>
    exact absurd (ended _ _ _ hr) (by simp [DataPhase.enter, Client.enter])
  | transfer p a s m hp hr h =>
    have hdest : f.dest = p := by simpa [h.sockets, eq_comm] using hhead
    obtain ⟨-, rest, hcons, h₁⟩ := h.heard hw hk hold hdest
    have hdone : ¬ s.Receiving := by simp [DataPhase.Receiving, ended _ _ _ hr]
    obtain ⟨hp', hlt⟩ := hp.lose hcons hdone
    exact ⟨_, Nat.add_lt_add_right hlt m, .transfer p a _ m hp' ⟨hr.accepted, hr.alike, hr.pc⟩ h₁⟩

end World

end RemoteFileCopy
