import RemoteFileCopy.System.Links

/-!
# System/Schedules — runs one can choose

What the whole can be brought to: one `rcopy` and its child take steps, and the others wait.
`Reached` keeps track of the parts that matter, and every step that is enabled in them extends it.
The first use is the set-up: where every call succeeds, an `rcopy` gets its child and both come to
the data phase (`World.reached_transfer`).
-/

namespace RemoteFileCopy

open Transition

namespace World

variable {ι : Type} {site : Site ι} {i : ι}

/-- An address that neither the server nor anyone so far has. -/
def Unused (site : Site ι) (rc : RcopyProcess (site.rcopy i).slots)
    (children : SockAddr → Option ProcessClient) (a : SockAddr) : Prop :=
  a ≠ site.serverAddr ∧ a ∉ rc.sockets ∧ children a = none

theorem Unused.fresh {w : World site} {a : SockAddr} (ha : Unused site (w.rcopy i) w.children a)
    (hj : ∀ j ≠ i, (w.rcopy j).sockets = []) : w.Fresh a := by
  refine ⟨ha.1, fun j => ?_, ha.2.2⟩
  rcases eq_or_ne j i with rfl | hne
  · exact ha.2.1
  · rw [hj j hne]
    exact List.not_mem_nil

/-- **Where nothing fails on its way to the data phase**: the name fits the child's array, the file
is there to read and to write, and the receive buffer can be allocated. -/
structure Admitted (site : Site ι) (i : ι) : Prop where
  name : (arg (site.rcopy i).argv 1).strlen ≤ 99
  opens : (site.fopen (arg (site.rcopy i).argv 1)).isSome
  creates : (site.rcopy i).creates (arg (site.rcopy i).argv 2) = true
  calloc : (site.rcopy i).calloc (receiveWindowSize (site.rcopy i).argv) = true

/-- The child on the request of process `i`, its file open. -/
theorem start_admitted (h : Admitted site i) (stale : Bytes) (p : SockAddr) :
    Child.start site.host site.fopen (receivedRequest site.host (site.rcopy i).argv stale p)
      = (⟨.next .writeFileOkAck, site.opened i p, 0⟩,
        [⟨p, createPDU site.host 0 9 (arg (site.rcopy i).argv 1).bytes⟩]) := by
  obtain ⟨file, hopen⟩ := Option.isSome_iff_exists.mp h.opens
  have hsource : site.source i = file := by rw [Site.source, hopen, Option.getD_some]
  simp only [Child.start, filenameState_receivedRequest _ _ _ _ h.name, hopen, Site.opened, hsource]
  rfl

variable [DecidableEq ι]

/-- **A run brings the whole here**: process `i` and the children have come this far, and the
others have opened no socket. -/
def Reached (site : Site ι) (i : ι) (rc : RcopyProcess (site.rcopy i).slots)
    (forked : List Received) (children : SockAddr → Option ProcessClient) (fs : List Flight) :
    Prop :=
  ∃ es w, Run (machine site) Opens (enter site) es w ∧ w.rcopy i = rc
    ∧ (∀ j ≠ i, (w.rcopy j).sockets = []) ∧ w.forked = forked ∧ w.children = children
    ∧ w.inFlight = fs

variable {rc rc' : RcopyProcess (site.rcopy i).slots} {forked : List Received}
  {children : SockAddr → Option ProcessClient} {fs : List Flight} {sends : List Send} {a : SockAddr}

theorem reached_enter (site : Site ι) (i : ι) :
    Reached site i (.enter (site.rcopy i)) [] (fun _ => none) [] :=
  ⟨[], _, .nil, rfl, fun _ _ => rfl, rfl, rfl, rfl⟩

namespace Reached

/-- Process `i` has moved, and nobody else. -/
theorem rcopy_setRcopy {w : World site} (hj : ∀ j ≠ i, (w.rcopy j).sockets = [])
    (rc' : RcopyProcess (site.rcopy i).slots) (sends : List Send) :
    (w.setRcopy i rc' sends).rcopy i = rc'
      ∧ ∀ j ≠ i, ((w.setRcopy i rc' sends).rcopy j).sockets = [] := by
  refine ⟨rcopy_setRcopy_self, fun j hne => ?_⟩
  rw [rcopy_setRcopy_of_ne hne]
  exact hj j hne

theorem run (h : Reached site i rc forked children fs) (ha : Unused site rc children a)
    (hs : rc.step (site.setup i) (.run a) = some (rc', sends)) :
    Reached site i rc' forked children
      (fs ++ rc'.sockets.head?.elim [] fun a => sendFrom a sends) := by
  obtain ⟨es, w, hrun, rfl, hj, rfl, rfl, rfl⟩ := h
  have hstep : (machine site).step w (.run i a) = some (w.setRcopy i rc' sends, sends) := by
    simp only [machine, World.step, World.rcopyStep, hs, Option.map_some]
  have hopens : w.Opens (.run i a) := ha.fresh hj
  obtain ⟨hi', hj'⟩ := rcopy_setRcopy hj rc' sends
  exact ⟨_, _, hrun.cons hopens hstep, hi', hj', rfl, rfl, rfl⟩

theorem hear (h : Reached site i rc forked children fs) {k : ℕ} {f : Flight} (hk : fs[k]? = some f)
    (hhead : rc.sockets.head? = some f.dest) (stale : Bytes)
    (hs : rc.step (site.setup i) (.receive stale f.datagram) = some (rc', sends)) :
    Reached site i rc' forked children
      (fs.eraseIdx k ++ rc'.sockets.head?.elim [] fun a => sendFrom a sends) := by
  obtain ⟨es, w, hrun, rfl, hj, rfl, rfl, rfl⟩ := h
  have hstep : (machine site).step w (.deliver (.rcopy i) k stale)
      = some ((w.without k).setRcopy i rc' sends, sends) := by
    simp only [machine, World.step, hk, Option.bind_some, World.deliver, World.without, hhead,
      if_true, World.rcopyStep, hs, Option.map_some]
  have hopens : w.Opens (.deliver (.rcopy i) k stale) := trivial
  obtain ⟨hi', hj'⟩ := rcopy_setRcopy (w := w.without k) hj rc' sends
  exact ⟨_, _, hrun.cons hopens hstep, hi', hj', rfl, rfl, rfl⟩

theorem accept (h : Reached site i rc forked children fs) {k : ℕ} {f : Flight}
    (hk : fs[k]? = some f) (hdest : f.dest = site.serverAddr) (stale : Bytes)
    (hflag : (safeRecvfrom stale MAXBUF f.datagram).flag = 8) :
    Reached site i rc (forked ++ [safeRecvfrom stale MAXBUF f.datagram]) children
      (fs.eraseIdx k) := by
  obtain ⟨es, w, hrun, hi, hj, rfl, rfl, rfl⟩ := h
  have hstep : (machine site).step w (.deliver .acceptLoop k stale)
      = some ((w.without k).accept (safeRecvfrom stale MAXBUF f.datagram), []) := by
    simp only [machine, World.step, hk, Option.bind_some, World.deliver, if_pos hdest]
  have hopens : w.Opens (.deliver .acceptLoop k stale) := trivial
  refine ⟨_, _, hrun.cons hopens hstep, ?_⟩
  rw [World.accept, if_pos hflag]
  exact ⟨hi, hj, rfl, rfl, rfl⟩

theorem fork {r : Received} (h : Reached site i rc (r :: forked) children fs)
    (ha : Unused site rc children a) :
    Reached site i rc forked (Function.update children a (some (.start r))) fs := by
  obtain ⟨es, w, hrun, rfl, hj, hr, rfl, rfl⟩ := h
  have hstep : (machine site).step w (.fork 0 a) = some ({ w with
      forked := forked
      children := Function.update w.children a (some (.start r)) }, []) := by
    simp only [machine, World.step, hr, List.getElem?_cons_zero, Option.map_some,
      List.eraseIdx_cons_zero]
  have hopens : w.Opens (.fork 0 a) := ha.fresh hj
  exact ⟨_, _, hrun.cons hopens hstep, rfl, hj, rfl, rfl, rfl⟩

theorem childStep (h : Reached site i rc forked children fs) {c c' : ProcessClient}
    {ev : ServerEvent} (hev : ev = .run ∨ ev = .quiet) (hc : children a = some c)
    (hs : c.step site.host site.fopen ev = some (c', sends)) :
    Reached site i rc forked (Function.update children a (some c')) (fs ++ sendFrom a sends) := by
  obtain ⟨es, w, hrun, hi, hj, rfl, rfl, rfl⟩ := h
  have hstep : w.childStep a ev = some (w.setChild a c' sends, sends) := by
    simp only [World.childStep, hc, Option.bind_some, hs, Option.map_some]
  rcases hev with rfl | rfl
  · have hopens : w.Opens (.childRun a) := trivial
    exact ⟨_, _, hrun.cons hopens hstep, hi, hj, rfl, rfl, rfl⟩
  · have hopens : w.Opens (.childQuiet a) := trivial
    exact ⟨_, _, hrun.cons hopens hstep, hi, hj, rfl, rfl, rfl⟩

theorem childHear (h : Reached site i rc forked children fs) {k : ℕ} {f : Flight}
    (hk : fs[k]? = some f) {c c' : ProcessClient} (hc : children f.dest = some c) (stale : Bytes)
    (hs : c.step site.host site.fopen (.receive stale f.datagram) = some (c', sends)) :
    Reached site i rc forked (Function.update children f.dest (some c'))
      (fs.eraseIdx k ++ sendFrom f.dest sends) := by
  obtain ⟨es, w, hrun, hi, hj, rfl, rfl, rfl⟩ := h
  have hstep : (machine site).step w (.deliver .child k stale)
      = some ((w.without k).setChild f.dest c' sends, sends) := by
    simp only [machine, World.step, hk, Option.bind_some, World.deliver, World.without,
      World.childStep, hc, hs, Option.map_some]
  have hopens : w.Opens (.deliver .child k stale) := trivial
  exact ⟨_, _, hrun.cons hopens hstep, hi, hj, rfl, rfl, rfl⟩

end Reached

/-! ## The set-up -/

section

variable (h : Admitted site i) {p a b : SockAddr} (hp : p ≠ site.serverAddr)
  (ha : a ≠ site.serverAddr) (hpa : a ≠ p)
include h hp ha hpa

/-- Socket `p` asks, and the child at `a` opens the file and replies. -/
theorem reached_replied :
    Reached site i ⟨⟨.polling 0, [p], none⟩, .enter _ (site.rcopy i).recvAddr⟩ []
      (Function.update (fun _ => none) a
        (some (.handshake ⟨.next .writeFileOkAck, site.opened i p, 0⟩)))
      [⟨p, a, createPDU site.host 0 9 (arg (site.rcopy i).argv 1).bytes⟩] := by
  have hmax : MAXBUF = 1400 := rfl
  -- it asks, and the accept loop forks
  have h₁ : Reached site i ⟨⟨.next .waitOnFileOk, [], none⟩, .enter _ (site.rcopy i).recvAddr⟩ []
      (fun _ => none) [] := (reached_enter site i).run (a := p) ⟨hp, List.not_mem_nil, rfl⟩ rfl
  have h₂ : Reached site i ⟨⟨.polling 0, [p], none⟩, .enter _ (site.rcopy i).recvAddr⟩ []
      (fun _ => none) [⟨site.serverAddr, p, filenamePDU site.host (site.rcopy i).argv⟩] :=
    h₁.run (a := p) ⟨hp, List.not_mem_nil, rfl⟩ rfl
  have hflag : (safeRecvfrom [] MAXBUF
      ⟨p, filenamePDU site.host (site.rcopy i).argv⟩).flag = 8 := by
    rw [filenamePDU, flag_safeRecvfrom _ _ _ _ _ _ (by omega)]
  have h₃ : Reached site i ⟨⟨.polling 0, [p], none⟩, .enter _ (site.rcopy i).recvAddr⟩
      [receivedRequest site.host (site.rcopy i).argv [] p] (fun _ => none) [] :=
    h₂.accept (k := 0) rfl rfl [] hflag
  have h₄ := h₃.fork (a := a) ⟨ha, by simpa using hpa, rfl⟩
  -- the child opens the file and replies
  have hstart : ProcessClient.step site.host site.fopen
      (.start (receivedRequest site.host (site.rcopy i).argv [] p)) .run
      = some (.handshake ⟨.next .writeFileOkAck, site.opened i p, 0⟩,
        [⟨p, createPDU site.host 0 9 (arg (site.rcopy i).argv 1).bytes⟩]) := by
    rw [ProcessClient.step, start_admitted h]
  have h₅ := h₄.childStep (.inl rfl) (Function.update_self _ _ _) hstart
  rwa [Function.update_idem] at h₅

/-- **The set-up of an `rcopy`**, with nothing lost and nobody waiting: socket `p` gets the child at
`a`, and a third address is free for the asking. -/
theorem reached_transfer (hb : b ≠ site.serverAddr) (hpb : b ≠ p) (hab : b ≠ a) :
    ∃ children : SockAddr → Option ProcessClient,
      children a = some (.transfer (Server.enter (site.windowSize i).toNat p (site.source i)
        (site.windowSize i) (site.bufferSize i)))
      ∧ Reached site i ⟨⟨.receiving, [p], some a⟩, .enter _ (site.rcopy i).recvAddr⟩ [] children
        [] := by
  have hmax : MAXBUF = 1400 := rfl
  have h₁ := reached_replied h hp ha hpa
  -- `rcopy` accepts it, and the child hears the ack
  have hok : RcopyProcess.step (W := (site.rcopy i).slots) (site.setup i)
      ⟨⟨.polling 0, [p], none⟩, .enter _ (site.rcopy i).recvAddr⟩
      (.receive [] ⟨a, createPDU site.host 0 9 (arg (site.rcopy i).argv 1).bytes⟩)
      = some (⟨⟨.next .waitOnData, [p], some a⟩, .enter _ (site.rcopy i).recvAddr⟩,
        [⟨a, fileOkAckPDU site.host⟩]) := by
    have hflag : (safeRecvfrom [] (MAXBUF + 7)
        ⟨a, createPDU site.host 0 9 (arg (site.rcopy i).argv 1).bytes⟩).flag = 9 :=
      flag_safeRecvfrom _ _ _ _ _ _ (by omega)
    exact RcopyProcess.step_ok (site.setup i) rfl h.creates hflag
  have h₂ := h₁.hear (k := 0) rfl rfl [] hok
  have hack : ProcessClient.step site.host site.fopen
      (.handshake ⟨.next .writeFileOkAck, site.opened i p, 0⟩)
      (.receive [] ⟨p, fileOkAckPDU site.host⟩)
      = some (.handshake ⟨.next .sendData, site.opened i p, 0⟩, []) := by
    have hflag : (safeRecvfrom [] MAXBUF ⟨p, fileOkAckPDU site.host⟩).flag = 34 :=
      flag_safeRecvfrom _ _ _ _ _ _ (by omega)
    simp only [ProcessClient.step, writeFileOkAckState, hflag, if_true]
    rfl
  have h₃ := h₂.childHear (k := 0) rfl (Function.update_self _ _ _) [] hack
  -- both go on to the data phase
  have hsend : ProcessClient.step site.host site.fopen
      (.handshake ⟨.next .sendData, site.opened i p, 0⟩) .run
      = some (.transfer (Server.start (site.opened i p)), []) := rfl
  have h₄ := h₃.childStep (.inl rfl) (Function.update_self _ _ _) hsend
  have hready : RcopyProcess.step (W := (site.rcopy i).slots) (site.setup i)
      ⟨⟨.next .waitOnData, [p], some a⟩, .enter _ (site.rcopy i).recvAddr⟩ (.run b)
      = some (⟨⟨.receiving, [p], some a⟩, .enter _ (site.rcopy i).recvAddr⟩, []) :=
    RcopyProcess.step_waitOnData (site.setup i) rfl h.calloc h.creates
  have h₅ := h₄.run ⟨hb, by simpa using hpb, by simp [Function.update_of_ne hab]⟩ hready
  exact ⟨_, Function.update_self _ _ _, h₅⟩

end

end World

end RemoteFileCopy
