import RemoteFileCopy.System.Processes

/-!
# System/Wiring — who talks to whom

    request    from a socket of an rcopy to the accept loop
    reply      from a child to the socket it was asked from
    answer     from that socket to the child, if it is the one the rcopy accepted

Nothing else is ever in flight (`Wired`), however many `rcopy`s there are and whatever the network
does: every child answers one socket of one `rcopy`, and an `rcopy` one child.  A child sends data
only after its ack, so every packet and every RR of a transfer is between the two that accepted each
other.
-/

namespace RemoteFileCopy

open Transition

namespace World

variable {ι : Type} {site : Site ι} {w : World site} {i : ι} {a : SockAddr}
  {sends : List Send}

/-- **What may be in flight.** -/
inductive Travels (w : World site) (f : Flight) : Prop
  | request (i : ι) (hsrc : f.datagram.srcAddr ∈ (w.rcopy i).sockets)
      (hdest : f.dest = site.serverAddr)
      (hpdu : f.datagram.bytes = filenamePDU site.host (site.rcopy i).argv)
  | reply (c : ProcessClient) (hchild : w.children f.datagram.srcAddr = some c)
      (hdest : f.dest = c.clientAddr)
      (hpdu : HandshakePDU f.datagram.bytes
        ∨ ∃ i, (w.rcopy i).accepted = some f.datagram.srcAddr)
  | answer (i : ι) (c : ProcessClient) (haccepted : (w.rcopy i).accepted = some f.dest)
      (hchild : w.children f.dest = some c) (hsrc : f.datagram.srcAddr = c.clientAddr)

/-- The network and the accept loop play no part. -/
theorem Travels.of_eq {v : World site} {f : Flight} (h : w.Travels f) (hr : v.rcopy = w.rcopy)
    (hc : v.children = w.children) : v.Travels f := by
  cases h with
  | request i hsrc hdest hpdu => exact .request i (hr ▸ hsrc) hdest hpdu
  | reply c hchild hdest hpdu => exact .reply c (hc ▸ hchild) hdest (hr ▸ hpdu)
  | answer i c haccepted hchild hsrc => exact .answer i c (hr ▸ haccepted) (hc ▸ hchild) hsrc

/-- **The wiring of the whole**: sockets have owners; a child is one of the `rcopy` whose socket it
answers, and past its handshake it is the one that `rcopy` accepted. -/
structure Wired (w : World site) : Prop where
  socket : ∀ i, ∀ p ∈ (w.rcopy i).sockets, p ≠ site.serverAddr ∧ w.children p = none
    ∧ ∀ j, p ∈ (w.rcopy j).sockets → j = i
  forked : ∀ r ∈ w.forked, ∃ i, r.srcAddr ∈ (w.rcopy i).sockets ∧ site.Serves i (.start r)
  child : ∀ a c, w.children a = some c → a ≠ site.serverAddr
    ∧ ∃ i, c.clientAddr ∈ (w.rcopy i).sockets ∧ site.Serves i c
      ∧ (c.Past → (w.rcopy i).accepted = some a)
  asks : ∀ i, (w.rcopy i).pc.Asks → (w.rcopy i).accepted = none
  waits : ∀ i, (w.rcopy i).pc = .next .waitOnData ∨ (w.rcopy i).pc = .receiving →
    (w.rcopy i).accepted ≠ none
  data : ∀ i, (w.rcopy i).accepted = none →
    (w.rcopy i).data = Client.enter _ (site.rcopy i).recvAddr
  accepted : ∀ i a, (w.rcopy i).accepted = some a →
    ∃ c, w.children a = some c ∧ (w.rcopy i).sockets.head? = some c.clientAddr
  flight : ∀ f ∈ w.inFlight, w.Travels f

theorem wired_enter : (enter site).Wired where
  socket i p hp := by cases hp
  forked r hr := by cases hr
  child a c hc := by cases hc
  asks i _ := rfl
  waits i hi := by simp [enter, RcopyProcess.enter] at hi
  data i _ := rfl
  accepted i a ha := by cases ha
  flight f hf := by cases hf

/-! ### What an `rcopy` may do -/

section Moves

variable [DecidableEq ι] {p : RcopyProcess (site.rcopy i).slots}

/-- **An `rcopy` that moves on** keeps its sockets or opens a fresh one, accepts a child at most
once, and sends requests to the accept loop and everything else to the child it accepted. -/
structure Moves (w : World site) (i : ι) (p : RcopyProcess (site.rcopy i).slots)
    (sends : List Send) : Prop where
  sockets : p.sockets = (w.rcopy i).sockets
    ∨ ∃ a, w.Fresh a ∧ p.sockets = a :: (w.rcopy i).sockets
  accepted : p.accepted = (w.rcopy i).accepted ∨ (w.rcopy i).accepted = none
  asks : p.pc.Asks → p.accepted = none
  waits : p.pc = .next .waitOnData ∨ p.pc = .receiving → p.accepted ≠ none
  data : p.accepted = none → p.data = Client.enter _ (site.rcopy i).recvAddr
  head : ∀ a, p.accepted = some a →
    ∃ c, w.children a = some c ∧ p.sockets.head? = some c.clientAddr
  sends : ∀ m ∈ sends, m.dest = site.serverAddr
      ∧ m.pdu = filenamePDU site.host (site.rcopy i).argv
    ∨ p.accepted = some m.dest

@[simp] theorem rcopy_setRcopy_self : (w.setRcopy i p sends).rcopy i = p :=
  Function.update_self _ _ _

theorem rcopy_setRcopy_of_ne {j : ι} (hj : j ≠ i) : (w.setRcopy i p sends).rcopy j = w.rcopy j :=
  Function.update_of_ne hj _ _

/-- What holds of the `rcopy` that moves, and of all of them before, holds of all of them. -/
theorem forall_setRcopy {P : ∀ j, RcopyProcess (site.rcopy j).slots → Prop} (hp : P i p)
    (hw : ∀ j, P j (w.rcopy j)) (j : ι) : P j ((w.setRcopy i p sends).rcopy j) := by
  rcases eq_or_ne j i with rfl | hj
  · rwa [rcopy_setRcopy_self]
  · rw [rcopy_setRcopy_of_ne hj]
    exact hw j

/-- What an `rcopy` sends leaves from its open socket. -/
theorem mem_setRcopy {f : Flight} (hf : f ∈ (w.setRcopy i p sends).inFlight) :
    f ∈ w.inFlight ∨ ∃ q, p.sockets.head? = some q ∧ ∃ m ∈ sends, f = ⟨m.dest, q, m.pdu⟩ := by
  refine (List.mem_append.mp hf).imp_right fun hf => ?_
  cases hq : p.sockets.head? with
  | none => simp [hq] at hf
  | some q =>
    rw [hq] at hf
    exact ⟨q, rfl, mem_sendFrom.mp hf⟩

namespace Moves

variable (h : w.Moves i p sends)
include h

/-- No socket is forgotten. -/
theorem mem_sockets (j : ι) : ∀ q ∈ (w.rcopy j).sockets,
    q ∈ ((w.setRcopy i p sends).rcopy j).sockets := by
  refine forall_setRcopy (P := fun j q' => ∀ q ∈ (w.rcopy j).sockets, q ∈ q'.sockets) ?_
    (fun _ _ hq => hq) j
  rcases h.sockets with hs | ⟨a, -, hs⟩
  · exact hs ▸ fun _ hq => hq
  · exact hs ▸ fun _ hq => List.mem_cons_of_mem _ hq

/-- A socket is an old one, or the fresh one that was opened. -/
theorem socket_cases (j : ι) : ∀ q ∈ ((w.setRcopy i p sends).rcopy j).sockets,
    q ∈ (w.rcopy j).sockets ∨ j = i ∧ w.Fresh q := by
  refine forall_setRcopy
    (P := fun j q' => ∀ q ∈ q'.sockets, q ∈ (w.rcopy j).sockets ∨ j = i ∧ w.Fresh q) ?_
    (fun _ _ hq => .inl hq) j
  rcases h.sockets with hs | ⟨a, hfresh, hs⟩
  · exact hs ▸ fun _ hq => .inl hq
  · rw [hs]
    rintro q (_ | ⟨_, hq⟩)
    · exact .inr ⟨rfl, hfresh⟩
    · exact .inl hq

/-- No child is given up. -/
theorem accepted_eq (j : ι) : ∀ a, (w.rcopy j).accepted = some a →
    ((w.setRcopy i p sends).rcopy j).accepted = some a := by
  refine forall_setRcopy
    (P := fun j q => ∀ a, (w.rcopy j).accepted = some a → q.accepted = some a) ?_
    (fun _ _ ha => ha) j
  intro a ha
  rcases h.accepted with hp | hp
  · exact hp.trans ha
  · rw [hp] at ha
    cases ha

/-- Whatever travelled still does. -/
theorem travels {f : Flight} (hf : w.Travels f) : (w.setRcopy i p sends).Travels f := by
  cases hf with
  | request j hsrc hdest hpdu => exact .request j (h.mem_sockets j _ hsrc) hdest hpdu
  | reply c hchild hdest hpdu =>
    exact .reply c hchild hdest (hpdu.imp_right fun ⟨j, hj⟩ => ⟨j, h.accepted_eq j _ hj⟩)
  | answer j c hj hchild hsrc => exact .answer j c (h.accepted_eq j _ hj) hchild hsrc

/-- What is sent now is a request, or goes to the child that is accepted. -/
theorem travels_of_sent {q : SockAddr} (hq : p.sockets.head? = some q) {m : Send}
    (hm : m ∈ sends) : (w.setRcopy i p sends).Travels ⟨m.dest, q, m.pdu⟩ := by
  rcases h.sends m hm with ⟨hdest, hpdu⟩ | hacc
  · refine .request i ?_ hdest hpdu
    rw [rcopy_setRcopy_self]
    exact List.mem_of_mem_head? hq
  · obtain ⟨c, hc, hhead⟩ := h.head _ hacc
    refine .answer i c ?_ hc (Option.some_inj.mp (hq.symm.trans hhead))
    rwa [rcopy_setRcopy_self]

end Moves

end Moves

namespace Wired

/-- Nothing is wired differently by fewer datagrams, or copies of the same. -/
theorem subset (h : w.Wired) {fs : List Flight} (hfs : ∀ f ∈ fs, f ∈ w.inFlight) :
    Wired { w with inFlight := fs } :=
  { h with flight := fun f hf => (h.flight f (hfs f hf)).of_eq rfl rfl }

theorem without (h : w.Wired) (k : ℕ) : (w.without k).Wired :=
  h.subset fun _ hf => List.mem_of_mem_eraseIdx hf

/-- The accepted child answers a socket of the `rcopy` that accepted it, and of no other. -/
theorem owner_eq (h : w.Wired) {j : ι} (ha : (w.rcopy i).accepted = some a) {c : ProcessClient}
    (hc : w.children a = some c) (hj : c.clientAddr ∈ (w.rcopy j).sockets) : j = i := by
  obtain ⟨c', hc', hhead⟩ := h.accepted i a ha
  obtain rfl := Option.some_inj.mp (hc'.symm.trans hc)
  exact (h.socket i _ (List.mem_of_mem_head? hhead)).2.2 j hj

/-- An address that is a child's is no socket's. -/
theorem ne_of_child (h : w.Wired) {j : ι} {p : SockAddr} (hp : p ∈ (w.rcopy j).sockets)
    {c : ProcessClient} (hc : w.children a = some c) : a ≠ p := by
  rintro rfl
  exact absurd (hc.symm.trans (h.socket j a hp).2.1) (by simp)

/-- No child answers another, or itself. -/
theorem clientAddr_ne (h : w.Wired) {b : SockAddr} {c d : ProcessClient}
    (hc : w.children a = some c) (hd : w.children b = some d) : d.clientAddr ≠ a := by
  obtain ⟨-, j, hj, -⟩ := h.child b d hd
  exact (h.ne_of_child hj hc).symm

/-! ### An `rcopy` moves -/

section Rcopy

variable {p : RcopyProcess (site.rcopy i).slots}

/-- A step that neither opens a socket nor accepts a child, and sends only to the one that is
accepted. -/
theorem moves_of_kept (h : w.Wired) (hsockets : p.sockets = (w.rcopy i).sockets)
    (haccepted : p.accepted = (w.rcopy i).accepted) (hasks : p.pc.Asks → p.accepted = none)
    (hwaits : p.pc = .next .waitOnData ∨ p.pc = .receiving → p.accepted ≠ none)
    (hdata : p.accepted = none → p.data = Client.enter _ (site.rcopy i).recvAddr)
    (hsends : ∀ m ∈ sends, p.accepted = some m.dest) : w.Moves i p sends where
  sockets := .inl hsockets
  accepted := .inl haccepted
  asks := hasks
  waits := hwaits
  data := hdata
  head a ha := hsockets ▸ h.accepted i a (haccepted ▸ ha)
  sends m hm := .inr (hsends m hm)

variable [DecidableEq ι]

/-- **A socket has one owner**, whether it was open before or is the one that opens. -/
theorem socket_setRcopy (h : w.Wired) (hm : w.Moves i p sends) {j : ι} {q : SockAddr}
    (hq : q ∈ ((w.setRcopy i p sends).rcopy j).sockets) :
    q ≠ site.serverAddr ∧ w.children q = none
      ∧ ∀ k, q ∈ ((w.setRcopy i p sends).rcopy k).sockets → k = j := by
  rcases hm.socket_cases j q hq with hold | ⟨rfl, hserver, hnone, hchild⟩
  · obtain ⟨hserver, hchild, hown⟩ := h.socket j q hold
    refine ⟨hserver, hchild, fun k hk => ?_⟩
    rcases hm.socket_cases k q hk with hk | ⟨-, hk⟩
    · exact hown k hk
    · exact absurd hold (hk.2.1 j)
  · refine ⟨hserver, hchild, fun k hk => ?_⟩
    rcases hm.socket_cases k q hk with hk | ⟨hk, -⟩
    · exact absurd hk (hnone k)
    · exact hk

/-- **The wiring is kept** by an `rcopy` that moves on. -/
theorem setRcopy (h : w.Wired) (hm : w.Moves i p sends) : (w.setRcopy i p sends).Wired where
  socket j q hq := h.socket_setRcopy hm hq
  forked r hr := by
    obtain ⟨j, hj, hserves⟩ := h.forked r hr
    exact ⟨j, hm.mem_sockets j _ hj, hserves⟩
  child b c hc := by
    obtain ⟨hserver, j, hj, hserves, hpast⟩ := h.child b c hc
    exact ⟨hserver, j, hm.mem_sockets j _ hj, hserves, fun hp => hm.accepted_eq j b (hpast hp)⟩
  asks := forall_setRcopy (P := fun _ q => q.pc.Asks → q.accepted = none) hm.asks h.asks
  waits := forall_setRcopy (P := fun _ q => q.pc = .next .waitOnData ∨ q.pc = .receiving →
    q.accepted ≠ none) hm.waits h.waits
  data := forall_setRcopy (P := fun j q => q.accepted = none →
    q.data = Client.enter _ (site.rcopy j).recvAddr) hm.data h.data
  accepted := forall_setRcopy (P := fun _ q => ∀ a, q.accepted = some a →
    ∃ c, w.children a = some c ∧ q.sockets.head? = some c.clientAddr) hm.head h.accepted
  flight f hf := by
    rcases mem_setRcopy hf with hf | ⟨q, hq, m, hsent, rfl⟩
    · exact hm.travels (h.flight f hf)
    · exact hm.travels_of_sent hq hsent

end Rcopy

/-! ### A child moves -/

/-- **A child that moves on** keeps its socket's `rcopy`, gets past its handshake only if that
`rcopy` has accepted it, and sends what it may. -/
theorem setChild (h : w.Wired) {c c' : ProcessClient} (hc : w.children a = some c)
    (haddr : c'.clientAddr = c.clientAddr) (hserves : ∀ i, site.Serves i c → site.Serves i c')
    (hpast : c'.Past → c.Past ∨ ∃ i, (w.rcopy i).accepted = some a)
    (hsends : ∀ m ∈ sends, m.dest = c.clientAddr ∧ (HandshakePDU m.pdu ∨ c.Past)) :
    (w.setChild a c' sends).Wired := by
  obtain ⟨hserver, i, hi, hserves', hpast'⟩ := h.child a c hc
  have hchildren : ∀ b d, w.children b = some d →
      ∃ d', (w.setChild a c' sends).children b = some d' ∧ d'.clientAddr = d.clientAddr := by
    intro b d hd
    rcases eq_or_ne b a with rfl | hb
    · obtain rfl := Option.some_inj.mp (hc.symm.trans hd)
      exact ⟨c', Function.update_self _ _ _, haddr⟩
    · exact ⟨d, (Function.update_of_ne hb _ _).trans hd, rfl⟩
  have hself : (w.setChild a c' sends).children a = some c' := Function.update_self _ _ _
  constructor
  case socket =>
    intro j q hq
    obtain ⟨hs, hnone, hown⟩ := h.socket j q hq
    have hne : q ≠ a := (h.ne_of_child hq hc).symm
    exact ⟨hs, (Function.update_of_ne hne _ _).trans hnone, hown⟩
  case forked => exact h.forked
  case child =>
    intro b d hd
    rcases eq_or_ne b a with rfl | hb
    · obtain rfl := Option.some_inj.mp (hself.symm.trans hd)
      refine ⟨hserver, i, haddr ▸ hi, hserves i hserves', fun hp => ?_⟩
      rcases hpast hp with hp | ⟨j, hj⟩
      · exact hpast' hp
      · obtain rfl := h.owner_eq hj hc hi
        exact hj
    · exact h.child b d ((Function.update_of_ne hb _ _).symm.trans hd)
  case asks => exact h.asks
  case waits => exact h.waits
  case data => exact h.data
  case accepted =>
    intro j b hb
    obtain ⟨d, hd, hhead⟩ := h.accepted j b hb
    obtain ⟨d', hd', haddr'⟩ := hchildren b d hd
    exact ⟨d', hd', haddr' ▸ hhead⟩
  case flight =>
    intro f hf
    rcases List.mem_append.mp hf with hf | hf
    · cases h.flight f hf with
      | request j hsrc hdest hpdu => exact .request j hsrc hdest hpdu
      | reply d hd hdest hpdu =>
        obtain ⟨d', hd', haddr'⟩ := hchildren _ d hd
        exact .reply d' hd' (hdest.trans haddr'.symm) hpdu
      | answer j d hj hd hsrc =>
        obtain ⟨d', hd', haddr'⟩ := hchildren _ d hd
        exact .answer j d' hj hd' (hsrc.trans haddr'.symm)
    · obtain ⟨m, hm, rfl⟩ := mem_sendFrom.mp hf
      obtain ⟨hdest, hpdu⟩ := hsends m hm
      exact .reply c' hself (hdest.trans haddr.symm)
        (hpdu.imp_right fun hp => ⟨i, hpast' hp⟩)

/-! ### Every step -/

/-- The open socket of an `rcopy` hears only children that answer it, before their acks or if it
accepted them. -/
theorem heard_by_rcopy (h : w.Wired) {f : Flight} (hf : f ∈ w.inFlight)
    (hhead : (w.rcopy i).sockets.head? = some f.dest) :
    ∃ c, w.children f.datagram.srcAddr = some c ∧ f.dest = c.clientAddr
      ∧ (HandshakePDU f.datagram.bytes ∨ (w.rcopy i).accepted = some f.datagram.srcAddr) := by
  have hmem : f.dest ∈ (w.rcopy i).sockets := List.mem_of_mem_head? hhead
  cases h.flight f hf with
  | request j hsrc hdest hpdu => exact absurd hdest (h.socket i f.dest hmem).1
  | reply c hchild hdest hpdu =>
    refine ⟨c, hchild, hdest, hpdu.imp_right fun ⟨j, hj⟩ => ?_⟩
    have hown := h.owner_eq hj hchild (hdest ▸ hmem)
    rwa [hown]
  | answer j c hacc hchild hsrc => exact absurd rfl (h.ne_of_child hmem hchild)

/-- A child hears only the socket it answers, once its `rcopy` has accepted it. -/
theorem heard_by_child (h : w.Wired) {f : Flight} (hf : f ∈ w.inFlight) {c : ProcessClient}
    (hc : w.children f.dest = some c) :
    f.datagram.srcAddr = c.clientAddr ∧ ∃ i, (w.rcopy i).accepted = some f.dest := by
  cases h.flight f hf with
  | request j hsrc hdest hpdu => exact absurd hdest (h.child _ c hc).1
  | reply d hchild hdest hpdu => exact absurd hdest.symm (h.clientAddr_ne hc hchild)
  | answer j d hacc hchild hsrc =>
    obtain rfl := Option.some_inj.mp (hchild.symm.trans hc)
    exact ⟨hsrc, j, hacc⟩

/-- **A step of an `rcopy`**, which hears what was in flight to its open socket. -/
theorem rcopyStep [DecidableEq ι] (h : w.Wired) {act : RcopyAct} {w' : World site}
    (hs : w.rcopyStep i act = some (w', sends))
    (hfresh : ∀ a, act = .run a ∨ act = .timeout a → w.Fresh a)
    (hheard : ∀ stale d, act = .receive stale d →
      ∃ p c, (w.rcopy i).sockets.head? = some p ∧ w.children d.srcAddr = some c
        ∧ p = c.clientAddr ∧ (HandshakePDU d.bytes ∨ (w.rcopy i).accepted = some d.srcAddr)) :
    w'.Wired := by
  obtain ⟨p, hstep, rfl⟩ := rcopyStep_eq_some hs
  refine h.setRcopy ?_
  cases RcopyProcess.step_cases hstep with
  | started hpc a =>
    have hnone := h.asks i (by rw [hpc]; trivial)
    exact h.moves_of_kept rfl rfl (fun _ => hnone) (by simp) (h.data i) (by simp)
  | attempt hasks act a hact count =>
    have hnone : (w.rcopy i).accepted = none := h.asks i hasks
    exact {
      sockets := .inr ⟨a, hfresh a hact, rfl⟩
      accepted := .inl rfl
      asks := fun _ => hnone
      waits := by simp
      data := h.data i
      head := by simp [hnone]
      sends := by simp [filenameRequest, Site.setup] }
  | gaveUp hasks a =>
    exact h.moves_of_kept rfl rfl (fun hd => hd.elim) (by simp) (h.data i) (by simp)
  | @accepted hasks stale d hflag =>
    obtain ⟨q, c, hhead, hchild, rfl, -⟩ := hheard stale d rfl
    exact {
      sockets := .inl rfl
      accepted := .inr (h.asks i hasks)
      asks := fun hd => hd.elim
      waits := by simp
      data := by simp
      head := fun b hb => Option.some_inj.mp hb ▸ ⟨c, hchild, hhead⟩
      sends := by simp }
  | refused hasks stale d pc hpc =>
    have hnone := h.asks i hasks
    refine h.moves_of_kept rfl rfl (fun _ => hnone) ?_ (h.data i) (by simp)
    rcases hpc with rfl | rfl <;> simp
  | entered hpc a pc hpc' =>
    have hsome := h.waits i (.inl hpc)
    refine h.moves_of_kept rfl rfl ?_ (fun _ => hsome) (h.data i) (by simp)
    rcases hpc' with rfl | rfl <;> exact fun hd => hd.elim
  | @turn hpc stale d c sends hclient =>
    have hsome := h.waits i (.inr hpc)
    obtain ⟨q, child, hhead, hchild, rfl, hpdu⟩ := hheard stale d rfl
    refine h.moves_of_kept rfl rfl (fun hd => ?_) (fun _ => hsome) (fun hnone => absurd hnone hsome)
      fun m hm => ?_
    · simp only [hpc] at hd
      exact hd.elim
    rcases hpdu with ⟨hlen, hflag⟩ | hacc
    · obtain ⟨state, hstate⟩ := Client.receiving_of_step hclient
      have hstep := Client.step_other (site.setup i).host hstate hlen
        (by rcases hflag with hflag | hflag <;> rw [hflag] <;> decide)
        (by rcases hflag with hflag | hflag <;> rw [hflag] <;> decide) stale d.srcAddr
      obtain ⟨-, rfl⟩ := Prod.mk.inj (Option.some_inj.mp (hstep.symm.trans hclient))
      cases hm
    · have hdest := Client.step_dest (a := ⟨stale, d⟩) hclient m hm
      rw [hdest]
      exact hacc

/-- **A step of a child**, which hears what was in flight to it. -/
theorem childStep (h : w.Wired) {ev : ServerEvent} {w' : World site}
    (hs : w.childStep a ev = some (w', sends))
    (hheard : ∀ stale d, ev = .receive stale d → ∀ c, w.children a = some c →
      d.srcAddr = c.clientAddr ∧ ∃ i, (w.rcopy i).accepted = some a) : w'.Wired := by
  obtain ⟨c, c', hc, hstep, rfl⟩ := childStep_eq_some hs
  obtain ⟨-, i, -, hserves, -⟩ := h.child a c hc
  have hsrc : ∀ stale d, ev = .receive stale d → d.srcAddr = c.clientAddr :=
    fun stale d hev => (hheard stale d hev c hc).1
  obtain ⟨haddr, -, hpast, hsends⟩ := ProcessClient.step_wired hstep hsrc hserves
  refine h.setChild hc haddr (fun j hj => (ProcessClient.step_wired hstep hsrc hj).2.1)
    (fun hp => (hpast hp).imp_right fun ⟨stale, d, hev⟩ => (hheard stale d hev c hc).2) hsends

/-- A forked child opens its socket. -/
theorem fork (h : w.Wired) {r : Received} {rs : List Received} (hr : r ∈ w.forked)
    (hrs : ∀ r ∈ rs, r ∈ w.forked) (hfresh : w.Fresh a) :
    Wired { w with
      forked := rs
      children := Function.update w.children a (some (.start r)) } := by
  obtain ⟨hserver, hsockets, hnone⟩ := hfresh
  obtain ⟨i, hi, hserves⟩ := h.forked r hr
  have hkeep : ∀ b c, w.children b = some c →
      Function.update w.children a (some (.start r)) b = some c := by
    intro b c hc
    have hb : b ≠ a := fun heq => by
      rw [heq, hnone] at hc
      cases hc
    exact (Function.update_of_ne hb _ _).trans hc
  constructor
  case socket =>
    intro j q hq
    obtain ⟨hs, hchild, hown⟩ := h.socket j q hq
    have hne : q ≠ a := fun heq => hsockets j (heq ▸ hq)
    exact ⟨hs, (Function.update_of_ne hne _ _).trans hchild, hown⟩
  case forked => exact fun r hr => h.forked r (hrs r hr)
  case child =>
    intro b c hc
    simp only [Function.update_apply] at hc
    split at hc
    case isTrue hb =>
      obtain rfl := Option.some_inj.mp hc
      exact ⟨hb ▸ hserver, i, hi, hserves, fun hp => hp.elim⟩
    case isFalse => exact h.child b c hc
  case asks => exact h.asks
  case waits => exact h.waits
  case data => exact h.data
  case accepted =>
    intro j b hb
    obtain ⟨c, hc, hhead⟩ := h.accepted j b hb
    exact ⟨c, hkeep b c hc, hhead⟩
  case flight =>
    intro f hf
    cases h.flight f hf with
    | request j hsrc hdest hpdu => exact .request j hsrc hdest hpdu
    | reply c hc hdest hpdu => exact .reply c (hkeep _ c hc) hdest hpdu
    | answer j c hj hc hsrc => exact .answer j c hj (hkeep _ c hc) hsrc

/-- A request that arrives is forked for. -/
theorem accept (h : w.Wired) {f : Flight} (hf : w.Travels f) (hdest : f.dest = site.serverAddr)
    (stale : Bytes) : (w.accept (safeRecvfrom stale MAXBUF f.datagram)).Wired := by
  rw [World.accept]
  split
  case isFalse => exact h
  case isTrue =>
    refine { h with
      forked := fun r hr => ?_
      flight := fun g hg => (h.flight g hg).of_eq rfl rfl }
    rcases List.mem_append.mp hr with hr | hr
    · exact h.forked r hr
    obtain rfl := List.mem_singleton.mp hr
    cases hf with
    | request j hsrc hdest hpdu =>
      refine ⟨j, hsrc, stale, ?_⟩
      rw [receivedRequest, ← hpdu]
      rfl
    | reply c hc hdest' hpdu =>
      obtain ⟨-, j, hj, -⟩ := h.child _ c hc
      exact absurd (hdest'.symm.trans hdest) (h.socket j _ hj).1
    | answer j c hj hc hsrc => exact absurd hdest (h.child _ c hc).1

/-- **One step keeps the wiring.** -/
theorem step [DecidableEq ι] (h : w.Wired) {ev : WorldEvent ι} {w' : World site}
    (hopens : w.Opens ev) (hs : w.step ev = some (w', sends)) : w'.Wired := by
  cases step_cases hs with
  | run j a hs | timeout j a hs =>
    refine h.rcopyStep hs (fun b hb => ?_) (by simp)
    obtain rfl : a = b := by simpa using hb
    exact hopens
  | fork j a hr =>
    exact h.fork (List.mem_of_getElem? hr) (fun r hr => List.mem_of_mem_eraseIdx hr) hopens
  | childRun a hs | childQuiet a hs => exact h.childStep hs (by simp)
  | @accept k stale f hk hdest =>
    exact (h.without k).accept ((h.flight f (List.mem_of_getElem? hk)).of_eq rfl rfl) hdest stale
  | @hear j k stale f _ hk hhead hs =>
    refine (h.without k).rcopyStep hs (by simp) fun stale' d hd => ?_
    obtain ⟨rfl, rfl⟩ := by simpa using hd
    obtain ⟨c, hc, hdest, hpdu⟩ := h.heard_by_rcopy (List.mem_of_getElem? hk) hhead
    exact ⟨f.dest, c, hhead, hc, hdest, hpdu⟩
  | @childHear k stale f _ hk hs =>
    refine (h.without k).childStep hs fun stale' d hd c hc => ?_
    obtain ⟨rfl, rfl⟩ := by simpa using hd
    exact h.heard_by_child (List.mem_of_getElem? hk) hc
  | @lose k => exact h.without k
  | duplicate hk =>
    refine h.subset fun g hg => ?_
    rcases List.mem_append.mp hg with hg | hg
    · exact hg
    · obtain rfl := List.mem_singleton.mp hg
      exact List.mem_of_getElem? hk

end Wired

/-- **Every run is wired.** -/
theorem wired_of_run [DecidableEq ι]
    {es : List (Edge (World site) (WorldEvent ι) (List Send))}
    (run : Run (machine site) Opens (enter site) es w) : w.Wired :=
  run.invariant wired_enter fun _ _ _ _ h hg hs => h.step hg hs

end World

end RemoteFileCopy
