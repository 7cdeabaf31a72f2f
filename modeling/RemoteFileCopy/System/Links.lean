import RemoteFileCopy.System.Wiring

/-!
# System/Links — what a child and its `rcopy` keep, the whole keeps

An `rcopy` and the child it accepted are a **link**: the two halves of one transfer, and what is in
flight between them.  A property of a link that its own steps keep (`LinkInvariant`) holds of every
link of every run of the whole (`World.linked_of_run`), whatever the others do: nobody else sends to
either end, or hears what they send.
-/

namespace RemoteFileCopy

open Transition

/-- **What the steps of a link keep**, from the ack of the file on.  `toClient` and `toServer` tell
which datagrams are in flight, not how many of them or in which order. -/
structure LinkInvariant (cfg : Config) (V W : ℕ) [NeZero W] where
  holds : Server V → Client W → (Bytes → Prop) → (Bytes → Prop) → Prop
  enter : ∀ {toClient toServer : Bytes → Prop}, (∀ d, toClient d → HandshakePDU d) →
    (∀ d, toServer d → d = fileOkAckPDU cfg.host) →
    holds (.enter V cfg.clientAddr cfg.source cfg.windowSize cfg.bufferSize)
      (.enter W cfg.recvAddr) toClient toServer
  mono : ∀ {σ c toClient toServer} {toClient' toServer' : Bytes → Prop},
    holds σ c toClient toServer → (∀ d, toClient' d → toClient d ∨ HandshakePDU d) →
    (∀ d, toServer' d → toServer d) → holds σ c toClient' toServer'
  serverStep : ∀ {σ c toClient toServer ev σ' sends}, holds σ c toClient toServer →
    σ.step cfg.host ev = some (σ', sends) →
    (∀ stale d, ev = .receive stale d → d.srcAddr = cfg.clientAddr ∧ toServer d.bytes) →
    holds σ' c (fun d => toClient d ∨ ∃ m ∈ sends, m.pdu = d) toServer
  clientStep : ∀ {σ c toClient toServer stale d c' sends}, holds σ c toClient toServer →
    toClient d.bytes → c.step cfg.host stale d = some (c', sends) →
    holds σ c' toClient (fun d => toServer d ∨ ∃ m ∈ sends, m.pdu = d)

/-- **The transfer a child is in**; before it initialises its window, the one it would begin. -/
inductive ProcessClient.Carries (cfg : Config) {V : ℕ} : ProcessClient → Server V → Prop
  | start (r : Received) : Carries cfg (.start r)
      (.enter V cfg.clientAddr cfg.source cfg.windowSize cfg.bufferSize)
  | handshake (k : Child) : Carries cfg (.handshake k)
      (.enter V cfg.clientAddr cfg.source cfg.windowSize cfg.bufferSize)
  | transfer (σ : Server V) : Carries cfg (.transfer σ) σ

namespace World

variable {ι : Type} {site : Site ι} {w w' : World site} {i : ι} {a p : SockAddr} {sends : List Send}

/-- The datagrams in flight from one address to another. -/
def flying (w : World site) (src dest : SockAddr) (d : Bytes) : Prop :=
  (⟨dest, ⟨src, d⟩⟩ : Flight) ∈ w.inFlight

/-- An invariant for each of the links an `rcopy` may come to be in. -/
abbrev LinkInvariants (site : Site ι) (i : ι) : Type :=
  ∀ p a, LinkInvariant (site.config i p a) (site.windowSize i).toNat (site.rcopy i).slots

/-- **An `rcopy` that accepted a child** is in a link with it, and the invariant holds of it. -/
def Linked (w : World site) (i : ι) (L : LinkInvariants site i) : Prop :=
  ∀ a, (w.rcopy i).accepted = some a → ∃ p c σ, (w.rcopy i).sockets.head? = some p
    ∧ w.children a = some c ∧ c.clientAddr = p ∧ c.Carries (site.config i p a) σ
    ∧ (L p a).holds σ (w.rcopy i).data (w.flying a p) (w.flying p a)

/-! ### A child nobody has accepted -/

section Unaccepted

variable {c : ProcessClient}

/-- If the owner of its socket has accepted no child, nobody has accepted this one. -/
theorem Wired.not_accepted (hw : w.Wired) (hchild : w.children a = some c)
    (hmem : c.clientAddr ∈ (w.rcopy i).sockets) (hnone : (w.rcopy i).accepted = none) (j : ι) :
    (w.rcopy j).accepted ≠ some a := by
  intro hj
  obtain rfl := hw.owner_eq hj hchild hmem
  rw [hnone] at hj
  cases hj

variable (hw : w.Wired) (hchild : w.children a = some c)
  (hnobody : ∀ j, (w.rcopy j).accepted ≠ some a)
include hw hchild hnobody

/-- It has no transfer yet. -/
theorem Wired.carries_enter (cfg : Config) {V : ℕ} : c.Carries cfg
    (.enter V cfg.clientAddr cfg.source cfg.windowSize cfg.bufferSize) := by
  cases c with
  | start r => exact .start r
  | handshake k => exact .handshake k
  | transfer σ =>
    obtain ⟨-, j, -, -, hpast⟩ := hw.child _ _ hchild
    exact absurd (hpast trivial) (hnobody j)

/-- All it has sent are replies. -/
theorem Wired.handshakePDU_of_flying {d : Bytes} (hd : w.flying a p d) : HandshakePDU d := by
  cases hw.flight _ hd with
  | request j hsrc => exact absurd rfl (hw.ne_of_child hsrc hchild)
  | reply _ _ _ hpdu => exact hpdu.resolve_right fun ⟨j, hj⟩ => hnobody j hj
  | answer j _ _ hchild' hsrc => exact absurd hsrc.symm (hw.clientAddr_ne hchild hchild')

/-- Nothing has been sent to it. -/
theorem Wired.not_flying {d : Bytes} : ¬ w.flying p a d := by
  intro hd
  cases hw.flight _ hd with
  | request j _ hdest => exact absurd hdest (hw.child _ _ hchild).1
  | reply _ hchild' hdest => exact absurd hdest.symm (hw.clientAddr_ne hchild hchild')
  | answer j _ hacc => exact absurd hacc (hnobody j)

end Unaccepted

variable {L : LinkInvariants site i}

theorem linked_enter : (enter site).Linked i L := fun a ha => by cases ha

namespace Linked

/-- Nothing changes for a link but its datagrams, and none are new. -/
theorem congr (h : w.Linked i L) {v : World site} (hr : v.rcopy i = w.rcopy i)
    (hc : ∀ a c, w.children a = some c → (w.rcopy i).accepted = some a → v.children a = some c)
    (hfs : ∀ p a, (w.rcopy i).sockets.head? = some p → (w.rcopy i).accepted = some a →
      (∀ d, v.flying a p d → w.flying a p d) ∧ ∀ d, v.flying p a d → w.flying p a d) :
    v.Linked i L := by
  intro a ha
  rw [hr] at ha
  obtain ⟨p, c, σ, hhead, hchild, haddr, hcarries, hholds⟩ := h a ha
  obtain ⟨hto, hfrom⟩ := hfs p a hhead ha
  refine ⟨p, c, σ, hr ▸ hhead, hc a c hchild ha, haddr, hcarries, ?_⟩
  rw [hr]
  exact (L p a).mono hholds (fun d hd => .inl (hto d hd)) hfrom

theorem subset (h : w.Linked i L) {fs : List Flight} (hfs : ∀ f ∈ fs, f ∈ w.inFlight) :
    Linked { w with inFlight := fs } i L :=
  h.congr rfl (fun _ _ hc _ => hc) fun _ _ _ _ => ⟨fun _ hd => hfs _ hd, fun _ hd => hfs _ hd⟩

/-! ### An `rcopy` moves -/

/-- What an `rcopy` sends leaves from its open socket. -/
theorem flying_setRcopy [DecidableEq ι] {j : ι} {q : RcopyProcess (site.rcopy j).slots}
    {src dest : SockAddr} {d : Bytes} (h : (w.setRcopy j q sends).flying src dest d) :
    w.flying src dest d
      ∨ q.sockets.head? = some src ∧ ∃ m ∈ sends, m.dest = dest ∧ m.pdu = d := by
  refine (mem_setRcopy h).imp_right fun ⟨b, hb, m, hm, heq⟩ => ?_
  obtain ⟨rfl, rfl, rfl⟩ : dest = m.dest ∧ src = b ∧ d = m.pdu := by simpa using heq
  exact ⟨hb, m, hm, rfl, rfl⟩

/-- **Another `rcopy`** sends from sockets of its own. -/
theorem setRcopy_of_ne [DecidableEq ι] (h : w.Linked i L) {j : ι} (hj : j ≠ i)
    {q : RcopyProcess (site.rcopy j).slots} (hw' : (w.setRcopy j q sends).Wired) :
    (w.setRcopy j q sends).Linked i L := by
  have hi : (w.setRcopy j q sends).rcopy i = w.rcopy i := rcopy_setRcopy_of_ne hj.symm
  have hq : ∀ src, q.sockets.head? = some src → src ∈ ((w.setRcopy j q sends).rcopy j).sockets := by
    intro src hsrc
    rw [rcopy_setRcopy_self]
    exact List.mem_of_mem_head? hsrc
  refine h.congr hi (fun _ _ hc _ => hc) fun p a hhead ha => ⟨fun d hd => ?_, fun d hd => ?_⟩
  · refine (flying_setRcopy hd).resolve_right fun hsrc => ?_
    obtain ⟨_, c, _, _, hchild, _⟩ := h a ha
    exact hw'.ne_of_child (hq a hsrc.1) hchild rfl
  · refine (flying_setRcopy hd).resolve_right fun hsrc => hj ?_
    exact ((hw'.socket j p (hq p hsrc.1)).2.2 i (hi ▸ List.mem_of_mem_head? hhead)).symm

/-- **The `rcopy` of a link accepts its child**: nothing is in flight between them but replies and
the ack. -/
theorem accepts [DecidableEq ι] (hw : w.Wired) {fs : List Flight} (hfs : ∀ f ∈ fs, f ∈ w.inFlight)
    {c : ProcessClient} (hchild : w.children a = some c)
    (hnobody : ∀ j, (w.rcopy j).accepted ≠ some a) {q : RcopyProcess (site.rcopy i).slots}
    (hhead : q.sockets.head? = some c.clientAddr) (haccepted : q.accepted = some a)
    (hdata : q.data = .enter _ (site.rcopy i).recvAddr) :
    (World.setRcopy { w with inFlight := fs } i q [⟨a, fileOkAckPDU site.host⟩]).Linked i L := by
  intro b hb
  rw [rcopy_setRcopy_self] at hb ⊢
  obtain rfl := Option.some_inj.mp (haccepted.symm.trans hb)
  refine ⟨c.clientAddr, c, _, hhead, hchild, rfl, hw.carries_enter hchild hnobody _, ?_⟩
  rw [hdata]
  refine (L _ a).enter (fun d hd => ?_) fun d hd => ?_
  · rcases flying_setRcopy hd with hd | ⟨hsrc, -⟩
    · exact hw.handshakePDU_of_flying hchild hnobody (hfs _ hd)
    · exact absurd (Option.some_inj.mp (hhead.symm.trans hsrc)) (hw.clientAddr_ne hchild hchild)
  · rcases flying_setRcopy hd with hd | ⟨-, m, hm, -, rfl⟩
    · exact absurd (hfs _ hd) (hw.not_flying hchild hnobody)
    · rw [List.mem_singleton.mp hm]
      rfl

/-- **It goes on in the transfer**, and what it sends is in flight to its child. -/
theorem setRcopy_self [DecidableEq ι] (hw : w.Wired) (h : w.Linked i L) {fs : List Flight}
    (hfs : ∀ f ∈ fs, f ∈ w.inFlight) {q : RcopyProcess (site.rcopy i).slots}
    (hsockets : q.sockets = (w.rcopy i).sockets) (haccepted : q.accepted = (w.rcopy i).accepted)
    (hholds : ∀ p a σ, (w.rcopy i).sockets.head? = some p → (w.rcopy i).accepted = some a →
      (L p a).holds σ (w.rcopy i).data (w.flying a p) (w.flying p a) →
        (L p a).holds σ q.data (fun d => w.flying a p d ∨ HandshakePDU d)
          fun d => w.flying p a d ∨ ∃ m ∈ sends, m.pdu = d) :
    (World.setRcopy { w with inFlight := fs } i q sends).Linked i L := by
  intro a ha
  rw [rcopy_setRcopy_self] at ha ⊢
  rw [haccepted] at ha
  obtain ⟨p, c, σ, hhead, hchild, haddr, hcarries, hold⟩ := h a ha
  refine ⟨p, c, σ, hsockets ▸ hhead, hchild, haddr, hcarries,
    (L p a).mono (hholds p a σ hhead ha hold) (fun d hd => ?_) fun d hd => ?_⟩
  · rcases flying_setRcopy hd with hd | ⟨hsrc, -⟩
    · exact .inl (.inl (hfs _ hd))
    · rw [hsockets] at hsrc
      exact absurd rfl (hw.ne_of_child (List.mem_of_mem_head? hsrc) hchild)
  · exact (flying_setRcopy hd).imp (hfs _) fun ⟨_, m, hm, _, hpdu⟩ => ⟨m, hm, hpdu⟩

/-- **The `rcopy` of the link** accepts its child, or hears a datagram from it. -/
theorem rcopyStep_self [DecidableEq ι] (hw : w.Wired) (h : w.Linked i L) {fs : List Flight}
    (hfs : ∀ f ∈ fs, f ∈ w.inFlight) {act : RcopyAct}
    (hs : World.rcopyStep { w with inFlight := fs } i act = some (w', sends))
    (hheard : ∀ stale d, act = .receive stale d →
      ∃ p, (w.rcopy i).sockets.head? = some p ∧ ⟨p, d⟩ ∈ w.inFlight) : w'.Linked i L := by
  obtain ⟨q, hstep, rfl⟩ := rcopyStep_eq_some hs
  -- before it has accepted a child there is no link
  have unlinked : (w.rcopy i).pc.Asks → ∀ {q : RcopyProcess (site.rcopy i).slots} {sends},
      q.accepted = (w.rcopy i).accepted →
      (World.setRcopy { w with inFlight := fs } i q sends).Linked i L := by
    intro hasks q sends hq a ha
    rw [rcopy_setRcopy_self, hq, hw.asks i hasks] at ha
    cases ha
  cases RcopyProcess.step_cases hstep with
  | started hpc b => exact unlinked (by rw [hpc]; trivial) rfl
  | attempt hasks | gaveUp hasks | refused hasks => exact unlinked hasks rfl
  | @accepted hasks stale d hflag =>
    obtain ⟨p, hhead, hf⟩ := hheard stale d rfl
    obtain ⟨c, hchild, rfl, -⟩ := hw.heard_by_rcopy hf hhead
    have hnone := hw.asks i hasks
    exact accepts hw hfs hchild
      (hw.not_accepted hchild (List.mem_of_mem_head? hhead) hnone) hhead rfl (hw.data i hnone)
  | entered hpc b pc hpc' =>
    exact h.setRcopy_self hw hfs rfl rfl fun p a σ _ _ hold =>
      (L p a).mono hold (fun d hd => hd) fun d hd => hd.resolve_right (by simp)
  | @turn hpc stale d c' sends hclient =>
    refine h.setRcopy_self hw hfs rfl rfl fun p a σ hhead ha hold => ?_
    obtain ⟨p', hhead', hf⟩ := hheard stale d rfl
    obtain rfl := Option.some_inj.mp (hhead.symm.trans hhead')
    obtain ⟨c₁, -, -, hpdu⟩ := hw.heard_by_rcopy hf hhead
    refine (L p a).clientStep ((L p a).mono hold (fun _ hd => hd) fun _ hd => hd) ?_ hclient
    rcases hpdu with hpdu | hacc
    · exact .inr hpdu
    · obtain rfl := Option.some_inj.mp (hacc.symm.trans ha)
      exact .inl hf

/-! ### A child moves -/

/-- What a child sends leaves from its socket. -/
theorem flying_setChild {b : SockAddr} {c : ProcessClient} {src dest : SockAddr} {d : Bytes}
    (h : (w.setChild b c sends).flying src dest d) :
    w.flying src dest d ∨ src = b ∧ ∃ m ∈ sends, m.dest = dest ∧ m.pdu = d := by
  refine (List.mem_append.mp h).imp_right fun h => ?_
  obtain ⟨m, hm, heq⟩ := mem_sendFrom.mp h
  obtain ⟨rfl, rfl, rfl⟩ : dest = m.dest ∧ src = b ∧ d = m.pdu := by simpa using heq
  exact ⟨rfl, m, hm, rfl, rfl⟩

/-- **Another child** sends from its own socket. -/
theorem setChild_of_ne (h : w.Linked i L) (hw : w.Wired) {b : SockAddr} {c c' : ProcessClient}
    (hchild : w.children b = some c) (hb : (w.rcopy i).accepted ≠ some b) :
    (w.setChild b c' sends).Linked i L := by
  refine h.congr rfl (fun a c hc ha => ?_) fun p a hhead ha => ⟨fun d hd => ?_, fun d hd => ?_⟩
  · exact (Function.update_of_ne (fun heq : a = b => hb (heq ▸ ha)) _ _).trans hc
  · refine (flying_setChild hd).resolve_right fun ⟨heq, _⟩ => hb ?_
    rw [ha, heq]
  · refine (flying_setChild hd).resolve_right fun ⟨heq, _⟩ => ?_
    exact hw.ne_of_child (List.mem_of_mem_head? hhead) hchild heq.symm

/-- **A step of the child of a link**: it is still in the transfer it would begin, or takes a step
of the transfer it is in. -/
theorem carries_step {c c' : ProcessClient} {σ : Server (site.windowSize i).toNat}
    {ev : ServerEvent} (hcarries : c.Carries (site.config i p a) σ) (haddr : c.clientAddr = p)
    (hserves : site.Serves i c) (hs : c.step site.host site.fopen ev = some (c', sends)) :
    c'.Carries (site.config i p a) σ ∧ (∀ m ∈ sends, HandshakePDU m.pdu)
      ∨ ∃ σ', c'.Carries (site.config i p a) σ' ∧ σ.step site.host ev = some (σ', sends) := by
  cases hcarries with
  | start r =>
    cases ev with
    | quiet | receive => cases hs
    | run =>
      obtain ⟨rfl, rfl⟩ := Prod.mk.inj (Option.some_inj.mp hs)
      exact .inl ⟨.handshake _, (Child.start_serves hserves).2.2⟩
  | handshake k =>
    simp only [ProcessClient.step] at hs
    split at hs
    case _ | _ =>
      obtain ⟨rfl, rfl⟩ := Prod.mk.inj (Option.some_inj.mp hs)
      exact .inl ⟨.handshake _, by simp⟩
    case _ hpc =>
      obtain ⟨rfl, rfl⟩ := Prod.mk.inj (Option.some_inj.mp hs)
      obtain ⟨pc, info, count⟩ := k
      obtain rfl : info = site.opened i p := haddr ▸ hserves (.inr hpc)
      exact .inl ⟨.transfer _, by simp⟩
    case _ => cases hs
  | transfer σ =>
    obtain ⟨⟨σ', sends'⟩, hstep, heq⟩ := Option.map_eq_some_iff.mp hs
    obtain ⟨rfl, rfl⟩ := Prod.mk.inj heq
    exact .inr ⟨σ', .transfer σ', hstep⟩

/-- **The child of the link** takes a step. -/
theorem childStep_self (hw : w.Wired) (h : w.Linked i L) {fs : List Flight}
    (hfs : ∀ f ∈ fs, f ∈ w.inFlight) {ev : ServerEvent}
    (hs : World.childStep { w with inFlight := fs } a ev = some (w', sends))
    (ha : (w.rcopy i).accepted = some a)
    (hheard : ∀ stale d, ev = .receive stale d → ⟨a, d⟩ ∈ w.inFlight) : w'.Linked i L := by
  obtain ⟨p, c, σ, hhead, hchild, haddr, hcarries, hholds⟩ := h a ha
  obtain ⟨c₁, c', hc₁, hstep, rfl⟩ := childStep_eq_some hs
  obtain rfl := Option.some_inj.mp (hchild.symm.trans hc₁)
  have hmem := List.mem_of_mem_head? hhead
  have hserves : site.Serves i c := by
    obtain ⟨-, j, hj, hserves, -⟩ := hw.child a c hchild
    exact hw.owner_eq ha hchild hj ▸ hserves
  have hne : p ≠ a := (hw.ne_of_child hmem hchild).symm
  have hsrc : ∀ stale d, ev = .receive stale d → d.srcAddr = p := fun stale d hev =>
    (hw.heard_by_child (hheard stale d hev) hchild).1.trans haddr
  have haddr' : c'.clientAddr = p :=
    (ProcessClient.step_wired hstep (fun stale d hev => (hsrc stale d hev).trans haddr.symm)
      hserves).1.trans haddr
  -- what the child sends, and nothing else, is new from `a`
  have hto : ∀ d, (World.setChild { w with inFlight := fs } a c' sends).flying a p d →
      w.flying a p d ∨ ∃ m ∈ sends, m.pdu = d := fun d hd =>
    (flying_setChild hd).imp (hfs _) fun ⟨_, m, hm, _, hpdu⟩ => ⟨m, hm, hpdu⟩
  have hfrom : ∀ d, (World.setChild { w with inFlight := fs } a c' sends).flying p a d →
      w.flying p a d := fun d hd =>
    (flying_setChild hd).elim (hfs _) fun ⟨heq, _⟩ => absurd heq hne
  intro b hb
  obtain rfl := Option.some_inj.mp (ha.symm.trans hb)
  rcases carries_step hcarries haddr hserves hstep with ⟨hc', hsends⟩ | ⟨σ', hc', hσ⟩
  · refine ⟨p, c', σ, hhead, Function.update_self _ _ _, haddr', hc',
      (L p a).mono hholds (fun d hd => ?_) hfrom⟩
    exact (hto d hd).imp_right fun ⟨m, hm, hpdu⟩ => hpdu ▸ hsends m hm
  · refine ⟨p, c', σ', hhead, Function.update_self _ _ _, haddr', hc', (L p a).mono
      ((L p a).serverStep hholds hσ fun stale d hev => ⟨hsrc stale d hev, ?_⟩)
      (fun d hd => .inl (hto d hd)) hfrom⟩
    have hf := hheard stale d hev
    rwa [show d = ⟨p, d.bytes⟩ by rw [← hsrc stale d hev]] at hf

/-! ### Every step -/

theorem rcopyStep [DecidableEq ι] (hw : w.Wired) (h : w.Linked i L) {fs : List Flight}
    (hfs : ∀ f ∈ fs, f ∈ w.inFlight) {j : ι} {act : RcopyAct}
    (hs : World.rcopyStep { w with inFlight := fs } j act = some (w', sends)) (hw' : w'.Wired)
    (hheard : ∀ stale d, act = .receive stale d →
      ∃ p, (w.rcopy j).sockets.head? = some p ∧ ⟨p, d⟩ ∈ w.inFlight) : w'.Linked i L := by
  rcases eq_or_ne j i with rfl | hj
  · exact h.rcopyStep_self hw hfs hs hheard
  · obtain ⟨q, -, rfl⟩ := rcopyStep_eq_some hs
    exact (h.subset hfs).setRcopy_of_ne hj hw'

theorem childStep (hw : w.Wired) (h : w.Linked i L) {fs : List Flight}
    (hfs : ∀ f ∈ fs, f ∈ w.inFlight) {b : SockAddr} {ev : ServerEvent}
    (hs : World.childStep { w with inFlight := fs } b ev = some (w', sends))
    (hheard : ∀ stale d, ev = .receive stale d → ⟨b, d⟩ ∈ w.inFlight) : w'.Linked i L := by
  by_cases hb : (w.rcopy i).accepted = some b
  · exact h.childStep_self hw hfs hs hb hheard
  · obtain ⟨c, c', hchild, -, rfl⟩ := childStep_eq_some hs
    exact (h.subset hfs).setChild_of_ne (hw.subset hfs) hchild hb

/-- **One step keeps the invariant of every link.** -/
theorem step [DecidableEq ι] (hw : w.Wired) (h : w.Linked i L) {ev : WorldEvent ι}
    (hopens : w.Opens ev) (hs : w.step ev = some (w', sends)) : w'.Linked i L := by
  have hw' := hw.step hopens hs
  have hall : ∀ f ∈ w.inFlight, f ∈ w.inFlight := fun _ hf => hf
  have hlost : ∀ k, ∀ f ∈ (w.without k).inFlight, f ∈ w.inFlight := fun k f hf =>
    List.mem_of_mem_eraseIdx hf
  cases step_cases hs with
  | run j a hs | timeout j a hs => exact h.rcopyStep hw hall hs hw' (by simp)
  | fork j b =>
    refine h.congr rfl (fun a c hc _ => ?_) fun _ _ _ _ => ⟨fun _ hd => hd, fun _ hd => hd⟩
    refine (Function.update_of_ne (fun heq => ?_) _ _).trans hc
    have hnone := hopens.2.2
    rw [← heq, hc] at hnone
    cases hnone
  | childRun a hs | childQuiet a hs => exact h.childStep hw hall hs (by simp)
  | @accept k =>
    rw [World.accept]
    split <;> exact (h.subset (hlost k)).congr rfl (fun _ _ hc _ => hc)
      fun _ _ _ _ => ⟨fun _ hd => hd, fun _ hd => hd⟩
  | @hear j k stale f _ hk hhead hs =>
    refine h.rcopyStep hw (hlost k) hs hw' fun stale' d hd => ⟨f.dest, hhead, ?_⟩
    obtain ⟨rfl, rfl⟩ := by simpa using hd
    exact List.mem_of_getElem? hk
  | @childHear k stale f _ hk hs =>
    refine h.childStep hw (hlost k) hs fun stale' d hd => ?_
    obtain ⟨rfl, rfl⟩ := by simpa using hd
    exact List.mem_of_getElem? hk
  | @lose k => exact h.subset (hlost k)
  | duplicate hk =>
    refine h.subset fun g hg => ?_
    rcases List.mem_append.mp hg with hg | hg
    · exact hg
    · obtain rfl := List.mem_singleton.mp hg
      exact List.mem_of_getElem? hk

end Linked

/-- **The rule for links** — what the steps of a link keep holds of it in every run of the
whole. -/
theorem linked_of_run [DecidableEq ι] (L : LinkInvariants site i)
    {es : List (Edge (World site) (WorldEvent ι) (List Send))}
    (run : Run (machine site) Opens (enter site) es w) : w.Linked i L :=
  (run.invariant (P := fun w => w.Wired ∧ w.Linked i L) ⟨wired_enter, linked_enter⟩
    fun _ _ _ _ ⟨hw, h⟩ hg hs => ⟨hw.step hg hs, h.step hw hg hs⟩).2

end World

end RemoteFileCopy
