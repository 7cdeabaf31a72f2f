import RemoteFileCopy.Setup.Handshake

/-!
# Setup/Survival — what a set-up does not survive

A lost request or a lost reply costs `rcopy` a second and leaves a child behind that gives up.  The
ack is different: `rcopy` sends it once, and the child that misses it asks for nothing.  So the
set-up comes apart where the ack is lost — and, on a network that delays without bound, where it
comes too late, or where the reply does.  Otherwise, from the moment a reply is accepted,

    the child is in SEND_DATA    or    the child polls, and its ack is in flight        (`Served`)

and no run leaves `rcopy` waiting for a child that has given up (`not_stranded`).
-/

namespace RemoteFileCopy

open Transition

/-- The flag byte of a datagram. -/
def Flight.flag (f : Flight) : UInt8 := f.datagram.bytes.getD 6 0

namespace Setup

variable {cfg : SetupConfig} {s t : Setup} {a b : SockAddr} {f : Flight}

/-- **`rcopy` is stranded**: it waits for data, and the child whose reply it accepted is done. -/
def Stranded (s : Setup) : Prop :=
  s.client.pc = .receiving ∧ ∃ a, s.client.accepted = some a
    ∧ (s.children a).map Child.pc = some (.next .done)

/-- `rcopy` polls on `a` in `wait_on_file_ok_state`. -/
def Polls (s : Setup) (a : SockAddr) : Prop :=
  s.client.sockets.head? = some a ∧ ∃ count, s.client.pc = .polling count

/-- **Nothing keeps a waiting child from its ack**: no ack to it is lost, its last poll does not
come back empty with the ack in flight, and `rcopy` accepts no reply of a child that has given
up. -/
def AckHeard (s : Setup) : SetupEvent → Prop
  | .lose i => ∀ f ∈ s.inFlight[i]?, f.flag = 34 → ¬ s.Waiting f.dest
  | .childTimeout a =>
      ∀ c ∈ s.children a, 9 ≤ c.count → ∀ f ∈ s.inFlight, f.flag = 34 → f.dest ≠ a
  | .deliver i stale => ∀ f ∈ s.inFlight[i]?, s.Polls f.dest →
      (safeRecvfrom stale (MAXBUF + 7) f.datagram).flag = 9 → s.Waiting f.datagram.srcAddr
  | _ => True

instance (s : Setup) (a : SockAddr) : Decidable (s.Polls a) :=
  match h : s.client.pc with
  | .polling count => decidable_of_iff (s.client.sockets.head? = some a) (by simp [Polls, h])
  | .next _ => .isFalse (by simp [Polls, h])
  | .receiving => .isFalse (by simp [Polls, h])

instance (s : Setup) : (ev : SetupEvent) → Decidable (s.AckHeard ev)
  | .lose _ => inferInstanceAs (Decidable (∀ f ∈ _, _ → _))
  | .childTimeout _ => inferInstanceAs (Decidable (∀ c ∈ _, _ → ∀ f ∈ _, _ → _))
  | .deliver _ _ => inferInstanceAs (Decidable (∀ f ∈ _, _ → _ → _))
  | .client _ | .clientTimeout _ | .child _ _ => .isTrue trivial

/-! ## The invariant -/

/-- The child at `a` sends data, or its ack is on the way. -/
def Served (s : Setup) (a : SockAddr) : Prop :=
  (s.children a).map Child.pc = some (.next .sendData)
    ∨ s.Waiting a ∧ ∃ f ∈ s.inFlight, f.flag = 34 ∧ f.dest = a

variable (cfg) in
/-- **The invariant** — no child has the address of another party, and the child whose reply was
accepted is served. -/
structure Inv (s : Setup) : Prop where
  apart : ∀ a, s.children a ≠ none → a ≠ cfg.serverAddr ∧ a ∉ s.client.sockets
  served : ∀ a, s.client.accepted = some a → s.Served a

theorem inv_enter : Inv cfg enter where
  apart _ h := absurd rfl h
  served _ h := by cases h

theorem Waiting.ne_none (h : s.Waiting a) : s.children a ≠ none := by
  intro hnone
  rw [Waiting, hnone] at h
  cases h

theorem Served.ne_none (h : s.Served a) : s.children a ≠ none := by
  rcases h with h | ⟨h, -⟩
  · intro hnone
    rw [hnone] at h
    cases h
  · exact h.ne_none

/-- A served child is not done. -/
theorem Served.ne_done (h : s.Served a) : (s.children a).map Child.pc ≠ some (.next .done) := by
  rcases h with h | ⟨h, -⟩
  · rw [h]
    decide
  · rw [Waiting] at h
    rw [h]
    decide

/-- A served child stays served while it does not move and its acks stay in flight. -/
theorem Served.keep (h : s.Served a) (hchild : t.children a = s.children a)
    (hacks : ∀ f ∈ s.inFlight, f.flag = 34 → f.dest = a → f ∈ t.inFlight) : t.Served a := by
  rw [Served, Waiting, hchild]
  refine h.imp id fun ⟨hw, f, hf, hflag, hdest⟩ => ⟨hw, f, hacks f hf hflag hdest, hflag, hdest⟩

/-- Nobody else has the address of a child. -/
theorem Inv.accepted_apart (h : Inv cfg s) (ha : s.client.accepted = some a) :
    a ≠ cfg.serverAddr ∧ a ∉ s.client.sockets :=
  h.apart a (h.served a ha).ne_none

/-- **A step about one address**: what happens to the child at `b` and to the datagrams for it is
nothing to the other children. -/
theorem Inv.touch (h : Inv cfg s) (b : SockAddr) (hclient : t.client = s.client)
    (hchildren : ∀ a ≠ b, t.children a = s.children a)
    (hnone : t.children b ≠ none → s.children b ≠ none)
    (hacks : ∀ f ∈ s.inFlight, f.flag = 34 → f.dest ≠ b → f ∈ t.inFlight)
    (hserved : s.client.accepted = some b → t.Served b) : Inv cfg t where
  apart a ha := by
    rw [hclient]
    by_cases hab : a = b
    · subst hab
      exact h.apart a (hnone ha)
    · rw [hchildren a hab] at ha
      exact h.apart a ha
  served a ha := by
    rw [hclient] at ha
    by_cases hab : a = b
    · subst hab
      exact hserved ha
    · exact (h.served a ha).keep (hchildren a hab)
        fun f hf hflag hdest => hacks f hf hflag (hdest ▸ hab)

/-- A datagram other than the one that is gone stays in flight. -/
theorem mem_without {i : ℕ} {g : Flight} (hf : s.inFlight[i]? = some f) (hg : g ∈ s.inFlight)
    (hne : g ≠ f) : g ∈ (s.without i).inFlight := by
  obtain ⟨j, hj⟩ := List.mem_iff_getElem?.mp hg
  refine List.mem_eraseIdx_iff_getElem?.mpr ⟨j, ?_, hj⟩
  rintro rfl
  exact hne (Option.some.inj (hj.symm.trans hf))

/-- **A datagram may go** if it is no ack a waiting child was promised. -/
theorem Inv.without {i : ℕ} (h : Inv cfg s) (hf : s.inFlight[i]? = some f)
    (hack : s.client.accepted = some f.dest → f.flag = 34 → ¬ s.Waiting f.dest) :
    Inv cfg (s.without i) := by
  refine h.touch f.dest rfl (fun _ _ => rfl) id
    (fun g hg _ hne => mem_without hf hg fun heq => hne (heq ▸ rfl)) fun ha => ?_
  rcases h.served _ ha with hs | ⟨hw, g, hg, hflag, hdest⟩
  · exact .inl hs
  · refine .inr ⟨hw, g, mem_without hf hg ?_, hflag, hdest⟩
    rintro rfl
    exact hack ha hflag hw

/-! ## The client's side -/

/-- Where `rcopy` stands is no part of the invariant, and what it sends takes nothing away. -/
theorem Inv.goto (h : Inv cfg s) (pc : RcopyPc) (sent : List Flight) :
    Inv cfg { s with client := { s.client with pc := pc }, inFlight := s.inFlight ++ sent } :=
  ⟨h.apart, fun b hb => (h.served b hb).keep rfl fun _ hf _ _ => List.mem_append_left _ hf⟩

/-- **An attempt is made from a socket of its own.** -/
theorem Inv.attempt (h : Inv cfg s) (hfresh : s.Fresh cfg a) (pc : RcopyPc) (sent : List Flight) :
    Inv cfg { s with
      client := { s.client with pc := pc, sockets := a :: s.client.sockets }
      inFlight := s.inFlight ++ sent } where
  apart b hb := by
    refine ⟨(h.apart b hb).1, List.not_mem_cons_of_ne_of_not_mem ?_ (h.apart b hb).2⟩
    rintro rfl
    exact hb (by simpa using hfresh.2.2)
  served b hb := (h.served b hb).keep rfl fun _ hf _ _ => List.mem_append_left _ hf

/-- **An accepted reply leaves its sender served**, if it still waits: the ack is on its way. -/
theorem Inv.accepted (h : Inv cfg s) (hwaiting : s.Waiting b) (pc : RcopyPc) :
    Inv cfg { s with
      client := { s.client with pc := pc, accepted := some b }
      inFlight := s.inFlight ++ sendFrom a [⟨b, fileOkAckPDU cfg.host⟩] } := by
  refine ⟨h.apart, fun c hc => ?_⟩
  obtain rfl : b = c := Option.some.inj hc
  refine .inr ⟨hwaiting, _, List.mem_append_right _ List.mem_cons_self, ?_, rfl⟩
  rw [Flight.flag, fileOkAckPDU, getD_createPDU]

/-- **A step of `rcopy`**, if the child whose reply it takes still waits. -/
theorem Inv.rcopyStep {act : RcopyAct} (h : Inv cfg s) (hs : s.rcopyStep cfg act = some t)
    (hreply : ∀ stale d, act = .receive stale d → s.client.sockets.head? = some a
      ∧ ((safeRecvfrom stale (MAXBUF + 7) d).flag = 9 → s.Waiting d.srcAddr)) : Inv cfg t := by
  obtain ⟨⟨c, sends⟩, hstep, hs⟩ := Option.bind_eq_some_iff.mp hs
  split at hs
  case isFalse => cases hs
  case isTrue hfresh =>
    obtain rfl := Option.some.inj hs
    cases Rcopy.step_cases hstep with
    | started | gaveUp | refused | entered => exact h.goto _ _
    | attempt hasks act a hact count => exact h.attempt (hfresh rfl a rfl) _ _
    | accepted hasks hflag =>
      obtain ⟨hsocket, hwaiting⟩ := hreply _ _ rfl
      simp only [hsocket, Option.elim_some]
      exact h.accepted (hwaiting hflag) _

/-! ## The server's side -/

theorem Inv.accept {r : Received} (h : Inv cfg s) : Inv cfg (s.accept r) := by
  rw [Setup.accept]
  split_ifs
  · exact ⟨h.apart, h.served⟩
  · exact h

/-- A child that has just opened its socket is nobody's accepted child. -/
theorem Inv.open (h : Inv cfg s) (hfresh : s.Fresh cfg a) (sent : List Flight) {c : Child}
    {forked : List Received} :
    Inv cfg { s with
      forked := forked
      children := Function.update s.children a (some c)
      inFlight := s.inFlight ++ sent } := by
  obtain ⟨hserver, hsockets, hnone⟩ := hfresh
  have hkeep : ∀ b ≠ a, Function.update s.children a (some c) b = s.children b :=
    fun b hb => Function.update_of_ne hb _ _
  refine ⟨fun b hb => ?_, fun b hb => ?_⟩
  · by_cases hab : b = a
    · rw [hab]
      exact ⟨hserver, hsockets⟩
    · refine h.apart b ?_
      rwa [← hkeep b hab]
  · have hab : b ≠ a := by
      rintro rfl
      exact (h.served b hb).ne_none (by simpa using hnone)
    exact (h.served b hb).keep (hkeep b hab) fun f hf _ _ => List.mem_append_left _ hf

theorem Inv.runChild {j : ℕ} (h : Inv cfg s) (hs : s.runChild cfg j a = some t) : Inv cfg t := by
  obtain ⟨r, -, hs⟩ := Option.bind_eq_some_iff.mp hs
  split at hs
  case isFalse => cases hs
  case isTrue hfresh =>
    obtain rfl := Option.some_inj.mp hs
    exact h.open hfresh _

/-- A poll is over for the child at `b` alone. -/
theorem children_pollChild (s : Setup) (poll : Option Received) :
    (s.pollChild b poll).children a = if a = b
      then (s.children a).map fun c => writeFileOkAckState c poll else s.children a := by
  by_cases hab : a = b
  · subst hab
    simp [Setup.pollChild]
  · simp [Setup.pollChild, hab]

/-- **The poll of a child is over**, and the datagrams for other children are where they were. -/
theorem Inv.pollChild {poll : Option Received} (h : Inv cfg s) (hclient : t.client = s.client)
    (hchildren : t.children = s.children)
    (hacks : ∀ f ∈ s.inFlight, f.flag = 34 → f.dest ≠ b → f ∈ t.inFlight)
    (hserved : s.client.accepted = some b → (t.pollChild b poll).Served b) :
    Inv cfg (t.pollChild b poll) := by
  refine h.touch b hclient (fun a hab => ?_) (fun hb => ?_) hacks hserved
  · rw [children_pollChild, if_neg hab, hchildren]
  · intro hnone
    rw [children_pollChild, if_pos rfl, hchildren, hnone] at hb
    exact hb rfl

theorem Waiting.exists_child (h : s.Waiting a) :
    ∃ c, s.children a = some c ∧ c.pc = .next .writeFileOkAck :=
  Option.map_eq_some_iff.mp h

/-- Where the child stands after its poll. -/
theorem pc_pollChild {c : Child} (hc : s.children a = some c) (poll : Option Received) :
    ((s.pollChild a poll).children a).map Child.pc = some (writeFileOkAckState c poll).pc := by
  rw [children_pollChild, if_pos rfl, hc]
  rfl

/-- An ack is received as one, whatever the array held. -/
theorem flag_safeRecvfrom_of_ack (hf : f.flag = 34) (stale : Bytes) {len : ℕ} (hlen : 7 ≤ len) :
    (safeRecvfrom stale len f.datagram).flag = 34 := by
  rw [Flight.flag, List.getD_eq_getElem?_getD] at hf
  have hlt : 6 < f.datagram.bytes.length := by
    by_contra hge
    rw [List.getElem?_eq_none (by omega)] at hf
    exact absurd hf (by decide)
  rw [Received.flag, safeRecvfrom, List.getD_eq_getElem?_getD,
    List.getElem?_append_left (by rw [List.length_take]; omega),
    List.getElem?_take_of_lt (by omega), hf]

/-! ## One step -/

/-- **A datagram arrives** at the server, at the client's socket, or at a child. -/
theorem Inv.deliver {i : ℕ} {stale : Bytes} (h : Inv cfg s) (hf : s.inFlight[i]? = some f)
    (hheard : s.Polls f.dest → (safeRecvfrom stale (MAXBUF + 7) f.datagram).flag = 9 →
      s.Waiting f.datagram.srcAddr)
    (hs : (s.without i).deliver cfg f stale = some t) : Inv cfg t := by
  rw [Setup.deliver] at hs
  split_ifs at hs with hserver hclient hchild
  · obtain rfl := Option.some.inj hs
    exact (h.without hf fun ha => absurd hserver (h.accepted_apart ha).1).accept
  · have hi : Inv cfg (s.without i) := h.without hf
      fun ha => absurd (List.mem_of_mem_head? hclient) (h.accepted_apart ha).2
    split at hs
    · next count hpc =>
      refine hi.rcopyStep (a := f.dest) hs fun stale' d hd => ⟨hclient, fun hflag => ?_⟩
      obtain ⟨rfl, rfl⟩ := RcopyAct.receive.inj hd
      exact hheard ⟨hclient, count, hpc⟩ hflag
    · cases hs
    · obtain rfl := Option.some.inj hs
      exact hi
  · obtain rfl := Option.some.inj hs
    obtain ⟨c, hc, hpc⟩ := hchild.exists_child
    have hstate := pc_pollChild hc (some (safeRecvfrom stale MAXBUF f.datagram))
    refine h.pollChild rfl rfl
      (fun g hg _ hne => mem_without hf hg fun heq => hne (heq ▸ rfl)) fun ha => ?_
    by_cases hflag : (safeRecvfrom stale MAXBUF f.datagram).flag = 34
    · refine .inl (hstate.trans ?_)
      simp only [writeFileOkAckState, if_pos hflag]
    · rcases h.served _ ha with hdata | ⟨-, g, hg, hack, hdest⟩
      · exact absurd (hdata.symm.trans hchild) (by decide)
      · refine .inr ⟨hstate.trans ?_, g, mem_without hf hg ?_, hack, hdest⟩
        · simp only [writeFileOkAckState, if_neg hflag]
        · rintro rfl
          exact hflag (flag_safeRecvfrom_of_ack hack stale (by decide))
  · obtain rfl := Option.some.inj hs
    exact h.without hf fun _ _ => hchild

/-- **A poll of a child comes back empty.** -/
theorem Inv.childTimeout (h : Inv cfg s) (hw : s.Waiting a)
    (hheard : ∀ c ∈ s.children a, 9 ≤ c.count → ∀ f ∈ s.inFlight, f.flag = 34 → f.dest ≠ a) :
    Inv cfg (s.pollChild a none) := by
  obtain ⟨c, hc, hpc⟩ := hw.exists_child
  refine h.pollChild rfl rfl (fun f hf _ _ => hf) fun ha => ?_
  rcases h.served a ha with hdata | ⟨-, f, hf, hflag, hdest⟩
  · exact absurd (hdata.symm.trans hw) (by decide)
  · have hcount : c.count + 1 < 10 := by
      by_contra hge
      exact hheard c hc (by omega) f hf hflag hdest
    refine .inr ⟨(pc_pollChild hc none).trans ?_, f, hf, hflag, hdest⟩
    simp only [writeFileOkAckState, if_pos hcount]

/-- **The invariant is kept** by every step that keeps no waiting child from its ack. -/
theorem Inv.step {ev : SetupEvent} (h : Inv cfg s) (hheard : s.AckHeard ev)
    (hs : s.step cfg ev = some t) : Inv cfg t := by
  cases ev with
  | client a | clientTimeout a => exact h.rcopyStep (a := a) hs (by simp)
  | child j a => exact h.runChild hs
  | childTimeout a =>
    rw [Setup.step] at hs
    split at hs
    case isFalse => cases hs
    case isTrue hw =>
      obtain rfl := Option.some.inj hs
      exact h.childTimeout hw hheard
  | deliver i stale =>
    obtain ⟨f, hf, hs⟩ := Option.bind_eq_some_iff.mp hs
    exact h.deliver hf (hheard f hf) hs
  | lose i =>
    obtain ⟨f, hf, rfl⟩ := Option.map_eq_some_iff.mp hs
    exact h.without hf fun _ hflag => hheard f hf hflag

/-! ## Whole runs -/

variable {es : List (Edge Setup SetupEvent Unit)}

/-- **`rcopy` is never stranded** in a run that keeps no waiting child from its ack — whatever else
is lost, delayed or reordered, and however many children the retries leave behind. -/
theorem not_stranded (run : Run (machine cfg) AckHeard enter es s) : ¬ s.Stranded := by
  have hi : Inv cfg s := run.invariant inv_enter fun s ev t o h hheard hs => by
    obtain ⟨t', hs', heq⟩ := Option.map_eq_some_iff.mp hs
    obtain ⟨rfl, -⟩ := Prod.mk.inj heq
    exact h.step hheard hs'
  rintro ⟨-, a, ha, hdone⟩
  exact (hi.served a ha).ne_done hdone

/-- The host, the files and the command line of the runs below. -/
def oneFile : SetupConfig where
  host := .standard .little
  argv := commandLine [53] [49, 48]
  serverAddr := ⟨0, 0⟩
  fopen := fun _ => some [65]
  creates := fun _ => true
  calloc := fun _ => true

/-- The request is lost, the second attempt is answered, and the ack arrives. -/
theorem not_stranded_retried :
    ∃ (es : List (Edge Setup SetupEvent Unit)) (s : Setup),
      Run (machine oneFile) AckHeard enter es s
        ∧ s.client.pc = .receiving ∧ s.client.accepted = some ⟨0, 1⟩ ∧ ¬ s.Stranded := by
  obtain ⟨es, s, run, h⟩ := exists_run_of_replay (M := machine oneFile) (G := AckHeard) (s := enter)
    [.client ⟨1, 1⟩, .client ⟨1, 1⟩, .lose 0, .clientTimeout ⟨1, 2⟩, .deliver 0 [],
      .child 0 ⟨0, 1⟩, .deliver 0 [], .client ⟨1, 3⟩, .deliver 0 []]
    (P := fun _ s => s.client.pc = .receiving ∧ s.client.accepted = some ⟨0, 1⟩) (by decide +kernel)
  obtain ⟨hpc, haccepted⟩ := of_decide_eq_true h
  exact ⟨es, s, run, hpc, haccepted, not_stranded run⟩

/-- **One lost ack strands `rcopy`**: nothing else is lost, and every poll of the child that comes
back empty does so with nothing in flight. -/
theorem lost_ack_strands :
    ∃ (es : List (Edge Setup SetupEvent Unit)) (s : Setup),
      Run (machine oneFile) (fun _ _ => True) enter es s
        ∧ (es.filter fun x => x.event matches .lose _).length = 1
        ∧ (∀ x ∈ es, (x.event matches .childTimeout _) → x.source.inFlight = [])
        ∧ s.Stranded := by
  obtain ⟨es, s, run, h⟩ := exists_run_of_replay (M := machine oneFile) (G := fun _ _ => True)
    (s := enter)
    ([.client ⟨1, 1⟩, .client ⟨1, 1⟩, .deliver 0 [], .child 0 ⟨0, 1⟩, .deliver 0 [], .lose 0,
      .client ⟨1, 2⟩] ++ List.replicate 10 (.childTimeout ⟨0, 1⟩))
    (P := fun es s => (es.filter fun x => x.event matches .lose _).length = 1
      ∧ (∀ x ∈ es, (x.event matches .childTimeout _) → x.source.inFlight = [])
      ∧ s.client.pc = .receiving ∧ s.client.accepted = some ⟨0, 1⟩
      ∧ (s.children ⟨0, 1⟩).map Child.pc = some (.next .done)) (by decide +kernel)
  obtain ⟨hlost, hquiet, hpc, haccepted, hdone⟩ := of_decide_eq_true h
  exact ⟨es, s, run, hlost, hquiet, hpc, _, haccepted, hdone⟩

end Setup

end RemoteFileCopy
