import Mathlib.Algebra.Order.BigOperators.Group.Finset
import RemoteFileCopy.System.Progress
import RemoteFileCopy.System.Safety

/-!
# System/Completion — on a prompt network every copy completes

Every step belongs to one `rcopy` and leaves the others where they were (`Wired.step_owner`), so
what is left to do is the sum of what each has left, and every step lowers it.  Where no step is
left, nobody waits for anything: every `rcopy` is done and has its file
(`World.copies_complete`).
-/

namespace RemoteFileCopy

open Transition

namespace World

variable {ι : Type} {site : Site ι} {w w' : World site} {i j : ι} {a p : SockAddr}
  {sends : List Send}

/-! ## Addresses do not run out -/

theorem exists_fresh_enter (site : Site ι) :
    ∃ N, ∀ a : SockAddr, N ≤ a.host → (enter site).Fresh a := by
  refine ⟨site.serverAddr.host + 1, fun a ha => ⟨?_, fun i => List.not_mem_nil, rfl⟩⟩
  rintro rfl
  omega

theorem fresh_childStep {ev : ServerEvent} (hs : w.childStep a ev = some (w', sends)) :
    ∃ a, ∀ b, b ≠ a → w.Fresh b → w'.Fresh b := by
  obtain ⟨c, c', -, -, rfl⟩ := childStep_eq_some hs
  exact ⟨a, fun b hb hfresh => ⟨hfresh.1, hfresh.2.1,
    (Function.update_of_ne hb _ _).trans hfresh.2.2⟩⟩

theorem fresh_rcopyStep [DecidableEq ι] {act : RcopyAct}
    (hs : w.rcopyStep i act = some (w', sends)) :
    ∃ a, ∀ b, b ≠ a → w.Fresh b → w'.Fresh b := by
  obtain ⟨q, hstep, rfl⟩ := rcopyStep_eq_some hs
  obtain ⟨a, ha⟩ : ∃ a, ∀ b, b ∈ q.sockets → b = a ∨ b ∈ (w.rcopy i).sockets := by
    cases RcopyProcess.step_cases hstep with
    | attempt hasks act a => exact ⟨a, fun b hb => List.mem_cons.mp hb⟩
    | started | gaveUp | accepted | refused | entered | turn =>
      exact ⟨site.serverAddr, fun b hb => .inr hb⟩
  refine ⟨a, fun b hb hfresh => ⟨hfresh.1, fun j hj => ?_, hfresh.2.2⟩⟩
  rcases eq_or_ne j i with rfl | hne
  · rw [rcopy_setRcopy_self] at hj
    exact (ha b hj).elim hb (hfresh.2.1 _)
  · rw [rcopy_setRcopy_of_ne hne] at hj
    exact hfresh.2.1 j hj

/-- **A step opens one socket at most.** -/
theorem fresh_step [DecidableEq ι] {ev : WorldEvent ι} (hs : w.step ev = some (w', sends)) :
    ∃ a, ∀ b, b ≠ a → w.Fresh b → w'.Fresh b := by
  cases step_cases hs with
  | run i a hs | timeout i a hs => exact fresh_rcopyStep hs
  | childRun a hs | childQuiet a hs => exact fresh_childStep hs
  | fork j a =>
    exact ⟨a, fun b hb hfresh => ⟨hfresh.1, hfresh.2.1,
      (Function.update_of_ne hb _ _).trans hfresh.2.2⟩⟩
  | lose | duplicate => exact ⟨site.serverAddr, fun b hb hfresh => hfresh⟩
  | childHear hk hs =>
    obtain ⟨a, ha⟩ := fresh_childStep hs
    exact ⟨a, ha⟩
  | hear i hk hhead hs =>
    obtain ⟨a, ha⟩ := fresh_rcopyStep hs
    exact ⟨a, ha⟩
  | accept =>
    refine ⟨site.serverAddr, fun b hb hfresh => ?_⟩
    rw [World.accept]
    split <;> exact hfresh

/-- **There is always an address left.** -/
theorem exists_fresh_of_run [DecidableEq ι] {G : World site → WorldEvent ι → Prop}
    {es : List (Edge (World site) (WorldEvent ι) (List Send))}
    (run : Run (machine site) G (enter site) es w) : ∃ b, w.Fresh b := by
  obtain ⟨N, hN⟩ := run.invariant (P := fun w => ∃ N, ∀ a : SockAddr, N ≤ a.host → w.Fresh a)
    (exists_fresh_enter site) fun w ev w' o ⟨N, hN⟩ _ hs => by
      obtain ⟨a, ha⟩ := fresh_step hs
      refine ⟨max N (a.host + 1), fun b hb => ha b ?_ (hN b (le_trans (le_max_left _ _) hb))⟩
      rintro rfl
      have := le_max_right N (b.host + 1)
      omega
  exact ⟨⟨N, 0⟩, hN _ le_rfl⟩

/-! ## Whose step it is -/

/-- What leaves the network changes nothing for those it does not belong to. -/
theorem Wired.only_without (hw : w.Wired) {k : ℕ} {f : Flight} (hk : w.inFlight[k]? = some f)
    (hf : f.Meets (w.rcopy i).sockets) (hj : j ≠ i) : (w.without k).only j = w.only j :=
  only_without_of_not hk (hw.not_meets (List.mem_of_getElem? hk) hf hj)

variable [∀ i, NeZero (site.windowSize i).toNat]

/-- **A step of the child at `a`** is one of the `rcopy` it answers. -/
theorem Wired.childStep_owner (h : ∀ i, Completes site i) (hw : w.Wired) {n : ι → ℕ}
    (hstage : ∀ i, Stage site i w (n i)) {ev : ServerEvent}
    (hev : ev = .run ∨ ev = .quiet ∧ ((w.children a).any ProcessClient.draining
      ∨ ∀ f ∈ w.inFlight, f.datagram.srcAddr ≠ a ∧ f.dest ≠ a))
    (hs : w.childStep a ev = some (w', sends)) :
    ∃ i, (∃ m < n i, Stage site i w' m) ∧ ∀ j ≠ i, w'.only j = w.only j := by
  obtain ⟨c, -, hchild, -⟩ := childStep_eq_some hs
  obtain ⟨-, i, hmem, -⟩ := hw.child a c hchild
  have hev' : w.GoesOn a c ev := by simpa [GoesOn, hchild] using hev
  have hsrc : ∀ stale x, ev = .receive stale x → x.srcAddr = c.clientAddr := by
    rcases hev with rfl | ⟨rfl, -⟩ <;> simp
  refine ⟨i, (hstage i).childStep (h i) hw hchild hmem hev' hs, fun j hj => ?_⟩
  exact (only_childStep hw hs hchild hsrc j).1 fun hm => hj ((hw.socket i _ hmem).2.2 j hm)

variable [DecidableEq ι]

section Deliver

variable {n : ι → ℕ} (hw : w.Wired) (hstage : ∀ i, Stage site i w (n i)) {k : ℕ} {f : Flight}
  (hk : w.inFlight[k]? = some f) (hold : w.OldestAt k) {stale : Bytes}
include hw hstage hk hold

omit [DecidableEq ι] in
/-- **What the accept loop hears** is progress of the `rcopy` that asked. -/
theorem Wired.accept_owner (hdest : f.dest = site.serverAddr) :
    ∃ i, (∃ m < n i, Stage site i
        ((w.without k).accept (safeRecvfrom stale MAXBUF f.datagram)) m)
      ∧ ∀ j ≠ i, only ((w.without k).accept (safeRecvfrom stale MAXBUF f.datagram)) j
        = w.only j := by
  cases hw.flight f (List.mem_of_getElem? hk) with
  | request i hsrc =>
    refine ⟨i, (hstage i).accept hk hold hdest hsrc stale, fun j hj => ?_⟩
    exact (only_accept_of_not_mem (w := w.without k)
      fun hm => hj ((hw.socket i _ hsrc).2.2 j hm)).trans (hw.only_without hk (.inl hsrc) hj)
  | reply c hc hdest' =>
    obtain ⟨-, j, hj, -⟩ := hw.child _ c hc
    exact absurd (hdest'.symm.trans hdest) (hw.socket j _ hj).1
  | answer i c haccepted hc => exact absurd hdest (hw.child _ c hc).1

omit [DecidableEq ι] in
/-- **What a child hears** is progress of the `rcopy` it answers. -/
theorem Wired.childHear_owner (h : ∀ i, Completes site i)
    (hs : (w.without k).childStep f.dest (.receive stale f.datagram) = some (w', sends)) :
    ∃ i, (∃ m < n i, Stage site i w' m) ∧ ∀ j ≠ i, w'.only j = w.only j := by
  obtain ⟨c, -, hchild, -⟩ := childStep_eq_some hs
  have hchild' : w.children f.dest = some c := hchild
  obtain ⟨-, i, hmem, -⟩ := hw.child _ c hchild'
  refine ⟨i, (hstage i).childHear (h i) hw hk hold hchild' hmem hs, fun j hj => ?_⟩
  have hsrc := (hw.heard_by_child (List.mem_of_getElem? hk) hchild').1
  exact ((only_childStep (hw.without k) hs hchild (fun _ _ hx => by cases hx; exact hsrc) j).1
    fun hm => hj ((hw.socket i _ hmem).2.2 j hm)).trans
      (hw.only_without hk (.inl (hsrc ▸ hmem)) hj)

end Deliver

/-- **Every step of a prompt run is progress of one `rcopy`**, and nothing to the others. -/
theorem Wired.step_owner (h : ∀ i, Completes site i) (hw : w.Wired) {n : ι → ℕ}
    (hstage : ∀ i, Stage site i w (n i)) {ev : WorldEvent ι} (hg : w.Prompt ev)
    (hs : w.step ev = some (w', sends)) :
    ∃ i, (∃ m < n i, Stage site i w' m) ∧ ∀ j ≠ i, w'.only j = w.only j := by
  have hw' : w'.Wired := hw.step hg.opens hs
  cases step_cases hs with
  | timeout | duplicate => exact hg.elim
  | run i b hs =>
    exact ⟨i, (hstage i).run (h i) hw hg hs, fun j hj => only_rcopyStep_of_ne hj hw' hs⟩
  | @fork k b r hr =>
    obtain ⟨i, hmem, -⟩ := hw.forked r (List.mem_of_getElem? hr)
    refine ⟨i, (hstage i).fork hw hr hg hmem, fun j hj => ?_⟩
    exact only_fork_of_not_mem hr (fun hm => hj ((hw.socket i _ hmem).2.2 j hm)) hg.2.2
  | childRun b hs => exact hw.childStep_owner h hstage (.inl rfl) hs
  | childQuiet b hs => exact hw.childStep_owner h hstage (.inr ⟨rfl, hg⟩) hs
  | accept hk hdest => exact hw.accept_owner hstage hk hg hdest
  | hear i hk hhead hs =>
    refine ⟨i, (hstage i).hear (h i) hw hk hg hhead hs, fun j hj => ?_⟩
    exact (only_rcopyStep_of_ne hj hw' hs).trans
      (hw.only_without hk (.inr (List.mem_of_mem_head? hhead)) hj)
  | childHear hk hs => exact hw.childHear_owner hstage hk hg h hs
  | @lose k f hk =>
    obtain ⟨hold, i, hhead, hend⟩ := hg
    rw [hk] at hhead
    have hdest : f.dest ∈ (w.rcopy i).sockets := List.mem_of_mem_head? hhead.symm
    refine ⟨i, (hstage i).lose hw hk hold hhead.symm hend, fun j hj => ?_⟩
    exact hw.only_without hk (.inr hdest) hj

/-! ## Where no step is left -/

section Stuck

omit [∀ i, NeZero (site.windowSize i).toNat]

/-- The oldest datagram of a channel cannot be delivered. -/
theorem deliver_of_stuck (hstuck : Stuck (machine site) Prompt w) {src dest : SockAddr} {d : Bytes}
    {rest : List Bytes} (h : w.channel src dest = d :: rest) (stale : Bytes)
    (receiver : Receiver ι) :
    ∃ k, (w.without k).deliver ⟨dest, ⟨src, d⟩⟩ stale receiver = none := by
  obtain ⟨k, hk, hold⟩ := exists_oldestAt h
  refine ⟨k, ?_⟩
  have hnone := hstuck (.deliver receiver k stale) hold
  simpa only [machine, World.step, hk, Option.bind_some] using hnone

/-- A child cannot go on. -/
theorem childStep_of_stuck (hstuck : Stuck (machine site) Prompt w) {c : ProcessClient}
    (hc : w.children a = some c) : c.step site.host site.fopen .run = none := by
  have hnone : w.childStep a .run = none := hstuck (.childRun a) trivial
  simpa [World.childStep, hc] using hnone

/-- An `rcopy` cannot go on. -/
theorem run_of_stuck (hstuck : Stuck (machine site) Prompt w) {b : SockAddr} (hb : w.Fresh b)
    (i : ι) : (w.rcopy i).step (site.setup i) (.run b) = none :=
  Option.map_eq_none_iff.mp (hstuck (.run i b) hb)

omit [DecidableEq ι] in
/-- **Nothing is on its way to a child or from it** where its two channels are empty. -/
theorem Serving.silent {c : ProcessClient} (h : w.Serving i p a c [] []) (hw : w.Wired) :
    ∀ f ∈ w.inFlight, f.datagram.srcAddr ≠ a ∧ f.dest ≠ a := by
  intro f hf
  have empty : ∀ {src dest : SockAddr}, w.channel src dest = [] → ¬ f.IsOn src dest := by
    intro src dest hnil hon
    rw [channel, List.map_eq_nil_iff, List.filter_eq_nil_iff] at hnil
    exact hnil f hf (decide_eq_true hon)
  have socket : ∀ {k : ι} {x : SockAddr}, x ∈ (w.rcopy k).sockets → x ≠ a :=
    fun hx => (hw.ne_of_child hx h.child).symm
  cases hw.flight f hf with
  | request k hsrc hdest =>
    exact ⟨socket hsrc, hdest ▸ (hw.child a c h.child).1.symm⟩
  | reply d hd hdest =>
    obtain ⟨-, k, hk, -⟩ := hw.child _ d hd
    refine ⟨fun heq => empty h.toClient ⟨heq, ?_⟩, hdest ▸ socket hk⟩
    rw [heq, h.child] at hd
    rw [hdest, ← Option.some_inj.mp hd, h.addr]
  | answer k d haccepted hd hsrc =>
    obtain ⟨-, k, hk, -⟩ := hw.child _ d hd
    refine ⟨hsrc ▸ socket hk, fun heq => empty h.toServer ⟨?_, heq⟩⟩
    rw [heq, h.child] at hd
    rw [hsrc, ← Option.some_inj.mp hd, h.addr]

section Transfer

variable [NeZero (site.windowSize i).toNat] (hstuck : Stuck (machine site) Prompt w)
  {s : DataPhase (site.windowSize i).toNat} (hr : Receives site i w a s 0)
  (h : w.Serving i p a (.transfer s.server) s.toClient s.toServer)
include hstuck hr h

omit [NeZero (site.windowSize i).toNat] in
/-- What comes for a client that has acknowledged the EOF has been dropped. -/
theorem Serving.toClient_eq_nil (hdone : s.client.pc = .done) : s.toClient = [] := by
  by_contra hne
  obtain ⟨d, rest, hd⟩ := List.exists_cons_of_ne_nil hne
  obtain ⟨k, hk, hold⟩ := exists_oldestAt (h.toClient.trans hd)
  have hprompt : w.Prompt (.lose k) :=
    ⟨hold, i, by rw [hk, h.sockets]; rfl, .inr (hr.alike.pc.trans hdone)⟩
  have hnone := hstuck _ hprompt
  simp [machine, World.step, hk] at hnone

/-- **Nothing can be delivered** in a transfer that is left. -/
theorem Serving.deliver_eq_none {side : Side} {k : ℕ} {stale bytes : Bytes}
    (hg : s.Fifo (.deliver side k stale bytes)) :
    s.step (site.config i p a) (.deliver side k stale bytes) = none := by
  obtain ⟨rfl, rest, hd⟩ := hg.oldest
  cases side with
  | server =>
    obtain ⟨k, hnone⟩ := deliver_of_stuck hstuck (h.toServer.trans hd) stale .child
    have hchild : (w.without k).children a = some (.transfer s.server) := h.child
    simp only [World.deliver, World.childStep, hchild, Option.bind_some,
      Option.map_eq_none_iff] at hnone
    refine (DataPhase.step_deliver_server (site.config i p a) hd stale bytes).trans ?_
    exact Option.map_eq_none_iff.mpr (Option.map_eq_none_iff.mp hnone)
  | client =>
    obtain ⟨k, hnone⟩ := deliver_of_stuck hstuck (h.toClient.trans hd) stale (.rcopy i)
    have hhead : ((w.without k).rcopy i).sockets.head? = some p := by
      rw [show ((w.without k).rcopy i).sockets = [p] from h.sockets, List.head?_cons]
    have hpc : ((w.without k).rcopy i).pc = .receiving := (hr.pc.resolve_left (by simp)).1
    simp only [World.deliver, hhead, if_true, World.rcopyStep, Option.map_eq_none_iff] at hnone
    rw [RcopyProcess.step_receiving (site.setup i) hpc, Option.map_eq_none_iff] at hnone
    refine (DataPhase.step_deliver_client (site.config i p a) hd stale bytes).trans ?_
    refine Option.map_eq_none_iff.mpr (Client.step_eq_none_iff.mpr fun state hstate => ?_)
    exact Client.step_eq_none_iff.mp hnone state (hr.alike.pc.trans hstate)

/-- **A transfer is not left where it could go on.** -/
theorem Serving.stuck (hw : w.Wired) (hp : Phased (site.config i p a) s) :
    Stuck (DataPhase.machine (site.windowSize i).toNat (site.config i p a)) DataPhase.Fifo s := by
  intro ev hg
  cases ev with
  | duplicate => exact hg.elim
  | run =>
    have hnone := childStep_of_stuck hstuck h.child
    exact Option.map_eq_none_iff.mpr (Option.map_eq_none_iff.mp hnone)
  | quiet =>
    have hprompt : w.Prompt (.childQuiet a) := by
      rcases hg with hdrain | ⟨hc, hs⟩
      · left
        simp [h.child, ProcessClient.draining, hdrain]
      · right
        rw [hc, hs] at h
        exact h.silent hw
    have hnone : w.childStep a .quiet = none := hstuck _ hprompt
    simp only [World.childStep, h.child, Option.bind_some, Option.map_eq_none_iff] at hnone
    exact Option.map_eq_none_iff.mpr (Option.map_eq_none_iff.mp hnone)
  | lose side k =>
    obtain ⟨rfl, rfl, hrecv⟩ := hg
    have hdone : s.client.pc = .done := by
      obtain ⟨v, hf | he | hend⟩ := hp
      · exact absurd (by simp [DataPhase.Receiving, hf.inOrder]) hrecv
      · exact absurd (by simp [DataPhase.Receiving, he.inOrder]) hrecv
      · exact hend.client
    simp [DataPhase.machine, DataPhase.step, DataPhase.inFlight, h.toClient_eq_nil hstuck hr hdone]
  | deliver => exact h.deliver_eq_none hstuck hr hg

end Transfer

/-- **Nobody is left waiting**: every `rcopy` is in its transfer, and all its steps are taken. -/
theorem Stage.transfer_of_stuck [NeZero (site.windowSize i).toNat] (hc : Completes site i)
    (hstuck : Stuck (machine site) Prompt w) (hw : w.Wired) {b : SockAddr} (hb : w.Fresh b) {n : ℕ}
    (h : Stage site i w n) : ∃ p a s, Phased (site.config i p a) s
      ∧ Stuck (DataPhase.machine (site.windowSize i).toNat (site.config i p a)) DataPhase.Fifo s
      ∧ Receives site i w a s 0 ∧ w.Serving i p a (.transfer s.server) s.toClient s.toServer := by
  have hmax : MAXBUF = 1400 := rfl
  have hrun := run_of_stuck hstuck hb i
  have received : ∀ a (s : DataPhase (site.windowSize i).toNat) m, Receives site i w a s m →
      m = 0 := by
    intro a s m hr
    rcases hr.pc with ⟨hpc, -⟩ | ⟨-, rfl⟩
    · rw [RcopyProcess.step_waitOnData (site.setup i) hpc hc.calloc hc.creates] at hrun
      cases hrun
    · rfl
  cases h with
  | asking m hsockets hpc =>
    rcases hpc with ⟨hpc, -⟩ | ⟨hpc, -⟩
    · rw [RcopyProcess.step_start (site.setup i) hpc] at hrun
      cases hrun
    · rw [RcopyProcess.step_waitOnFileOk (site.setup i) hpc] at hrun
      cases hrun
  | requested p hpc h =>
    obtain ⟨k, hnone⟩ := deliver_of_stuck hstuck h.requests [] .acceptLoop
    simp [World.deliver] at hnone
  | forked p r hpc h =>
    obtain ⟨j, hj⟩ := List.mem_iff_getElem?.mp
      (List.mem_filter.mp (h.forked ▸ List.mem_singleton_self r : r ∈ w.forked.filter _)).1
    have hnone := hstuck (.fork j b) hb
    simp [machine, World.step, hj] at hnone
  | started p a r hpc h =>
    have hnone := childStep_of_stuck hstuck h.child
    simp [ProcessClient.step] at hnone
  | replied p a hpc h =>
    obtain ⟨k, hnone⟩ := deliver_of_stuck hstuck h.toClient [] (.rcopy i)
    have hhead : ((w.without k).rcopy i).sockets.head? = some p := by
      rw [show ((w.without k).rcopy i).sockets = [p] from h.sockets, List.head?_cons]
    have hpc' : ((w.without k).rcopy i).pc = .polling 0 := hpc
    have hflag : (safeRecvfrom [] (MAXBUF + 7) ⟨a, okPDU site i⟩).flag = 9 :=
      flag_safeRecvfrom _ _ _ _ _ _ (by omega)
    simp only [World.deliver, hhead, if_true, World.rcopyStep, Option.map_eq_none_iff] at hnone
    rw [RcopyProcess.step_ok (site.setup i) hpc' hc.creates hflag] at hnone
    cases hnone
  | acked p a m hr h =>
    obtain ⟨k, hnone⟩ := deliver_of_stuck hstuck h.toServer [] .child
    have hchild : (w.without k).children a = some (waiting site i p) := h.child
    simp [World.deliver, World.childStep, hchild, waiting, ProcessClient.step] at hnone
  | ready p a m hr h =>
    have hnone := childStep_of_stuck hstuck h.child
    simp [ProcessClient.step] at hnone
  | transfer p a s m hp hr h =>
    obtain rfl := received a s m hr
    exact ⟨p, a, s, hp, h.stuck hstuck hr hw hp, hr, h⟩

end Stuck

/-! ## Whole runs -/

omit [∀ i, NeZero (site.windowSize i).toNat] in
/-- **Every copy completes.**  On a prompt network a run of any number of `rcopy`s takes at most
five steps a chunk and fifty-four more for each of them; and where no step is left every `rcopy` is
done and its output is the file it asked for, and so is the child it accepted. -/
theorem copies_complete [Fintype ι] (h : ∀ i, Completes site i)
    {es : List (Edge (World site) (WorldEvent ι) (List Send))}
    (run : Run (machine site) Prompt (enter site) es w) :
    es.length ≤ ∑ i, (5 * numChunks (site.bufferSize i).toNat (site.source i) + 54)
      ∧ (Stuck (machine site) Prompt w → ∀ i, (w.rcopy i).data.pc = .done
          ∧ (w.rcopy i).data.info.outFile = site.source i
          ∧ ∃ a, ∃ σ : Server (site.windowSize i).toNat, (w.rcopy i).accepted = some a
            ∧ w.children a = some (.transfer σ) ∧ σ.pc = .next .done) := by
  have : ∀ i, NeZero (site.windowSize i).toNat := fun i => ⟨(h i).window.ne'⟩
  obtain ⟨N, ⟨hw, n, hstage, rfl⟩, hlen⟩ := run.exists_rank
    (R := fun w N => w.Wired ∧ ∃ n : ι → ℕ, (∀ i, Stage site i w (n i)) ∧ ∑ i, n i = N)
    ⟨wired_enter, _, fun i => stage_enter, rfl⟩ fun w ev w' o N ⟨hw, n, hstage, hN⟩ hg hs => by
      obtain ⟨i, ⟨m, hlt, hm⟩, hothers⟩ := hw.step_owner h hstage hg hs
      refine ⟨∑ j, Function.update n i m j, ?_, hw.step hg.opens hs, _, fun j => ?_, rfl⟩
      · rw [← hN]
        refine Finset.sum_lt_sum (fun j _ => ?_)
          ⟨i, Finset.mem_univ i, by rwa [Function.update_self]⟩
        rcases eq_or_ne j i with rfl | hj
        · rw [Function.update_self]
          exact hlt.le
        · rw [Function.update_of_ne hj]
      · rcases eq_or_ne j i with rfl | hj
        · rwa [Function.update_self]
        · rw [Function.update_of_ne hj]
          exact (hstage j).congr (hothers j hj)
  refine ⟨?_, fun hstuck i => ?_⟩
  · refine (Nat.le_add_right _ _).trans (hlen.trans (Finset.sum_le_sum fun i _ => ?_))
    simp only [load]
    omega
  · obtain ⟨b, hb⟩ := exists_fresh_of_run run
    obtain ⟨p, a, s, hp, hs, hr, hserving⟩ :=
      (hstage i).transfer_of_stuck (h i) hstuck hw hb
    obtain ⟨hdone, hout, hserver⟩ := hp.complete_of_stuck hs (h i).chunks
    exact ⟨hr.alike.pc.trans hdone, hr.alike.outFile.trans hout, a, s.server, hr.accepted,
      hserving.child, hserver⟩

/-- Both of two copies. -/
theorem copies_complete_two : ∃ es w, Run (machine twoCopies) Prompt (enter twoCopies) es w
    ∧ es.length ≤ 128 ∧ (w.rcopy 0).data.info.outFile = [65, 66]
    ∧ (w.rcopy 1).data.info.outFile = [67, 68] := by
  have h : ∀ i, Completes twoCopies i := fun i =>
    { name := by revert i; decide +kernel
      opens := rfl
      creates := rfl
      calloc := rfl
      window := by revert i; decide +kernel
      reads := by revert i; decide +kernel
      chunks := by revert i; decide +kernel }
  obtain ⟨es, w, run, hstuck⟩ := exists_stuck_of_length_le fun run => (copies_complete h run).1
  obtain ⟨hlen, hend⟩ := copies_complete h run
  refine ⟨es, w, run, ?_, (hend hstuck 0).2.1.trans (by decide +kernel),
    (hend hstuck 1).2.1.trans (by decide +kernel)⟩
  exact hlen.trans (by decide +kernel)

end World

end RemoteFileCopy
