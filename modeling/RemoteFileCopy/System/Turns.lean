import RemoteFileCopy.System.Stages

/-!
# System/Turns — what is sent and heard between an `rcopy` and its child

`Serving` keeps the two channels between a socket and the child that answers it.  What either end
sends goes to the back of its channel (`Serving.setRcopy`, `Serving.setChild`), and what either end
hears was at the front of the other (`Serving.heard`, `Serving.childHeard`).
-/

namespace RemoteFileCopy

open Transition

namespace World

variable {ι : Type} {site : Site ι} {w : World site} {i : ι} {p a : SockAddr} {sends : List Send}

/-- What an `rcopy` sends goes out from its open socket. -/
theorem channel_setRcopy [DecidableEq ι] {q : RcopyProcess (site.rcopy i).slots}
    (hq : q.sockets.head? = some p) (src dest : SockAddr) :
    (w.setRcopy i q sends).channel src dest
      = w.channel src dest ++ if src = p then DataPhase.arriving dest sends else [] := by
  rw [← channel_send w.inFlight p sends]
  simp only [World.setRcopy, hq, Option.elim_some]
  rfl

/-- What a child sends goes out from its address. -/
theorem channel_setChild (c : ProcessClient) (src dest : SockAddr) :
    (w.setChild a c sends).channel src dest
      = w.channel src dest ++ if src = a then DataPhase.arriving dest sends else [] :=
  channel_send w.inFlight a sends

namespace Serving

variable {c : ProcessClient} {toClient toServer : List Bytes} {k : ℕ} {f : Flight}

theorem mem (h : w.Serving i p a c toClient toServer) : p ∈ (w.rcopy i).sockets :=
  h.sockets ▸ List.mem_singleton_self p

/-- `rcopy` sends to its child. -/
theorem setRcopy [DecidableEq ι] (hw : w.Wired) (h : w.Serving i p a c toClient toServer)
    {q : RcopyProcess (site.rcopy i).slots} (hq : q.sockets = [p]) (sends : List Send)
    (hsends : ∀ m ∈ sends, m.dest = a) :
    (w.setRcopy i q sends).Serving i p a c toClient
      (toServer ++ DataPhase.arriving a sends) := by
  have hpa : a ≠ p := hw.ne_of_child h.mem h.child
  have hserver : a ≠ site.serverAddr := (hw.child a c h.child).1
  have hi : (w.setRcopy i q sends).rcopy i = q := rcopy_setRcopy_self
  have hchannel : ∀ src dest, (w.setRcopy i q sends).channel src dest
      = w.channel src dest ++ if src = p then DataPhase.arriving dest sends else [] :=
    channel_setRcopy (by rw [hq, List.head?_cons])
  refine ⟨by rw [hi]; exact hq, h.child, h.addr, h.only, h.forked, ?_, ?_, ?_⟩
  · have hnone : DataPhase.arriving site.serverAddr sends = [] := by
      rw [DataPhase.arriving, List.map_eq_nil_iff, List.filter_eq_nil_iff]
      intro m hm hdest
      exact hserver ((hsends m hm).symm.trans (of_decide_eq_true hdest))
    rw [hchannel, h.requests, if_pos rfl, hnone]
    rfl
  · rw [hchannel, h.toClient, if_neg hpa, List.append_nil]
  · rw [hchannel, h.toServer, if_pos rfl]

/-- The child sends to `rcopy`. -/
theorem setChild (hw : w.Wired) (h : w.Serving i p a c toClient toServer) (c' : ProcessClient)
    (sends : List Send) (haddr : c'.clientAddr = p) :
    (w.setChild a c' sends).Serving i p a c'
      (toClient ++ DataPhase.arriving p sends) toServer := by
  have hpa : p ≠ a := (hw.ne_of_child h.mem h.child).symm
  refine ⟨h.sockets, Function.update_self _ _ _, haddr, fun b d hd hdp => ?_, h.forked, ?_, ?_, ?_⟩
  · by_contra hne
    exact hne (h.only b d ((Function.update_of_ne hne _ _).symm.trans hd) hdp)
  · rw [channel_setChild, h.requests, if_neg hpa]
    rfl
  · rw [channel_setChild, h.toClient, if_pos rfl]
  · rw [channel_setChild, h.toServer, if_neg hpa, List.append_nil]

/-- **What is delivered to the open socket** is the oldest from its child. -/
theorem heard (hw : w.Wired) (h : w.Serving i p a c toClient toServer)
    (hk : w.inFlight[k]? = some f) (hold : w.OldestAt k) (hdest : f.dest = p) :
    f.datagram.srcAddr = a ∧ ∃ rest, toClient = f.datagram.bytes :: rest
      ∧ (w.without k).Serving i p a c rest toServer := by
  have hhead : (w.rcopy i).sockets.head? = some f.dest := by rw [h.sockets, hdest]; rfl
  obtain ⟨d, hd, haddr, -⟩ := hw.heard_by_rcopy (List.mem_of_getElem? hk) hhead
  have hsrc : f.datagram.srcAddr = a := h.only _ d hd (haddr.symm.trans hdest)
  have hpa : a ≠ p := hw.ne_of_child h.mem h.child
  have hchannel := channel_without hold hk
  rw [hsrc, hdest, h.toClient] at hchannel
  refine ⟨hsrc, _, hchannel, h.sockets, h.child, h.addr, h.only, h.forked, ?_, rfl, ?_⟩
  · rw [channel_without_of_not hk fun hon => hpa (hsrc.symm.trans hon.1), h.requests]
  · rw [channel_without_of_not hk fun hon => hpa (hsrc.symm.trans hon.1), h.toServer]

/-- **What is delivered to the child** is the oldest from its socket. -/
theorem childHeard (hw : w.Wired) (h : w.Serving i p a c toClient toServer)
    (hk : w.inFlight[k]? = some f) (hold : w.OldestAt k) (hdest : f.dest = a) :
    f.datagram.srcAddr = p ∧ ∃ rest, toServer = f.datagram.bytes :: rest
      ∧ (w.without k).Serving i p a c toClient rest := by
  have hsrc : f.datagram.srcAddr = p :=
    (hw.heard_by_child (List.mem_of_getElem? hk) (hdest ▸ h.child)).1.trans h.addr
  have hpa : a ≠ p := hw.ne_of_child h.mem h.child
  have hserver : a ≠ site.serverAddr := (hw.child a c h.child).1
  have hchannel := channel_without hold hk
  rw [hsrc, hdest, h.toServer] at hchannel
  refine ⟨hsrc, _, hchannel, h.sockets, h.child, h.addr, h.only, h.forked, ?_, ?_, rfl⟩
  · rw [channel_without_of_not hk fun hon => hserver (hdest.symm.trans hon.2), h.requests]
  · rw [channel_without_of_not hk fun hon => hpa (hdest.symm.trans hon.2), h.toClient]

/-- No request is on its way from a socket that has its child. -/
theorem no_request (h : w.Serving i p a c toClient toServer) (hk : w.inFlight[k]? = some f)
    (hsrc : f.datagram.srcAddr = p) : f.dest ≠ site.serverAddr := by
  intro hdest
  have hnil := h.requests
  rw [channel, List.map_eq_nil_iff, List.filter_eq_nil_iff] at hnil
  exact hnil f (List.mem_of_getElem? hk) (decide_eq_true ⟨hsrc, hdest⟩)

/-- A poll that waits does not time out while something is on its way. -/
theorem empty_of_silent (h : w.Serving i p a c toClient toServer)
    (hsilent : ∀ f ∈ w.inFlight, f.datagram.srcAddr ≠ a ∧ f.dest ≠ a) :
    toClient = [] ∧ toServer = [] := by
  rw [← h.toClient, ← h.toServer]
  simp only [channel, List.map_eq_nil_iff, List.filter_eq_nil_iff]
  exact ⟨fun f hf hon => (hsilent f hf).1 (of_decide_eq_true hon).1,
    fun f hf hon => (hsilent f hf).2 (of_decide_eq_true hon).2⟩

end Serving

end World

end RemoteFileCopy
