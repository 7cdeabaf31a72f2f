import RemoteFileCopy.System.Safety
import RemoteFileCopy.System.Schedules

/-!
# System/Overrun — two slots more are too many

    W slots    expected = 1    W + 2 arrives ▸ slot 2    1 arrives ▸ written    slot 2 is flushed

A child with `W + 2` slots may send packet `W + 2` before it has heard that anything arrived.  If
that packet overtakes the first, `rcopy` keeps it in the slot of packet 2, with no number beside it,
and once packet 1 has come the flush writes it in place of packet 2.

So the bound of `System/Safety` is exact (`World.copies_safe_iff`).  On a little-endian host every
window size below 256 that is not its own byte swap is past it.
-/

namespace RemoteFileCopy

open Transition
open CircularQueue (slot slot_eq_iff)

/-! ## The client -/

section Client

variable {W : ℕ} [NeZero W] (host : Host)

/-- A flush that begins writes the slot it begins with. -/
theorem ReceiveInfo.prefix_flush (info : ReceiveInfo W) (h : info.canFlush = true) :
    info.outFile ++ info.entry.packet <+: info.flush.outFile := by
  have hloop : ∀ n ≠ 0, info.outFile ++ info.entry.packet <+: (info.flushLoop n).outFile := by
    intro n hn
    obtain ⟨m, rfl⟩ := Nat.exists_eq_succ_of_ne_zero hn
    rw [ReceiveInfo.flushLoop, if_pos h]
    exact flushLoop_induction
      (P := fun info' => info.outFile ++ info.entry.packet <+: info'.outFile) m List.prefix_rfl
      fun _ h _ => h.trans (List.prefix_append _ _)
  exact hloop W (NeZero.ne W)

/-- **A packet kept in the slot of another** is written in its place. -/
theorem Client.overrun {p₁ q p : Bytes} (hp₁ : p₁.length ≤ MAXBUF) (hp : p.length ≤ MAXBUF)
    (hW : W + 2 < 4294967296) (recvAddr a : SockAddr) :
    ∃ c₁ c₂ c₃ sends₁ sends₂ sends₃,
      (Client.enter W recvAddr).step host [] ⟨a, createPDU host (UInt32.ofNat (W + 2)) 16 p⟩
          = some (c₁, sends₁)
        ∧ c₁.step host [] ⟨a, createPDU host 1 16 p₁⟩ = some (c₂, sends₂)
        ∧ c₂.step host [] ⟨a, createPDU host 2 16 q⟩ = some (c₃, sends₃)
        ∧ p₁ ++ p <+: c₃.info.outFile := by
  have hmax : MAXBUF = 1400 := rfl
  have hflag : ∀ (n : UInt32) (q : Bytes),
      IsDataFlag (safeRecvfrom [] (MAXBUF + 7) ⟨a, createPDU host n 16 q⟩).flag := fun n q => by
    rw [flag_safeRecvfrom _ _ _ _ _ _ (by omega)]
    exact .inl rfl
  have hseq : ∀ (n : UInt32) (q : Bytes),
      (safeRecvfrom [] (MAXBUF + 7) ⟨a, createPDU host n 16 q⟩).seqNum host = n := fun n q =>
    seqNum_safeRecvfrom _ _ _ _ _ _ (by omega)
  have hpay : ∀ (n : UInt32) (q : Bytes), q.length ≤ MAXBUF →
      (safeRecvfrom [] (MAXBUF + 7) ⟨a, createPDU host n 16 q⟩).payload = .ok q := fun n q hq =>
    payload_safeRecvfrom _ _ _ _ _ _ (by omega)
  have hlast : (UInt32.ofNat (W + 2)).toNat = W + 2 := UInt32.toNat_ofNat_of_lt' hW
  -- past the gap, and kept
  let info₁ : ReceiveInfo W :=
    { (Client.enter W recvAddr).info.keep (UInt32.ofNat (W + 2)) p with serverAddr := a }
  have h₁ : (Client.enter W recvAddr).step host []
      ⟨a, createPDU host (UInt32.ofNat (W + 2)) 16 p⟩
      = some (⟨.receiving .outOfOrder, info₁⟩, [⟨a, srejPDU host 1⟩]) := by
    have hgap : (Client.enter W recvAddr).info.expected < UInt32.ofNat (W + 2) := by
      rw [UInt32.lt_iff_toNat_lt, hlast]
      exact Nat.lt_add_left W one_lt_two
    have hstep := Client.step_of_turn host (c := Client.enter W recvAddr) rfl
      (turn_inOrder_gt host (hflag (UInt32.ofNat (W + 2)) p) (by rwa [hseq]) (hpay _ _ hp))
    rwa [hseq] at hstep
  -- the gap is filled
  let info₂ : ReceiveInfo W := { info₁ with outFile := p₁, expected := 2 }
  have h₂ : Client.step host ⟨.receiving .outOfOrder, info₁⟩ [] ⟨a, createPDU host 1 16 p₁⟩
      = some (⟨.receiving .flush, info₂⟩, [⟨a, rrPDU host 2⟩]) :=
    Client.step_of_turn host rfl
      (turn_outOfOrder_eq host (hflag 1 p₁) (hseq 1 p₁) (hpay 1 p₁ hp₁))
  -- the flush finds packet `W + 2` in the slot of packet 2
  have hentry : info₂.entry = ⟨p, true⟩ := by
    have hslot : slot W 2 = slot W (UInt32.ofNat (W + 2)).toNat := by
      rw [hlast, slot_eq_iff, Nat.add_mod_left]
    change info₂.buffer (slot W 2) = _
    rw [hslot]
    exact Function.update_self _ _ _
  have hcan : info₂.canFlush = true := by
    have hhigh : info₂.highest = UInt32.ofNat (W + 2) := by
      have hlt : (0 : UInt32) < UInt32.ofNat (W + 2) := by
        rw [UInt32.lt_iff_toNat_lt, hlast]
        exact Nat.succ_pos _
      exact if_pos hlt
    rw [ReceiveInfo.canFlush_iff, hentry, hhigh, hlast]
    exact ⟨Nat.le_add_left 2 W, rfl⟩
  have hout := ReceiveInfo.prefix_flush { info₂ with serverAddr := a } hcan
  rw [show ReceiveInfo.entry { info₂ with serverAddr := a } = ⟨p, true⟩ from hentry] at hout
  rcases turn_flush_cases host info₂ (hflag 2 q) with ⟨-, -, hturn⟩ | ⟨-, hturn⟩
  · exact ⟨_, _, _, _, _, _, h₁, h₂, Client.step_of_turn host rfl hturn, hout⟩
  · exact ⟨_, _, _, _, _, _, h₁, h₂, Client.step_of_turn host rfl hturn, hout⟩

end Client

/-! ## The file -/

/-- **A file of `n` chunks and a byte more**, which is the first that is not zero. -/
def lastByteSet (n b : ℕ) : Bytes := List.replicate (n * b) 0 ++ [1]

section File

variable {n b : ℕ}

theorem numChunks_lastByteSet (hb : 0 < b) : numChunks b (lastByteSet n b) = n + 1 := by
  have hlen : (lastByteSet n b).length = n * b + 1 := by simp [lastByteSet]
  rw [numChunks, hlen, show n * b + 1 + b - 1 = (n + 1) * b by rw [Nat.succ_mul]; omega,
    Nat.mul_div_cancel _ hb]

theorem chunk_lastByteSet_last (hb : 0 < b) : chunk b (lastByteSet n b) (n + 1) = [1] := by
  have hdrop : (lastByteSet n b).drop (n * b) = [1] := List.drop_left' (by simp)
  rw [chunk, Nat.add_sub_cancel, hdrop]
  exact List.take_of_length_le hb

theorem chunk_lastByteSet_one (hn : 0 < n) :
    chunk b (lastByteSet n b) 1 = List.replicate b 0 := by
  have hle : b ≤ n * b := Nat.le_mul_of_pos_left b hn
  rw [chunk, Nat.sub_self, Nat.zero_mul, List.drop_zero, lastByteSet,
    List.take_append_of_le_length (by simpa using hle), List.take_replicate, Nat.min_eq_left hle]

/-- The first chunk is not followed by the last. -/
theorem not_prefix_lastByteSet (hb : 0 < b) (hn : 1 < n) :
    ¬ List.replicate b (0 : UInt8) ++ [1] <+: lastByteSet n b := by
  rintro ⟨rest, h⟩
  have hlt : b < n * b := by simpa using Nat.mul_lt_mul_of_pos_right hn hb
  have hget := congrArg (fun l => l[b]?) h
  simp [lastByteSet, List.getElem?_append, hlt] at hget

end File

/-- A packet carries its number. -/
theorem eq_of_dataPDU_eq {host : Host} {b : ℕ} {src : Bytes} {s t : ℕ} (hs : s < 4294967296)
    (ht : t < 4294967296) (h : dataPDU host b src s = dataPDU host b src t) : s = t := by
  have hseq := congrArg (fun d => ntohl host.endian (loadU32 host.endian d)) h
  simp only [dataPDU, loadU32_createPDU] at hseq
  rw [← UInt32.toNat_ofNat_of_lt' hs, hseq, UInt32.toNat_ofNat_of_lt' ht]

/-! ## The link -/

namespace World

variable {ι : Type} [DecidableEq ι] {site : Site ι} {i : ι} {p a : SockAddr}

/-- **The link of an `rcopy` has come this far**, with at least these datagrams in flight to it. -/
def Linking (site : Site ι) (i : ι) (p a : SockAddr) (σ : Server (site.windowSize i).toNat)
    (c : Client (site.rcopy i).slots) (toClient : Bytes → Prop) : Prop :=
  ∃ children fs, children a = some (.transfer σ)
    ∧ Reached site i ⟨⟨.receiving, [p], some a⟩, c⟩ [] children fs
    ∧ ∀ d, toClient d → (⟨p, ⟨a, d⟩⟩ : Flight) ∈ fs

namespace Linking

variable {σ σ' : Server (site.windowSize i).toNat} {c c' : Client (site.rcopy i).slots}
  {toClient : Bytes → Prop} {sends : List Send}

theorem serverStep (h : Linking site i p a σ c toClient) {ev : ServerEvent}
    (hev : ev = .run ∨ ev = .quiet) (hs : σ.step site.host ev = some (σ', sends)) :
    Linking site i p a σ' c (fun d => toClient d ∨ ⟨p, d⟩ ∈ sends) := by
  obtain ⟨children, fs, hchild, hr, hfs⟩ := h
  have hs' : ProcessClient.step site.host site.fopen (.transfer σ) ev
      = some (.transfer σ', sends) := by
    rw [ProcessClient.step, hs, Option.map_some]
  refine ⟨_, _, Function.update_self _ _ _, hr.childStep hev hchild hs', fun d hd => ?_⟩
  rcases hd with hd | hd
  · exact List.mem_append_left _ (hfs d hd)
  · exact List.mem_append_right _ (mem_sendFrom.mpr ⟨_, hd, rfl⟩)

theorem hear (h : Linking site i p a σ c toClient) {d : Bytes} (hd : toClient d)
    (hs : c.step site.host [] ⟨a, d⟩ = some (c', sends)) :
    Linking site i p a σ c' (fun d' => toClient d' ∧ d' ≠ d) := by
  obtain ⟨children, fs, hchild, hr, hfs⟩ := h
  obtain ⟨k, hk⟩ := List.getElem?_of_mem (hfs d hd)
  have hs' : RcopyProcess.step (site.setup i) ⟨⟨.receiving, [p], some a⟩, c⟩ (.receive [] ⟨a, d⟩)
      = some (⟨⟨.receiving, [p], some a⟩, c'⟩, sends) := by
    simp [RcopyProcess.step, Site.setup, hs]
  refine ⟨_, _, hchild, hr.hear hk rfl [] hs', fun d' h => ?_⟩
  obtain ⟨hd', hne⟩ := h
  refine List.mem_append_left _ ((List.mem_eraseIdx_iff_getElem?).mpr ?_)
  obtain ⟨k', hk'⟩ := List.getElem?_of_mem (hfs d' hd')
  refine ⟨k', fun heq => hne ?_, hk'⟩
  rw [heq, hk] at hk'
  simpa using hk'.symm

end Linking

/-- **The child sends its first `n` packets** while it hears nothing. -/
theorem linking_sent [NeZero (site.windowSize i).toNat] {c : Client (site.rcopy i).slots}
    (h : Linking site i p a (.enter _ p (site.source i) (site.windowSize i) (site.bufferSize i)) c
      fun _ => False) (hmax : (site.bufferSize i).toNat ≤ MAXBUF) (n : ℕ)
    (hV : n ≤ (site.windowSize i).toNat)
    (hmore : n ≤ numChunks (site.bufferSize i).toNat (site.source i)) :
    ∃ σ w, Linking site i p a σ c (fun d => ∃ s, 1 ≤ s ∧ s ≤ n
        ∧ d = dataPDU site.host (site.bufferSize i).toNat (site.source i) s)
      ∧ Server.Inv site.host (site.bufferSize i).toNat (site.source i) σ w
      ∧ σ.pc = .fill ∧ σ.info.clientAddr = p ∧ w.base = 1 ∧ w.next = n + 1 := by
  induction n with
  | zero =>
    obtain ⟨children, fs, hchild, hr, -⟩ := h
    refine ⟨_, _, ⟨children, fs, hchild, hr, fun d h => ?_⟩,
      Server.inv_enter p _ _, rfl, rfl, rfl, rfl⟩
    obtain ⟨s, hs, hs', -⟩ := h
    omega
  | succ n ih =>
    obtain ⟨σ, w, hlink, hi, hpc, haddr, hbase, hnext⟩ := ih (by omega) (by omega)
    have hroom : ¬ w.Full := by
      rw [SlidingWindow.Full]
      omega
    have hlt : n + 1 < 4294967295 := by
      have := (site.windowSize i).toNat_lt
      omega
    have hfits := (length_chunk_le (site.bufferSize i).toNat (site.source i) w.next).trans hmax
    obtain ⟨q, hstep, hq⟩ := hi.step_sent hroom hpc (by omega) hfits
    have hi' := hi.sent hroom (by omega) hq (by omega) hfits
    have hlink' := hlink.serverStep (.inl rfl) hstep
    have hlink'' := hlink'.serverStep (.inr rfl) (by rw [Server.step])
    refine ⟨_, _, ?_, hi'.move (by simp) (by simp) 0, rfl, haddr, hbase, by simp [hnext]⟩
    obtain ⟨children, fs, hchild, hr, hfs⟩ := hlink''
    refine ⟨children, fs, hchild, hr, fun d h => hfs d (.inl ?_)⟩
    obtain ⟨s, hs, hs', hd⟩ := h
    rcases Nat.lt_or_ge n s with hlt' | hle
    · obtain rfl : s = w.next := by omega
      exact .inr (by rw [hd, haddr]; exact List.mem_singleton_self _)
    · exact .inl ⟨s, hs, hle, hd⟩

/-! ## The bound is exact -/

/-- The same site, with the server finding this file under any name. -/
def serving (site : Site ι) (file : Bytes) : Site ι := { site with fopen := fun _ => some file }

/-- Three sockets, none of them the server's. -/
theorem exists_linking (h : Admitted site i) : ∃ p a, Linking site i p a
    (.enter _ p (site.source i) (site.windowSize i) (site.bufferSize i))
    (.enter _ (site.rcopy i).recvAddr) fun _ => False := by
  have hne : ∀ m n : ℕ, m ≠ n → (⟨site.serverAddr.host + m, 0⟩ : SockAddr)
      ≠ ⟨site.serverAddr.host + n, 0⟩ := fun m n hmn heq =>
    hmn (Nat.add_left_cancel (SockAddr.mk.inj heq).1)
  have hserver : ∀ m : ℕ, m ≠ 0 → (⟨site.serverAddr.host + m, 0⟩ : SockAddr)
      ≠ site.serverAddr := fun m hm heq => hm (Nat.add_eq_left.mp (congrArg SockAddr.host heq))
  obtain ⟨children, hchild, hr⟩ := reached_transfer h (hserver 1 (by decide))
    (hserver 2 (by decide)) (hne 2 1 (by decide)) (hserver 3 (by decide)) (hne 3 1 (by decide))
    (hne 3 2 (by decide))
  exact ⟨_, _, children, [], hchild, hr, fun d hd => hd.elim⟩

/-- **A child with two slots more than its `rcopy`** can be made to corrupt a copy. -/
theorem exists_overrun (hV : (site.rcopy i).slots + 2 ≤ (site.windowSize i).toNat)
    (hb : 0 < (site.bufferSize i).toNat) (hmax : (site.bufferSize i).toNat ≤ MAXBUF)
    (h : Admitted site i) (hsource : site.source i
      = lastByteSet ((site.rcopy i).slots + 1) (site.bufferSize i).toNat) :
    ∃ es w, Run (machine site) Opens (enter site) es w
      ∧ ¬ (w.rcopy i).data.info.outFile <+: site.source i := by
  have hVmax := (site.windowSize i).toNat_lt
  have hW : 0 < (site.rcopy i).slots := Nat.pos_of_neZero _
  have : NeZero (site.windowSize i).toNat := ⟨by omega⟩
  set b := (site.bufferSize i).toNat
  obtain ⟨p, a, hlink⟩ := exists_linking h
  obtain ⟨σ, w, hsent, -⟩ := linking_sent hlink hmax ((site.rcopy i).slots + 2) hV
    (by rw [hsource, numChunks_lastByteSet hb])
  have hfits : ∀ s, (chunk b (site.source i) s).length ≤ MAXBUF := fun s =>
    (length_chunk_le b _ s).trans hmax
  have hinj : ∀ s t, s < 4294967296 → t < 4294967296 → s ≠ t →
      dataPDU site.host b (site.source i) s ≠ dataPDU site.host b (site.source i) t :=
    fun s t hs ht hne heq => hne (eq_of_dataPDU_eq hs ht heq)
  -- packet `W + 2` overtakes the first
  obtain ⟨c₁, c₂, c₃, sends₁, sends₂, sends₃, h₁, h₂, h₃, hout⟩ := Client.overrun
    (W := (site.rcopy i).slots) (q := chunk b (site.source i) 2) site.host
    (hfits 1) (hfits ((site.rcopy i).slots + 2)) (by omega) (site.rcopy i).recvAddr a
  have hl₁ := hsent.hear ⟨_, by omega, le_rfl, rfl⟩ h₁
  have hl₂ := hl₁.hear ⟨⟨1, le_rfl, by omega, rfl⟩, hinj _ _ (by omega) (by omega) (by omega)⟩ h₂
  have hl₃ := hl₂.hear ⟨⟨⟨2, by omega, by omega, rfl⟩, hinj _ _ (by omega) (by omega) (by omega)⟩,
    hinj _ _ (by omega) (by omega) (by omega)⟩ h₃
  obtain ⟨children, fs, -, ⟨es, w', hrun, hi, -⟩, -⟩ := hl₃
  refine ⟨es, w', hrun, fun hprefix => ?_⟩
  rw [hi] at hprefix
  have hbad := hout.trans hprefix
  rw [hsource, chunk_lastByteSet_one (by omega), chunk_lastByteSet_last hb] at hbad
  exact not_prefix_lastByteSet hb (by omega) hbad

/-- **The sizes agree well enough** on a big-endian host, and on a little-endian one where the low
byte of the window size is no larger than the rest of it. -/
theorem windowSize_le_iff {ι : Type} (site : Site ι) (i : ι) :
    (site.windowSize i).toNat ≤ (site.rcopy i).slots + 1 ↔ site.host.endian = .big
      ∨ atoi (arg (site.rcopy i).argv 3) % 256 ≤ atoi (arg (site.rcopy i).argv 3) / 256 := by
  have hslots := (site.rcopy i).coe_slots
  have hn : 0 < (site.rcopy i).slots := Nat.pos_of_neZero _
  rw [Site.windowSize, networkSize, ← hslots]
  have hx : (UInt16.ofInt ((site.rcopy i).slots : ℤ)).toNat = (site.rcopy i).slots % 65536 := by
    rw [UInt16.ofInt, UInt16.toNat_ofNat']
    omega
  cases site.host.endian with
  | big =>
    simp only [htons, hx, true_or, iff_true]
    omega
  | little =>
    simp only [htons, toNat_swapU16, hx, reduceCtorEq, false_or]
    omega

/-- **Exactly which window sizes are safe** — that is, never lead to an output that is not a prefix
of the file, whatever the file, the network and the others do. -/
theorem copies_safe_iff (site : Site ι) (i : ι) (hname : (arg (site.rcopy i).argv 1).strlen ≤ 99)
    (hcreates : (site.rcopy i).creates (arg (site.rcopy i).argv 2) = true)
    (hcalloc : (site.rcopy i).calloc (receiveWindowSize (site.rcopy i).argv) = true)
    (hb : 0 < (site.bufferSize i).toNat) (hmax : (site.bufferSize i).toNat ≤ MAXBUF) :
    (∀ file es w, numChunks (site.bufferSize i).toNat file < 4294967295 →
        Run (machine (serving site file)) Opens (enter (serving site file)) es w →
        (w.rcopy i).data.info.outFile <+: file)
      ↔ site.host.endian = .big
        ∨ atoi (arg (site.rcopy i).argv 3) % 256 ≤ atoi (arg (site.rcopy i).argv 3) / 256 := by
  rw [← windowSize_le_iff]
  constructor
  · intro hsafe
    by_contra hV
    let file := lastByteSet ((site.rcopy i).slots + 1) (site.bufferSize i).toNat
    have hadmitted : Admitted (serving site file) i := ⟨hname, rfl, hcreates, hcalloc⟩
    have hV' : ((serving site file).rcopy i).slots + 1 < ((serving site file).windowSize i).toNat :=
      Nat.lt_of_not_le hV
    obtain ⟨es, w, run, hbad⟩ := exists_overrun hV' hb hmax hadmitted rfl
    refine hbad (hsafe file es w ?_ run)
    have hVmax := (site.windowSize i).toNat_lt
    rw [numChunks_lastByteSet hb]
    omega
  · intro hV file es w hK run
    have hV' : ((serving site file).windowSize i).toNat ≤ ((serving site file).rcopy i).slots + 1 :=
      hV
    exact prefix_of_run hV' hK run

/-- Between little-endian hosts a window of two makes a child with 512 slots. -/
theorem copies_safe_iff_two : ∃ file es,
    ∃ w : World (serving { twoCopies with host := .standard .little } file),
      Run (machine _) Opens (enter _) es w ∧ ¬ (w.rcopy 0).data.info.outFile <+: file := by
  by_contra hsafe
  push Not at hsafe
  have h := (copies_safe_iff { twoCopies with host := .standard .little } 0 (by decide +kernel) rfl
    rfl (by decide +kernel) (by decide +kernel)).mp fun file es w _ run => hsafe file es w run
  exact absurd h (by decide +kernel)

end World

end RemoteFileCopy
