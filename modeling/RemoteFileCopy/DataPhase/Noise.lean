import RemoteFileCopy.DataPhase.Safety

/-!
# DataPhase/Noise — a network that flips bits

Every PDU in flight checks out and no PDU with a flipped bit does, so a receiver that looked at the
checksum would throw all damaged datagrams away.  `printPDU` and `wait_on_eof_ack_state` look;
`process_transfer_state` and `wait_on_ack_state` do not, and a damaged datagram does no harm only
where its flag and number happen not to matter: where the client discards it and the server releases
and relabels nothing for it (`noisy_run`).
-/

namespace RemoteFileCopy

open Transition

variable {W : ℕ} [NeZero W] (cfg : Config)

/-- What arrives does not check out. -/
def Corrupted : NetEvent → Prop
  | .deliver _ _ _ bytes => cfg.host.inCksum bytes ≠ 0
  | _ => False

instance : (ev : NetEvent) → Decidable (Corrupted cfg ev)
  | .deliver _ _ _ _ => inferInstanceAs (Decidable (_ ≠ _))
  | .run | .quiet | .lose _ _ | .duplicate _ _ => .isFalse id

variable {cfg} {s : DataPhase W} {w : SlidingWindow W} {ev : NetEvent} {e : Endian}

namespace Joint

/-- **Every PDU in flight is one of `createPDU`'s**, small enough for its checksum. -/
theorem exists_createPDU (h : Joint cfg s w) {side : Side} {d : Bytes} (hd : d ∈ s.inFlight side) :
    ∃ n flag p, p.length ≤ MAXBUF ∧ d = createPDU cfg.host n flag p := by
  cases side with
  | client =>
    cases h.toClient d hd with
    | data n s flag hflag hs hlt hn => exact ⟨n, flag, _, h.server.short s hs hlt, rfl⟩
    | eof n hn hend => exact ⟨n, 10, [], Nat.zero_le _, rfl⟩
  | server =>
    cases h.toServer d hd with
    | rr n hpos hle => exact ⟨n, 5, [], Nat.zero_le _, controlPDU_eq _ _ _⟩
    | srej n hpos hle hlt => exact ⟨n, 6, [], Nat.zero_le _, controlPDU_eq _ _ _⟩
    | eofAck n => exact ⟨n, 35, [], Nat.zero_le _, rfl⟩

/-- **What does not arrive as it was sent does not check out.** -/
theorem unaltered_or_corrupted (h : Joint cfg s w) (hhost : cfg.host = .standard e)
    (hg : s.Noisy ev) : s.Unaltered ev ∨ Corrupted cfg ev := by
  have hmax : MAXBUF = 1400 := rfl
  cases ev with
  | deliver side i stale bytes =>
    obtain ⟨d, hd, rfl | ⟨j, hj, rfl⟩⟩ := hg
    · exact .inl hd
    · obtain ⟨n, flag, p, hp, rfl⟩ := h.exists_createPDU (List.mem_of_getElem? hd)
      rw [hhost] at hj ⊢
      refine .inr ?_
      simp only [Corrupted, hhost, Host.inCksum_standard]
      exact inCksum_flipBit_ne_zero (by rw [length_createPDU]; omega)
        (inCksum_createPDU e n flag p hp) hj
  | _ => exact .inl trivial

/-- **The joint invariant holds after a noisy run** whose damaged deliveries do no harm. -/
theorem of_noisy_run (hK : numChunks cfg.b cfg.source < 4294967295)
    (hhost : cfg.host = .standard e) {es : List (Edge (DataPhase W) NetEvent (List Send))}
    (run : Run (DataPhase.machine W cfg) DataPhase.Noisy (DataPhase.enter W cfg) es s)
    (htol : ∀ x ∈ es, Corrupted cfg x.event → Tolerable cfg x.source x.event) :
    ∃ w, Joint cfg s w := by
  refine (run.strengthen (H := fun s ev => Corrupted cfg ev → Tolerable cfg s ev) htol).invariant
    (P := fun s => ∃ w, Joint cfg s w) ⟨_, Joint.enter⟩ ?_
  rintro s ev t o ⟨w, h⟩ ⟨hg, htol⟩ hs
  exact h.step hK ((h.unaltered_or_corrupted hhost hg).imp_right htol) hs

end Joint

/-- **Bit errors and the output file.**  A turn of the receiver leaves its state and its output file
alone and acknowledges no EOF exactly when it discards its datagram, in every receiver state; and
after every noisy run in which the client discards each damaged datagram it takes in, and the server
releases and relabels nothing for one, the output file is chunks `1` to `expected - 1`, while the
numbers of the chunks are told apart. -/
theorem noisy_run (hhost : cfg.host = .standard e)
    {es : List (Edge (DataPhase W) NetEvent (List Send))}
    (run : Run (DataPhase.machine W cfg) DataPhase.Noisy (DataPhase.enter W cfg) es s) :
    (∀ (state : TransferState) (info : ReceiveInfo W) (r : Received),
        Unmoved cfg.host state info r ↔ Discards cfg.host state info r)
      ∧ (numChunks cfg.b cfg.source < 4294967295 →
          (∀ x ∈ es, Corrupted cfg x.event → Tolerable cfg x.source x.event) →
          s.client.info.outFile = chunks cfg.b cfg.source (s.expected - 1)) := by
  refine ⟨fun _ _ _ => discards_iff, fun hK htol => ?_⟩
  obtain ⟨w, h⟩ := Joint.of_noisy_run hK hhost run htol
  exact h.client.faithful.out

/-- A damaged copy of a packet that was already written is thrown away. -/
theorem noisy_run_duplicate :
    ∃ (es : List (Edge (DataPhase 2) NetEvent (List Send))) (s : DataPhase 2), s.expected = 2
      ∧ (∃ x ∈ es, Corrupted twoChunks x.event)
      ∧ s.client.info.outFile = chunks 1 [65, 66] (s.expected - 1) := by
  obtain ⟨es, s, run, h⟩ := exists_run_of_replay (M := DataPhase.machine 2 twoChunks)
    (G := DataPhase.Noisy) (s := DataPhase.enter 2 twoChunks)
    [.run, .duplicate .client 0, .deliver .client 0 [] (dataPDU (.standard .little) 1 [65, 66] 1),
      .deliver .client 0 [] (flipBit 56 (dataPDU (.standard .little) 1 [65, 66] 1))]
    (P := fun es s => s.expected = 2 ∧ (∃ x ∈ es, Corrupted twoChunks x.event)
      ∧ ∀ x ∈ es, Corrupted twoChunks x.event → Tolerable twoChunks x.source x.event)
    (by decide +kernel)
  obtain ⟨hexp, hcor, htol⟩ := of_decide_eq_true h
  exact ⟨es, s, hexp, hcor, (noisy_run (by rfl) run).2 (by decide) htol⟩

/-- **A flipped payload bit is written**: the output file is not the beginning of the source. -/
theorem flipped_bit_written :
    ∃ (es : List (Edge (DataPhase 2) NetEvent (List Send))) (s : DataPhase 2),
      Run (DataPhase.machine 2 twoChunks) DataPhase.Noisy (DataPhase.enter 2 twoChunks) es s
        ∧ ∀ k, s.client.info.outFile ≠ chunks 1 [65, 66] k := by
  obtain ⟨es, s, run, h⟩ := exists_run_of_replay (M := DataPhase.machine 2 twoChunks)
    (G := DataPhase.Noisy) (s := DataPhase.enter 2 twoChunks)
    [.run, .deliver .client 0 [] (flipBit 56 (dataPDU (.standard .little) 1 [65, 66] 1))]
    (P := fun _ s => ¬ s.client.info.outFile <+: [65, 66]) (by decide +kernel)
  refine ⟨es, s, run, fun k hk => of_decide_eq_true h ?_⟩
  rw [hk, chunks_eq_take]
  exact List.take_prefix _ _

end RemoteFileCopy
