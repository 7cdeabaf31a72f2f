import RemoteFileCopy.Setup.Request

/-!
# Setup/AcceptLoop — the requests a child is forked for

`processServer` receives every datagram into one array and never looks at its length, so the flag it
forks on may be that of an earlier datagram, and the name `filename_state` copies is as long as the
datagram says (`names_fit_iff`).  The longest name `checkArgs` accepts is one byte too long for the
array its terminator goes to (`nameFits_receivedRequest_iff`).
-/

namespace RemoteFileCopy

/-- **`processServer`** — what it forks children for, receiving datagrams into one array. -/
def processServer (buffer : Bytes) : List Datagram → List Received
  | [] => []
  | d :: ds =>
    let r := safeRecvfrom buffer MAXBUF d
    let later := processServer r.buffer ds
    if r.flag = 8 then r :: later else later

/-- **The name of a request fits its array** — `filenameLen` is neither negative nor above 99, as
`filename_state` needs to copy and to terminate the name. -/
def NameFits (r : Received) : Prop :=
  0 ≤ (r.bytesRecv : ℤ) - 11 ∧ (r.bytesRecv : ℤ) - 11 ≤ 99

instance (r : Received) : Decidable (NameFits r) := inferInstanceAs (Decidable (_ ∧ _))

/-! ## The flag the loop reads -/

/-- The flag in the array after some datagrams: that of the last one with a whole header. -/
def lastFlag (flag : UInt8) (ds : List Datagram) : UInt8 :=
  ds.foldl (fun f d => if 7 ≤ d.bytes.length then d.bytes.getD 6 0 else f) flag

/-- One receive leaves the flag of the datagram, or the one that was there. -/
theorem flag_safeRecvfrom_eq (buffer : Bytes) (d : Datagram) :
    (safeRecvfrom buffer MAXBUF d).flag
      = if 7 ≤ d.bytes.length then d.bytes.getD 6 0 else buffer.getD 6 0 := by
  have hmax : MAXBUF = 1400 := rfl
  have h7 : 6 < min d.bytes.length MAXBUF ↔ 7 ≤ d.bytes.length := by omega
  rw [Received.flag, getD_safeRecvfrom, if_congr h7 rfl rfl]

/-- A datagram of a length `filename_state` can parse. -/
theorem nameFits_safeRecvfrom_iff (buffer : Bytes) (d : Datagram) :
    NameFits (safeRecvfrom buffer MAXBUF d) ↔ ¬ (d.bytes.length < 11 ∨ 110 < d.bytes.length) := by
  have hmax : MAXBUF = 1400 := rfl
  simp only [NameFits, safeRecvfrom]
  omega

/-- The names that fit, one datagram at a time. -/
theorem forall_processServer_cons (buffer : Bytes) (d : Datagram) (ds : List Datagram) :
    (∀ r ∈ processServer buffer (d :: ds), NameFits r)
      ↔ ((safeRecvfrom buffer MAXBUF d).flag = 8 → NameFits (safeRecvfrom buffer MAXBUF d))
        ∧ ∀ r ∈ processServer (safeRecvfrom buffer MAXBUF d).buffer ds, NameFits r := by
  rw [processServer]
  split
  case isTrue h => rw [List.forall_mem_cons, forall_prop_of_true h]
  case isFalse h => exact (and_iff_right fun hf => absurd hf h).symm

/-- **Every name fits exactly if no datagram of another length is taken for a request**: where one
has less than 11 bytes or more than 110, the flag last received is not 8. -/
theorem names_fit_iff (buffer : Bytes) (ds : List Datagram) :
    (∀ r ∈ processServer buffer ds, NameFits r)
      ↔ ∀ i d, ds[i]? = some d → d.bytes.length < 11 ∨ 110 < d.bytes.length →
          lastFlag (buffer.getD 6 0) (ds.take (i + 1)) ≠ 8 := by
  induction ds generalizing buffer with
  | nil => simp [processServer]
  | cons d ds ih =>
    have hflag : (safeRecvfrom buffer MAXBUF d).flag = lastFlag (buffer.getD 6 0) [d] :=
      flag_safeRecvfrom_eq buffer d
    have hrest := ih (safeRecvfrom buffer MAXBUF d).buffer
    rw [show (safeRecvfrom buffer MAXBUF d).buffer.getD 6 0 = lastFlag (buffer.getD 6 0) [d] from
      hflag] at hrest
    rw [← Nat.and_forall_add_one, forall_processServer_cons, hrest, hflag,
      nameFits_safeRecvfrom_iff]
    simp only [List.getElem?_cons_zero, List.getElem?_cons_succ, Option.some_inj, forall_eq',
      List.take_succ_cons, List.take_zero]
    exact and_congr_left' imp_not_comm

/-! ## The requests of `rcopy` -/

/-- The request of an accepted command line fits exactly if its name has at most 99 characters. -/
theorem nameFits_receivedRequest_iff (host : Host) {argv : List CString} (stale : Bytes)
    (a : SockAddr) (h : (arg argv 1).strlen ≤ 100) :
    NameFits (receivedRequest host argv stale a) ↔ (arg argv 1).strlen ≤ 99 := by
  rw [NameFits, bytesRecv_receivedRequest host argv stale a h]
  omega

/-- **When `filename_state` stays within its array** — for any datagrams into an array of any
contents, exactly if no datagram of less than 11 or more than 110 bytes arrives while the flag last
received is 8; for a request of `rcopy`, exactly if the name has at most 99 characters. -/
theorem filename_in_bounds_iff (buffer : Bytes) (ds : List Datagram) :
    ((∀ r ∈ processServer buffer ds, NameFits r)
        ↔ ∀ i d, ds[i]? = some d → d.bytes.length < 11 ∨ 110 < d.bytes.length →
          lastFlag (buffer.getD 6 0) (ds.take (i + 1)) ≠ 8)
      ∧ ∀ (host : Host) (rateOk : CString → Bool) (argv : List CString) (port : ℤ),
        checkArgs rateOk argv = some port → ∀ (stale : Bytes) (a : SockAddr),
          (NameFits (receivedRequest host argv stale a) ↔ (arg argv 1).strlen ≤ 99) :=
  ⟨names_fit_iff buffer ds, fun host _ _ _ hargs stale a =>
    nameFits_receivedRequest_iff host stale a (checkArgs_eq_some hargs).1⟩

/-- A name of one character fits. -/
theorem filename_in_bounds_one : NameFits (receivedRequest (.standard .little)
    (commandLine [53] [49, 48, 48, 48]) [] ⟨1, 1⟩) :=
  ((filename_in_bounds_iff [] []).2 _ (fun _ => true) (commandLine [53] [49, 48, 48, 48]) 9
    (by decide +kernel) _ _).mpr (by decide +kernel)

/-- **An empty datagram after a request is taken for a request**, of length -11. -/
theorem empty_datagram_forks : ¬ ∀ (buffer : Bytes) (ds : List Datagram),
    ∀ r ∈ processServer buffer ds, NameFits r := by
  intro h
  have hlast := h [] [⟨⟨1, 1⟩, filenamePDU (.standard .little) (commandLine [53] [53])⟩,
    ⟨⟨2, 2⟩, []⟩]
  exact absurd hlast (by decide +kernel)

end RemoteFileCopy
