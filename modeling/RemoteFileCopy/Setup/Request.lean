import RemoteFileCopy.Server.SendData
import RemoteFileCopy.Setup.CommandLine

/-!
# Setup/Request — the filename request, from `rcopy`'s arguments to the child's `ServerInfo`

    | window size, 2 | buffer size, 2 | from-filename |        the payload of flag 8

`wait_on_file_ok_state` puts the two sizes in network order, and `filename_state` takes them out of
it.  Before it returns, though, it assigns both fields a second time, from the variables it copied
the raw bytes into.  So on a little-endian host the child works with byte-swapped sizes, and the
request round-trips only for those a swap does not change (`filename_round_trip_iff`).
-/

namespace RemoteFileCopy

variable (host : Host)

/-! ## The client's side -/

/-- `htons(atoi(argv[i]))`: the `int` is cut to sixteen bits. -/
def networkSize (argv : List CString) (i : ℕ) : UInt16 :=
  htons host.endian (UInt16.ofInt (atoi (arg argv i)))

/-- The payload of the request. -/
def filenamePayload (argv : List CString) : Bytes :=
  let windowSize := networkSize host argv 3
  let bufferSize := networkSize host argv 4
  let fromFilename := (arg argv 1).bytes
  storeU16 host.endian windowSize ++ (storeU16 host.endian bufferSize ++ fromFilename)

/-- **The flag-8 PDU** of `wait_on_file_ok_state`. -/
def filenamePDU (argv : List CString) : Bytes := createPDU host 0 8 (filenamePayload host argv)

/-- The window size `wait_on_data_state` allocates the receive buffer with. -/
def receiveWindowSize (argv : List CString) : ℤ := atoi (arg argv 3)

/-! ## The server's side -/

/-- **The name `filename_state` opens**: `bytesRecv - 11` bytes, terminated, in an array of 100. -/
def requestedFilename (buffer : Bytes) (bytesRecv : ℕ) : Except Fault CString :=
  if bytesRecv < 11 then .error .negativeLength
  else if bytesRecv - 11 ≥ 100 then .error .overflow
  else .ok (.ofBuffer ((buffer.drop 11).take (bytesRecv - 11)))

/-- **`filename_state`** — `fopen` gives the contents of the files that can be read.  The child's
socket opens. -/
def filenameState (fopen : CString → Option Bytes) (buffer : Bytes) (bytesRecv : ℕ)
    (info : ServerInfo) : Except Fault (ServerState × ServerInfo × List Send) := do
  let windowSize := loadU16 host.endian buffer 7
  let bufferSize := loadU16 host.endian buffer 9
  let info := { info with
    windowSize := ntohs host.endian windowSize
    bufferSize := ntohs host.endian bufferSize }
  let filename ← requestedFilename buffer bytesRecv
  match fopen filename with
  | none =>
    let errorPDU := createPDU host 0 33 filename.bytes
    return (.done, info, [⟨info.clientAddr, errorPDU⟩])
  | some file =>
    let okPDU := createPDU host 0 9 filename.bytes
    -- The raw variables, not the fields converted above.
    let info := { info with file := some file, windowSize := windowSize, bufferSize := bufferSize }
    return (.writeFileOkAck, info, [⟨info.clientAddr, okPDU⟩])

/-! ## What the child makes of a request -/

section Decode

variable (argv : List CString) (stale : Bytes) (a : SockAddr)

/-- The request as the accept loop receives it. -/
def receivedRequest : Received :=
  safeRecvfrom stale MAXBUF ⟨a, filenamePDU host argv⟩

theorem length_filenamePayload :
    (filenamePayload host argv).length = (arg argv 1).strlen + 4 := by
  simp [filenamePayload, CString.strlen]
  omega

theorem bytesRecv_receivedRequest (h : (arg argv 1).strlen ≤ 100) :
    (receivedRequest host argv stale a).bytesRecv = (arg argv 1).strlen + 11 := by
  have hmax : MAXBUF = 1400 := rfl
  have hlen := length_filenamePayload host argv
  simp only [receivedRequest, safeRecvfrom, filenamePDU, length_createPDU]
  omega

/-- **The array behind a request** — header, two sizes, name, and what was there before. -/
theorem buffer_receivedRequest (h : (arg argv 1).strlen ≤ 100) :
    ∃ (header rest : Bytes), header.length = 7
      ∧ (receivedRequest host argv stale a).buffer = header
        ++ (storeU16 host.endian (networkSize host argv 3)
          ++ (storeU16 host.endian (networkSize host argv 4) ++ ((arg argv 1).bytes ++ rest))) := by
  have hmax : MAXBUF = 1400 := rfl
  have hlen := length_filenamePayload host argv
  obtain ⟨c₀, c₁, hbuffer⟩ := safeRecvfrom_createPDU_buffer host 0 8 (filenamePayload host argv)
    stale a (show 7 ≤ MAXBUF by omega)
  rw [List.take_of_length_le (by omega)] at hbuffer
  refine ⟨storeU32 host.endian (htonl host.endian 0) ++ [c₀, c₁, 8],
    stale.drop (min ((filenamePayload host argv).length + 7) MAXBUF), by simp, hbuffer.trans ?_⟩
  simp only [filenamePayload, List.append_assoc, List.cons_append, List.nil_append]

/-- The raw variables hold the sizes in network order. -/
theorem loadU16_receivedRequest (h : (arg argv 1).strlen ≤ 100) :
    loadU16 host.endian (receivedRequest host argv stale a).buffer 7 = networkSize host argv 3
      ∧ loadU16 host.endian (receivedRequest host argv stale a).buffer 9
        = networkSize host argv 4 := by
  obtain ⟨header, rest, hlen, hbuffer⟩ := buffer_receivedRequest host argv stale a h
  have h9 : 9 = (header ++ storeU16 host.endian (networkSize host argv 3)).length := by
    simp [hlen]
  rw [hbuffer]
  constructor
  · rw [← hlen, loadU16_store]
  · rw [h9, ← List.append_assoc, loadU16_store]

/-- **The name that comes out is the name that went in**, if its terminator fits the array. -/
theorem requestedFilename_receivedRequest (h : (arg argv 1).strlen ≤ 99) :
    requestedFilename (receivedRequest host argv stale a).buffer
      (receivedRequest host argv stale a).bytesRecv = .ok (arg argv 1) := by
  obtain ⟨header, rest, hlen, hbuffer⟩ :=
    buffer_receivedRequest host argv stale a (by omega)
  rw [requestedFilename, bytesRecv_receivedRequest host argv stale a (by omega), if_neg (by omega),
    if_neg (by omega), Nat.add_sub_cancel, hbuffer, ← List.append_assoc, ← List.append_assoc,
    List.drop_left' (by simp [hlen]), CString.strlen, List.take_left, CString.ofBuffer_bytes]

/-- A name of a hundred characters has its terminator written past the array. -/
theorem requestedFilename_overflow (h : (arg argv 1).strlen = 100) :
    requestedFilename (receivedRequest host argv stale a).buffer
      (receivedRequest host argv stale a).bytesRecv = .error .overflow := by
  rw [requestedFilename, bytesRecv_receivedRequest host argv stale a (by omega), if_neg (by omega),
    if_pos (by omega)]

/-- **What `filename_state` makes of a request.** -/
theorem filenameState_receivedRequest (h : (arg argv 1).strlen ≤ 99)
    (fopen : CString → Option Bytes) (info : ServerInfo) :
    filenameState host fopen (receivedRequest host argv stale a).buffer
        (receivedRequest host argv stale a).bytesRecv info
      = .ok (match fopen (arg argv 1) with
        | none => (.done,
            { info with
              windowSize := ntohs host.endian (networkSize host argv 3)
              bufferSize := ntohs host.endian (networkSize host argv 4) },
            [⟨info.clientAddr, createPDU host 0 33 (arg argv 1).bytes⟩])
        | some file => (.writeFileOkAck,
            { info with
              file := some file
              windowSize := networkSize host argv 3
              bufferSize := networkSize host argv 4 },
            [⟨info.clientAddr, createPDU host 0 9 (arg argv 1).bytes⟩])) := by
  obtain ⟨hwindow, hbuffer⟩ := loadU16_receivedRequest host argv stale a (by omega)
  have hopened := requestedFilename_receivedRequest host argv stale a h
  simp only [filenameState, hwindow, hbuffer, hopened, bind, Except.bind]
  cases fopen (arg argv 1) <;> rfl

end Decode

/-! ## The round trip -/

/-- **The request round-trips**: `filename_state` stays within its arrays, and where it goes on to
`WRITE_FILE_OK_ACK` it has opened the file the client named, with the window the client allocated
and the buffer size the client asked for. -/
def RequestRoundTrips (fopen : CString → Option Bytes) (argv : List CString) (r : Received)
    (info : ServerInfo) : Prop :=
  ∃ state info' sends,
    filenameState host fopen r.buffer r.bytesRecv info = .ok (state, info', sends)
      ∧ (state = .writeFileOkAck →
          (info'.windowSize.toNat : ℤ) = receiveWindowSize argv
            ∧ (info'.bufferSize.toNat : ℤ) = atoi (arg argv 4)
            ∧ requestedFilename r.buffer r.bytesRecv = .ok (arg argv 1)
            ∧ info'.file = fopen (arg argv 1))

/-- **A size a swap does not change** — it has two bytes, and they are equal. -/
def SwapInvariant (n : ℤ) : Prop := n / 256 = n % 256

instance (n : ℤ) : Decidable (SwapInvariant n) := inferInstanceAs (Decidable (_ = _))

/-- The network order of a size is the size itself only where a swap does not change it. -/
theorem toNat_swapU16_ofInt_eq_iff {n : ℤ} (hn : 0 ≤ n) :
    ((swapU16 (UInt16.ofInt n)).toNat : ℤ) = n ↔ SwapInvariant n := by
  have hx : ((UInt16.ofInt n).toNat : ℤ) = n % 65536 := by
    rw [UInt16.ofInt, UInt16.toNat_ofNat']
    omega
  rw [toNat_swapU16, SwapInvariant]
  generalize (UInt16.ofInt n).toNat = x at hx ⊢
  rcases Int.lt_or_le n 65536 with hlt | hle
  · obtain rfl : n = x := by omega
    omega
  · omega

/-- **On a little-endian host the request round-trips exactly when** the terminator of the name fits
the child's array and either the file cannot be opened or a swap changes neither size. -/
theorem filename_round_trip_iff {host : Host} (hlittle : host.endian = .little)
    {rateOk : CString → Bool} {argv : List CString} {port : ℤ}
    (hargs : checkArgs rateOk argv = some port) (hsize : 1 ≤ atoi (arg argv 4))
    (fopen : CString → Option Bytes) (stale : Bytes) (a : SockAddr) (info : ServerInfo) :
    RequestRoundTrips host fopen argv (receivedRequest host argv stale a) info
      ↔ (arg argv 1).strlen ≤ 99 ∧ (fopen (arg argv 1) = none
        ∨ SwapInvariant (atoi (arg argv 3)) ∧ SwapInvariant (atoi (arg argv 4))) := by
  obtain ⟨hname, hwindow, -⟩ := checkArgs_eq_some hargs
  by_cases hfits : (arg argv 1).strlen ≤ 99
  · have hstate := filenameState_receivedRequest host argv stale a hfits fopen info
    have hopened := requestedFilename_receivedRequest host argv stale a hfits
    have hnet (i : ℕ) (hi : 0 ≤ atoi (arg argv i)) :
        ((networkSize host argv i).toNat : ℤ) = atoi (arg argv i)
          ↔ SwapInvariant (atoi (arg argv i)) := by
      rw [networkSize, hlittle, htons, toNat_swapU16_ofInt_eq_iff hi]
    rw [RequestRoundTrips, hstate, hopened]
    cases hopen : fopen (arg argv 1) with
    | none => exact iff_of_true ⟨_, _, _, rfl, by simp⟩ ⟨hfits, .inl rfl⟩
    | some file =>
      rw [← hnet 3 (by omega), ← hnet 4 (by omega)]
      constructor
      · rintro ⟨state, info', sends, heq, hfields⟩
        obtain ⟨rfl, rfl, rfl⟩ := by simpa using heq
        obtain ⟨h3, h4, -⟩ := hfields rfl
        exact ⟨hfits, .inr ⟨h3, h4⟩⟩
      · rintro ⟨-, hnone | ⟨h3, h4⟩⟩
        · cases hnone
        · exact ⟨_, _, _, rfl, fun _ => ⟨h3, h4, rfl, rfl⟩⟩
  · refine iff_of_false ?_ fun h => hfits h.1
    rintro ⟨state, info', sends, heq, -⟩
    rw [filenameState, requestedFilename_overflow host argv stale a (by omega)] at heq
    cases heq

/-- The command line `rcopy f t W B 0 h 9`, with the two sizes as they are typed. -/
def commandLine (windowSize bufferSize : Bytes) : List CString :=
  [[114], [102], [116], windowSize, bufferSize, [48], [104], [57]].map .ofBuffer

/-- A window of 257 and a buffer of 514 are their own swaps, and the request for them
round-trips. -/
theorem filename_round_trip_iff_palindromes :
    RequestRoundTrips (.standard .little) (fun _ => some [65])
      (commandLine [50, 53, 55] [53, 49, 52])
      (receivedRequest (.standard .little) (commandLine [50, 53, 55] [53, 49, 52]) [] ⟨1, 1⟩)
      ⟨⟨1, 1⟩, none, 0, 0, [], 0, 0⟩ :=
  have hargs : checkArgs (fun _ => true) (commandLine [50, 53, 55] [53, 49, 52]) = some 9 := by
    decide +kernel
  (filename_round_trip_iff rfl hargs (by decide +kernel) _ _ _ _).mpr
    ⟨by decide +kernel, .inr (by decide +kernel)⟩

/-- **A window of 5 reaches the child as 1280** and a buffer of 1000 as 59395, from a command line
`checkArgs` accepts. -/
theorem request_swaps_sizes :
    checkArgs (fun _ => true) (commandLine [53] [49, 48, 48, 48]) = some 9
      ∧ atoi (arg (commandLine [53] [49, 48, 48, 48]) 4) = 1000
      ∧ ¬ RequestRoundTrips (.standard .little) (fun _ => some [65])
        (commandLine [53] [49, 48, 48, 48])
        (receivedRequest (.standard .little) (commandLine [53] [49, 48, 48, 48]) [] ⟨1, 1⟩)
        ⟨⟨1, 1⟩, none, 0, 0, [], 0, 0⟩ := by
  have hsizes : networkSize (.standard .little) (commandLine [53] [49, 48, 48, 48]) 3 = 1280
      ∧ receiveWindowSize (commandLine [53] [49, 48, 48, 48]) = 5 := by decide +kernel
  refine ⟨by decide +kernel, by decide +kernel, ?_⟩
  rintro ⟨state, info', sends, heq, hfields⟩
  rw [filenameState_receivedRequest _ _ _ _ (by decide +kernel), hsizes.1] at heq
  obtain ⟨rfl, rfl, rfl⟩ := by simpa using heq
  obtain ⟨hwindow, -⟩ := hfields rfl
  rw [hsizes.2] at hwindow
  exact absurd hwindow (by decide)

end RemoteFileCopy
