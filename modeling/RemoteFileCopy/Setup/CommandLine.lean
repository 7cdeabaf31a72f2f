import Mathlib.Algebra.Order.Ring.Int
import Mathlib.Data.List.TakeWhile
import Mathlib.Tactic.SplitIfs
import RemoteFileCopy.Wire.Bytes

/-!
# Setup/CommandLine — what `rcopy` takes from its arguments

    rcopy from-filename to-filename window-size buffer-size error-rate host-name port-number

`checkArgs` looks at the length of the first name, the window size and the error rate; nobody looks
at the buffer size.  Numbers are read by `atoi`, a saturating `strtol` cut to `int`.
-/

namespace RemoteFileCopy

/-- **A C string** — the bytes in front of its terminator, none of which is one. -/
structure CString where
  bytes : Bytes
  noNul : 0 ∉ bytes
  deriving DecidableEq

namespace CString

/-- The empty string. -/
def empty : CString := ⟨[], List.not_mem_nil⟩

/-- **The string at the front of an array**: it ends before the first zero, and a zero was written
behind what the array holds. -/
def ofBuffer (m : Bytes) : CString where
  bytes := m.takeWhile (· ≠ 0)
  noNul := fun h => by simpa using List.mem_takeWhile_imp h

/-- The number of bytes in front of the terminator. -/
def strlen (s : CString) : ℕ := s.bytes.length

/-- A string that is copied to an array is the string at its front. -/
@[simp] theorem ofBuffer_bytes (s : CString) : ofBuffer s.bytes = s := by
  have h : s.bytes.takeWhile (· ≠ 0) = s.bytes := by
    refine List.takeWhile_eq_self_iff.mpr fun x hx => ?_
    have : x ≠ 0 := fun h0 => s.noNul (h0 ▸ hx)
    simpa using this
  obtain ⟨bytes, hbytes⟩ := s
  simpa only [ofBuffer, mk.injEq] using h

end CString

/-! ## Numbers -/

/-- White space, in the C locale. -/
def isspace (c : UInt8) : Bool := c = 32 ∨ 9 ≤ c ∧ c ≤ 13

/-- A decimal digit. -/
def isdigit (c : UInt8) : Bool := 48 ≤ c ∧ c ≤ 57

/-- The number the digits at the front of a string write, zero if there are none. -/
def digits (cs : Bytes) : ℕ :=
  (cs.takeWhile isdigit).foldl (fun n c => 10 * n + (c.toNat - 48)) 0

/-- **`strtol(s, NULL, 10)`** — white space, a sign, digits; what a `long` cannot hold saturates. -/
def strtol (s : CString) : ℤ :=
  match s.bytes.dropWhile isspace with
  | [] => 0
  | c :: cs =>
    if c = 45 then max (-(digits cs : ℤ)) (-2 ^ 63)
    else min (digits (if c = 43 then cs else c :: cs) : ℤ) (2 ^ 63 - 1)

/-- **`atoi`** — the low 32 bits of `strtol`, with their sign. -/
def atoi (s : CString) : ℤ := (strtol s).bmod (2 ^ 32)

/-! ## Arguments -/

/-- Argument `i`. -/
def arg (argv : List CString) (i : ℕ) : CString := argv.getD i .empty

/-- **`checkArgs`** — the port number, or `none` where it exits.  `rateOk` says whether the float
`atof` reads passes its two comparisons. -/
def checkArgs (rateOk : CString → Bool) (argv : List CString) : Option ℤ :=
  if argv.length ≠ 8 then none
  else if (arg argv 1).strlen > 100 then none
  else if atoi (arg argv 3) ≤ 0 ∨ atoi (arg argv 3) ≥ 2 ^ 30 then none
  else if ¬ rateOk (arg argv 5) then none
  else some (atoi (arg argv 7))

/-- **What an accepted command line promises.** -/
theorem checkArgs_eq_some {rateOk : CString → Bool} {argv : List CString} {port : ℤ}
    (h : checkArgs rateOk argv = some port) :
    (arg argv 1).strlen ≤ 100 ∧ 0 < atoi (arg argv 3) ∧ atoi (arg argv 3) < 2 ^ 30 := by
  rw [checkArgs] at h
  split_ifs at h with hargc hname hwindow hrate
  omega

end RemoteFileCopy
