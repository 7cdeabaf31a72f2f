import Mathlib.Data.List.Basic
import Mathlib.Tactic.Ring
import RemoteFileCopy.Wire.Bytes

/-!
# Server/SourceFile — the chunks of a file

The server reads its file `b` bytes at a time and numbers the reads from one.  `chunk b src s` is
the read numbered `s`; the first `k` of them put together are the first `k * b` bytes
(`chunks_eq_take`), so all of them are the file (`chunks_numChunks`).
-/

namespace RemoteFileCopy

variable (b : ℕ) (src : Bytes)

/-- The number of nonempty reads a file takes. -/
def numChunks : ℕ := (src.length + b - 1) / b

/-- **Chunk `s` of the file**, counting from one. -/
def chunk (s : ℕ) : Bytes := (src.drop ((s - 1) * b)).take b

/-- Chunks `1` to `k`, in order. -/
def chunks (k : ℕ) : Bytes := ((List.range' 1 k).map (chunk b src)).flatten

theorem length_chunk_le (s : ℕ) : (chunk b src s).length ≤ b := by
  simp only [chunk, List.length_take]
  omega

@[simp] theorem chunks_zero : chunks b src 0 = [] := rfl

theorem chunks_succ (k : ℕ) : chunks b src (k + 1) = chunks b src k ++ chunk b src (k + 1) := by
  simp [chunks, List.range'_concat, Nat.add_comm]

theorem chunks_eq_take (k : ℕ) : chunks b src k = src.take (k * b) := by
  induction k with
  | zero => simp
  | succ k ih =>
    rw [chunks_succ, ih, chunk, Nat.add_sub_cancel, Nat.succ_mul, List.take_add]

variable {b src}

/-- **A read comes back empty exactly past the last chunk.** -/
theorem chunk_ne_nil_iff {s : ℕ} (hs : 1 ≤ s) : chunk b src s ≠ [] ↔ s ≤ numChunks b src := by
  obtain ⟨k, rfl⟩ := Nat.exists_eq_add_of_le' hs
  rcases Nat.eq_zero_or_pos b with rfl | hb
  · simp [chunk, numChunks]
  · have hlen : chunk b src (k + 1) ≠ [] ↔ k * b < src.length := by
      rw [chunk, Nat.add_sub_cancel, Ne, ← List.length_eq_zero_iff, List.length_take,
        List.length_drop]
      omega
    rw [hlen, numChunks, Nat.le_div_iff_mul_le hb, Nat.succ_mul]
    omega

/-- **A first read that comes back short is the only one.** -/
theorem numChunks_le_one (h : (chunk b src 1).length < b) : numChunks b src ≤ 1 := by
  have hlen : src.length < b := by
    rw [chunk, List.length_take, List.length_drop] at h
    omega
  exact Nat.le_of_lt_succ (Nat.div_lt_of_lt_mul (by omega))

/-- **All the chunks are the file.** -/
theorem chunks_numChunks (hb : 0 < b) : chunks b src (numChunks b src) = src := by
  rw [chunks_eq_take]
  refine List.take_of_length_le ?_
  have hlt := Nat.lt_div_mul_add hb (a := src.length + b - 1)
  rw [numChunks]
  omega

end RemoteFileCopy
