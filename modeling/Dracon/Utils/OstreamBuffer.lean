import Mathlib
import Dracon.Http.Message

set_option autoImplicit false

namespace Dracon

structure OstreamBuffer (capacity : Nat) where
  buffer : Bytes
  fits : buffer.length ≤ capacity
  positive : 0 < capacity
  -- what the stream has been given
  written : Bytes

namespace OstreamBuffer

variable {capacity : Nat}

def create (positive : 0 < capacity) : OstreamBuffer capacity where
  buffer := []
  fits := by simp
  positive := positive
  written := []

def write (b : OstreamBuffer capacity) (data : Bytes) : OstreamBuffer capacity :=
  { b with buffer := [], fits := by simp, written := b.written ++ data }

def sync (b : OstreamBuffer capacity) : OstreamBuffer capacity :=
  if b.buffer ≠ [] then b.write b.buffer else b

def makeRoom (b : OstreamBuffer capacity) : OstreamBuffer capacity :=
  if capacity ≤ b.buffer.length then b.sync else b

theorem makeRoom_lt (b : OstreamBuffer capacity) : b.makeRoom.buffer.length < capacity := by
  have positive := b.positive
  unfold makeRoom
  split_ifs with full
  · have filled : b.buffer ≠ [] := List.ne_nil_of_length_pos (positive.trans_le full)
    simpa [sync, filled, write] using positive
  · exact not_le.mp full

def append (b : OstreamBuffer capacity) (data : Bytes) (room : data.length ≤ capacity - b.buffer.length) :
    OstreamBuffer capacity :=
  { b with
    buffer := b.buffer ++ data
    fits := by
      have := b.fits
      rw [List.length_append]
      omega }

def eof : Int := -1

def overflow (b : OstreamBuffer capacity) (c : Int) : Int × OstreamBuffer capacity :=
  if c = eof then (0, b)
  else
    (c, b.makeRoom.append [(c % 256).toNat.toUInt8] (by
      have := b.makeRoom_lt
      simp only [List.length_singleton]
      omega))

def sputn (n : Int) (s : Bytes) (sz : Nat) (b : OstreamBuffer capacity) : Int × OstreamBuffer capacity :=
  if sz = 0 then (n, b)
  else if capacity < sz then
    (sz, if b.buffer ≠ [] then b.write (b.buffer ++ s.take sz) else b.write (s.take sz))
  else
    let len := min sz (capacity - b.makeRoom.buffer.length)
    sputn n (s.drop len) (sz - len)
      (b.makeRoom.append (s.take len) ((List.length_take_le _ _).trans (min_le_right _ _)))
termination_by sz
decreasing_by
  have := b.makeRoom_lt
  omega

def xsputn (b : OstreamBuffer capacity) (s : Bytes) (n : Int) : Int × OstreamBuffer capacity :=
  if n < 0 then (n, b) else sputn n s n.toNat b

def destroy (b : OstreamBuffer capacity) : OstreamBuffer capacity := b.sync

def stream (b : OstreamBuffer capacity) : Bytes := b.written ++ b.buffer

theorem stream_sync (b : OstreamBuffer capacity) : b.sync.stream = b.stream := by
  unfold sync
  split_ifs <;> simp [write, stream]

theorem buffer_sync (b : OstreamBuffer capacity) : b.sync.buffer = [] := by
  unfold sync
  split_ifs with filled
  · rfl
  · simpa using filled

theorem stream_makeRoom (b : OstreamBuffer capacity) : b.makeRoom.stream = b.stream := by
  unfold makeRoom
  split_ifs
  · exact b.stream_sync
  · rfl

theorem stream_append (b : OstreamBuffer capacity) (data : Bytes) (room : data.length ≤ capacity - b.buffer.length) :
    (b.append data room).stream = b.stream ++ data := by
  simp [append, stream]

theorem stream_sputn (n : Int) (s : Bytes) (sz : Nat) (b : OstreamBuffer capacity) :
    (sputn n s sz b).2.stream = b.stream ++ s.take sz := by
  fun_induction sputn n s sz b with
  | case1 => simp
  | case2 =>
    split_ifs with filled
    · simp [write, stream]
    · simp_all [write, stream]
  | case3 s sz b nonzero small len ih =>
    rw [ih, stream_append, stream_makeRoom, List.append_assoc, ← List.take_add]
    congr 2
    omega

theorem sputn_result {n : Int} {s : Bytes} {sz : Nat} {b : OstreamBuffer capacity}
    (first : capacity < sz → (sz : Int) = n) : (sputn n s sz b).1 = n := by
  fun_induction sputn n s sz b with
  | case1 => rfl
  | case2 s sz b nonzero large => exact first large
  | case3 s sz b nonzero small len ih => exact ih fun large => absurd large (by omega)

theorem xsputn_result (b : OstreamBuffer capacity) (s : Bytes) (n : Int) : (b.xsputn s n).1 = n := by
  unfold xsputn
  split_ifs with negative
  · rfl
  · exact sputn_result fun _ => Int.toNat_of_nonneg (not_lt.mp negative)

inductive Call where
  | overflow (c : Int)
  -- `n` characters from those at `s` on
  | xsputn (s : Bytes) (n : Int)
  | sync
  deriving DecidableEq

def Call.characters : Call → Bytes
  | .overflow c => if c = eof then [] else [(c % 256).toNat.toUInt8]
  | .xsputn s n => s.take n.toNat
  | .sync => []

def call (b : OstreamBuffer capacity) : Call → OstreamBuffer capacity
  | .overflow c => (b.overflow c).2
  | .xsputn s n => (b.xsputn s n).2
  | .sync => b.sync

theorem stream_call (b : OstreamBuffer capacity) (call : Call) : (b.call call).stream = b.stream ++ call.characters := by
  cases call with
  | overflow c =>
    simp only [OstreamBuffer.call, OstreamBuffer.overflow, Call.characters]
    split_ifs
    · simp
    · rw [stream_append, stream_makeRoom]
  | xsputn s n =>
    simp only [OstreamBuffer.call, OstreamBuffer.xsputn, Call.characters]
    split_ifs with negative
    · simp [Int.toNat_of_nonpos negative.le]
    · exact stream_sputn n s n.toNat b
  | sync => simp [OstreamBuffer.call, Call.characters, stream_sync]

def run (positive : 0 < capacity) (calls : List Call) : OstreamBuffer capacity :=
  calls.foldl call (create positive)

theorem stream_run (positive : 0 < capacity) (calls : List Call) :
    (run positive calls).stream = calls.flatMap Call.characters := by
  induction calls using List.reverseRecOn with
  | nil => rfl
  | append_singleton calls last ih =>
    rw [run, List.foldl_append, List.foldl_cons, List.foldl_nil, stream_call, ← run, ih]
    simp

/-- No call loses, repeats or reorders a character, and `xsputn` takes all it is given. -/
theorem ostream_buffer_preserves_stream {capacity : Nat} (positive : 1 ≤ capacity) (calls : List Call) :
    (run positive calls).written ++ (run positive calls).buffer = calls.flatMap Call.characters ∧
    (run positive calls).buffer.length ≤ capacity ∧
    (∀ s n, ((run positive calls).xsputn s n).1 = n) ∧
    (run positive calls).sync.buffer = [] ∧ (run positive calls).sync.written = calls.flatMap Call.characters ∧
    (run positive calls).destroy.buffer = [] ∧ (run positive calls).destroy.written = calls.flatMap Call.characters := by
  have whole := stream_run positive calls
  have flushed : (run positive calls).sync.written = calls.flatMap Call.characters := by
    rw [← whole, ← stream_sync, stream, buffer_sync, List.append_nil]
  exact ⟨whole, (run positive calls).fits, xsputn_result _, buffer_sync _, flushed, buffer_sync _, flushed⟩

theorem ostream_buffer_preserves_stream_large :
    (run (by decide : 1 ≤ 4) [.xsputn (bytes "abc") 3, .xsputn (bytes "defgh") 5, .overflow 33]).written =
      bytes "abcdefgh" ∧
    (run (by decide : 1 ≤ 4) [.xsputn (bytes "abc") 3, .xsputn (bytes "defgh") 5, .overflow 33]).sync.written =
      bytes "abcdefgh!" := by
  have preserved := ostream_buffer_preserves_stream (by decide : 1 ≤ 4)
    [.xsputn (bytes "abc") 3, .xsputn (bytes "defgh") 5, .overflow 33]
  refine ⟨by decide +kernel, preserved.2.2.2.2.1.trans (by decide +kernel)⟩

end OstreamBuffer

end Dracon
