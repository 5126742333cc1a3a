import Mathlib
import Dracon.Session.Connection

set_option autoImplicit false

namespace Dracon

open Shared

abbrev Memory := Nat → Byte

def Memory.read (mem : Memory) (ptr : Nat) : Nat → Bytes
  | 0 => []
  | n + 1 => mem ptr :: Memory.read mem (ptr + 1) n

namespace Memory

@[simp]
theorem length_read (mem : Memory) (ptr n : Nat) : (mem.read ptr n).length = n := by
  induction n generalizing ptr with
  | zero => rfl
  | succ n ih => simp [read, ih]

theorem read_add (mem : Memory) (ptr m n : Nat) : mem.read ptr (m + n) = mem.read ptr m ++ mem.read (ptr + m) n := by
  induction m generalizing ptr with
  | zero => simp [read]
  | succ m ih =>
    have shift : m + 1 + n = m + n + 1 := by omega
    have next : ptr + 1 + m = ptr + (m + 1) := by omega
    rw [shift, read, read, ih, next, List.cons_append]

theorem take_read (mem : Memory) (ptr : Nat) {m n : Nat} (within : m ≤ n) :
    (mem.read ptr n).take m = mem.read ptr m := by
  obtain ⟨k, rfl⟩ := Nat.exists_eq_add_of_le within
  rw [read_add, List.take_left' (length_read mem ptr m)]

theorem drop_read (mem : Memory) (ptr : Nat) {m n : Nat} (within : m ≤ n) :
    (mem.read ptr n).drop m = mem.read (ptr + m) (n - m) := by
  obtain ⟨k, rfl⟩ := Nat.exists_eq_add_of_le within
  rw [read_add, List.drop_left' (length_read mem ptr m), Nat.add_sub_cancel_left]

end Memory

structure ConstBuffer where
  ptr : Nat := 0
  length : UInt64 := 0
  deriving DecidableEq

def ConstBuffer.view (mem : Memory) (b : ConstBuffer) : Bytes := mem.read b.ptr b.length.toNat

def concatenation (mem : Memory) (buffers : List ConstBuffer) : Bytes := (buffers.map (·.view mem)).flatten

def totalLength (buffers : List ConstBuffer) : UInt64 := buffers.foldl (fun sum b => sum + b.length) 0

def byteCount (buffers : List ConstBuffer) : Nat := (buffers.map (·.length.toNat)).sum

theorem length_view (mem : Memory) (b : ConstBuffer) : (b.view mem).length = b.length.toNat :=
  mem.length_read b.ptr b.length.toNat

theorem length_concatenation (mem : Memory) (buffers : List ConstBuffer) :
    (concatenation mem buffers).length = byteCount buffers := by
  simp [concatenation, byteCount, List.length_flatten, List.map_map, Function.comp_def, length_view]

theorem byteCount_replicate (n : Nat) (b : ConstBuffer) : byteCount (List.replicate n b) = n * b.length.toNat := by
  simp [byteCount]

theorem concatenation_ne_nil {mem : Memory} {buffers : List ConstBuffer} :
    concatenation mem buffers ≠ [] ↔ ∃ b ∈ buffers, b.length ≠ 0 := by
  have empty : ∀ b : ConstBuffer, b.view mem = [] ↔ b.length = 0 := by
    intro b
    rw [← List.length_eq_zero_iff, length_view, ← UInt64.toNat_inj]
    rfl
  simp [concatenation, empty]

theorem totalLength_toNat (buffers : List ConstBuffer) : (totalLength buffers).toNat = byteCount buffers % 2 ^ 64 := by
  have run : ∀ sum : UInt64, (buffers.foldl (fun sum b => sum + b.length) sum).toNat =
      (sum.toNat + byteCount buffers) % 2 ^ 64 := by
    induction buffers with
    | nil =>
      intro sum
      simp [byteCount]
    | cons b buffers ih =>
      intro sum
      rw [List.foldl_cons, ih, UInt64.toNat_add]
      simp only [byteCount, List.map_cons, List.sum_cons]
      omega
  simpa [totalLength] using run 0

theorem totalLength_eq_zero {buffers : List ConstBuffer} : totalLength buffers = 0 ↔ byteCount buffers % 2 ^ 64 = 0 := by
  rw [← UInt64.toNat_inj, totalLength_toNat]
  rfl

inductive Owner where
  | caller
  | session
  deriving DecidableEq

structure Descriptors where
  caller : List ConstBuffer
  writeBuffers : List ConstBuffer
  deriving DecidableEq

namespace Descriptors

def get (d : Descriptors) : Owner → List ConstBuffer
  | .caller => d.caller
  | .session => d.writeBuffers

def modify (d : Descriptors) (owner : Owner) (i : Nat) (f : ConstBuffer → ConstBuffer) : Descriptors :=
  match owner with
  | .caller => { d with caller := d.caller.modify i f }
  | .session => { d with writeBuffers := d.writeBuffers.modify i f }

end Descriptors

structure Span where
  owner : Owner
  first : Nat
  size : Nat
  deriving DecidableEq

namespace Span

def get (span : Span) (d : Descriptors) : List ConstBuffer := ((d.get span.owner).drop span.first).take span.size

def subspan (span : Span) (n : Nat) : Span := { span with first := span.first + n, size := span.size - n }

end Span

inductive Transport where
  | plain
  -- `socket_write_size`, the size of the shared buffer, and whether the event loop is the one that writes
  | tls (socketSize sharedSize : UInt64) (onLoop : Bool)
  deriving DecidableEq

def iovMax : Nat := 1024

def intMax : Nat := 2 ^ 31 - 1

-- The descriptors that `socket_session::write_some` hands to `writev`.
def writevBatch (buffers : List ConstBuffer) : List ConstBuffer := buffers.take (min buffers.length iovMax)

theorem writevBatch_eq (buffers : List ConstBuffer) : writevBatch buffers = buffers.take iovMax := by
  rw [writevBatch, ← List.take_take, List.take_of_length_le (List.length_take_le' _ _)]

def sslWrite (data : Bytes) : Bytes := if data.length < intMax then data else data.take intMax

def sharedWriteBuffer (sharedSize : UInt64) (onLoop : Bool) (size : UInt64) : UInt64 :=
  if onLoop ∧ size ≤ sharedSize then sharedSize else size

def flatCopy (mem : Memory) (room : Nat) : List ConstBuffer → Bytes
  | [] => []
  | b :: buffers =>
    if room = 0 then []
    else
      let size := min b.length.toNat room
      mem.read b.ptr size ++ flatCopy mem (room - size) buffers

def offered (mem : Memory) : Transport → List ConstBuffer → Bytes
  | .plain, buffers => concatenation mem (writevBatch buffers)
  | .tls .., [] => []
  | .tls socketSize sharedSize onLoop, front :: rest =>
    if (front :: rest).length = 1 ∨ socketSize ≤ front.length then sslWrite (front.view mem)
    else
      let room := min (sharedWriteBuffer sharedSize onLoop socketSize) socketSize
      sslWrite (flatCopy mem room.toNat (front :: rest))

theorem sslWrite_begins (data : Bytes) : sslWrite data <+: data := by
  unfold sslWrite
  split_ifs
  · exact List.prefix_refl data
  · exact List.take_prefix _ _

theorem flatCopy_eq (mem : Memory) (room : Nat) (buffers : List ConstBuffer) :
    flatCopy mem room buffers = (concatenation mem buffers).take room := by
  induction buffers generalizing room with
  | nil => simp [flatCopy, concatenation]
  | cons b buffers ih =>
    have whole : concatenation mem (b :: buffers) = b.view mem ++ concatenation mem buffers := rfl
    simp only [flatCopy, whole, List.take_append, ih, length_view]
    split_ifs with full
    · simp [full]
    rcases Nat.le_total b.length.toNat room with fits | cut
    · have whole : (b.view mem).take room = b.view mem := List.take_of_length_le (by rwa [length_view])
      rw [Nat.min_eq_left fits, whole]
      rfl
    · rw [Nat.min_eq_right cut, ConstBuffer.view, mem.take_read b.ptr cut]
      simp [Nat.sub_eq_zero_of_le cut]

theorem concatenation_take_begins (mem : Memory) (n : Nat) (buffers : List ConstBuffer) :
    concatenation mem (buffers.take n) <+: concatenation mem buffers := by
  refine ⟨concatenation mem (buffers.drop n), ?_⟩
  rw [concatenation, concatenation, ← List.flatten_append, ← List.map_append, List.take_append_drop, concatenation]

theorem offered_begins (mem : Memory) (transport : Transport) (buffers : List ConstBuffer) :
    offered mem transport buffers <+: concatenation mem buffers := by
  match transport, buffers with
  | .plain, buffers => exact concatenation_take_begins mem _ buffers
  | .tls .., [] => exact List.nil_prefix
  | .tls socketSize sharedSize onLoop, front :: rest =>
    rw [offered]
    split_ifs
    · exact (sslWrite_begins _).trans (List.prefix_append _ _)
    · simp only [flatCopy_eq]
      exact (sslWrite_begins _).trans (List.take_prefix _ _)

theorem take_offered (mem : Memory) (transport : Transport) (buffers : List ConstBuffer) {n : Nat}
    (within : n ≤ (offered mem transport buffers).length) :
    (offered mem transport buffers).take n = (concatenation mem buffers).take n := by
  rw [List.prefix_iff_eq_take.mp (offered_begins mem transport buffers), List.take_take, Nat.min_eq_left within]

def dropSent : List ConstBuffer → UInt64 → Nat × UInt64
  | [], written => (0, written)
  | front :: rest, written =>
    if front.length ≤ written then
      let (n, written) := dropSent rest (written - front.length)
      (n + 1, written)
    else (0, written)

def ConstBuffer.shorten (written : UInt64) (b : ConstBuffer) : ConstBuffer where
  ptr := b.ptr + written.toNat
  length := b.length - written

theorem shorten_zero (b : ConstBuffer) : b.shorten 0 = b := by
  simp [ConstBuffer.shorten]

theorem view_shorten (mem : Memory) {b : ConstBuffer} {written : UInt64} (within : written ≤ b.length) :
    (b.shorten written).view mem = (b.view mem).drop written.toNat := by
  rw [ConstBuffer.view, ConstBuffer.view, mem.drop_read _ (UInt64.le_iff_toNat_le.mp within)]
  simp [ConstBuffer.shorten, UInt64.toNat_sub_of_le _ _ within]

theorem dropSent_fst_le (buffers : List ConstBuffer) (written : UInt64) : (dropSent buffers written).1 ≤ buffers.length := by
  fun_induction dropSent buffers written with
  | case1 => simp
  | case2 front rest written sent n left taken ih =>
    rw [taken] at ih
    simpa using ih
  | case3 => simp

theorem dropSent_lt {buffers rest : List ConstBuffer} {front : ConstBuffer} {written : UInt64}
    (left : buffers.drop (dropSent buffers written).1 = front :: rest) :
    (dropSent buffers written).2 < front.length := by
  fun_induction dropSent buffers written with
  | case1 => simp at left
  | case2 _ _ _ _ _ _ taken ih =>
    rw [taken] at ih
    exact ih left
  | case3 b buffers written more =>
    cases left
    exact UInt64.not_le.mp more

theorem dropSent_refines (mem : Memory) (buffers : List ConstBuffer) (written : UInt64) :
    ((buffers.drop (dropSent buffers written).1).modifyHead (.shorten (dropSent buffers written).2)).map (·.view mem) =
      Conn.dropWritten written.toNat (buffers.map (·.view mem)) := by
  fun_induction dropSent buffers written with
  | case1 => rfl
  | case2 front rest written sent n left taken ih =>
    rw [taken] at ih
    have fits : (front.view mem).length ≤ written.toNat := by
      rw [length_view]
      exact UInt64.le_iff_toNat_le.mp sent
    rw [List.map_cons, Conn.dropWritten, if_pos fits, length_view, ← UInt64.toNat_sub_of_le _ _ sent, ← ih]
    rfl
  | case3 front rest written more =>
    have less : ¬ (front.view mem).length ≤ written.toNat := by
      rw [length_view]
      exact fun fits => more (UInt64.le_iff_toNat_le.mpr fits)
    rw [List.map_cons, Conn.dropWritten, if_neg less, ← view_shorten mem (UInt64.le_of_lt (UInt64.not_le.mp more))]
    rfl

theorem flatten_dropWritten (written : Nat) (job : List Bytes) :
    (Conn.dropWritten written job).flatten = job.flatten.drop written := by
  fun_induction Conn.dropWritten written job with
  | case1 => simp
  | case2 written buffer rest fits ih => rw [ih, List.flatten_cons, List.drop_append, List.drop_of_length_le fits, List.nil_append]
  | case3 written buffer rest more =>
    rw [List.flatten_cons, List.flatten_cons, List.drop_append_of_le_length (Nat.le_of_not_le more)]

inductive WriteControl where
  | write
  | yield
  | returned
  | thrown (ec : ErrorCode)
  deriving DecidableEq

structure VectoredWrite where
  descriptors : Descriptors
  pending : Span
  -- what the transport has taken so far
  accepted : Bytes := []
  control : WriteControl
  deriving DecidableEq

inductive WriteInput where
  | writeSome (result : WriteResult)
  | resume (ec : Option ErrorCode)
  deriving DecidableEq

namespace VectoredWrite

def buffers (w : VectoredWrite) : List ConstBuffer := w.pending.get w.descriptors

def loop (w : VectoredWrite) : VectoredWrite :=
  { w with control := if w.pending.size = 0 then .returned else .write }

def start (scratch buffers : List ConstBuffer) : VectoredWrite :=
  if totalLength buffers = 0 then
    { descriptors := ⟨buffers, scratch⟩, pending := ⟨.session, 0, 0⟩, control := .returned }
  else
    loop { descriptors := ⟨buffers, buffers⟩, pending := ⟨.session, 0, buffers.length⟩, control := .write }

def wrote (w : VectoredWrite) (written : UInt64) : VectoredWrite :=
  if written = 0 then { w with control := .yield }
  else
    let (n, written) := dropSent w.buffers written
    let pending := w.pending.subspan n
    let descriptors :=
      if pending.size ≠ 0 ∧ written ≠ 0 then
        w.descriptors.modify pending.owner pending.first (.shorten written)
      else w.descriptors
    loop { w with pending := pending, descriptors := descriptors }

-- A transport takes a prefix of what it is offered, of a length that a `ssize_t` can hold.
def system (mem : Memory) (transport : Transport) : System VectoredWrite WriteInput where
  step w input :=
    match w.control, input with
    | .write, .writeSome (.error ec) => some { w with control := .thrown ec }
    | .write, .writeSome .again => some (w.wrote 0)
    | .write, .writeSome (.accepted n) =>
      let data := offered mem transport w.buffers
      if n ≤ data.length ∧ n < 2 ^ 63 then
        some ({ w with accepted := w.accepted ++ data.take n }.wrote (UInt64.ofNat n))
      else none
    | .yield, .resume none => some { w with control := .write }
    | .yield, .resume (some ec) => some { w with control := .thrown ec }
    | _, _ => none

end VectoredWrite

def ConstBuffer.RestOf (b whole : ConstBuffer) : Prop :=
  whole.ptr ≤ b.ptr ∧ b.ptr + b.length.toNat = whole.ptr + whole.length.toNat

theorem restOf_shorten {b whole : ConstBuffer} {written : UInt64} (rest : b.RestOf whole) (within : written ≤ b.length) :
    (b.shorten written).RestOf whole := by
  obtain ⟨after, ending⟩ := rest
  have bound := UInt64.le_iff_toNat_le.mp within
  have shorter := UInt64.toNat_sub_of_le _ _ within
  constructor
  · exact after.trans (Nat.le_add_right _ _)
  · simp only [ConstBuffer.shorten, shorter]
    omega

namespace VectoredWrite

structure Sending (mem : Memory) (buffers : List ConstBuffer) (w : VectoredWrite) : Prop where
  caller : w.descriptors.caller = buffers
  owner : w.pending.owner = .session
  reach : w.pending.first + w.pending.size = w.descriptors.writeBuffers.length
  rest : List.Forall₂ ConstBuffer.RestOf w.buffers (buffers.drop w.pending.first)
  stream : w.accepted ++ concatenation mem w.buffers = concatenation mem buffers
  front : w.buffers = buffers ∨ ∀ b ∈ w.buffers.head?, b.length ≠ 0
  running : w.control = .write ∨ w.control = .yield → w.pending.size ≠ 0
  returned : w.control = .returned → w.pending.size = 0

section

variable {mem : Memory} {buffers : List ConstBuffer} {w : VectoredWrite}

theorem Sending.buffers_eq (sending : w.Sending mem buffers) :
    w.buffers = w.descriptors.writeBuffers.drop w.pending.first := by
  have reach := sending.reach
  rw [VectoredWrite.buffers, Span.get, sending.owner]
  exact List.take_of_length_le (by simp [Descriptors.get]; omega)

theorem Sending.length_buffers (sending : w.Sending mem buffers) : w.buffers.length = w.pending.size := by
  have reach := sending.reach
  rw [sending.buffers_eq, List.length_drop]
  omega

theorem Sending.shortened (sending : w.Sending mem buffers) (written : UInt64) (n : Nat) :
    (if (w.pending.subspan n).size ≠ 0 ∧ written ≠ 0 then
        w.descriptors.modify (w.pending.subspan n).owner (w.pending.subspan n).first (.shorten written)
      else w.descriptors) =
      { w.descriptors with
        writeBuffers := w.descriptors.writeBuffers.modify (w.pending.first + n) (.shorten written) } := by
  have owner : (w.pending.subspan n).owner = .session := sending.owner
  rw [owner]
  split_ifs with more
  · rfl
  · -- nothing is left to shorten, or nothing to shorten it by
    suffices same : w.descriptors.writeBuffers.modify (w.pending.first + n) (.shorten written) =
        w.descriptors.writeBuffers by rw [same]
    rcases not_and_or.mp more with empty | zero
    · have size := sending.length_buffers
      have reach := sending.reach
      simp only [Span.subspan, not_not] at empty
      exact List.modify_eq_self (by omega)
    · have id : ConstBuffer.shorten 0 = id := funext shorten_zero
      rw [not_not.mp zero, id, List.modify_id]

def sent (w : VectoredWrite) (written : UInt64) : VectoredWrite :=
  { w with
    pending := w.pending.subspan (dropSent w.buffers written).1
    descriptors := { w.descriptors with
      writeBuffers := w.descriptors.writeBuffers.modify (w.pending.first + (dropSent w.buffers written).1)
        (.shorten (dropSent w.buffers written).2) } }

theorem Sending.wrote_eq (sending : w.Sending mem buffers) {written : UInt64} (positive : written ≠ 0) :
    w.wrote written = loop (w.sent written) := by
  rw [VectoredWrite.wrote, if_neg positive]
  simp only [sending.shortened, sent]

theorem Sending.buffers_sent (sending : w.Sending mem buffers) (written : UInt64) :
    (w.sent written).buffers =
      (w.buffers.drop (dropSent w.buffers written).1).modifyHead (.shorten (dropSent w.buffers written).2) := by
  have dropped := dropSent_fst_le w.buffers written
  have size := sending.length_buffers
  have reach := sending.reach
  have owner : (w.sent written).pending.owner = .session := sending.owner
  rw [VectoredWrite.buffers, Span.get, owner, List.modifyHead_eq_modify_zero]
  simp only [Descriptors.get, VectoredWrite.sent, Span.subspan]
  rw [List.drop_modify_of_ge _ _ _ _ (le_refl _), Nat.sub_self, ← List.drop_drop, ← sending.buffers_eq]
  exact List.take_of_length_le (by rw [List.length_modify, List.length_drop]; omega)

theorem Sending.concatenation_sent (sending : w.Sending mem buffers) (written : UInt64) :
    concatenation mem (w.sent written).buffers = (concatenation mem w.buffers).drop written.toNat := by
  rw [concatenation, sending.buffers_sent, dropSent_refines, flatten_dropWritten, concatenation]

theorem Sending.rest_sent (sending : w.Sending mem buffers) (written : UInt64) :
    List.Forall₂ ConstBuffer.RestOf (w.sent written).buffers (buffers.drop (w.sent written).pending.first) := by
  have rest := List.forall₂_drop (dropSent w.buffers written).1 sending.rest
  rw [List.drop_drop] at rest
  rw [sending.buffers_sent]
  cases left : w.buffers.drop (dropSent w.buffers written).1 with
  | nil =>
    rw [left] at rest
    exact rest
  | cons front others =>
    rw [left] at rest
    cases whole : buffers.drop (w.pending.first + (dropSent w.buffers written).1) with
    | nil =>
      rw [whole] at rest
      cases rest
    | cons first later =>
      rw [whole] at rest
      obtain ⟨headRest, tailRest⟩ := List.forall₂_cons.mp rest
      have shorter := restOf_shorten headRest (UInt64.le_of_lt (dropSent_lt left))
      have same : buffers.drop (w.sent written).pending.first = first :: later := whole
      rw [same]
      exact .cons shorter tailRest

theorem Sending.front_sent (sending : w.Sending mem buffers) (written : UInt64) :
    ∀ b ∈ (w.sent written).buffers.head?, b.length ≠ 0 := by
  intro b isFront
  rw [sending.buffers_sent] at isFront
  cases left : w.buffers.drop (dropSent w.buffers written).1 with
  | nil => simp [left] at isFront
  | cons front others =>
    have less := dropSent_lt left
    obtain rfl : front.shorten (dropSent w.buffers written).2 = b := by simpa [left] using isFront
    have shorter := UInt64.toNat_sub_of_le _ _ (UInt64.le_of_lt less)
    have bound := UInt64.lt_iff_toNat_lt.mp less
    intro none
    have zero : (front.length - (dropSent w.buffers written).2).toNat = 0 := congrArg UInt64.toNat none
    omega

theorem wrote_accepted (w : VectoredWrite) (data : Bytes) (written : UInt64) :
    { w with accepted := data }.wrote written = { w.wrote written with accepted := data } := by
  unfold VectoredWrite.wrote
  split_ifs <;> rfl

theorem Sending.accept (sending : w.Sending mem buffers) {written : UInt64} (positive : written ≠ 0) :
    ({ w with accepted := w.accepted ++ (concatenation mem w.buffers).take written.toNat }.wrote written).Sending
      mem buffers := by
  rw [wrote_accepted, sending.wrote_eq positive]
  have dropped := dropSent_fst_le w.buffers written
  have size := sending.length_buffers
  have reach := sending.reach
  constructor
  · exact sending.caller
  · exact sending.owner
  · simp only [loop, VectoredWrite.sent, Span.subspan, List.length_modify]
    omega
  · exact sending.rest_sent written
  · have remains : concatenation mem (w.sent written).buffers = _ := sending.concatenation_sent written
    calc w.accepted ++ (concatenation mem w.buffers).take written.toNat ++ concatenation mem (w.sent written).buffers
        = w.accepted ++ ((concatenation mem w.buffers).take written.toNat ++
            (concatenation mem w.buffers).drop written.toNat) := by rw [List.append_assoc, remains]
      _ = concatenation mem buffers := by rw [List.take_append_drop, sending.stream]
  · exact .inr (sending.front_sent written)
  · intro live none
    have empty : (w.sent written).pending.size = 0 := none
    simp [loop, empty] at live
  · simp [loop]

theorem Sending.step {transport : Transport} {input : WriteInput} {w' : VectoredWrite} (sending : w.Sending mem buffers)
    (taken : (system mem transport).step w input = some w') : w'.Sending mem buffers := by
  simp only [system] at taken
  split at taken
  next ec atWrite =>
    cases taken
    exact { sending with running := nofun, returned := nofun }
  next atWrite =>
    cases taken
    exact { sending with running := fun _ => sending.running (.inl atWrite), returned := nofun }
  next n atWrite =>
    obtain ⟨⟨within, fits⟩, isNext⟩ := Option.ite_none_right_eq_some.mp taken
    cases isNext
    have value : (UInt64.ofNat n).toNat = n := by
      rw [UInt64.toNat_ofNat', Nat.mod_eq_of_lt (by omega)]
    by_cases none : n = 0
    · subst none
      rw [List.take_zero, List.append_nil]
      exact { sending with running := fun _ => sending.running (.inl atWrite), returned := nofun }
    · have positive : UInt64.ofNat n ≠ 0 := fun zero => none (by rw [← value, zero]; rfl)
      have sameBytes := take_offered mem transport w.buffers within
      rw [← value] at sameBytes
      have next := sending.accept positive
      rwa [← sameBytes, value] at next
  next atYield =>
    cases taken
    exact { sending with running := fun _ => sending.running (.inr atYield), returned := nofun }
  next ec atYield =>
    cases taken
    exact { sending with running := nofun, returned := nofun }
  next => cases taken

theorem length_ne_zero (nonzero : totalLength buffers ≠ 0) : buffers.length ≠ 0 := by
  intro none
  rw [List.length_eq_zero_iff.mp none] at nonzero
  exact nonzero rfl

theorem start_buffers (scratch : List ConstBuffer) (nonzero : totalLength buffers ≠ 0) :
    (start scratch buffers).buffers = buffers := by
  simp [start, nonzero, loop, VectoredWrite.buffers, Span.get, Descriptors.get]

theorem start_writes (scratch : List ConstBuffer) (nonzero : totalLength buffers ≠ 0) :
    (start scratch buffers).control = .write := by
  rw [start, if_neg nonzero, loop]
  exact if_neg (length_ne_zero nonzero)

theorem start_sending (mem : Memory) (scratch : List ConstBuffer) (nonzero : totalLength buffers ≠ 0) :
    (start scratch buffers).Sending mem buffers := by
  have positive := length_ne_zero nonzero
  constructor
  all_goals try rw [start_buffers scratch nonzero]
  all_goals simp only [start, if_neg nonzero, loop, if_neg positive]
  · simp
  · simp [List.forall₂_same, ConstBuffer.RestOf]
  · simp
  · simp
  · exact fun _ => positive
  · nofun

theorem start_of_zero (scratch : List ConstBuffer) (zero : totalLength buffers = 0) :
    start scratch buffers = { descriptors := ⟨buffers, scratch⟩, pending := ⟨.session, 0, 0⟩, control := .returned } := by
  rw [start, if_pos zero]

theorem reaches_returned {transport : Transport} {start : VectoredWrite} {inputs : List WriteInput}
    (stopped : start.control = .returned)
    (reached : (system mem transport).Reaches (fun _ _ => True) start inputs w) : w = start := by
  refine reached.invariant (P := fun _ w => w = start) rfl ?_
  rintro _ input s s' rfl _ taken
  simp [system, stopped] at taken

theorem Sending.of_reaches {transport : Transport} {scratch : List ConstBuffer} {inputs : List WriteInput}
    (nonzero : totalLength buffers ≠ 0)
    (reached : (system mem transport).Reaches (fun _ _ => True) (start scratch buffers) inputs w) :
    w.Sending mem buffers :=
  reached.invariant (P := fun _ w => w.Sending mem buffers) (start_sending mem scratch nonzero)
    fun sending _ taken => sending.step taken

end

structure SendsExactly (mem : Memory) (buffers : List ConstBuffer) (w : VectoredWrite) : Prop where
  accepted : w.accepted <+: concatenation mem buffers
  returned : w.control = .returned → w.accepted = concatenation mem buffers
  caller : w.descriptors.caller = buffers
  -- each pending descriptor is the rest of one of the caller's, so that its length has not wrapped
  lengths : ∃ sent, List.Forall₂ ConstBuffer.RestOf w.buffers (buffers.drop sent)

theorem Sending.sendsExactly {mem : Memory} {buffers : List ConstBuffer} {w : VectoredWrite}
    (sending : w.Sending mem buffers) : w.SendsExactly mem buffers where
  accepted := ⟨_, sending.stream⟩
  returned stopped := by
    have none : w.buffers = [] := List.eq_nil_of_length_eq_zero (sending.length_buffers.trans (sending.returned stopped))
    have whole := sending.stream
    rw [none] at whole
    exact (List.append_nil _).symm.trans whole
  caller := sending.caller
  lengths := ⟨_, sending.rest⟩

/-- A vectored write sends exactly the concatenation of its buffers, on every schedule, unless
their lengths add up to a multiple of `2 ^ 64`. -/
theorem write_sends_concatenation_iff (mem : Memory) (transport : Transport) (scratch buffers : List ConstBuffer) :
    (∀ inputs w, (system mem transport).Reaches (fun _ _ => True) (start scratch buffers) inputs w →
        w.SendsExactly mem buffers) ↔
      byteCount buffers = 0 ∨ byteCount buffers % 2 ^ 64 ≠ 0 := by
  constructor
  · intro exact_
    by_contra wraps
    obtain ⟨positive, multiple⟩ := not_or.mp wraps
    have early := start_of_zero scratch (totalLength_eq_zero.mpr (not_not.mp multiple))
    have sends := exact_ [] _ .start
    have nothing : concatenation mem buffers = [] := by
      rw [← sends.returned (by rw [early]), early]
    have length := length_concatenation mem buffers
    rw [nothing] at length
    exact positive length.symm
  · intro fits inputs w reached
    by_cases zero : totalLength buffers = 0
    · have empty : byteCount buffers = 0 := fits.resolve_right (not_not.mpr (totalLength_eq_zero.mp zero))
      have early := start_of_zero scratch zero
      have nothing : concatenation mem buffers = [] :=
        List.eq_nil_of_length_eq_zero ((length_concatenation mem buffers).trans empty)
      rw [reaches_returned (by rw [early]) reached, early]
      refine ⟨List.nil_prefix, fun _ => nothing.symm, rfl, buffers.length, ?_⟩
      rw [List.drop_length]
      exact .nil
    · exact (Sending.of_reaches zero reached).sendsExactly

/-- Sixteen million views of one mapping of a terabyte. -/
theorem terabytes_not_sent : ∃ w,
    (system (fun _ => 0) .plain).Reaches (fun _ _ => True)
      (start [] (List.replicate (2 ^ 24) ⟨0, 1099511627776⟩)) [] w ∧
    w.control = .returned ∧ w.accepted = [] ∧
    (concatenation (fun _ => 0) (List.replicate (2 ^ 24) ⟨0, 1099511627776⟩)).length = 2 ^ 64 := by
  have count : byteCount (List.replicate (2 ^ 24) ⟨0, 1099511627776⟩) = 2 ^ 64 := by
    rw [byteCount_replicate]
    rfl
  have early := start_of_zero [] (totalLength_eq_zero.mpr (by rw [count, Nat.mod_self]))
  refine ⟨_, .start, ?_, ?_, ?_⟩
  · rw [early]
  · rw [early]
  · rw [length_concatenation, count]

/-- On a plain socket, every batch has a byte if one of the first `IOV_MAX` buffers has one. -/
theorem batches_nonempty_iff (mem : Memory) (scratch buffers : List ConstBuffer) :
    (∀ inputs w, (system mem .plain).Reaches (fun _ _ => True) (start scratch buffers) inputs w →
        w.control = .write → concatenation mem (writevBatch w.buffers) ≠ []) ↔
      byteCount buffers % 2 ^ 64 = 0 ∨ ∃ b ∈ buffers.take iovMax, b.length ≠ 0 := by
  simp only [concatenation_ne_nil, writevBatch_eq, ← totalLength_eq_zero]
  constructor
  · intro nonempty
    by_cases zero : totalLength buffers = 0
    · exact .inl zero
    have batch := nonempty [] _ .start (start_writes scratch zero)
    rw [start_buffers scratch zero] at batch
    exact .inr batch
  · rintro batch inputs w reached writing
    by_cases zero : totalLength buffers = 0
    · rw [reaches_returned (by rw [start_of_zero scratch zero]) reached, start_of_zero scratch zero] at writing
      cases writing
    have sending := Sending.of_reaches zero reached
    rcases sending.front with whole | nonempty
    · rw [whole]
      exact batch.resolve_left zero
    · -- the drops have left a descriptor with a byte in front
      have live := sending.running (.inl writing)
      rw [← sending.length_buffers] at live
      obtain ⟨front, rest, isBuffers⟩ := List.exists_cons_of_length_pos (Nat.pos_of_ne_zero live)
      rw [isBuffers] at nonempty ⊢
      exact ⟨front, List.mem_cons_self, nonempty front rfl⟩

/-- A thousand empty buffers in front of a byte: the write yields and comes back to the same batch. -/
theorem empty_batch_yields :
    byteCount (List.replicate 1024 ⟨0, 0⟩ ++ [⟨0, 1⟩]) = 1 ∧
    (start [] (List.replicate 1024 ⟨0, 0⟩ ++ [⟨0, 1⟩])).control = .write ∧
    concatenation (fun _ => 0) (writevBatch (start [] (List.replicate 1024 ⟨0, 0⟩ ++ [⟨0, 1⟩])).buffers) = [] ∧
    (system (fun _ => 0) .plain).run (start [] (List.replicate 1024 ⟨0, 0⟩ ++ [⟨0, 1⟩]))
      [.writeSome (.accepted 0), .resume none] = some (start [] (List.replicate 1024 ⟨0, 0⟩ ++ [⟨0, 1⟩])) := by
  decide +kernel

end VectoredWrite

end Dracon
