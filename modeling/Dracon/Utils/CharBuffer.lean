import Mathlib
import Dracon.Http.Chars
import Dracon.Shared.StepSystem

set_option autoImplicit false

namespace Dracon

open Shared

structure CharBuffer where
  -- `m_buffer.get()`
  data : UInt64
  -- the bytes of the allocation, `m_size` of them
  memory : Bytes
  current : UInt64
  stop : UInt64
  within : data.toNat + memory.length < 2 ^ 64
  deriving DecidableEq

namespace CharBuffer

def empty : CharBuffer := ⟨0, [], 0, 0, by decide⟩

def sized (size : Nat) (address : UInt64) (room : address.toNat + size < 2 ^ 64) : CharBuffer :=
  ⟨address, List.replicate size 0, 0, 0, by simpa using room⟩

def reset (b : CharBuffer) : CharBuffer :=
  { b with current := b.data, stop := b.data + UInt64.ofNat b.memory.length }

def moved (memory : Bytes) (size : Nat) : Bytes :=
  if memory.length ≠ 0 then memory.take size ++ List.replicate (size - memory.length) 0 else List.replicate size 0

theorem length_moved (memory : Bytes) (size : Nat) : (moved memory size).length = size := by
  unfold moved
  split_ifs
  · simp only [List.length_append, List.length_take, List.length_replicate]
    omega
  · exact List.length_replicate

def resize (b : CharBuffer) (size : Nat) (address : UInt64) (room : address.toNat + size < 2 ^ 64) : CharBuffer :=
  if size = b.memory.length then b.reset
  else
    reset { b with
      data := address
      memory := moved b.memory size
      within := by rwa [length_moved] }

def advance (b : CharBuffer) (size : UInt64) : CharBuffer :=
  if b.stop < b.current + size then { b with current := b.stop } else { b with current := b.current + size }

def bytesFrom (b : CharBuffer) (size : Nat) : Bytes := (b.memory.drop (b.current - b.data).toNat).take size

def currentString (b : CharBuffer) : Bytes := b.bytesFrom (b.stop - b.current).toNat

def commit (b : CharBuffer) : CharBuffer :=
  if b.current = b.data then b
  else
    let size := b.stop - b.current
    { b with
      memory := b.bytesFrom size.toNat ++ b.memory.drop size.toNat
      current := b.data
      stop := b.data + size
      within := by
        have := b.within
        simp only [bytesFrom, List.length_append, List.length_take, List.length_drop]
        omega }

def setCurrentSize (b : CharBuffer) (size : UInt64) : CharBuffer := { b with stop := b.current + size }

def copy (b : CharBuffer) (s : Bytes) (fits : s.length ≤ b.memory.length) : CharBuffer :=
  { b with
    memory := s ++ b.memory.drop s.length
    within := by
      have := b.within
      simp only [List.length_append, List.length_drop]
      omega }

theorem length_resize (b : CharBuffer) (size : Nat) (address : UInt64) (room : address.toNat + size < 2 ^ 64) :
    (b.resize size address room).memory.length = size := by
  unfold resize
  split_ifs with same
  · exact same.symm
  · exact length_moved _ _

-- a string_view: of bytes elsewhere, or of the allocation itself
inductive View where
  | elsewhere (s : Bytes)
  | own (offset size : Nat)
  deriving DecidableEq

def View.string (b : CharBuffer) : View → Bytes
  | .elsewhere s => s
  | .own offset size => (b.memory.drop offset).take size

def View.Within (b : CharBuffer) : View → Prop
  | .elsewhere _ => True
  | .own offset size => offset + size ≤ b.memory.length

-- The bytes of the view are freed by resize(), or they are copied to themselves.
def View.lost : View → Bool
  | .elsewhere _ => false
  | .own _ size => size ≠ 0

-- memcpy to the front of the allocation would read what it writes.
def View.overlaps : View → Bool
  | .elsewhere _ => false
  | .own offset size => offset < size

-- What the program does not decide: where memory is allocated, and what undefined behaviour makes of the buffer.
structure Outcome where
  address : UInt64
  undefined : CharBuffer
  deriving DecidableEq

def assign (b : CharBuffer) (buff : View) (outcome : Outcome)
    (room : outcome.address.toNat + (buff.string b).length < 2 ^ 64) : CharBuffer :=
  if buff.lost then outcome.undefined
  else
    ((b.resize _ outcome.address room).copy (buff.string b) (b.length_resize _ outcome.address room).ge).setCurrentSize
      (UInt64.ofNat (buff.string b).length)

-- operator*=
def assignReuse (b : CharBuffer) (buff : View) (outcome : Outcome)
    (room : outcome.address.toNat + (buff.string b).length < 2 ^ 64) : CharBuffer :=
  if fits : b.memory.length ≤ (buff.string b).length then b.assign buff outcome room
  else if buff.overlaps then outcome.undefined
  else (b.reset.copy (buff.string b) (Nat.le_of_not_le fits)).advance (UInt64.ofNat (buff.string b).length)

inductive Op where
  | resize (size : Nat)
  | reset
  | advance (size : UInt64)
  | commit
  | setCurrentSize (size : UInt64)
  | assign (buff : View)
  | assignReuse (buff : View)
  deriving DecidableEq

-- set_current_size is called with sizes within the allocation only, and views are of what exists
def Allowed (b : CharBuffer) : Op → Prop
  | .setCurrentSize size => b.current.toNat + size.toNat ≤ b.data.toNat + b.memory.length
  | .assign buff | .assignReuse buff => buff.Within b
  | .resize _ | .reset | .advance _ | .commit => True

instance (b : CharBuffer) (buff : View) : Decidable (buff.Within b) := by
  cases buff <;> unfold View.Within <;> infer_instance

instance (b : CharBuffer) (op : Op) : Decidable (b.Allowed op) := by
  cases op <;> unfold Allowed <;> infer_instance

-- An allocation that does not fit into the address space fails.
def perform (b : CharBuffer) (outcome : Outcome) : Op → Option CharBuffer
  | .resize size =>
    if room : outcome.address.toNat + size < 2 ^ 64 then some (b.resize size outcome.address room) else none
  | .reset => some b.reset
  | .advance size => some (b.advance size)
  | .commit => some b.commit
  | .setCurrentSize size => some (b.setCurrentSize size)
  | .assign buff =>
    if room : outcome.address.toNat + (buff.string b).length < 2 ^ 64 then some (b.assign buff outcome room) else none
  | .assignReuse buff =>
    if room : outcome.address.toNat + (buff.string b).length < 2 ^ 64 then some (b.assignReuse buff outcome room) else none

def system : System CharBuffer (Op × Outcome) where
  step b input := if b.Allowed input.1 then b.perform input.2 input.1 else none

structure Placed (b : CharBuffer) : Prop where
  start : b.data.toNat ≤ b.current.toNat
  order : b.current.toNat ≤ b.stop.toNat
  limit : b.stop.toNat ≤ b.data.toNat + b.memory.length

def Does (b b' : CharBuffer) : Op → Prop
  | .advance size => b'.currentString = b.currentString.drop size.toNat
  | .commit => b'.currentString = b.currentString ∧ b'.current = b'.data
  | .assign buff | .assignReuse buff => b'.currentString = buff.string b
  | .resize _ | .reset | .setCurrentSize _ => True

def Fresh (b : CharBuffer) : Prop := b.data ≠ 0 ∧ b.current = 0 ∧ b.stop = 0

-- When an operation does what it is to do.
def Sound (b : CharBuffer) : Op → Prop
  | .resize _ | .reset | .commit => True
  | .setCurrentSize _ => ¬ b.Fresh
  | .advance size => ¬ b.Fresh ∧ b.current.toNat + size.toNat < 2 ^ 64
  | .assign buff => ¬ buff.lost
  | .assignReuse buff =>
    if b.memory.length ≤ (buff.string b).length then ¬ buff.lost
    else ¬ buff.overlaps ∧ b.memory.drop (buff.string b).length = buff.string b

section

variable {b : CharBuffer}

theorem reset_stop (b : CharBuffer) : b.reset.stop.toNat = b.data.toNat + b.memory.length := by
  have := b.within
  simp only [reset, UInt64.toNat_add, UInt64.toNat_ofNat']
  omega

theorem reset_placed (b : CharBuffer) : b.reset.Placed where
  start := le_rfl
  order := by
    rw [reset_stop]
    exact Nat.le_add_right _ _
  limit := b.reset_stop.le

theorem resize_placed (b : CharBuffer) {size : Nat} {address : UInt64} (room : address.toNat + size < 2 ^ 64) :
    (b.resize size address room).Placed := by
  unfold resize
  split_ifs
  · exact b.reset_placed
  · exact reset_placed _

theorem Placed.currentString_eq (placed : b.Placed) :
    b.currentString = (b.memory.drop (b.current.toNat - b.data.toNat)).take (b.stop.toNat - b.current.toNat) := by
  rw [currentString, bytesFrom, UInt64.toNat_sub_of_le _ _ (UInt64.le_iff_toNat_le.mpr placed.start),
    UInt64.toNat_sub_of_le _ _ (UInt64.le_iff_toNat_le.mpr placed.order)]

theorem Placed.length_currentString (placed : b.Placed) : b.currentString.length = b.stop.toNat - b.current.toNat := by
  have := placed.start
  have := placed.limit
  rw [placed.currentString_eq, List.length_take, List.length_drop]
  omega

theorem null_lt {data current : UInt64} (allocated : data ≠ 0) (null : current = 0) : current.toNat < data.toNat := by
  rw [null]
  exact Nat.pos_of_ne_zero fun zero => allocated (UInt64.toNat_inj.mp zero)

theorem Placed.not_fresh (placed : b.Placed) : ¬ b.Fresh := fun fresh =>
  placed.start.not_gt (null_lt fresh.1 fresh.2.1)

theorem Placed.advance (placed : b.Placed) (size : UInt64) (fits : b.current.toNat + size.toNat < 2 ^ 64) :
    (b.advance size).Placed ∧ (b.advance size).currentString = b.currentString.drop size.toNat := by
  obtain ⟨start, order, limit⟩ := placed
  have sum : (b.current + size).toNat = b.current.toNat + size.toNat := by
    rw [UInt64.toNat_add, Nat.mod_eq_of_lt fits]
  have next : (b.advance size).Placed := by
    unfold CharBuffer.advance
    split_ifs with beyond
    · exact ⟨start.trans order, le_rfl, limit⟩
    · have inside := UInt64.le_iff_toNat_le.mp (UInt64.not_lt.mp beyond)
      exact ⟨(start.trans (Nat.le_add_right _ _)).trans sum.ge, inside, limit⟩
  refine ⟨next, ?_⟩
  rw [next.currentString_eq, Placed.currentString_eq ⟨start, order, limit⟩, List.drop_take, List.drop_drop]
  unfold CharBuffer.advance
  split_ifs with beyond
  · have past := UInt64.lt_iff_toNat_lt.mp beyond
    rw [sum] at past
    simp [Nat.sub_eq_zero_of_le (by omega : b.stop.toNat - b.current.toNat ≤ size.toNat)]
  · have skipped : b.current.toNat + size.toNat - b.data.toNat = b.current.toNat - b.data.toNat + size.toNat := by omega
    have left : b.stop.toNat - (b.current.toNat + size.toNat) = b.stop.toNat - b.current.toNat - size.toNat := by omega
    simp only [sum, skipped, left]

-- The sum wraps, so the cursor goes back and is not clamped.
theorem Placed.advance_wraps (placed : b.Placed) {size : UInt64} (wraps : 2 ^ 64 ≤ b.current.toNat + size.toNat) :
    ¬ ((b.advance size).Placed ∧ (b.advance size).currentString = b.currentString.drop size.toNat) := by
  rintro ⟨next, dropped⟩
  have bound := b.current.toNat_lt
  have bound' := size.toNat_lt
  have order := placed.order
  have sum : (b.current + size).toNat = b.current.toNat + size.toNat - 2 ^ 64 := by
    rw [UInt64.toNat_add]
    omega
  have inside : ¬ b.stop < b.current + size := by
    rw [UInt64.lt_iff_toNat_lt, sum]
    omega
  have lengths := congrArg List.length dropped
  rw [next.length_currentString, List.length_drop, placed.length_currentString] at lengths
  simp only [CharBuffer.advance, if_neg inside, sum] at lengths
  omega

theorem commit_sound (held : b.Placed ∨ b.Fresh) :
    b.commit.Placed ∧ b.commit.currentString = b.currentString ∧ b.commit.current = b.commit.data := by
  have length : b.currentString.length = (b.stop - b.current).toNat ∧
      (b.stop - b.current).toNat ≤ b.memory.length := by
    rcases held with placed | ⟨-, null, stop⟩
    · have difference := UInt64.toNat_sub_of_le _ _ (UInt64.le_iff_toNat_le.mpr placed.order)
      obtain ⟨start, order, limit⟩ := placed
      refine ⟨?_, by omega⟩
      rw [Placed.length_currentString ⟨start, order, limit⟩, difference]
    · simp [currentString, bytesFrom, null, stop]
  unfold commit
  split_ifs with front
  · refine ⟨held.resolve_right ?_, rfl, front⟩
    rintro ⟨allocated, null, -⟩
    exact allocated (front.symm.trans null)
  · have within := b.within
    have sum : (b.data + (b.stop - b.current)).toNat = b.data.toNat + (b.stop - b.current).toNat := by
      rw [UInt64.toNat_add, Nat.mod_eq_of_lt (by omega)]
    have size : b.data + (b.stop - b.current) - b.data = b.stop - b.current := by simp
    refine ⟨⟨le_rfl, ?_, ?_⟩, ?_, rfl⟩
    · simp only [sum]
      exact Nat.le_add_right _ _
    · have copied : (b.bytesFrom (b.stop - b.current).toNat).length = (b.stop - b.current).toNat := length.1
      simp only [sum, List.length_append, copied, List.length_drop]
      omega
    · simp only [currentString, size]
      rw [bytesFrom, UInt64.sub_self]
      exact List.take_left' length.1

theorem setCurrentSize_placed (placed : b.Placed) {size : UInt64}
    (inside : b.current.toNat + size.toNat ≤ b.data.toNat + b.memory.length) : (b.setCurrentSize size).Placed := by
  have within := b.within
  have sum : (b.current + size).toNat = b.current.toNat + size.toNat := by
    rw [UInt64.toNat_add, Nat.mod_eq_of_lt (by omega)]
  exact ⟨placed.start, by simp [setCurrentSize, sum], by simpa [setCurrentSize, sum] using inside⟩

theorem resize_current (b : CharBuffer) {size : Nat} {address : UInt64} (room : address.toNat + size < 2 ^ 64) :
    (b.resize size address room).current = (b.resize size address room).data := by
  unfold resize
  split_ifs <;> rfl

theorem length_copy (b : CharBuffer) {s : Bytes} (fits : s.length ≤ b.memory.length) :
    (b.copy s fits).memory.length = b.memory.length := by
  simp only [copy, List.length_append, List.length_drop]
  omega

theorem Placed.copy (placed : b.Placed) {s : Bytes} (fits : s.length ≤ b.memory.length) : (b.copy s fits).Placed :=
  ⟨placed.start, placed.order, by rw [length_copy]; exact placed.limit⟩

theorem toNat_length (b : CharBuffer) {s : Bytes} (fits : s.length ≤ b.memory.length) :
    (UInt64.ofNat s.length).toNat = s.length := by
  have := b.within
  rw [UInt64.toNat_ofNat', Nat.mod_eq_of_lt (by omega)]

theorem copy_setCurrentSize (placed : b.Placed) (front : b.current = b.data) {s : Bytes}
    (fits : s.length ≤ b.memory.length) :
    ((b.copy s fits).setCurrentSize (UInt64.ofNat s.length)).Placed ∧
      ((b.copy s fits).setCurrentSize (UInt64.ofNat s.length)).currentString = s := by
  have value := b.toNat_length fits
  constructor
  · refine setCurrentSize_placed (placed.copy fits) ?_
    rw [length_copy, value]
    exact Nat.add_le_add (congrArg UInt64.toNat front).le fits
  · have size : b.current + UInt64.ofNat s.length - b.current = UInt64.ofNat s.length := by simp
    simp only [currentString, bytesFrom, setCurrentSize, CharBuffer.copy, size]
    rw [value, front, UInt64.sub_self]
    exact List.take_left' rfl

theorem not_placed_undefined : ∃ b : CharBuffer, ¬ b.Placed :=
  ⟨⟨1, [], 0, 0, by decide⟩, fun placed => absurd placed.start (by decide)⟩

variable {buff : View} {outcome : Outcome}

theorem assign_sound (room : outcome.address.toNat + (buff.string b).length < 2 ^ 64) (kept : ¬ buff.lost) :
    (b.assign buff outcome room).Placed ∧ (b.assign buff outcome room).currentString = buff.string b := by
  rw [assign, if_neg kept]
  exact copy_setCurrentSize (b.resize_placed room) (b.resize_current room) _

theorem copy_advance (b : CharBuffer) {s : Bytes} (smaller : s.length ≤ b.reset.memory.length) :
    ((b.reset.copy s smaller).advance (UInt64.ofNat s.length)).Placed ∧
      ((b.reset.copy s smaller).advance (UInt64.ofNat s.length)).currentString = b.memory.drop s.length := by
  have value := b.reset.toNat_length smaller
  have within := b.within
  have copied := b.reset_placed.copy smaller
  have fits : b.data.toNat + (UInt64.ofNat s.length).toNat < 2 ^ 64 := by
    rw [value]
    exact (Nat.add_le_add_left smaller _).trans_lt within
  obtain ⟨placed, dropped⟩ := copied.advance _ fits
  refine ⟨placed, ?_⟩
  have whole : (s ++ b.memory.drop s.length).length ≤ b.memory.length := (b.reset.length_copy smaller).le
  have read : (b.reset.copy s smaller).stop.toNat - (b.reset.copy s smaller).current.toNat = b.memory.length :=
    Nat.sub_eq_of_eq_add' b.reset_stop
  have front : (b.reset.copy s smaller).current.toNat - (b.reset.copy s smaller).data.toNat = 0 := Nat.sub_self _
  have memory : (b.reset.copy s smaller).memory = s ++ b.memory.drop s.length := rfl
  rw [dropped, copied.currentString_eq, value, read, front, List.drop_zero, memory, List.take_of_length_le whole,
    List.drop_left]

theorem assignReuse_sound (room : outcome.address.toNat + (buff.string b).length < 2 ^ 64)
    (sound : b.Sound (.assignReuse buff)) :
    (b.assignReuse buff outcome room).Placed ∧ (b.assignReuse buff outcome room).currentString = buff.string b := by
  unfold assignReuse
  rw [Sound] at sound
  split_ifs at sound ⊢ with large overlaps
  · exact assign_sound room sound
  · exact absurd overlaps sound.1
  · obtain ⟨placed, rest⟩ := b.copy_advance (Nat.le_of_not_le large)
    exact ⟨placed, rest.trans sound.2⟩

theorem perform_sound {op : Op} {b' : CharBuffer} (held : b.Placed ∨ b.Fresh) (allowed : b.Allowed op)
    (sound : b.Sound op) (done : b.perform outcome op = some b') : b'.Placed ∧ Does b b' op := by
  have placed (fresh : ¬ b.Fresh) : b.Placed := held.resolve_right fresh
  cases op with
  | resize size =>
    obtain ⟨room, made⟩ := Option.dite_none_right_eq_some.mp done
    cases made
    exact ⟨b.resize_placed room, trivial⟩
  | reset =>
    cases done
    exact ⟨b.reset_placed, trivial⟩
  | advance size =>
    cases done
    exact (placed sound.1).advance size sound.2
  | commit =>
    cases done
    exact commit_sound held
  | setCurrentSize size =>
    cases done
    exact ⟨setCurrentSize_placed (placed sound) allowed, trivial⟩
  | assign buff =>
    obtain ⟨room, made⟩ := Option.dite_none_right_eq_some.mp done
    cases made
    exact assign_sound room sound
  | assignReuse buff =>
    obtain ⟨room, made⟩ := Option.dite_none_right_eq_some.mp done
    cases made
    exact assignReuse_sound room sound

theorem Fresh.advance_current (fresh : b.Fresh) (size : UInt64) :
    (b.advance size).current = 0 ∧ (b.advance size).data = b.data := by
  obtain ⟨-, null, stop⟩ := fresh
  unfold CharBuffer.advance
  split_ifs with beyond
  · exact ⟨stop, rfl⟩
  · rw [stop] at beyond
    exact ⟨UInt64.le_zero_iff.mp (UInt64.not_lt.mp beyond), rfl⟩

theorem View.Within.length_lt (within : buff.Within b) (own : buff.lost ∨ buff.overlaps) :
    (0 : UInt64).toNat + (buff.string b).length < 2 ^ 64 := by
  have room := b.within
  cases buff with
  | elsewhere s => simp [View.lost, View.overlaps] at own
  | own offset size =>
    simp only [View.string, List.length_take, List.length_drop, UInt64.toNat_zero]
    omega

-- Without the condition, something that the environment may do breaks the operation.
theorem perform_unsound {op : Op} (held : b.Placed ∨ b.Fresh) (allowed : b.Allowed op) (unsound : ¬ b.Sound op) :
    ∃ outcome b', b.perform outcome op = some b' ∧ ¬ (b'.Placed ∧ Does b b' op) := by
  obtain ⟨broken, unplaced⟩ := not_placed_undefined
  cases op with
  | resize | reset | commit => exact absurd trivial unsound
  | advance size =>
    refine ⟨⟨0, broken⟩, _, rfl, ?_⟩
    rcases held with placed | fresh
    · exact placed.advance_wraps (not_lt.mp fun fits => unsound ⟨placed.not_fresh, fits⟩)
    · obtain ⟨null, same⟩ := fresh.advance_current size
      exact fun next => next.1.start.not_gt (null_lt (same ▸ fresh.1) null)
  | setCurrentSize size =>
    have fresh : b.Fresh := not_not.mp unsound
    exact ⟨⟨0, broken⟩, _, rfl, fun next => next.1.start.not_gt (null_lt fresh.1 fresh.2.1)⟩
  | assign buff =>
    have lost : buff.lost := not_not.mp unsound
    refine ⟨⟨0, broken⟩, _, dif_pos (allowed.length_lt (.inl lost)), fun next => unplaced ?_⟩
    simpa [assign, lost] using next.1
  | assignReuse buff =>
    rw [Sound] at unsound
    split_ifs at unsound with large
    · have lost : buff.lost := not_not.mp unsound
      refine ⟨⟨0, broken⟩, _, dif_pos (allowed.length_lt (.inl lost)), fun next => unplaced ?_⟩
      simpa [assignReuse, large, assign, lost] using next.1
    · by_cases overlaps : buff.overlaps
      · refine ⟨⟨0, broken⟩, _, dif_pos (allowed.length_lt (.inr overlaps)), fun next => unplaced ?_⟩
        simpa [assignReuse, large, overlaps] using next.1
      · have room : (0 : UInt64).toNat + (buff.string b).length < 2 ^ 64 := by
          have := b.within
          rw [UInt64.toNat_zero]
          omega
        refine ⟨⟨0, broken⟩, _, dif_pos room, fun next => unsound ⟨overlaps, ?_⟩⟩
        have read := next.2
        rw [Does, assignReuse, dif_neg large, if_neg overlaps] at read
        exact (b.copy_advance (Nat.le_of_not_le large)).2.symm.trans read

theorem sound_iff {op : Op} (held : b.Placed ∨ b.Fresh) (allowed : b.Allowed op) :
    (∀ outcome b', system.step b (op, outcome) = some b' → b'.Placed ∧ Does b b' op) ↔ b.Sound op := by
  simp only [system, if_pos allowed]
  constructor
  · intro does
    by_contra unsound
    obtain ⟨outcome, b', done, fails⟩ := perform_unsound held allowed unsound
    exact fails (does outcome b' done)
  · exact fun sound outcome b' done => perform_sound held allowed sound done

theorem reaches_placed {start : CharBuffer} {ops : List (Op × Outcome)} (held : start.Placed ∨ start.Fresh)
    (reached : system.Reaches (fun b input => b.Sound input.1) start ops b) :
    ops = [] ∧ b = start ∨ ops ≠ [] ∧ b.Placed := by
  refine reached.invariant (P := fun ops b => ops = [] ∧ b = start ∨ ops ≠ [] ∧ b.Placed) (.inl ⟨rfl, rfl⟩) ?_
  intro ops input s s' before sound taken
  have kept : s.Placed ∨ s.Fresh := by
    rcases before with ⟨-, rfl⟩ | ⟨-, placed⟩
    · exact held
    · exact .inl placed
  obtain ⟨allowed, done⟩ := Option.ite_none_right_eq_some.mp taken
  exact .inr ⟨by simp, (perform_sound kept allowed sound done).1⟩

end

instance (b : CharBuffer) : Decidable b.Fresh := inferInstanceAs (Decidable (_ ∧ _ ∧ _))

instance (b : CharBuffer) (op : Op) : Decidable (b.Sound op) := by
  cases op <;> unfold Sound <;> infer_instance

/--
As long as every operation is sound, the pointers stay in place from the first one on and the
unread bytes are what they should be; an operation that is not sound can break the one or the other.
-/
theorem char_buffer_content {start b : CharBuffer} {ops : List (Op × Outcome)}
    (made : start = empty ∨ ∃ size address room, start = sized size address room)
    (reached : system.Reaches (fun b input => b.Sound input.1) start ops b) :
    (b.Placed ↔ ops ≠ [] ∨ ¬ start.Fresh) ∧
    ∀ op, b.Allowed op →
      ((∀ outcome b', system.step b (op, outcome) = some b' → b'.Placed ∧ Does b b' op) ↔ b.Sound op) := by
  have held : start.Placed ∨ start.Fresh := by
    rcases made with rfl | ⟨size, address, room, rfl⟩
    · exact .inl ⟨le_rfl, le_rfl, Nat.zero_le _⟩
    · by_cases null : address = 0
      · subst null
        exact .inl ⟨le_rfl, le_rfl, Nat.zero_le _⟩
      · exact .inr ⟨null, rfl, rfl⟩
  rcases reaches_placed held reached with ⟨rfl, rfl⟩ | ⟨more, placed⟩
  · refine ⟨?_, fun op allowed => sound_iff held allowed⟩
    rcases held with placed | fresh
    · exact iff_of_true placed (.inr placed.not_fresh)
    · exact iff_of_false (fun placed => placed.not_fresh fresh) (by simpa using fresh)
  · exact ⟨iff_of_true placed (.inl more), fun op allowed => sound_iff (.inl placed) allowed⟩

-- b *= "abab" fills the allocation, and b *= b.current_string() copies its second half to the first
def refill : List (Op × Outcome) :=
  [.assignReuse (.elsewhere (bytes "abab")), .advance 2, .assignReuse (.own 2 2), .commit].map fun op => (op, ⟨2000, empty⟩)

theorem char_buffer_content_committed : ∃ b,
    system.Reaches (fun b input => b.Sound input.1) (sized 4 1000 (by decide)) refill b ∧
      b.Placed ∧ b.currentString = bytes "ab" := by
  have ran : (system.guarded fun b input => decide (b.Sound input.1)).run (sized 4 1000 (by decide)) refill =
      some ⟨1000, bytes "abab", 1000, 1002, by decide⟩ := by decide +kernel
  have reached := System.reaches_of_guarded (fun _ _ checked => of_decide_eq_true checked) ran
  exact ⟨_, reached, (char_buffer_content (.inr ⟨4, 1000, by decide, rfl⟩) reached).1.mpr (.inl (by decide)),
    by decide +kernel⟩

/--
Nothing is within the allocation before the first `reset`, `*=` leaves the tail of the old bytes unread, and a buffer can
not be given what it holds behind its cursor.
-/
theorem reused_buffer_reads_tail :
    ¬ (sized 8 1000 (by decide)).Placed ∧
    system.run (sized 8 1000 (by decide)) [(.assign (.elsewhere (bytes "abcdef")), ⟨2000, empty⟩),
      (.assignReuse (.elsewhere (bytes "xy")), ⟨3000, empty⟩)] = some ⟨2000, bytes "xycdef", 2002, 2006, by decide⟩ ∧
    currentString ⟨2000, bytes "xycdef", 2002, 2006, by decide⟩ = bytes "cdef" ∧
    (system.run (sized 8 1000 (by decide)) [(.assign (.elsewhere (bytes "abcd")), ⟨2000, empty⟩), (.advance 1, ⟨0, empty⟩),
      (.assign (.own 1 3), ⟨3000, empty⟩)]).map currentString ≠ some (bytes "bcd") := by
  refine ⟨fun placed => absurd placed.start (by decide), by decide +kernel, by decide +kernel, by decide +kernel⟩

end CharBuffer

end Dracon
