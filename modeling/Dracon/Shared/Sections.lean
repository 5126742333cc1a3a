import Mathlib.Data.List.Basic

set_option autoImplicit false

namespace Shared

structure Sections (σ γ ω ρ : Type*) where
  enter : γ → ω
  exclusive : ω → Bool
  act : σ → ω → Option (σ × ω)
  result : ω → Option ρ

inductive Holders (κ ω : Type*) where
  | shared (readers : List (κ × ω))
  | exclusive (writer : κ × ω)

-- A value under a shared mutex, with all that was done to it in the order in which the mutex was got.
structure Protected (κ σ γ ω : Type*) where
  value : σ
  holders : Holders κ ω := .shared []
  entered : List (κ × γ) := []

variable {κ σ γ ω ρ : Type*}

def Holders.toList : Holders κ ω → List (κ × ω)
  | .shared readers => readers
  | .exclusive writer => [writer]

namespace Protected

variable (sections : Sections σ γ ω ρ) (s : Protected κ σ γ ω)

def lock (k : κ) (c : γ) : Option (Protected κ σ γ ω) :=
  match s.holders, sections.exclusive (sections.enter c) with
  | .shared [], true => some { s with holders := .exclusive (k, sections.enter c), entered := s.entered ++ [(k, c)] }
  | .shared readers, false =>
    some { s with holders := .shared (readers ++ [(k, sections.enter c)]), entered := s.entered ++ [(k, c)] }
  | _, _ => none

variable [DecidableEq κ]

def others (k : κ) (readers : List (κ × ω)) : List (κ × ω) := readers.filter (·.1 ≠ k)

def work (k : κ) : Option ω := (s.holders.toList.find? (·.1 = k)).map Prod.snd

def advance (k : κ) (value : σ) (w : ω) : Protected κ σ γ ω :=
  match s.holders with
  | .shared readers => { s with value, holders := .shared (others k readers ++ [(k, w)]) }
  | .exclusive _ => { s with value, holders := .exclusive (k, w) }

def release (k : κ) : Protected κ σ γ ω :=
  match s.holders with
  | .shared readers => { s with holders := .shared (others k readers) }
  | .exclusive _ => { s with holders := .shared [] }

def act (k : κ) : Option (Protected κ σ γ ω) :=
  (s.work k).bind fun w => (sections.act s.value w).map fun next => s.advance k next.1 next.2

def unlock (k : κ) : Option (Protected κ σ γ ω × ρ) :=
  ((s.work k).bind sections.result).map fun result => (s.release k, result)

end Protected

def replay (apply : γ → σ → σ × ρ) (start : σ) (entered : List (κ × γ)) : σ :=
  entered.foldl (fun value entry => (apply entry.2 value).1) start

-- What a section does as a whole, and what a section that is this far has still to do.
structure Sections.Implements (sections : Sections σ γ ω ρ) (apply : γ → σ → σ × ρ) (rest : σ → ω → σ × ρ) : Prop where
  enter : ∀ c v, rest v (sections.enter c) = apply c v
  act : ∀ {v w v' w'}, sections.act v w = some (v', w') → rest v' w' = rest v w
  result : ∀ {w r}, sections.result w = some r → ∀ v, rest v w = (v, r)
  exclusive : ∀ {v w v' w'}, sections.act v w = some (v', w') → sections.exclusive w' = sections.exclusive w
  reads : ∀ {v w v' w'}, sections.act v w = some (v', w') → sections.exclusive w = false → v' = v
  keeps : ∀ {c}, sections.exclusive (sections.enter c) = false → ∀ v, (apply c v).1 = v

def Comes (apply : γ → σ → σ × ρ) (start : σ) (entered : List (κ × γ)) (k : κ) (end' : σ × ρ) : Prop :=
  ∃ before c after, entered = before ++ (k, c) :: after ∧ apply c (replay apply start before) = end'

structure Serial (sections : Sections σ γ ω ρ) (apply : γ → σ → σ × ρ) (rest : σ → ω → σ × ρ) (start : σ)
    (s : Protected κ σ γ ω) : Prop where
  holders : ∀ holder ∈ s.holders.toList, Comes apply start s.entered holder.1 (rest s.value holder.2)
  shared : ∀ readers, s.holders = .shared readers →
    s.value = replay apply start s.entered ∧ ∀ reader ∈ readers, sections.exclusive reader.2 = false
  writer : ∀ writer, s.holders = .exclusive writer → replay apply start s.entered = (rest s.value writer.2).1

section Serial

variable {sections : Sections σ γ ω ρ} {apply : γ → σ → σ × ρ} {rest : σ → ω → σ × ρ} {start : σ}
  {s s' : Protected κ σ γ ω} {k : κ}

theorem replay_concat (entered : List (κ × γ)) (entry : κ × γ) :
    replay apply start (entered ++ [entry]) = (apply entry.2 (replay apply start entered)).1 := by
  simp [replay]

theorem Comes.concat {entered : List (κ × γ)} {end' : σ × ρ} (comes : Comes apply start entered k end') (entry : κ × γ) :
    Comes apply start (entered ++ [entry]) k end' := by
  obtain ⟨before, c, after, rfl, ends⟩ := comes
  exact ⟨before, c, after ++ [entry], by simp, ends⟩

theorem Comes.last (entered : List (κ × γ)) (k : κ) (c : γ) :
    Comes apply start (entered ++ [(k, c)]) k (apply c (replay apply start entered)) :=
  ⟨entered, c, [], rfl, rfl⟩

theorem Serial.initial (value : σ) : Serial sections apply rest value ({ value } : Protected κ σ γ ω) where
  holders := by simp [Holders.toList]
  shared := by
    rintro readers ⟨⟩
    exact ⟨rfl, by simp⟩
  writer := by
    rintro writer ⟨⟩

namespace Protected

theorem lock_cases {c : γ} (locked : s.lock sections k c = some s') :
    (sections.exclusive (sections.enter c) = true ∧ s.holders = .shared [] ∧
      s' = { s with holders := .exclusive (k, sections.enter c), entered := s.entered ++ [(k, c)] }) ∨
    ∃ readers, sections.exclusive (sections.enter c) = false ∧ s.holders = .shared readers ∧
      s' = { s with holders := .shared (readers ++ [(k, sections.enter c)]), entered := s.entered ++ [(k, c)] } := by
  unfold lock at locked
  split at locked
  next free alone => exact .inl ⟨alone, free, (Option.some.inj locked).symm⟩
  next readers held beside => exact .inr ⟨readers, beside, held, (Option.some.inj locked).symm⟩
  next => cases locked

theorem lock_entered {c : γ} (locked : s.lock sections k c = some s') : s'.entered = s.entered ++ [(k, c)] := by
  rcases lock_cases locked with ⟨-, -, rfl⟩ | ⟨readers, -, -, rfl⟩ <;> rfl

variable [DecidableEq κ]

theorem work_mem {w : ω} (found : s.work k = some w) : (k, w) ∈ s.holders.toList := by
  obtain ⟨holder, first, rfl⟩ := Option.map_eq_some_iff.mp found
  obtain rfl : holder.1 = k := by simpa using List.find?_some first
  exact List.mem_of_find?_eq_some first

theorem mem_others {holder : κ × ω} {readers : List (κ × ω)} (mem : holder ∈ others k readers) : holder ∈ readers :=
  List.mem_of_mem_filter mem

theorem act_cases (acted : s.act sections k = some s') :
    ∃ w value w', s.work k = some w ∧ sections.act s.value w = some (value, w') ∧
      ((∃ readers, s.holders = .shared readers ∧ s' = { s with value, holders := .shared (others k readers ++ [(k, w')]) }) ∨
        ∃ writer, s.holders = .exclusive writer ∧ s' = { s with value, holders := .exclusive (k, w') }) := by
  obtain ⟨w, found, acted⟩ := Option.bind_eq_some_iff.mp acted
  obtain ⟨⟨value, w'⟩, stepped, rfl⟩ := Option.map_eq_some_iff.mp acted
  refine ⟨w, value, w', found, stepped, ?_⟩
  unfold advance
  cases held : s.holders with
  | shared readers => exact .inl ⟨readers, rfl, rfl⟩
  | exclusive writer => exact .inr ⟨writer, rfl, rfl⟩

theorem act_entered (acted : s.act sections k = some s') : s'.entered = s.entered := by
  obtain ⟨w, value, w', -, -, ⟨readers, -, rfl⟩ | ⟨writer, -, rfl⟩⟩ := act_cases acted <;> rfl

theorem unlock_cases {r : ρ} (unlocked : s.unlock sections k = some (s', r)) :
    ∃ w, s.work k = some w ∧ sections.result w = some r ∧
      ((∃ readers, s.holders = .shared readers ∧ s' = { s with holders := .shared (others k readers) }) ∨
        ∃ writer, s.holders = .exclusive writer ∧ s' = { s with holders := .shared [] }) := by
  obtain ⟨result, ended, left⟩ := Option.map_eq_some_iff.mp unlocked
  obtain ⟨rfl, rfl⟩ := Prod.mk.inj left
  obtain ⟨w, found, ended⟩ := Option.bind_eq_some_iff.mp ended
  refine ⟨w, found, ended, ?_⟩
  unfold release
  cases held : s.holders with
  | shared readers => exact .inl ⟨readers, rfl, rfl⟩
  | exclusive writer => exact .inr ⟨writer, rfl, rfl⟩

theorem unlock_entered {r : ρ} (unlocked : s.unlock sections k = some (s', r)) : s'.entered = s.entered := by
  obtain ⟨w, -, -, ⟨readers, -, rfl⟩ | ⟨writer, -, rfl⟩⟩ := unlock_cases unlocked <;> rfl

end Protected

namespace Serial

open Protected

variable (implements : sections.Implements apply rest)
include implements

theorem lock {c : γ} (serial : Serial sections apply rest start s) (locked : s.lock sections k c = some s') :
    Serial sections apply rest start s' := by
  rcases lock_cases locked with ⟨-, free, rfl⟩ | ⟨readers, beside, held, rfl⟩
  · have current := (serial.shared [] free).1
    have last : rest s.value (sections.enter c) = apply c (replay apply start s.entered) := by
      rw [implements.enter, ← current]
    constructor
    case holders =>
      rintro holder mem
      obtain rfl := List.mem_singleton.mp mem
      exact last ▸ Comes.last s.entered k c
    case shared => rintro readers ⟨⟩
    case writer =>
      rintro writer ⟨⟩
      rw [replay_concat, last]
  · obtain ⟨current, side⟩ := serial.shared readers held
    have last : rest s.value (sections.enter c) = apply c (replay apply start s.entered) := by
      rw [implements.enter, ← current]
    constructor
    case holders =>
      intro holder mem
      rcases List.mem_append.mp mem with inside | new
      · exact (serial.holders holder (by rwa [held])).concat _
      · obtain rfl := List.mem_singleton.mp new
        exact last ▸ Comes.last s.entered k c
    case shared =>
      rintro _ ⟨⟩
      refine ⟨?_, ?_⟩
      · rw [replay_concat, implements.keeps beside, ← current]
      · intro reader mem
        rcases List.mem_append.mp mem with inside | new
        · exact side reader inside
        · obtain rfl := List.mem_singleton.mp new
          exact beside
    case writer => rintro writer ⟨⟩

variable [DecidableEq κ]

theorem act (serial : Serial sections apply rest start s) (acted : s.act sections k = some s') :
    Serial sections apply rest start s' := by
  obtain ⟨w, value, w', found, stepped, ⟨readers, held, rfl⟩ | ⟨writer, held, rfl⟩⟩ := act_cases acted
  · obtain ⟨current, side⟩ := serial.shared readers held
    have mem := work_mem found
    have comes := serial.holders (k, w) mem
    rw [held] at mem
    obtain rfl : value = s.value := implements.reads stepped (side (k, w) mem)
    constructor
    case holders =>
      intro holder mem
      rcases List.mem_append.mp mem with inside | new
      · exact serial.holders holder (by rw [held]; exact mem_others inside)
      · obtain rfl := List.mem_singleton.mp new
        exact implements.act stepped ▸ comes
    case shared =>
      rintro _ ⟨⟩
      refine ⟨current, fun reader inside => ?_⟩
      rcases List.mem_append.mp inside with inside | new
      · exact side reader (mem_others inside)
      · obtain rfl := List.mem_singleton.mp new
        exact (implements.exclusive stepped).trans (side (k, w) mem)
    case writer => rintro writer ⟨⟩
  · have mem := work_mem found
    have comes := serial.holders (k, w) mem
    rw [held] at mem
    obtain rfl : (k, w) = writer := List.mem_singleton.mp mem
    have whole := serial.writer (k, w) held
    constructor
    case holders =>
      intro holder mem
      obtain rfl := List.mem_singleton.mp mem
      exact implements.act stepped ▸ comes
    case shared => rintro readers ⟨⟩
    case writer =>
      rintro _ ⟨⟩
      rw [whole, implements.act stepped]

theorem unlock {r : ρ} (serial : Serial sections apply rest start s) (unlocked : s.unlock sections k = some (s', r)) :
    Serial sections apply rest start s' ∧
      ∃ before c after, s.entered = before ++ (k, c) :: after ∧ (apply c (replay apply start before)).2 = r := by
  obtain ⟨w, found, ended, left⟩ := unlock_cases unlocked
  have mem := work_mem found
  have last := implements.result ended s.value
  obtain ⟨before, c, after, entered, ends⟩ := serial.holders (k, w) mem
  refine ⟨?_, before, c, after, entered, by rw [ends, last]⟩
  rcases left with ⟨readers, held, rfl⟩ | ⟨writer, held, rfl⟩
  · obtain ⟨current, side⟩ := serial.shared readers held
    constructor
    case holders =>
      intro holder inside
      exact serial.holders holder (by rw [held]; exact mem_others inside)
    case shared =>
      rintro _ ⟨⟩
      exact ⟨current, fun reader inside => side reader (mem_others inside)⟩
    case writer => rintro writer ⟨⟩
  · rw [held] at mem
    obtain rfl : (k, w) = writer := List.mem_singleton.mp mem
    have whole := serial.writer (k, w) held
    rw [last] at whole
    constructor
    case holders => simp [Holders.toList]
    case shared =>
      rintro _ ⟨⟩
      exact ⟨whole.symm, by simp⟩
    case writer => rintro writer ⟨⟩

end Serial

end Serial

end Shared
