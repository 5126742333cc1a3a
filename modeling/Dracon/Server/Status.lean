import Dracon.Shared.StepSystem
import Mathlib.Data.Finset.Card
import Mathlib.Logic.Function.Basic

set_option autoImplicit false

namespace Dracon.ServerStatus

open Shared

abbrev Id := Nat

inductive Holder where
  -- `server_session_created`
  | inserted
  | stored (count : Nat)
  -- the count is above the peak
  | compared (count : Nat)
  -- `server_session_deleted`
  | erased
  deriving DecidableEq

-- A report that has loaded the count: the value, and how many reports were finished at that time.
structure Reader where
  active : Nat
  began : Nat
  deriving DecidableEq

structure Report where
  active : Nat
  peak : Nat
  began : Nat
  deriving DecidableEq

structure State where
  sessions : Finset Id := ∅
  -- `m_active_sessions_count` and `m_peak_sessions`
  count : Nat := 0
  peak : Nat := 0
  holder : Option Holder := none
  readers : Nat → Option Reader := fun _ => none
  -- in the order in which they are finished
  reports : List Report := []
  -- the most sessions there have been at a time
  most : Nat := 0

inductive Input where
  | serverSessionCreated (i : Id)
  | serverSessionDeleted (i : Id)
  -- the next operation of the thread that has the mutex
  | proceed
  | loadActive (reader : Nat)
  | loadPeak (reader : Nat)
  deriving DecidableEq

def proceed (s : State) : Option State :=
  match s.holder with
  | some .inserted => some { s with count := s.sessions.card, holder := some (.stored s.sessions.card) }
  | some (.stored count) => some { s with holder := if s.peak < count then some (.compared count) else none }
  | some (.compared count) => some { s with peak := count, holder := none }
  | some .erased => some { s with count := s.sessions.card, holder := none }
  | none => none

def server : System State Input where
  step s
    | .serverSessionCreated i =>
      if s.holder = none ∧ i ∉ s.sessions then
        some { s with
          sessions := insert i s.sessions
          most := max s.most (s.sessions.card + 1)
          holder := some .inserted }
      else none
    | .serverSessionDeleted i =>
      if s.holder = none then some { s with sessions := s.sessions.erase i, holder := some .erased } else none
    | .proceed => proceed s
    | .loadActive reader =>
      if s.readers reader = none then
        some { s with readers := Function.update s.readers reader (some ⟨s.count, s.reports.length⟩) }
      else none
    | .loadPeak reader =>
      (s.readers reader).map fun seen =>
        { s with
          readers := Function.update s.readers reader none
          reports := s.reports ++ [⟨seen.active, max s.peak seen.active, seen.began⟩] }

def State.cap (s : State) : Nat :=
  match s.holder with
  | some (.stored count) | some (.compared count) => max s.peak count
  | _ => s.peak

-- How far the thread that has the mutex has come with the counters.
def Held (s : State) : Prop :=
  match s.holder with
  | none => s.count = s.sessions.card ∧ s.most = s.peak
  | some .inserted => s.most = max s.peak s.sessions.card
  | some (.stored count) => count = s.sessions.card ∧ s.count = count ∧ s.most = max s.peak count
  | some (.compared count) => count = s.sessions.card ∧ s.count = count ∧ s.most = max s.peak count ∧ s.peak < count
  | some .erased => s.most = s.peak

structure Reports (s : State) : Prop where
  active : ∀ reader seen, s.readers reader = some seen → seen.active ≤ s.cap
  -- a report that starts now is not behind one that is finished
  began : ∀ reader seen, s.readers reader = some seen → ∀ k < seen.began, ∀ report, s.reports[k]? = some report →
    report.peak ≤ max s.peak seen.active
  bounds : ∀ report ∈ s.reports, report.active ≤ report.peak ∧ report.peak ≤ s.cap
  begins : ∀ reader seen, s.readers reader = some seen → seen.began ≤ s.reports.length
  started : ∀ (k : Nat) (report : Report), s.reports[k]? = some report → report.began ≤ k
  ordered : ∀ (j k : Nat) (before after : Report), s.reports[j]? = some before → s.reports[k]? = some after → j < after.began →
    before.peak ≤ after.peak

section Steps

variable {s s' : State}

theorem Reports.mono (reports : Reports s) (cap : s.cap ≤ s'.cap) (peak : s.peak ≤ s'.peak) (readers : s'.readers = s.readers)
    (same : s'.reports = s.reports) : Reports s' where
  active reader seen eq := (reports.active reader seen (readers ▸ eq)).trans cap
  began reader seen eq k before report made :=
    (reports.began reader seen (readers ▸ eq) k before report (same ▸ made)).trans (max_le_max_right _ peak)
  bounds report mem := (reports.bounds report (same ▸ mem)).imp_right fun le => le.trans cap
  begins reader seen eq := same ▸ reports.begins reader seen (readers ▸ eq)
  started := same ▸ reports.started
  ordered := same ▸ reports.ordered

end Steps

end Dracon.ServerStatus
