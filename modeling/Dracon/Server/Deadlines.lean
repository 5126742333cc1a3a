import Dracon.Server.Custody

set_option autoImplicit false

namespace Dracon.SessionsEventLoop

open Shared

def Work.notify : Work → Option Notify
  | .notifying notify _ | .destroying (.notifying notify) => some notify
  | _ => none

def Loop.notify : Loop → Option Notify
  | .inside _ work _ => work.notify
  | .publish notify => some notify
  | _ => none

def Loop.Scans : Loop → Id → Time → Prop
  | .snapshot _, _, _ => True
  | .phase (.scan todo earliest _), i, d => earliest ≤ d ∨ i ∈ todo
  | .inside j _ (.scan todo earliest _), i, d => earliest ≤ d ∨ i ∈ todo ∨ i = j
  | _, _, _ => False

def Announces (s : State) (d : Time) : Prop :=
  s.earliestDeadline ≤ d ∨ ∃ notify, s.loop.notify = some notify ∧ notify.value ≤ d

structure Timed (s : State) : Prop where
  covers : ∀ i ∈ s.sessions, ∀ d, (s.object i).stream = some d → d ≠ 0 → Announces s d ∨ s.loop.Scans i d
  -- only the loop thread raises the earliest deadline, and not in the middle of a `notify_deadline`
  current : ∀ notify current, s.loop.notify = some notify → notify.current = some current → s.earliestDeadline ≤ current
  positive : ∀ todo earliest now, s.loop.current = some (.scan todo earliest now) → earliest ≠ 0
  left : ∀ i stage back p, s.loop = .inside i (.leaving stage back) p → stage = .remove ∨ stage = .insert → i ∉ s.sessions
  registered : ∀ i stage, s.accept ≠ .destroying i stage
  deleting : ∀ i, (s.object i).life = .deleting → ∃ stage p, s.loop = .inside i (.destroying stage) p

section Notify

variable {notify : Notify} {earliest : Time} {succeeds : Bool}

theorem notify_step_le (notify : Notify) (earliest : Time) (succeeds : Bool) :
    (notify.step earliest succeeds).1 ≤ earliest := by
  fun_cases Notify.step notify earliest succeeds
  case case2 current loaded less exchanged =>
    obtain ⟨rfl, -⟩ := exchanged
    exact less.le
  all_goals exact le_rfl

theorem notify_step_rest {rest : Notify} (more : (notify.step earliest succeeds).2 = some rest) :
    rest.value = notify.value ∧ rest.current = some (notify.step earliest succeeds).1 := by
  revert more
  fun_cases Notify.step notify earliest succeeds <;> intro more <;> cases more <;> exact ⟨rfl, rfl⟩

theorem notify_step_done (valid : ∀ current, notify.current = some current → earliest ≤ current)
    (done : (notify.step earliest succeeds).2 = none) : (notify.step earliest succeeds).1 ≤ notify.value := by
  revert done
  fun_cases Notify.step notify earliest succeeds <;> intro done
  case case2 => exact le_rfl
  case case4 current loaded more => exact (valid current loaded).trans (not_lt.mp more)
  all_goals cases done

end Notify

section Steps

variable {s s' : State} {i : Id}

theorem jump_timed (timed : Timed s) (outside : s.loop.working = none) (sessions : s'.sessions = s.sessions)
    (object : s'.object = s.object) (accept : s'.accept = s.accept)
    (covers : ∀ i ∈ s.sessions, ∀ d, (s.object i).stream = some d → d ≠ 0 → Announces s d ∨ s.loop.Scans i d →
      Announces s' d ∨ s'.loop.Scans i d)
    (current : ∀ notify current, s'.loop.notify = some notify → notify.current = some current →
      s'.earliestDeadline ≤ current)
    (positive : ∀ todo earliest now, s'.loop.current = some (.scan todo earliest now) → earliest ≠ 0)
    (left : ∀ i stage back p, s'.loop = .inside i (.leaving stage back) p → stage = .check) : Timed s' := by
  refine ⟨fun i mem d stream nonzero => ?_, current, positive, fun i stage back p here gone => ?_, ?_, fun i deleting => ?_⟩
  · rw [sessions] at mem
    rw [object] at stream
    exact covers i mem d stream nonzero (timed.covers i mem d stream nonzero)
  · obtain rfl := left i stage back p here
    simp at gone
  · rw [accept]
    exact timed.registered
  · rw [object] at deleting
    obtain ⟨stage, p, here⟩ := timed.deleting i deleting
    simp [here, Loop.working] at outside

theorem Inside.timed {work : Work} {p : Phase} (timed : Timed s) (here : s.loop = .inside i work p)
    (inside : Inside s i work p s') (announces : ∀ d, Announces s d → Announces s' d)
    (own : ∀ d, (s'.object i).stream = some d → d ≠ 0 → (s.object i).stream = some d ∨ Announces s' d)
    (current : ∀ notify current, s'.loop.notify = some notify → notify.current = some current →
      s'.earliestDeadline ≤ current)
    (back : ∀ todo earliest now, s'.loop = .phase (.scan todo earliest now) → i ∉ s'.sessions)
    (left : ∀ stage back, s'.loop = .inside i (.leaving stage back) p → stage = .remove ∨ stage = .insert →
      i ∉ s'.sessions)
    (deleting : (s'.object i).life = .deleting → ∃ stage, s'.loop = .inside i (.destroying stage) p) : Timed s' := by
  have same : s'.loop.current = s.loop.current := by
    obtain eq | ⟨w, eq, -⟩ := inside.loop <;> rw [eq, here] <;> rfl
  have scans (j : Id) (mem : j ∈ s'.sessions) (d : Time) (covered : s.loop.Scans j d) : s'.loop.Scans j d := by
    rw [here] at covered
    cases p with
    | scan todo earliest now =>
      obtain eq | ⟨w, eq, -⟩ := inside.loop
      · rw [eq]
        obtain found | found | rfl := covered
        · exact .inl found
        · exact .inr found
        · exact absurd mem (back todo earliest now eq)
      · rw [eq]
        exact covered
    | _ => exact covered.elim
  refine ⟨fun j mem d stream nonzero => ?_, current, ?_, fun j stage back q after gone => ?_, ?_, fun j life => ?_⟩
  · have registered := inside.sessions mem
    by_cases other : j = i
    · subst other
      obtain old | new := own d stream nonzero
      · exact (timed.covers j registered d old nonzero).imp (announces d) (scans j mem d)
      · exact .inl new
    · rw [inside.object j other] at stream
      exact (timed.covers j registered d stream nonzero).imp (announces d) (scans j mem d)
  · rw [same]
    exact timed.positive
  · obtain eq | ⟨w, eq, -⟩ := inside.loop
    · rw [eq] at after
      cases after
    · obtain ⟨rfl, rfl, rfl⟩ : i = j ∧ w = .leaving stage back ∧ p = q := by
        simpa using eq.symm.trans after
      exact left stage back eq gone
  · rw [inside.accept]
    exact timed.registered
  · by_cases other : j = i
    · subst other
      obtain ⟨stage, after⟩ := deleting life
      exact ⟨stage, p, after⟩
    · rw [inside.object j other] at life
      obtain ⟨stage, q, before⟩ := timed.deleting j life
      rw [here] at before
      exact absurd (Loop.inside.inj before).1.symm other

theorem notify_announces {notify : Notify} {succeeds : Bool} (timed : Timed s) (calling : s.loop.notify = some notify)
    (earliest : s'.earliestDeadline = (notify.step s.earliestDeadline succeeds).1)
    (rest : s'.loop.notify = (notify.step s.earliestDeadline succeeds).2) :
    (∀ d, Announces s d → Announces s' d) ∧
      ∀ notify current, s'.loop.notify = some notify → notify.current = some current → s'.earliestDeadline ≤ current := by
  refine ⟨fun d announced => ?_, fun more current after loaded => ?_⟩
  · obtain known | ⟨_, eq, soon⟩ := announced
    · exact .inl (earliest ▸ (notify_step_le notify _ _).trans known)
    · obtain rfl : notify = _ := Option.some.inj (calling.symm.trans eq)
      cases after : (notify.step s.earliestDeadline succeeds).2 with
      | none =>
        have stored := notify_step_done (fun c => timed.current notify c calling) after
        exact .inl (earliest ▸ stored.trans soon)
      | some more => exact .inr ⟨more, rest.trans after, (notify_step_rest after).1.trans_le soon⟩
  · rw [rest] at after
    rw [(notify_step_rest after).2] at loaded
    rw [earliest]
    exact (Option.some.inj loaded).le

theorem Announces.still {d : Time} (announced : Announces s d) (silent : s.loop.notify = none)
    (earliest : s'.earliestDeadline = s.earliestDeadline) : Announces s' d := by
  obtain known | ⟨notify, eq, -⟩ := announced
  · exact .inl (earliest ▸ known)
  · rw [silent] at eq
    cases eq

theorem jump_silent (timed : Timed s) (outside : s.loop.working = none) (silent : s.loop.notify = none)
    (unscanned : ∀ i d, ¬ s.loop.Scans i d) (sessions : s'.sessions = s.sessions) (object : s'.object = s.object)
    (accept : s'.accept = s.accept) (earliest : s'.earliestDeadline = s.earliestDeadline) (quiet : s'.loop.notify = none)
    (outer : s'.loop.working = none) (past : ∀ todo earliest now, s'.loop.current ≠ some (.scan todo earliest now)) :
    Timed s' := by
  refine jump_timed timed outside sessions object accept (fun i _ d _ _ covered => ?_) ?_ ?_ ?_
  · exact .inl ((covered.resolve_right (unscanned i d)).still silent earliest)
  · simp [quiet]
  · exact fun todo earliest now eq => absurd eq (past todo earliest now)
  · intro i stage back p eq
    simp [eq, Loop.working] at outer

theorem Inside.timed_silent {work : Work} {p : Phase} (timed : Timed s) (here : s.loop = .inside i work p)
    (inside : Inside s i work p s') (silent : s.loop.notify = none) (earliest : s'.earliestDeadline = s.earliestDeadline)
    (own : ∀ d, (s'.object i).stream = some d → (s.object i).stream = some d) (quiet : s'.loop.notify = none)
    (back : ∀ todo earliest now, s'.loop = .phase (.scan todo earliest now) → i ∉ s'.sessions)
    (left : ∀ stage back, s'.loop = .inside i (.leaving stage back) p → stage = .remove ∨ stage = .insert →
      i ∉ s'.sessions)
    (deleting : (s'.object i).life = .deleting → ∃ stage, s'.loop = .inside i (.destroying stage) p) : Timed s' := by
  refine inside.timed timed here (fun d announced => announced.still silent earliest) ?_ ?_ back left deleting
  · exact fun d stream _ => .inl (own d stream)
  · simp [quiet]

theorem not_deleting (timed : Timed s) {work : Work} {p : Phase} (here : s.loop = .inside i work p)
    (other : ∀ stage, work ≠ .destroying stage) : (s.object i).life ≠ .deleting := by
  intro deleting
  obtain ⟨stage, q, eq⟩ := timed.deleting i deleting
  exact other stage (Loop.inside.inj (here.symm.trans eq)).2.1

theorem leaveStep_timed {succeeds : Bool} {stage : Leave} {back : Option Call} {p : Phase} (timed : Timed s)
    (here : s.loop = .inside i (.leaving stage back) p)
    (taken : insideStep s i p succeeds (.leaving stage back) = some s') : Timed s' := by
  have alive := not_deleting timed here (by rintro _ ⟨⟩)
  have inside := insideStep_inside taken
  have gone := timed.left i stage back p here
  have silent : s.loop.notify = none := by rw [here]; rfl
  cases stage with
  | check =>
    simp only [insideStep, leaveStep, if_neg alive, Option.some.injEq] at taken
    subst taken
    exact inside.timed_silent timed here silent rfl (fun _ old => old) rfl (by rintro _ _ _ ⟨⟩) (by simp)
      (fun life => absurd life alive)
  | erase =>
    have erased : i ∉ s'.sessions := by
      cases taken
      exact Finset.notMem_erase i s.sessions
    cases taken
    exact inside.timed_silent timed here silent rfl (fun _ old => old) rfl (by rintro _ _ _ ⟨⟩)
      (fun _ _ _ _ => erased) (fun life => absurd life alive)
  | remove =>
    cases taken
    exact inside.timed_silent timed here silent rfl (fun _ old => old) rfl (by rintro _ _ _ ⟨⟩)
      (fun _ _ _ _ => gone (.inl rfl)) (fun life => absurd life alive)
  | insert =>
    cases back with
    | some call =>
      cases taken
      exact inside.timed_silent timed here silent rfl (fun _ old => old) rfl (by rintro _ _ _ ⟨⟩) (by rintro _ _ ⟨⟩)
        (fun life => absurd life alive)
    | none =>
      cases taken
      exact inside.timed_silent timed here silent rfl (fun _ old => old) rfl
        (fun _ _ _ _ => gone (.inr rfl)) (by rintro _ _ ⟨⟩) (fun life => absurd life alive)

theorem destroyStep_timed {succeeds : Bool} {stage : Destroy} {p : Phase} (timed : Timed s) (fits : s.loop.fits)
    (here : s.loop = .inside i (.destroying stage) p)
    (taken : insideStep s i p succeeds (.destroying stage) = some s') : Timed s' := by
  have inside := insideStep_inside taken
  have deletes : ∀ todo earliest now, p ≠ .scan todo earliest now := by
    rintro todo earliest now rfl
    simp [here, Loop.fits, Work.fits] at fits
  cases stage with
  | notifying notify =>
    simp only [insideStep, destroyStep, Option.map_some, Option.some.injEq, Option.elim_some] at taken
    have rest : s'.loop.notify = (notify.step s.earliestDeadline succeeds).2 := by
      rw [← taken]
      cases (notify.step s.earliestDeadline succeeds).2 <;> rfl
    obtain ⟨announces, current⟩ := notify_announces timed (by rw [here]; rfl) (by rw [← taken]) rest
    subst taken
    exact inside.timed timed here announces (fun _ old _ => .inl old) current (by rintro _ _ _ ⟨⟩) (by rintro _ _ ⟨⟩)
      (fun _ => ⟨_, rfl⟩)
  | mark =>
    cases taken
    refine inside.timed_silent timed here (by rw [here]; rfl) rfl (fun d stream => ?_) rfl (by rintro _ _ _ ⟨⟩)
      (by rintro _ _ ⟨⟩) (fun _ => ⟨_, rfl⟩)
    simpa [State.set] using stream
  | close =>
    cases taken
    refine inside.timed_silent timed here (by rw [here]; rfl) rfl (fun d stream => ?_) rfl
      (fun todo earliest now back => absurd (Loop.phase.inj back) (deletes todo earliest now)) (by rintro _ _ ⟨⟩)
      (fun life => ?_)
    · simpa [State.set] using stream
    · simp [State.set] at life
  | quitting =>
    simp only [insideStep, destroyStep] at taken
    split_ifs at taken <;> cases taken
    exact inside.timed_silent timed here (by rw [here]; rfl) rfl (fun _ old => old) rfl (by rintro _ _ _ ⟨⟩)
      (by rintro _ _ ⟨⟩) (fun _ => ⟨_, rfl⟩)
  | erase =>
    cases taken
    refine inside.timed_silent timed here (by rw [here]; rfl) rfl (fun _ old => old) ?_ (by rintro _ _ _ ⟨⟩)
      (by rintro _ _ ⟨⟩) (fun _ => ⟨_, rfl⟩)
    dsimp only [Option.elim_some, Loop.notify]
    split_ifs <;> rfl
  | remove =>
    cases taken
    exact inside.timed_silent timed here (by rw [here]; rfl) rfl (fun _ old => old) rfl (by rintro _ _ _ ⟨⟩)
      (by rintro _ _ ⟨⟩) (fun _ => ⟨_, rfl⟩)

theorem insideStep_timed {succeeds : Bool} {work : Work} {p : Phase} (timed : Timed s) (fits : s.loop.fits)
    (here : s.loop = .inside i work p) (taken : insideStep s i p succeeds work = some s') : Timed s' := by
  have inside := insideStep_inside taken
  cases work with
  | leaving stage back => exact leaveStep_timed timed here taken
  | destroying stage => exact destroyStep_timed timed fits here taken
  | found =>
    have alive := not_deleting timed here (by rintro _ ⟨⟩)
    cases taken
    refine inside.timed_silent timed here (by rw [here]; rfl) rfl (fun _ old => old) ?_ (by rintro _ _ _ ⟨⟩) ?_
      (fun life => absurd life alive)
    · dsimp only [State.call, Loop.notify]
      split_ifs <;> rfl
    · dsimp only [State.call]
      split_ifs
      · rintro _ _ ⟨⟩
      · rintro stage back after gone
        cases after
        simp at gone
  | notifying notify call =>
    have alive := not_deleting timed here (by rintro _ ⟨⟩)
    simp only [insideStep, Option.some.injEq] at taken
    have rest : s'.loop.notify = (notify.step s.earliestDeadline succeeds).2 := by
      rw [← taken]
      cases (notify.step s.earliestDeadline succeeds).2 <;> rfl
    have stays (stage : Leave) (back : Option Call) : s'.loop ≠ .inside i (.leaving stage back) p := by
      rw [← taken]
      cases (notify.step s.earliestDeadline succeeds).2 <;> rintro ⟨⟩
    obtain ⟨announces, current⟩ := notify_announces timed (by rw [here]; rfl) (by rw [← taken]) rest
    subst taken
    exact inside.timed timed here announces (fun _ old _ => .inl old) current (by rintro _ _ _ ⟨⟩)
      (fun stage back after => absurd after (stays stage back)) (fun life => absurd life alive)
  | running call =>
    have alive := not_deleting timed here (by rintro _ ⟨⟩)
    obtain ⟨rfl, other⟩ | rfl := returnStep_eq taken
    · refine inside.timed_silent timed here (by rw [here]; rfl) rfl (fun _ old => old) rfl ?_ (by rintro _ _ ⟨⟩)
        (fun life => absurd life alive)
      -- a session that is timed out does not go back before it is gone
      rintro todo earliest now ⟨⟩
      cases call <;> simp_all [Loop.fits, Work.fits, Call.fits]
    · refine inside.timed_silent timed here (by rw [here]; rfl) rfl (fun _ old => old) rfl (by rintro _ _ _ ⟨⟩) ?_
        (fun life => absurd life alive)
      rintro stage back after gone
      cases after
      simp at gone

theorem act_announces {action : Action} {notify : Option Notify} (done : act s i action = some (s', notify)) :
    s'.earliestDeadline = s.earliestDeadline ∧ (s'.object i).life = (s.object i).life ∧
      (∀ n, notify = some n → n.current = none) ∧
      ∀ d, (s'.object i).stream = some d → d ≠ 0 →
        (s.object i).stream = some d ∨ ∃ n, notify = some n ∧ n.value ≤ d := by
  cases action with
  | openStream =>
    simp only [act] at done
    split_ifs at done
    cases done
    refine ⟨rfl, by simp [State.set], by rintro _ ⟨⟩, fun d stream nonzero => ?_⟩
    simp [State.set, nonzero.symm] at stream
  | setSessionTimeout deadline =>
    simp only [act] at done
    split_ifs at done
    cases done
    refine ⟨rfl, by simp [State.set], fun n called => ?_, fun d stream nonzero => .inr ?_⟩
    · unfold notifyDeadline at called
      split_ifs at called
      cases called
      rfl
    · obtain rfl : deadline = d := by simpa [State.set] using stream
      exact ⟨_, if_neg nonzero, le_rfl⟩
  | finish =>
    simp only [act] at done
    split_ifs at done
    cases done
    refine ⟨rfl, by simp [State.set], by rintro _ ⟨⟩, fun d stream _ => .inl ?_⟩
    simpa [State.set] using stream

theorem loopAct_timed {action : Action} (timed : Timed s) (taken : loopAct s action = some s') : Timed s' := by
  obtain ⟨i, work, p, t, notify, w, here, done, acts, rfl⟩ := loopAct_eq taken
  obtain ⟨earliest, life, fresh, stream⟩ := act_announces done
  have inside := act_inside p done acts
  have silent : s.loop.notify = none := by
    obtain ⟨call, rfl, -⟩ | ⟨rfl, -⟩ := acts <;> rw [here] <;> rfl
  have calls : w.notify = notify := by
    obtain ⟨call, -, rfl⟩ | ⟨-, rfl⟩ := acts <;> cases notify <;> rfl
  refine inside.timed timed here (fun d announced => announced.still silent earliest) ?_ ?_ (by rintro _ _ _ ⟨⟩) ?_ ?_
  · exact fun d now nonzero => (stream d now nonzero).imp_right fun ⟨n, called, soon⟩ => .inr ⟨n, calls.trans called, soon⟩
  · intro n current calling loaded
    rw [fresh n (calls.symm.trans calling)] at loaded
    cases loaded
  · rintro stage back ⟨⟩
    obtain ⟨call, -, eq⟩ | ⟨-, eq⟩ := acts
    · cases notify <;> cases eq
    · cases eq
  · intro deleting
    obtain ⟨call, rfl, -⟩ | ⟨-, rfl⟩ := acts
    · exact absurd (life.symm.trans deleting) (not_deleting timed here (by rintro _ ⟨⟩))
    · exact ⟨_, rfl⟩

theorem giveUp_timed (timed : Timed s) (taken : step s .giveUp = some s') : Timed s' := by
  obtain ⟨i, work, p, here, inside⟩ := giveUp_inside taken
  simp only [step, here] at taken
  split at taken
  next j call q eq =>
    obtain ⟨rfl, rfl, rfl⟩ : i = j ∧ work = .running call ∧ p = q := by simpa using eq
    have alive := not_deleting timed here (by rintro _ ⟨⟩)
    split_ifs at taken
    cases taken
    refine inside.timed_silent timed here (by rw [here]; rfl) rfl (fun _ old => old) rfl (by rintro _ _ _ ⟨⟩) ?_
      (fun life => absurd life alive)
    rintro stage back after gone
    cases after
    simp at gone
  next => cases taken

theorem phaseStep_timed {p : Phase} (timed : Timed s) (here : s.loop = .phase p) : Timed (phaseStep s p) := by
  have outside : s.loop.working = none := by rw [here]; rfl
  have silent : s.loop.notify = none := by rw [here]; rfl
  have positive := timed.positive
  rw [here] at positive
  have goes (fault : Bool) (loop : Loop) (quiet : loop.notify = none)
      (scans : ∀ i d, (s.object i).stream = some d → d ≠ 0 → (Loop.phase p).Scans i d → loop.Scans i d)
      (positive : ∀ todo earliest now, loop.current = some (.scan todo earliest now) → earliest ≠ 0)
      (left : ∀ i stage back p, loop = .inside i (.leaving stage back) p → stage = .check) :
      Timed { s with fault := fault, loop := loop } := by
    refine jump_timed timed outside rfl rfl rfl ?_ (by simp [quiet]) positive left
    intro i _ d stream nonzero covered
    rw [here] at covered
    exact covered.imp (fun announced => announced.still silent rfl) (scans i d stream nonzero)
  have calls {i : Id} {call : Call} {resumes : Prop} [Decidable resumes] {q : Phase} :
      (Loop.inside i (if resumes then .running call else .leaving .check none) q).notify = none ∧
        ∀ j stage back r, Loop.inside i (if resumes then .running call else .leaving .check none) q =
          .inside j (.leaving stage back) r → stage = .check := by
    split_ifs
    · exact ⟨rfl, by rintro _ _ _ _ ⟨⟩⟩
    · exact ⟨rfl, by rintro _ _ _ _ ⟨⟩; rfl⟩
  fun_cases phaseStep s p
  case case1 wokeup =>
    cases wokeup <;> exact goes _ _ rfl (by rintro _ _ _ _ ⟨⟩) (by rintro _ _ _ ⟨⟩) (by rintro _ _ _ _ ⟨⟩)
  case case2 i events todo wokeup => exact goes _ _ calls.1 (by rintro _ _ _ _ ⟨⟩) (by rintro _ _ _ ⟨⟩) calls.2
  case case3 => exact goes _ _ rfl (by rintro _ _ _ _ ⟨⟩) (by rintro _ _ _ ⟨⟩) (by rintro _ _ _ _ ⟨⟩)
  case case4 i todo =>
    split_ifs <;> exact goes _ _ rfl (by rintro _ _ _ _ ⟨⟩) (by rintro _ _ _ ⟨⟩) (by rintro _ _ _ _ ⟨⟩)
  case case5 earliest now =>
    have nonzero : earliest ≠ 0 := positive _ _ _ rfl
    refine jump_timed timed outside rfl rfl rfl ?_ ?_ ?_ ?_ <;>
      simp only [notifyDeadline, if_neg nonzero, Option.elim_some]
    · intro i _ d _ _ covered
      rw [here] at covered
      obtain announced | early | none := covered
      · exact .inl (announced.still silent rfl)
      · exact .inl (.inr ⟨_, rfl, early⟩)
      · cases none
    · rintro _ _ ⟨⟩ ⟨⟩
    · rintro _ _ _ ⟨⟩
    · rintro _ _ _ _ ⟨⟩
  case case6 i todo earliest now none _ =>
    refine goes _ _ rfl (fun j d stream nonzero covered => ?_) (fun _ _ _ eq => ?_) (by rintro _ _ _ _ ⟨⟩)
    · obtain early | mem := covered
      · exact .inl early
      · obtain rfl | mem := List.mem_cons.mp mem
        · exact absurd (by simpa [Session.deadline, stream] using none) nonzero
        · exact .inr mem
    · cases eq
      exact positive _ _ _ rfl
  case case7 i todo earliest now some due =>
    refine goes _ _ calls.1 (fun j d _ _ covered => ?_) (fun _ _ _ eq => ?_) calls.2
    · obtain early | mem := covered
      · exact .inl early
      · obtain rfl | mem := List.mem_cons.mp mem
        · exact .inr (.inr rfl)
        · exact .inr (.inl mem)
    · cases eq
      exact positive _ _ _ rfl
  case case8 i todo earliest now some later _ =>
    refine goes _ _ rfl (fun j d stream _ covered => ?_) (fun _ _ _ eq => ?_) (by rintro _ _ _ _ ⟨⟩)
    · obtain early | mem := covered
      · exact .inl ((min_le_left _ _).trans early)
      · obtain rfl | mem := List.mem_cons.mp mem
        · refine .inl ((min_le_right _ _).trans ?_)
          simp [Session.deadline, stream]
        · exact .inr mem
    · cases eq
      obtain eq | eq := min_choice earliest (s.object i).deadline <;> rw [eq]
      · exact positive _ _ _ rfl
      · exact some
  case case9 => exact goes _ _ rfl (by rintro _ _ _ _ ⟨⟩) (by rintro _ _ _ ⟨⟩) (by rintro _ _ _ _ ⟨⟩)
  case case10 => exact goes _ _ rfl (by rintro _ _ _ _ ⟨⟩) (by rintro _ _ _ ⟨⟩) (by rintro _ _ _ _ ⟨⟩)

theorem loopStep_timed {clock : Time} {order : List Id} {succeeds : Bool} (timed : Timed s) (fits : s.loop.fits)
    (taken : loopStep s clock order succeeds = some s') : Timed s' := by
  cases here : s.loop with
  | phase p =>
    simp only [loopStep, here, Option.some.injEq] at taken
    exact taken ▸ phaseStep_timed timed here
  | inside i work p =>
    simp only [loopStep, here] at taken
    exact insideStep_timed timed fits here taken
  | publish notify =>
    simp only [loopStep, here, Option.some.injEq] at taken
    have rest : s'.loop.notify = (notify.step s.earliestDeadline succeeds).2 := by
      rw [← taken]
      cases (notify.step s.earliestDeadline succeeds).2 <;> rfl
    obtain ⟨announces, current⟩ := notify_announces timed (by rw [here]; rfl) (by rw [← taken]) rest
    subst taken
    refine jump_timed timed (by rw [here]; rfl) rfl rfl rfl (fun i _ d _ _ covered => ?_) current ?_ ?_
    · rw [here] at covered
      exact .inl (announces d (covered.resolve_right id))
    · cases (notify.step s.earliestDeadline succeeds).2 <;> rintro _ _ _ ⟨⟩
    · cases (notify.step s.earliestDeadline succeeds).2 <;> rintro _ _ _ _ ⟨⟩
  | snapshot now =>
    simp only [loopStep, here, Option.ite_none_right_eq_some, Option.some.injEq] at taken
    obtain ⟨⟨-, all⟩, rfl⟩ := taken
    refine jump_timed timed (by rw [here]; rfl) rfl rfl rfl (fun i mem d _ _ _ => ?_) (by rintro _ _ ⟨⟩) ?_
      (by rintro _ _ _ _ ⟨⟩)
    · exact .inr (.inr (List.mem_toFinset.mp (all ▸ mem)))
    · rintro _ _ _ ⟨⟩
      decide
  | swap | collect =>
    simp only [loopStep, here, Option.ite_none_right_eq_some, Option.some.injEq] at taken
    obtain ⟨-, rfl⟩ := taken
    exact jump_silent timed (by rw [here]; rfl) (by rw [here]; rfl) (fun _ _ => by rw [here]; exact id) rfl rfl rfl rfl rfl rfl
      (by rintro _ _ _ ⟨⟩)
  | waiting =>
    simp only [loopStep, here] at taken
    split_ifs at taken
    cases taken
    exact jump_silent timed (by rw [here]; rfl) (by rw [here]; rfl) (fun _ _ => by rw [here]; exact id) rfl rfl rfl rfl rfl rfl
      (by rintro _ _ _ ⟨⟩)
  | store now =>
    simp only [loopStep, here, Option.some.injEq] at taken
    subst taken
    exact jump_timed timed (by rw [here]; rfl) rfl rfl rfl (fun _ _ _ _ _ _ => .inr trivial) (by rintro _ _ ⟨⟩)
      (by rintro _ _ _ ⟨⟩) (by rintro _ _ _ _ ⟨⟩)
  | exited => simp [loopStep, here] at taken
  | top | due =>
    simp only [loopStep, here, Option.some.injEq] at taken
    subst taken
    split_ifs
    all_goals
      exact jump_silent timed (by rw [here]; rfl) (by rw [here]; rfl) (fun _ _ => by rw [here]; exact id) rfl rfl rfl rfl rfl rfl
        (by rintro _ _ _ ⟨⟩)
  | drain | load =>
    simp only [loopStep, here, Option.some.injEq] at taken
    subst taken
    exact jump_silent timed (by rw [here]; rfl) (by rw [here]; rfl) (fun _ _ => by rw [here]; exact id) rfl rfl rfl rfl rfl rfl
      (by rintro _ _ _ ⟨⟩)

-- `epoll_ctl` registers every session that the accept thread gives to it.
def Registers (s : State) (input : Input) : Prop :=
  ∀ i deadline, s.accept = .inserted i → input ≠ .accept deadline false

theorem Elsewhere.timed (known : Known s) (timed : Timed s) (elsewhere : Elsewhere s s')
    (earlier : s'.earliestDeadline ≤ s.earliestDeadline)
    (object : ∀ i, s'.object i = s.object i ∨ (s'.object i).stream = none ∧ (s'.object i).life = .alive)
    (registered : ∀ i stage, s'.accept ≠ .destroying i stage) : Timed s' := by
  have fresh (i : Id) (new : s.accept = .constructed i) (referred : Refers s i) : False :=
    (known.fresh i (by rw [new]; rfl)).1 (known.refers i referred)
  refine ⟨fun i mem d stream nonzero => ?_, ?_, ?_, fun i stage back p here gone mem => ?_, registered, fun i deleting => ?_⟩
  · obtain same | ⟨none, -⟩ := object i
    · rw [same] at stream
      obtain old | new := elsewhere.sessions i mem
      · refine (timed.covers i old d stream nonzero).imp ?_ (elsewhere.loop ▸ id)
        exact Or.imp earlier.trans (elsewhere.loop ▸ id)
      · exact (fresh i new (.started (by simp [stream]))).elim
    · rw [none] at stream
      cases stream
  · rw [elsewhere.loop]
    exact fun notify current calling loaded => earlier.trans (timed.current notify current calling loaded)
  · rw [elsewhere.loop]
    exact timed.positive
  · rw [elsewhere.loop] at here
    obtain old | new := elsewhere.sessions i mem
    · exact timed.left i stage back p here gone old
    · exact fresh i new (.working (by rw [here]; rfl))
  · rw [elsewhere.loop]
    obtain same | ⟨-, alive⟩ := object i
    · exact timed.deleting i (same ▸ deleting)
    · rw [alive] at deleting
      cases deleting

theorem acceptStep_timed {deadline : Time} {succeeds : Bool} (known : Known s) (timed : Timed s)
    (registers : Registers s (.accept deadline succeeds)) (taken : acceptStep s deadline succeeds = some s') :
    Timed s' := by
  have elsewhere := acceptStep_elsewhere taken
  cases here : s.accept with
  | idle =>
    simp only [acceptStep, here, Option.ite_none_right_eq_some, Option.some.injEq] at taken
    obtain ⟨-, rfl⟩ := taken
    refine elsewhere.timed known timed le_rfl (fun i => ?_) ?_
    · by_cases new : i = s.created
      · simp [State.set, new]
      · exact .inl (Function.update_of_ne new _ _)
    · cases notifyDeadline deadline <;> rintro _ _ ⟨⟩
  | notifying i notify =>
    simp only [acceptStep, here, Option.some.injEq] at taken
    subst taken
    refine elsewhere.timed known timed (notify_step_le _ _ _) (fun _ => .inl rfl) ?_
    cases (notify.step s.earliestDeadline succeeds).2 <;> rintro _ _ ⟨⟩
  | constructed i =>
    simp only [acceptStep, here, Option.some.injEq] at taken
    subst taken
    exact elsewhere.timed known timed le_rfl (fun _ => .inl rfl) (by rintro _ _ ⟨⟩)
  | inserted i =>
    cases succeeds with
    | false => exact absurd rfl (registers i deadline here)
    | true =>
      simp only [acceptStep, here, if_true, Option.some.injEq] at taken
      subst taken
      exact elsewhere.timed known timed le_rfl (fun _ => .inl rfl) (by rintro _ _ ⟨⟩)
  | destroying i stage => exact absurd here (timed.registered i stage)

theorem step_timed {input : Input} (known : Known s) (timed : Timed s) (registers : Registers s input)
    (taken : step s input = some s') : Timed s' := by
  cases input with
  | accept deadline succeeds => exact acceptStep_timed known timed registers taken
  | acceptAct action =>
    simp only [step, acceptAct] at taken
    split at taken
    next i here => exact absurd here (timed.registered i _)
    next => cases taken
  | wait events wokeup =>
    simp only [step, waitStep, Option.ite_none_right_eq_some, Option.some.injEq] at taken
    obtain ⟨⟨here, -⟩, rfl⟩ := taken
    exact jump_silent timed (by rw [here]; rfl) (by rw [here]; rfl) (fun _ _ => by rw [here]; exact id) rfl rfl rfl rfl rfl rfl
      (by rintro _ _ _ ⟨⟩)
  | loop clock order succeeds => exact loopStep_timed timed known.fits taken
  | loopAct action => exact loopAct_timed timed taken
  | giveUp => exact giveUp_timed timed taken
  | insertWakeup | writeWakeup =>
    simp only [step, Option.ite_none_right_eq_some, Option.some.injEq] at taken
    obtain ⟨-, rfl⟩ := taken
    exact ⟨timed.covers, timed.current, timed.positive, timed.left, timed.registered, timed.deleting⟩
  | storeQuit | signal =>
    cases taken
    exact ⟨timed.covers, timed.current, timed.positive, timed.left, timed.registered, timed.deleting⟩

end Steps

/-- When the loop thread waits, no session with a stream has a deadline before the earliest one it knows about. -/
theorem deadline_not_missed {inputs : List Input} {s : State}
    (reached : sessionsEventLoop.Reaches Registers {} inputs s) (waits : s.loop = .waiting) :
    ∀ i ∈ s.sessions, (s.object i).stream.isSome → (s.object i).deadline ≠ 0 →
      s.earliestDeadline ≤ (s.object i).deadline := by
  have start : Timed {} := ⟨by simp, nofun, nofun, nofun, nofun, nofun⟩
  obtain ⟨-, timed⟩ := reached.invariant (P := fun _ s => Known s ∧ Timed s) ⟨known_start, start⟩
    (fun both registers taken => ⟨step_known both.1 taken, step_timed both.1 both.2 registers taken⟩)
  intro i mem started nonzero
  obtain ⟨d, stream⟩ := Option.isSome_iff_exists.mp started
  have same : (s.object i).deadline = d := by simp [Session.deadline, stream]
  have covered := timed.covers i mem d stream (same ▸ nonzero)
  simpa [Announces, waits, Loop.notify, Loop.Scans, same] using covered

def State.registers (s : State) (input : Input) : Bool :=
  match s.accept, input with
  | .inserted _, .accept _ false => false
  | _, _ => true

-- A session that moves its deadline from 5 to 20; the scan at 10 finds the new one.
theorem deadline_not_missed_moved :
    ∃ inputs s, sessionsEventLoop.Reaches Registers {} inputs s ∧ s.loop = .waiting ∧ 0 ∈ s.sessions ∧
      (s.object 0).deadline = 20 ∧ s.earliestDeadline ≤ 20 := by
  let inputs : List Input :=
    [.accept 5 true, .accept 0 true, .accept 0 true, .accept 0 true, .accept 0 true, .loop 0 [] true,
      .wait [(0, .io)] false, .loop 0 [] true, .loopAct .openStream, .loopAct (.setSessionTimeout 20), .loop 0 [] true,
      .loop 0 [] true, .loop 0 [] true, .loop 0 [] true, .loop 10 [] true, .loop 10 [] true, .loop 10 [0] true,
      .loop 10 [] true, .loop 10 [] true, .loop 10 [] true, .loop 10 [] true, .loop 10 [] true, .loop 10 [] true,
      .loop 10 [] true, .loop 10 [] true]
  have ran : ((sessionsEventLoop.guarded State.registers).run {} inputs).map
      (fun s => (s.loop, s.sessions, (s.object 0).stream)) = some (.waiting, {0}, some 20) := by decide +kernel
  obtain ⟨s, ran, seen⟩ := Option.map_eq_some_iff.mp ran
  obtain ⟨waits, sessions, stream⟩ : s.loop = .waiting ∧ s.sessions = {0} ∧ (s.object 0).stream = some 20 := by
    simpa using seen
  have reached : sessionsEventLoop.Reaches Registers {} inputs s := by
    refine System.reaches_of_guarded (fun s input checked i deadline inserted failed => ?_) ran
    simp [State.registers, inserted, failed] at checked
  have deadline : (s.object 0).deadline = 20 := by simp [Session.deadline, stream]
  have mem : 0 ∈ s.sessions := by simp [sessions]
  refine ⟨inputs, s, reached, waits, mem, deadline, ?_⟩
  exact deadline ▸ deadline_not_missed reached waits 0 mem (by simp [stream]) (by simp [deadline])

end Dracon.SessionsEventLoop
