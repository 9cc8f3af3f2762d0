/-
A pass that goes wrong is the pass that goes well, cut short.

What a pass does when nothing goes wrong is its trace.  By any schedule of failures and
answers a pass follows its trace up to the first thing that goes wrong, then lets the CPU
run, and does nothing else: no write is tried again, and none is left out before.  What
is reported is the first thing that went wrong; a failure of the last write is kept
beside it and takes its place only when nothing went wrong before.

Attempts and questions are numbered, each on their own.  How they interleave is read off
the events of the calm pass: `upTo` cuts those off at the attempt or the question with a
number.
-/
import UsbBoot.Proofs.Pass.Answer

namespace UsbBoot.Pass

/-! ### Events up to one of them -/

/-- The events before the one with a number among those from which something is picked. -/
def upTo {α : Type} (pick : Event → Option α) : List Event → Nat → List Event
  | [], _ => []
  | event :: rest, n =>
    match pick event, n with
    | none, n => event :: upTo pick rest n
    | some _, 0 => []
    | some _, n + 1 => event :: upTo pick rest n

section upTo

variable {α : Type} {pick : Event → Option α}

/-- Events among which there are not too many to be picked are all kept. -/
theorem upTo_append {front : List Event} {n : Nat} (back : List Event)
    (h : (front.filterMap pick).length ≤ n) :
    upTo pick (front ++ back) n
      = front ++ upTo pick back (n - (front.filterMap pick).length) := by
  induction front generalizing n with
  | nil => rfl
  | cons event rest ih =>
      cases hpick : pick event with
      | none =>
          rw [List.filterMap_cons_none hpick] at h ⊢
          simp only [List.cons_append, upTo, hpick]
          rw [ih h]
      | some value =>
          rw [List.filterMap_cons_some hpick] at h ⊢
          cases n with
          | zero => simp at h
          | succ n =>
              simp only [List.length_cons, Nat.add_le_add_iff_right] at h
              simp only [List.cons_append, upTo, hpick, List.length_cons,
                Nat.add_sub_add_right]
              rw [ih h]

theorem upTo_picked {front : List Event} {event : Event} (back : List Event)
    (h : (pick event).isSome = true) :
    upTo pick (front ++ event :: back) (front.filterMap pick).length = front := by
  obtain ⟨value, hvalue⟩ := Option.isSome_iff_exists.mp h
  rw [upTo_append _ (Nat.le_refl _), Nat.sub_self]
  simp only [upTo, hvalue, List.append_nil]

/-- An event that is not picked is kept together with those in front of it. -/
theorem upTo_passed {front : List Event} {event : Event} {n : Nat} (back : List Event)
    (h : pick event = none) (hle : (front.filterMap pick).length ≤ n) :
    ∃ more, upTo pick (front ++ event :: back) n = front ++ event :: more := by
  rw [upTo_append _ hle]
  simp only [upTo, h]
  exact ⟨_, rfl⟩

/-- Remarks do not count. -/
theorem deeds_upTo (hnote : ∀ line, pick (.note line) = none) (events : List Event) (n : Nat) :
    deeds (upTo pick events n) = upTo pick (deeds events) n := by
  induction events generalizing n with
  | nil => rfl
  | cons event rest ih =>
      cases hdeed : event.isDeed with
      | false =>
          cases event with
          | note line =>
              simp only [upTo, hnote line, deeds_note_cons]
              exact ih n
          | asked | wrote | progress => cases hdeed
      | true =>
          rw [deeds_cons rest hdeed]
          cases hpick : pick event with
          | none =>
              simp only [upTo, hpick]
              rw [deeds_cons _ hdeed, ih]
          | some value =>
              cases n with
              | zero => simp only [upTo, hpick, deeds_nil]
              | succ n =>
                  simp only [upTo, hpick]
                  rw [deeds_cons _ hdeed, ih]

theorem filterMap_upTo (events : List Event) (n : Nat) :
    (upTo pick events n).filterMap pick = (events.filterMap pick).take n := by
  induction events generalizing n with
  | nil => simp [upTo]
  | cons event rest ih =>
      cases hpick : pick event with
      | none =>
          simp only [upTo, hpick]
          rw [List.filterMap_cons_none hpick, List.filterMap_cons_none hpick, ih]
      | some value =>
          rw [List.filterMap_cons_some hpick]
          cases n with
          | zero => simp [upTo, hpick]
          | succ n =>
              simp only [upTo, hpick]
              rw [List.filterMap_cons_some hpick, List.take_succ_cons, ih]

end upTo

/-! ### What a schedule does to a pass -/

/-- By the schedule nothing goes wrong in these events. -/
structure Spared (schedule : Schedule) (events : List Event) : Prop where
  /-- No attempt fails. -/
  attempts : ∀ i < (attempts events).length, schedule.failure i = none
  /-- To no question the user gives up. -/
  questions : ∀ k < (answers events).length, schedule.answer k = false

/-- By the schedule the attempt with a number fails, and nothing goes wrong before. -/
structure FailsFirst (schedule : Schedule) (events : List Event) (n : Nat) (cause : Failure) :
    Prop where
  reached : n < (attempts events).length
  failure : schedule.failure n = some cause
  before : Spared schedule (upTo Event.attempt? events n)

/-- By the schedule the user gives up at the question with a number, and nothing goes wrong
before. -/
structure GivesUpFirst (schedule : Schedule) (events : List Event) (k : Nat) : Prop where
  reached : k < (answers events).length
  answer : schedule.answer k = true
  before : Spared schedule (upTo Event.answer? events k)

/-- A pass that issued these writes, then let the CPU run, and reports what stopped it. -/
structure CutShort (profile : Chip.Profile) (issued : List ControlWrite) (cause : Failure)
    (release : Option Failure) {σ : Type} (run : Run σ) : Prop where
  writes : writes run.events = issued ++ [releaseWrite profile]
  failure : run.failure = some cause
  phase : run.engine.phase = .failed
  /-- How the one attempt to let the CPU run failed, if it did. -/
  release : run.engine.releaseFailure = release

variable {schedule : Schedule} {name pass : String} {target : Target} {plan : Plan}
  {engine : Engine}

theorem length_attempts_allDeeds (pass : String) (asks : Bool) (actions : List Action) :
    (attempts (allDeeds pass asks actions)).length = (sends actions).length := by
  rw [attempts_allDeeds, List.length_map]

theorem length_answers_allDeeds (pass : String) (actions : List Action) :
    (answers (allDeeds pass true actions)).length = checks actions := by
  simp [answers_allDeeds]

/-- By a schedule all went well as far as all is seen to have gone well. -/
theorem spared_of_seen {actions : List Action} {rest : List Event} {final : Tally}
    (h : Answered (schedule.port name) ⟨0, 0⟩
      (allDeeds pass schedule.cancel.isSome actions ++ rest) final) :
    Spared schedule (allDeeds pass true actions) := by
  obtain ⟨hattempts, hanswers⟩ := h.scheduled
  simp only [attempts_append, answers_append, attempts_allDeeds, answers_allDeeds,
    Nat.zero_add] at hattempts hanswers
  constructor
  · intro i hi
    rw [length_attempts_allDeeds] at hi
    refine (hattempts i (Attempt.ok (sends actions)[i]) ?_).symm
    rw [List.getElem?_append_left (by simpa using hi)]
    simp [hi]
  · intro k hk
    rw [length_answers_allDeeds] at hk
    cases hcancel : schedule.cancel with
    | none => simp [Schedule.answer, hcancel]
    | some answer =>
        refine (hanswers k false ?_).symm
        rw [List.getElem?_append_left (by simpa [hcancel] using hk)]
        simp [hcancel, hk]

/-- What an allowed and feasible pass comes to by a schedule. -/
inductive Followed (schedule : Schedule) (profile : Chip.Profile) (pass : String)
    (actions : List Action) (run : Run Tally) : Prop
  /-- Its body went well. -/
  | through (spared : Spared schedule (allDeeds pass true actions))
    (issued : writes run.events = sends actions ++ [releaseWrite profile])
    (failure : run.failure = unlessDisconnect (schedule.failure (sends actions).length))
    (phase : run.engine.phase = if run.failure.isNone then .done else .failed)
    (releaseFailure : run.engine.releaseFailure = none)
  /-- A write failed. -/
  | failed (before after : List Action) (write : ControlWrite) (cause : Failure)
    (split : actions = before ++ .send write :: after)
    (spared : Spared schedule (allDeeds pass true before))
    (failure : schedule.failure (sends before).length = some cause)
    (cut : CutShort profile (sends before ++ [write]) cause
      (schedule.failure ((sends before).length + 1)) run)
  /-- The user gave up. -/
  | gaveUp (before after : List Action) (split : actions = before ++ .check :: after)
    (spared : Spared schedule (allDeeds pass true before))
    (answer : schedule.answer (checks before) = true)
    (cut : CutShort profile (sends before) .cancelled
      (schedule.failure (sends before).length) run)

theorem Ended.followed {profile : Chip.Profile} {actions : List Action} {run : Run Tally}
    {final : Tally} (h : Ended profile pass schedule.cancel.isSome actions run)
    (hanswered : Answered (schedule.port name) ⟨0, 0⟩ (deeds run.events) final)
    (hfeasible : Feasible actions) : Followed schedule profile pass actions run := by
  cases h with
  | finished release feasible seen failure phase releaseFailure =>
      rw [seen] at hanswered
      have hrelease : release = schedule.failure (sends actions).length := by
        have := hanswered.scheduled.1 (sends actions).length ⟨releaseWrite profile, release⟩
          (by simp [attempts_allDeeds])
        simpa using this
      subst hrelease
      exact .through (spared_of_seen hanswered) (writes_of_seen seen) failure phase releaseFailure
  | stopped release before after action cause last split stops seen failure phase hrelease =>
      rw [List.append_assoc] at seen
      rw [seen] at hanswered
      have hspared := spared_of_seen hanswered
      cases stops with
      | refuse cause => exact absurd (by simp [split]) (hfeasible cause)
      | check =>
          have hreply : release = schedule.failure (sends before).length := by
            have := hanswered.scheduled.1 (sends before).length ⟨releaseWrite profile, release⟩
              (by simp [attempts_allDeeds])
            simpa using this
          have hanswer : schedule.answer (checks before) = true := by
            cases hcancel : schedule.cancel with
            | none =>
                -- Where nobody asks, nobody gives up.
                have := hanswered.scheduled.2 0 true (by simp [answers_allDeeds, hcancel])
                simp [Schedule.answer, hcancel] at this
            | some answer =>
                have := hanswered.scheduled.2 (checks before) true
                  (by simp [answers_allDeeds, hcancel])
                simpa using this.symm
          subst hreply
          exact .gaveUp before after split hspared hanswer
            ⟨writes_of_seen seen, failure, phase, hrelease⟩
      | send write cause =>
          have hcause : schedule.failure (sends before).length = some cause := by
            have := hanswered.scheduled.1 (sends before).length ⟨write, some cause⟩
              (by simp [attempts_allDeeds])
            simpa using this.symm
          have hreply : release = schedule.failure ((sends before).length + 1) := by
            have := hanswered.scheduled.1 ((sends before).length + 1)
              ⟨releaseWrite profile, release⟩ (by simp [attempts_allDeeds])
            simpa using this
          subst hreply
          refine .failed before after write cause split hspared hcause
            ⟨?_, failure, phase, hrelease⟩
          rw [writes_of_seen seen, List.append_assoc]
          rfl

theorem Followed.of_run (schedule : Schedule) (name pass : String) (engine : Engine)
    (h : plan.obstacle? target.profile = none)
    (hfeasible : Feasible (script target.profile target.identity plan)) :
    Followed schedule target.profile pass (script target.profile target.identity plan)
      (run (schedule.port name) target pass plan engine ⟨0, 0⟩) := by
  have hended := run_ended (schedule.port name) target pass engine ⟨0, 0⟩ h
  have hasks : (schedule.port name).cancelled.isSome = schedule.cancel.isSome :=
    Option.isSome_map
  rw [hasks] at hended
  exact hended.followed (run_answered ..) hfeasible

/-! ### Cut short at the first thing that goes wrong -/

section

variable {actions before after : List Action} {events : List Event} {profile : Chip.Profile}

/-- The events in front of the question that comes after some actions of a calm pass. -/
theorem upTo_question
    (hevents : deeds events
      = allDeeds pass true actions ++ [.wrote (releaseWrite profile) none])
    (hsplit : actions = before ++ .check :: after) :
    deeds (upTo Event.answer? events (checks before)) = allDeeds pass true before := by
  have hnumber : checks before
      = ((allDeeds pass true before).filterMap Event.answer?).length :=
    (length_answers_allDeeds pass before).symm
  rw [deeds_upTo (fun _ => rfl), hevents, hsplit, hnumber, allDeeds_append, List.append_assoc]
  exact upTo_picked _ rfl

/-- A question comes before an attempt that more than the writes before it precede. -/
theorem question_before_attempt {n : Nat}
    (hevents : deeds events
      = allDeeds pass true actions ++ [.wrote (releaseWrite profile) none])
    (hsplit : actions = before ++ .check :: after) (hle : (sends before).length ≤ n) :
    checks before < (answers (upTo Event.attempt? events n)).length := by
  have hfront : ((allDeeds pass true before).filterMap Event.attempt?).length ≤ n := by
    rwa [← attempts, length_attempts_allDeeds]
  obtain ⟨more, hmore⟩ := upTo_passed
    (allDeeds pass true after ++ [.wrote (releaseWrite profile) none])
    (rfl : Event.attempt? (.asked false) = none) hfront
  have hdeeds : deeds (upTo Event.attempt? events n)
      = allDeeds pass true before ++ .asked false :: more := by
    rw [deeds_upTo (fun _ => rfl), hevents, hsplit, allDeeds_append, List.append_assoc]
    exact hmore
  rw [← answers_deeds, hdeeds, answers_append, List.length_append, length_answers_allDeeds]
  simp

/-- An attempt comes before a question that more than the questions before it precede. -/
theorem attempt_before_question {k : Nat} {write : ControlWrite}
    (hevents : deeds events
      = allDeeds pass true actions ++ [.wrote (releaseWrite profile) none])
    (hsplit : actions = before ++ .send write :: after) (hle : checks before ≤ k) :
    (sends before).length < (attempts (upTo Event.answer? events k)).length := by
  have hfront : ((allDeeds pass true before).filterMap Event.answer?).length ≤ k := by
    rwa [← answers, length_answers_allDeeds]
  obtain ⟨more, hmore⟩ := upTo_passed
    (allDeeds pass true after ++ [.wrote (releaseWrite profile) none])
    (rfl : Event.answer? (.wrote write none) = none) hfront
  have hdeeds : deeds (upTo Event.answer? events k)
      = allDeeds pass true before ++ .wrote write none :: more := by
    rw [deeds_upTo (fun _ => rfl), hevents, hsplit, allDeeds_append, List.append_assoc]
    exact hmore
  rw [← attempts_deeds, hdeeds, attempts_append, List.length_append, length_attempts_allDeeds]
  simp

/-- If an attempt fails first, it ends the pass: in its body, or letting the CPU run. -/
theorem Followed.of_failsFirst {run : Run Tally} {n : Nat} {cause : Failure}
    (h : Followed schedule profile pass actions run)
    (hevents : deeds events
      = allDeeds pass true actions ++ [.wrote (releaseWrite profile) none])
    (hfirst : FailsFirst schedule events n cause) :
    (n = (sends actions).length ∧ writes run.events = sends actions ++ [releaseWrite profile] ∧
        run.failure = unlessDisconnect (some cause) ∧
        run.engine.phase = (if run.failure.isNone then .done else .failed) ∧
        run.engine.releaseFailure = none) ∨
      ∃ before after write, actions = before ++ .send write :: after ∧
        n = (sends before).length ∧
        CutShort profile (sends before ++ [write]) cause (schedule.failure (n + 1)) run := by
  obtain ⟨hreached, hfailure, hbefore⟩ := hfirst
  have hissued : (attempts (upTo Event.attempt? events n)).length = n := by
    rw [attempts, filterMap_upTo, List.length_take]
    exact Nat.min_eq_left (Nat.le_of_lt hreached)
  have hnone : ∀ {done : List Action}, Spared schedule (allDeeds pass true done) →
      (sends done).length ≤ n := by
    intro done hspared
    refine Nat.le_of_not_lt fun hlt => ?_
    have := hspared.attempts n (by rwa [length_attempts_allDeeds])
    simp [hfailure] at this
  cases h with
  | through spared issued failure phase releaseFailure =>
      have hlast : n = (sends actions).length := by
        have hle := hnone spared
        rw [← attempts_deeds, hevents, attempts_append, List.length_append,
          length_attempts_allDeeds] at hreached
        simp at hreached
        omega
      rw [← hlast, hfailure] at failure
      exact Or.inl ⟨hlast, issued, failure, phase, releaseFailure⟩
  | gaveUp before after split spared answer cut =>
      -- The question came before the attempt, so it was answered no.
      have := hbefore.questions _ (question_before_attempt hevents split (hnone spared))
      simp [answer] at this
  | failed before after write other split spared failure cut =>
      rcases Nat.lt_or_ge (sends before).length n with hlt | hge
      · have := hbefore.attempts (sends before).length (by rwa [hissued])
        simp [failure] at this
      · have heq : n = (sends before).length := Nat.le_antisymm hge (hnone spared)
        rw [← heq] at failure cut
        obtain rfl : cause = other := by
          rw [hfailure] at failure
          exact Option.some.inj failure
        exact Or.inr ⟨before, after, write, split, heq, cut⟩

/-- If the user gives up first, that ends the body. -/
theorem Followed.of_givesUpFirst {run : Run Tally} {k : Nat}
    (h : Followed schedule profile pass actions run)
    (hevents : deeds events
      = allDeeds pass true actions ++ [.wrote (releaseWrite profile) none])
    (hfirst : GivesUpFirst schedule events k) :
    ∃ before after, actions = before ++ .check :: after ∧
      (attempts (upTo Event.answer? events k)).length = (sends before).length ∧
      CutShort profile (sends before) .cancelled (schedule.failure (sends before).length)
        run := by
  obtain ⟨hreached, hanswer, hbefore⟩ := hfirst
  have hasked : (answers (upTo Event.answer? events k)).length = k := by
    rw [answers, filterMap_upTo, List.length_take]
    exact Nat.min_eq_left (Nat.le_of_lt hreached)
  have hno : ∀ {done : List Action}, Spared schedule (allDeeds pass true done) →
      checks done ≤ k := by
    intro done hspared
    refine Nat.le_of_not_lt fun hlt => ?_
    have := hspared.questions k (by rwa [length_answers_allDeeds])
    simp [hanswer] at this
  cases h with
  | through spared issued failure phase releaseFailure =>
      rw [← answers_deeds, hevents, answers_append, List.length_append,
        length_answers_allDeeds] at hreached
      exact absurd hreached (by simpa using hno spared)
  | failed before after write cause split spared failure cut =>
      -- The attempt came before the question, so it did not fail.
      have := hbefore.attempts _ (attempt_before_question hevents split (hno spared))
      simp [failure] at this
  | gaveUp before after split spared answer cut =>
      rcases Nat.lt_or_ge (checks before) k with hlt | hge
      · have := hbefore.questions (checks before) (by rwa [hasked])
        simp [answer] at this
      · obtain rfl : k = checks before := Nat.le_antisymm hge (hno spared)
        refine ⟨before, after, split, ?_, cut⟩
        rw [← attempts_deeds, upTo_question hevents split, length_attempts_allDeeds]

theorem Followed.of_spared {run : Run Tally}
    (h : Followed schedule profile pass actions run)
    (hevents : deeds events
      = allDeeds pass true actions ++ [.wrote (releaseWrite profile) none])
    (hspared : Spared schedule events) :
    writes run.events = sends actions ++ [releaseWrite profile] ∧ run.failure = none ∧
      run.engine.phase = .done ∧ run.engine.releaseFailure = none := by
  have hnone : ∀ i ≤ (sends actions).length, schedule.failure i = none := by
    intro i hi
    refine hspared.attempts i ?_
    rw [← attempts_deeds, hevents, attempts_append, List.length_append,
      length_attempts_allDeeds]
    simpa using Nat.lt_succ_of_le hi
  cases h with
  | through spared issued failure phase releaseFailure =>
      rw [hnone _ (Nat.le_refl _)] at failure
      refine ⟨issued, failure, ?_, releaseFailure⟩
      rw [phase, failure]
      rfl
  | failed before after write cause split spared failure cut =>
      rw [hnone _ (by simp [split])] at failure
      cases failure
  | gaveUp before after split spared answer cut =>
      have := hspared.questions (checks before) (by
        rw [← answers_deeds, hevents, answers_append, List.length_append,
          length_answers_allDeeds, split, checks_append]
        simp [checks])
      simp [answer] at this

theorem release_counts {run : Run Tally} {cause : Failure}
    (hfailure : run.failure = unlessDisconnect (some cause))
    (hphase : run.engine.phase = if run.failure.isNone then .done else .failed) :
    if cause.isDisconnect then run.failure = none ∧ run.engine.phase = .done
    else run.failure = some cause ∧ run.engine.phase = .failed := by
  rw [hfailure] at hphase ⊢
  cases hleft : cause.isDisconnect <;> simpa [unlessDisconnect, hleft] using hphase

theorem take_trace {actions done rest : List Action} (last : List ControlWrite)
    (h : actions = done ++ rest) :
    (sends actions ++ last).take (sends done).length = sends done := by
  rw [h, sends_append, List.append_assoc]
  exact List.take_left

end

/--
**A pass that goes wrong is its trace cut short.**

Let a pass succeed where nothing goes wrong, with the writes of `whole`, of which number
`m` lets the CPU run.  By any schedule: if attempt `n` fails first and `n < m`, the pass
issues the writes up to that one, lets the CPU run, and reports that failure, whatever it
is.  If the user gives up first, it issues the writes before the question, lets the CPU
run, and reports that.  How letting the CPU run failed then, if it did, is kept beside.
If nothing but attempt `m` fails, all was issued, and the failure counts unless it says
that the device has left the bus.
-/
theorem run_cutShort (schedule : Schedule) (name pass : String) (target : Target) (plan : Plan)
    (engine : Engine)
    (hcalm : (run (Schedule.calm.port name) target pass plan engine ⟨0, 0⟩).failure = none) :
    let calm := run (Schedule.calm.port name) target pass plan engine ⟨0, 0⟩
    let whole := writes calm.events
    let result := run (schedule.port name) target pass plan engine ⟨0, 0⟩
    ∃ m, whole.length = m + 1 ∧ whole[m]? = some (releaseWrite target.profile) ∧
      (∀ n cause, n < m → FailsFirst schedule calm.events n cause →
        CutShort target.profile (whole.take (n + 1)) cause (schedule.failure (n + 1)) result) ∧
      (∀ k, GivesUpFirst schedule calm.events k →
        let issued := (attempts (upTo Event.answer? calm.events k)).length
        CutShort target.profile (whole.take issued) .cancelled (schedule.failure issued)
          result) ∧
      (∀ cause, FailsFirst schedule calm.events m cause →
        writes result.events = whole ∧ result.engine.releaseFailure = none ∧
          if cause.isDisconnect then result.failure = none ∧ result.engine.phase = .done
          else result.failure = some cause ∧ result.engine.phase = .failed) ∧
      (Spared schedule calm.events →
        writes result.events = whole ∧ result.failure = none ∧
          result.engine.phase = .done ∧ result.engine.releaseFailure = none) := by
  obtain ⟨hallowed, hfeasible⟩ := feasible_of_success hcalm
  obtain ⟨hevents, -⟩ := run_calm (Schedule.port_calm name) target pass engine ⟨0, 0⟩ hallowed
    hfeasible
  have hasks : (Schedule.calm.port name).cancelled.isSome = true := rfl
  rw [hasks] at hevents
  have hfollowed := Followed.of_run schedule name pass engine hallowed hfeasible
  intro calm whole result
  have hwhole : whole = sends (script target.profile target.identity plan)
      ++ [releaseWrite target.profile] := writes_of_seen hevents
  refine ⟨(sends (script target.profile target.identity plan)).length, ?_, ?_, ?_, ?_, ?_, ?_⟩
  · simp [hwhole]
  · simp [hwhole]
  · intro n cause hn hfirst
    rcases hfollowed.of_failsFirst hevents hfirst with
      ⟨heq, -⟩ | ⟨before, after, write, hsplit, rfl, hcut⟩
    · exact absurd heq (Nat.ne_of_lt hn)
    · have hdone : sends (before ++ [.send write]) = sends before ++ [write] := sends_append ..
      have htake := take_trace [releaseWrite target.profile]
        (hsplit.trans (List.append_cons before (.send write) after))
      rw [hdone, List.length_append, List.length_singleton, ← hwhole] at htake
      rwa [htake]
  · intro k hfirst issued
    obtain ⟨before, after, hsplit, hissued, hcut⟩ := hfollowed.of_givesUpFirst hevents hfirst
    have htake := take_trace [releaseWrite target.profile] hsplit
    rw [← hwhole, ← hissued] at htake
    rw [← hissued] at hcut
    rwa [htake]
  · intro cause hfirst
    rcases hfollowed.of_failsFirst hevents hfirst with
      ⟨-, hwrites, hfailure, hphase, hrelease⟩ | ⟨before, after, write, hsplit, heq, -⟩
    · exact ⟨hwrites.trans hwhole.symm, hrelease, release_counts hfailure hphase⟩
    · simp [hsplit, sends] at heq
  · intro hspared
    obtain ⟨hwrites, hrest⟩ := hfollowed.of_spared hevents hspared
    exact ⟨hwrites.trans hwhole.symm, hrest⟩

/-- Halting the CPU fails, and so does letting it run. -/
def stubborn : Schedule where
  failure n := if n = 1 then some .disconnected else if n = 2 then some .notFound else none
  cancel := some fun _ => false

/-- The device leaves the bus when its CPU is to be halted: that is reported although the
firmware has not been started, and the chunk on the chip is never sent. -/
theorem run_cutShort_stubborn :
    let calm := run (Schedule.calm.port "loader") blankPart "firmware" straddling .fresh ⟨0, 0⟩
    calm.failure = none ∧ FailsFirst stubborn calm.events 1 .disconnected ∧
      CutShort blankPart.profile [⟨.external, 0x2000, [3, 4]⟩, holdWrite blankPart.profile]
        .disconnected (some .notFound)
        (run (stubborn.port "loader") blankPart "firmware" straddling .fresh ⟨0, 0⟩) := by
  intro calm
  have hcalm : calm.failure = none := by decide +kernel
  have hwhole : writes calm.events
      = [⟨.external, 0x2000, [3, 4]⟩, holdWrite blankPart.profile,
        ⟨.onChip, 0x1FFE, [1, 2]⟩, releaseWrite blankPart.profile] := by decide +kernel
  have hbefore : (attempts (upTo Event.attempt? calm.events 1)).length = 1 := by decide +kernel
  have hfirst : FailsFirst stubborn calm.events 1 .disconnected := by
    refine ⟨by decide +kernel, rfl, ?_, fun _ _ => rfl⟩
    rw [hbefore]
    decide
  obtain ⟨m, hlength, -, hfails, -⟩ :=
    run_cutShort stubborn "loader" "firmware" blankPart straddling .fresh hcalm
  have hm : m = 3 := by
    rw [hwhole] at hlength
    exact (Nat.succ.inj hlength).symm
  have hcut := hfails 1 .disconnected (by omega) hfirst
  rw [hwhole] at hcut
  exact ⟨hcalm, hfirst, hcut⟩

end UsbBoot.Pass
