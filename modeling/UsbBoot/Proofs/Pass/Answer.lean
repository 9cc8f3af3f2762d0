/-
What is seen of a pass is what the port answered.

Every attempt among the events carries the reply the port gave to it, every question the
answer that was given, and port states follow one another through them.  `run_answered`
says so for whole passes.  Two kinds of port are then looked at through it: a calm port,
where nothing ever goes wrong, and a scheduled one, where the failure of an attempt is
the one laid down for its number.
-/
import UsbBoot.Proofs.Pass.Outcome

namespace UsbBoot

variable {σ : Type}

/-- A port whose writes all succeed, and whose user never gives up. -/
structure Port.Calm (port : Port σ) : Prop where
  writes : ∀ write state, (port.write write state).1.failure = none
  asks : ∀ ask, port.cancelled = some ask → ∀ state, (ask state).1 = false

/-- What a schedule answers to the question with a number; where nobody asks, no. -/
def Schedule.answer (schedule : Schedule) (question : Nat) : Bool :=
  match schedule.cancel with
  | none => false
  | some answer => answer question

/-- The schedule by which nothing goes wrong, though the user is asked. -/
def Schedule.calm : Schedule :=
  ⟨fun _ => none, some fun _ => false⟩

theorem Schedule.port_calm (name : String) : (Schedule.calm.port name).Calm where
  writes _ _ := rfl
  asks ask hask state := by
    simp only [Schedule.port, Schedule.calm, Option.map_some, Option.some.injEq] at hask
    rw [← hask]

namespace Pass

/-- The deeds are what the port answers from one state on to another. -/
inductive Answered (port : Port σ) : σ → List Event → σ → Prop
  | done (state : σ) : Answered port state [] state
  | progress {state final : σ} {rest : List Event} (pass : String) (written total : Nat)
    (hrest : Answered port state rest final) :
    Answered port state (.progress pass written total :: rest) final
  | asked {state final : σ} {rest : List Event} (ask : σ → Bool × σ)
    (hask : port.cancelled = some ask) (hrest : Answered port (ask state).2 rest final) :
    Answered port state (.asked (ask state).1 :: rest) final
  | wrote {state final : σ} {rest : List Event} (write : ControlWrite)
    (hrest : Answered port (port.write write state).2 rest final) :
    Answered port state (.wrote write (port.write write state).1.failure :: rest) final

theorem Answered.append {port : Port σ} {first middle last : σ} {xs ys : List Event}
    (hxs : Answered port first xs middle) (hys : Answered port middle ys last) :
    Answered port first (xs ++ ys) last := by
  induction hxs with
  | done => exact hys
  | progress pass written total _ ih => exact .progress pass written total (ih hys)
  | asked ask hask _ ih => exact .asked ask hask (ih hys)
  | wrote write _ ih => exact .wrote write (ih hys)

/-! ### Passes are answered -/

theorem wrote_answered (port : Port σ) (write : ControlWrite) (state : σ) :
    Answered port state [.wrote write (port.write write state).1.failure]
      (port.write write state).2 :=
  .wrote write (.done _)

theorem perform_answered (port : Port σ) (pass : String) (actions : List Action)
    (engine : Engine) (state : σ) :
    Answered port state (deeds (perform port pass actions engine state).events)
      (perform port pass actions engine state).port := by
  induction actions generalizing engine state with
  | nil => exact .done state
  | cons action rest ih =>
      cases action with
      | note line => exact ih engine state
      | enter phase => exact ih _ state
      | hold => exact ih _ state
      | refuse cause => exact .done state
      | report written total => exact .progress pass written total (ih engine state)
      | check =>
          rw [perform]
          cases hask : port.cancelled with
          | none => exact ih engine state
          | some ask =>
              have hstep : Answered port state [.asked (ask state).1] (ask state).2 :=
                .asked ask hask (.done _)
              rcases hanswer : ask state with ⟨_ | _, next⟩
              · rw [hanswer] at hstep
                simp only [hanswer]
                exact hstep.append (ih engine next)
              · rw [hanswer] at hstep
                simp only [hanswer]
                exact hstep
      | send write =>
          have hstep := wrote_answered port write state
          rw [perform]
          rcases hwrite : port.write write state with ⟨reply, next⟩
          rw [hwrite] at hstep
          cases hreply : reply.failure with
          | none =>
              simp only [hreply, Run.after, deeds_append, deeds_writeEvents] at hstep ⊢
              exact hstep.append (ih engine next)
          | some cause =>
              simp only [hreply, deeds_writeEvents] at hstep ⊢
              exact hstep

theorem release_answered (port : Port σ) (profile : Chip.Profile) (engine : Engine)
    (state : σ) : Answered port state (deeds (release port profile engine state).events)
      (release port profile engine state).port := by
  have hstep := wrote_answered port (releaseWrite profile) state
  rw [release]
  rcases hwrite : port.write (releaseWrite profile) state with ⟨reply, next⟩
  rw [hwrite] at hstep
  cases hreply : reply.failure <;> simpa [hwrite, hreply] using hstep

theorem finish_answered (port : Port σ) (profile : Chip.Profile) (body : Run σ) :
    ∃ more, deeds (finish port profile body).events = deeds body.events ++ more ∧
      Answered port body.port more (finish port profile body).port := by
  have hrelease := release_answered port profile body.engine body.port
  rw [finish]
  cases body.failure with
  | none =>
      simp only [finishWell, Run.after, deeds_append]
      refine ⟨_, rfl, ?_⟩
      split
      · cases (release port profile body.engine body.port).failure with
        | none => exact hrelease
        | some cause => cases hleft : cause.isDisconnect <;> simpa [hleft] using hrelease
      · exact .done _
  | some cause =>
      simp only [finishBadly, Run.after, deeds_append]
      refine ⟨_, rfl, ?_⟩
      split
      · cases (release port profile body.engine body.port).failure with
        | none => exact hrelease
        | some other => simpa using hrelease
      · exact .done _

/-- **All that is seen of a pass is what the port answered.** -/
theorem run_answered (port : Port σ) (target : Target) (pass : String) (plan : Plan)
    (engine : Engine) (state : σ) :
    Answered port state (deeds (run port target pass plan engine state).events)
      (run port target pass plan engine state).port := by
  rw [run]
  split
  · exact .done state
  · obtain ⟨more, hmore, hanswered⟩ := finish_answered port target.profile
      (perform port pass (script target.profile target.identity plan) engine.restart state)
    rw [hmore]
    exact (perform_answered ..).append hanswered

/-! ### Calm ports -/

theorem Answered.calm {port : Port σ} {state final : σ} {events : List Event}
    (h : Answered port state events final) (hcalm : port.Calm) :
    (∀ attempt ∈ attempts events, attempt.failure = none) ∧
      ∀ answer ∈ answers events, answer = false := by
  induction h with
  | done => exact ⟨nofun, nofun⟩
  | progress pass written total _ ih => exact ih
  | asked ask hask _ ih =>
      refine ⟨ih.1, fun answer hmem => ?_⟩
      rcases List.mem_cons.mp hmem with rfl | hrest
      · exact hcalm.asks ask hask _
      · exact ih.2 answer hrest
  | wrote write _ ih =>
      refine ⟨fun attempt hmem => ?_, ih.2⟩
      rcases List.mem_cons.mp hmem with rfl | hrest
      · exact hcalm.writes write _
      · exact ih.1 attempt hrest

/-- An allowed pass that is feasible goes through to its end if no write of it fails and the
user never gives up. -/
theorem run_unhindered (port : Port σ) (target : Target) (pass : String) {plan : Plan}
    (engine : Engine) (state : σ) (h : plan.obstacle? target.profile = none)
    (hfeasible : Feasible (script target.profile target.identity plan))
    (hattempts : ∀ attempt ∈ attempts (run port target pass plan engine state).events,
      attempt.failure = none)
    (hanswers : ∀ answer ∈ answers (run port target pass plan engine state).events,
      answer = false) :
    deeds (run port target pass plan engine state).events
        = allDeeds pass port.cancelled.isSome (script target.profile target.identity plan)
          ++ [.wrote (releaseWrite target.profile) none] ∧
      (run port target pass plan engine state).failure = none ∧
      (run port target pass plan engine state).engine.phase = .done ∧
      (run port target pass plan engine state).engine.releaseFailure = none := by
  rw [← attempts_deeds] at hattempts
  rw [← answers_deeds] at hanswers
  cases run_ended port target pass engine state h with
  | finished release feasible seen failure phase releaseFailure =>
      have hrelease : release = none := by
        have := hattempts ⟨releaseWrite target.profile, release⟩ (by simp [seen])
        exact this
      subst hrelease
      refine ⟨seen, failure, ?_, releaseFailure⟩
      rw [phase, failure]
      rfl
  | stopped release before after action cause last split stops seen failure phase _ =>
      exfalso
      cases stops with
      | check => exact absurd (hanswers true (by simp [seen])) nofun
      | send write cause => exact absurd (hattempts ⟨write, some cause⟩ (by simp [seen])) nofun
      | refuse cause => exact hfeasible cause (by simp [split])

/-- **On a calm port an allowed pass that is feasible goes through to its end.** -/
theorem run_calm {port : Port σ} (hcalm : port.Calm) (target : Target) (pass : String)
    {plan : Plan} (engine : Engine) (state : σ) (h : plan.obstacle? target.profile = none)
    (hfeasible : Feasible (script target.profile target.identity plan)) :
    deeds (run port target pass plan engine state).events
        = allDeeds pass port.cancelled.isSome (script target.profile target.identity plan)
          ++ [.wrote (releaseWrite target.profile) none] ∧
      (run port target pass plan engine state).failure = none ∧
      (run port target pass plan engine state).engine.phase = .done ∧
      (run port target pass plan engine state).engine.releaseFailure = none := by
  obtain ⟨hattempts, hanswers⟩ :=
    (run_answered port target pass plan engine state).calm hcalm
  rw [attempts_deeds] at hattempts
  rw [answers_deeds] at hanswers
  exact run_unhindered port target pass engine state h hfeasible hattempts hanswers

/-- A pass that succeeds somewhere is allowed and feasible everywhere. -/
theorem feasible_of_success {port : Port σ} {target : Target} {pass : String} {plan : Plan}
    {engine : Engine} {state : σ}
    (h : (run port target pass plan engine state).failure = none) :
    plan.obstacle? target.profile = none ∧
      Feasible (script target.profile target.identity plan) := by
  cases hobstacle : plan.obstacle? target.profile with
  | some cause => simp [run_refused port target pass engine state hobstacle] at h
  | none =>
      cases run_ended port target pass engine state hobstacle with
      | finished _ feasible => exact ⟨rfl, feasible⟩
      | stopped _ _ _ _ _ _ _ _ _ failure => simp [failure] at h

/-! ### Scheduled ports -/

/-- By a schedule, the attempt and the question with a number are answered as laid down. -/
theorem Answered.scheduled {schedule : Schedule} {name : String} {tally final : Tally}
    {events : List Event} (h : Answered (schedule.port name) tally events final) :
    (∀ i attempt, (attempts events)[i]? = some attempt →
        attempt.failure = schedule.failure (tally.writes + i)) ∧
      ∀ k answer, (answers events)[k]? = some answer →
        answer = schedule.answer (tally.questions + k) := by
  induction h with
  | done => exact ⟨nofun, nofun⟩
  | progress pass written total _ ih => exact ih
  | @asked tally _ _ ask hask _ ih =>
      obtain ⟨answer, hcancel, rfl⟩ := Option.map_eq_some_iff.mp hask
      refine ⟨ih.1, fun k given hk => ?_⟩
      cases k with
      | zero =>
          have hgiven : given = answer tally.questions := (Option.some.inj hk).symm
          simp [hgiven, Schedule.answer, hcancel]
      | succ k =>
          rw [Nat.add_succ, ← Nat.succ_add]
          exact ih.2 k given hk
  | @wrote tally _ _ write _ ih =>
      refine ⟨fun i attempt hi => ?_, ih.2⟩
      cases i with
      | zero => exact congrArg Attempt.failure (Option.some.inj hi).symm
      | succ i =>
          rw [Nat.add_succ, ← Nat.succ_add]
          exact ih.1 i attempt hi

/-! ### A pass to try things on -/

/-- A part as it comes, without firmware of its own. -/
def blankPart : Target :=
  ⟨Chip.Family.fx2.profile, ⟨⟨0x04B4, 0x8613⟩, 0xA001⟩⟩

/-- A plan whose one segment starts on the chip of that part and ends outside. -/
def straddling : Plan :=
  .throughLoader [⟨0x1FFE, [1, 2, 3, 4]⟩]

example : (straddling.chunks blankPart.profile).map (·.onChip) = [true, false] := by
  decide +kernel

end Pass
end UsbBoot
