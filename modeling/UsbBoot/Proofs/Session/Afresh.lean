/-
A pass knows nothing of the passes before it.

Earlier passes leave marks in an engine: that the CPU may be halted, how far they came, how
letting the CPU run failed.  A pass begins by clearing them.  So what is seen of it, how it ends
and what it leaves in the engine depends on its plan, on the target and on the answers it gets,
and on nothing else.

This compares two runs.  They need not work on the same port, since the port of an engine that
was used has a past of its own: all that is asked of the two is that they answer alike from here
on.  Performing both scripts in step then gives the same events one by one, up to the same end.
-/
import UsbBoot.Proofs.Session.Settled

namespace UsbBoot

variable {σ τ : Type}

/-! ### Ports that answer alike -/

/-- Two answers are the same, and leave the ports in related states. -/
def Agree {α : Type} (related : σ → τ → Prop) (one : α × σ) (other : α × τ) : Prop :=
  one.1 = other.1 ∧ related one.2 other.2

/-- In related states two ports give the same answers to all that can be asked of them, and go
on to related states. -/
structure Port.Alike (one : Port σ) (other : Port τ) (related : σ → τ → Prop) : Prop where
  writes : ∀ write state again, related state again →
    Agree related (one.write write state) (other.write write again)
  /-- On both the user is asked, or on neither. -/
  asks : Option.Rel
    (fun ask question => ∀ state again, related state again →
      Agree related (ask state) (question again))
    one.cancelled other.cancelled

/-- By two schedules that lay down the same answers from some point on, ports answer alike. -/
theorem Schedule.alike_behind {schedule later : Schedule} {begun : Tally}
    (hfailure : ∀ n, schedule.failure (begun.writes + n) = later.failure n)
    (hcancel : Option.Rel (fun answer other => ∀ n, answer (begun.questions + n) = other n)
      schedule.cancel later.cancel) (name title : String) :
    (schedule.port name).Alike (later.port title) fun state again =>
      state.writes = begun.writes + again.writes ∧
        state.questions = begun.questions + again.questions where
  writes write state again h := by
    obtain ⟨hwrites, hquestions⟩ := h
    refine ⟨?_, ?_, hquestions⟩
    · simp only [port, hwrites, hfailure]
    · simp only [port, hwrites, Nat.add_assoc]
  asks := by
    simp only [port]
    generalize schedule.cancel = answer at hcancel ⊢
    generalize later.cancel = other at hcancel ⊢
    cases hcancel with
    | none => exact .none
    | some hanswer =>
        refine .some fun state again h => ?_
        obtain ⟨hwrites, hquestions⟩ := h
        refine ⟨?_, hwrites, ?_⟩
        · simp only [hquestions, hanswer]
        · simp only [hquestions, Nat.add_assoc]

namespace Pass

/-- Two runs that cannot be told apart. -/
structure Run.Same (one : Run σ) (other : Run τ) (related : σ → τ → Prop) : Prop where
  events : one.events = other.events
  failure : one.failure = other.failure
  engine : one.engine = other.engine
  port : related one.port other.port

theorem Run.Same.after {one : Run σ} {other : Run τ} {related : σ → τ → Prop}
    (h : one.Same other related) (earlier : List Event) :
    (one.after earlier).Same (other.after earlier) related :=
  ⟨congrArg (earlier ++ ·) h.events, h.failure, h.engine, h.port⟩

/-! ### Two runs in step -/

section

variable {one : Port σ} {other : Port τ} {related : σ → τ → Prop}
  (halike : one.Alike other related) {state : σ} {again : τ} (h : related state again)
include halike h

theorem same_perform (pass : String) (actions : List Action) (engine : Engine) :
    (perform one pass actions engine state).Same (perform other pass actions engine again)
      related := by
  induction actions generalizing engine state again with
  | nil => exact ⟨rfl, rfl, rfl, h⟩
  | cons action rest ih =>
      cases action with
      | note line => exact (ih h engine).after _
      | enter phase => exact ih h _
      | hold => exact ih h _
      | report written total => exact (ih h engine).after _
      | refuse cause => exact ⟨rfl, rfl, rfl, h⟩
      | check =>
          have hasks := halike.asks
          unfold perform
          generalize one.cancelled = ask at hasks ⊢
          generalize other.cancelled = question at hasks ⊢
          cases hasks with
          | none => exact ih h engine
          | @some ask question hagree =>
              obtain ⟨hanswer, hnext⟩ := hagree state again h
              rcases hone : ask state with ⟨answer, next⟩
              rcases hother : question again with ⟨same, nextAgain⟩
              simp only [hone, hother] at hanswer hnext ⊢
              subst hanswer
              cases answer with
              | true => exact ⟨rfl, rfl, rfl, hnext⟩
              | false => exact (ih hnext engine).after _
      | send write =>
          obtain ⟨hreply, hnext⟩ := halike.writes write state again h
          unfold perform
          rcases hone : one.write write state with ⟨reply, next⟩
          rcases hother : other.write write again with ⟨same, nextAgain⟩
          simp only [hone, hother] at hreply hnext ⊢
          subst hreply
          cases reply.failure with
          | some cause => exact ⟨rfl, rfl, rfl, hnext⟩
          | none => exact (ih hnext engine).after _

theorem same_release (profile : Chip.Profile) (engine : Engine) :
    (release one profile engine state).Same (release other profile engine again) related := by
  obtain ⟨hreply, hnext⟩ := halike.writes (releaseWrite profile) state again h
  unfold release
  rcases hone : one.write (releaseWrite profile) state with ⟨reply, next⟩
  rcases hother : other.write (releaseWrite profile) again with ⟨same, nextAgain⟩
  simp only [hone, hother] at hreply hnext ⊢
  subst hreply
  cases reply.failure with
  | some cause => exact ⟨rfl, rfl, rfl, hnext⟩
  | none => exact ⟨rfl, rfl, rfl, hnext⟩

theorem same_finishWell (profile : Chip.Profile) (engine : Engine) :
    (finishWell one profile engine state).Same (finishWell other profile engine again)
      related := by
  obtain ⟨hevents, hfailure, hengine, hport⟩ := same_release halike h profile engine
  unfold finishWell
  cases engine.needsRelease with
  | false => exact ⟨rfl, rfl, rfl, h⟩
  | true =>
      simp only [if_true, hevents, hfailure, hengine]
      cases (release other profile engine again).failure with
      | none => exact ⟨rfl, rfl, rfl, hport⟩
      | some cause =>
          simp only
          by_cases hgone : cause.isDisconnect = true
          · rw [if_pos hgone, if_pos hgone]
            exact ⟨rfl, rfl, rfl, hport⟩
          · rw [if_neg hgone, if_neg hgone]
            exact ⟨rfl, rfl, rfl, hport⟩

theorem same_finishBadly (profile : Chip.Profile) (cause : Failure) (engine : Engine) :
    (finishBadly one profile cause engine state).Same
      (finishBadly other profile cause engine again) related := by
  obtain ⟨hevents, hfailure, hengine, hport⟩ := same_release halike h profile engine
  unfold finishBadly
  cases engine.needsRelease with
  | false => exact ⟨rfl, rfl, rfl, h⟩
  | true =>
      simp only [if_true, hevents, hfailure, hengine]
      cases (release other profile engine again).failure with
      | none => exact ⟨rfl, rfl, rfl, hport⟩
      | some left => exact ⟨rfl, rfl, rfl, hport⟩

/-- Two passes for one plan on ports that answer alike cannot be told apart, whatever the
engines were before. -/
theorem same_run (target : Target) (pass : String) (plan : Plan) (used new : Engine) :
    (run one target pass plan used state).Same (run other target pass plan new again)
      related := by
  unfold run
  cases plan.obstacle? target.profile with
  | some cause => exact ⟨rfl, rfl, rfl, h⟩
  | none =>
      -- Both engines are cleared to the same one.
      have hrestart : used.restart = new.restart := rfl
      obtain ⟨hevents, hfailure, hengine, hport⟩ := same_perform halike h pass
        (script target.profile target.identity plan) new.restart
      simp only [hrestart, finish, hevents, hfailure, hengine]
      cases (perform other pass (script target.profile target.identity plan) new.restart
          again).failure with
      | none => exact (same_finishWell halike hport target.profile _).after _
      | some cause => exact (same_finishBadly halike hport target.profile cause _).after _

end

end Pass

namespace Session

open Pass (Engine Plan Target)

/--
**A pass on a used engine is a pass on a new one.**

Whatever has been asked of an engine before and however it went, a pass on it and the same pass
on a new engine show the same events, that is, the same writes and how they went, the same
questions and the same reports; they end alike and leave the same behind in the engine, if the
two ports answer alike from then on.
-/
theorem after_forgets {one : Port σ} {other : Port τ} {related : σ → τ → Prop}
    (halike : one.Alike other related) (target : Target) (calls : List Call) (state : σ)
    (again : τ) (pass : String) (plan : Plan)
    (h : related (after one target calls (.fresh state)).port again) :
    let reached := after one target calls (.fresh state)
    let used := Pass.run one target pass plan reached.engine reached.port
    let new := Pass.run other target pass plan .fresh again
    used.events = new.events ∧ used.failure = new.failure ∧ used.engine = new.engine ∧
      related used.port new.port := by
  intro reached used new
  have hsame := Pass.same_run halike h target pass plan reached.engine Engine.fresh
  exact ⟨hsame.events, hsame.failure, hsame.engine, hsame.port⟩

/-- The first pass could neither halt the CPU nor let it run; the next one does not know. -/
theorem after_forgets_stubborn :
    let schedule : Schedule := ⟨fun n => if n < 2 then some (.usb .pipe) else none, none⟩
    let port := schedule.port "loader"
    let new := Schedule.port ⟨fun _ => none, none⟩ "loader"
    let plan : Plan := .onChip [⟨0x0000, [1, 2]⟩]
    let reached := after port Pass.blankPart [.pass "firmware" plan] (.fresh ⟨0, 0⟩)
    reached.engine = ⟨.failed, true, some (.usb .pipe)⟩ ∧ reached.port = ⟨2, 0⟩ ∧
      (Pass.run port Pass.blankPart "firmware" plan reached.engine reached.port).events
        = (Pass.run new Pass.blankPart "firmware" plan .fresh ⟨0, 0⟩).events ∧
      (Pass.run port Pass.blankPart "firmware" plan reached.engine reached.port).engine
        = (Pass.run new Pass.blankPart "firmware" plan .fresh ⟨0, 0⟩).engine := by
  intro schedule port new plan reached
  have hbehind : ∀ n, schedule.failure (2 + n) = none := by
    intro n
    exact if_neg (by omega)
  have halike := @Schedule.alike_behind schedule ⟨fun _ => none, none⟩ ⟨2, 0⟩ hbehind .none
    "loader" "loader"
  have hengine : reached.engine = ⟨.failed, true, some (.usb .pipe)⟩ := by decide +kernel
  have hport : reached.port = ⟨2, 0⟩ := by decide +kernel
  obtain ⟨hevents, -, hleft, -⟩ := after_forgets halike Pass.blankPart
    [.pass "firmware" plan] ⟨0, 0⟩ ⟨0, 0⟩ "firmware" plan
    ⟨congrArg Tally.writes hport, congrArg Tally.questions hport⟩
  exact ⟨hengine, hport, hevents, hleft⟩

end Session
end UsbBoot
