/-
What performing a body comes to.

The answers of a device decide only how far a body gets.  So there are two things a body
can come to: either every action went well, or one of them stopped it, everything before
that one went well, and nothing after it was begun.  `perform_performed` says this once,
with all that is seen on the way and with the engine that is left, for every port.  What
is shown of passes later is read off it and does not open `perform` again.

Remarks are left out of account: a port may add remarks of its own to a write.
-/
import UsbBoot.Pass.Run

namespace UsbBoot.Pass

variable {σ : Type}

/-! ### What is seen -/

/-- A write that was attempted, with this failure if it failed. -/
structure Attempt where
  write : ControlWrite
  failure : Option Failure
  deriving DecidableEq, Repr

def Attempt.ok (write : ControlWrite) : Attempt :=
  ⟨write, none⟩

/-- The attempt an event tells of. -/
def Event.attempt? : Event → Option Attempt
  | .wrote write failure => some ⟨write, failure⟩
  | _ => none

def Event.answer? : Event → Option Bool
  | .asked answer => some answer
  | _ => none

/-- Whether an event is more than a remark. -/
def Event.isDeed : Event → Bool
  | .note _ => false
  | _ => true

/-- The events that are more than remarks. -/
def deeds (events : List Event) : List Event :=
  events.filter Event.isDeed

/-- The attempts to write, in order. -/
def attempts (events : List Event) : List Attempt :=
  events.filterMap Event.attempt?

/-- The writes that were attempted, in order. -/
def writes (events : List Event) : List ControlWrite :=
  (attempts events).map Attempt.write

def answers (events : List Event) : List Bool :=
  events.filterMap Event.answer?

@[simp] theorem deeds_nil : deeds [] = [] := rfl

@[simp] theorem deeds_append (xs ys : List Event) : deeds (xs ++ ys) = deeds xs ++ deeds ys :=
  List.filter_append ..

@[simp] theorem deeds_notes (lines : List Log.Line) : deeds (lines.map .note) = [] := by
  simp [deeds, Event.isDeed]

@[simp] theorem deeds_note_cons (line : Log.Line) (events : List Event) :
    deeds (.note line :: events) = deeds events := rfl

@[simp] theorem attempts_append (xs ys : List Event) :
    attempts (xs ++ ys) = attempts xs ++ attempts ys :=
  List.filterMap_append ..

@[simp] theorem answers_append (xs ys : List Event) :
    answers (xs ++ ys) = answers xs ++ answers ys :=
  List.filterMap_append ..

theorem deeds_cons {event : Event} (rest : List Event) (h : event.isDeed = true) :
    deeds (event :: rest) = event :: deeds rest :=
  List.filter_cons_of_pos h

@[simp] theorem attempts_nil : attempts [] = [] := rfl

@[simp] theorem answers_nil : answers [] = [] := rfl

@[simp] theorem attempts_wrote (write : ControlWrite) (failure : Option Failure)
    (rest : List Event) :
    attempts (.wrote write failure :: rest) = ⟨write, failure⟩ :: attempts rest := rfl

@[simp] theorem answers_wrote (write : ControlWrite) (failure : Option Failure)
    (rest : List Event) : answers (.wrote write failure :: rest) = answers rest := rfl

@[simp] theorem attempts_asked (answer : Bool) (rest : List Event) :
    attempts (.asked answer :: rest) = attempts rest := rfl

@[simp] theorem answers_asked (answer : Bool) (rest : List Event) :
    answers (.asked answer :: rest) = answer :: answers rest := rfl

@[simp] theorem attempts_deeds (events : List Event) :
    attempts (deeds events) = attempts events := by
  rw [attempts, deeds, List.filterMap_filter]
  congr 1
  funext event
  cases event <;> rfl

@[simp] theorem answers_deeds (events : List Event) :
    answers (deeds events) = answers events := by
  rw [answers, deeds, List.filterMap_filter]
  congr 1
  funext event
  cases event <;> rfl

@[simp] theorem deeds_writeEvents (write : ControlWrite) (reply : Reply) :
    deeds (writeEvents write reply) = [.wrote write reply.failure] := by
  rw [writeEvents, deeds_append, deeds_notes]
  rfl

/-! ### What one action comes to -/

/-- What is seen of an action that goes well, remarks apart.  The user is asked only where
there is a way to ask. -/
def Action.deeds (pass : String) (asks : Bool) : Action → List Event
  | .check => if asks then [.asked false] else []
  | .send write => [.wrote write none]
  | .report written total => [.progress pass written total]
  | .note _ | .enter _ | .hold | .refuse _ => []

/-- The engine after an action. -/
def Action.engine : Action → Engine → Engine
  | .enter phase, engine => { engine with phase := phase }
  | .hold, engine => { engine with held := true }
  | _, engine => engine

/-- An action ends a body with a failure, and this is seen of it. -/
inductive Stops : Action → Failure → List Event → Prop
  /-- The user gives up. -/
  | check : Stops .check .cancelled [.asked true]
  /-- A write fails. -/
  | send (write : ControlWrite) (cause : Failure) :
    Stops (.send write) cause [.wrote write (some cause)]
  /-- What comes next cannot be put into a transfer. -/
  | refuse (cause : Failure) : Stops (.refuse cause) cause []

/-- What is seen of actions that all go well. -/
def allDeeds (pass : String) (asks : Bool) (actions : List Action) : List Event :=
  actions.flatMap (Action.deeds pass asks)

def engineAfter (engine : Engine) (actions : List Action) : Engine :=
  actions.foldl (fun engine action => action.engine engine) engine

/-- Whether the actions contain nothing that cannot be put into a transfer. -/
def Feasible (actions : List Action) : Prop :=
  ∀ cause, Action.refuse cause ∉ actions

def sends (actions : List Action) : List ControlWrite :=
  actions.filterMap fun
    | .send write => some write
    | _ => none

@[simp] theorem sends_append (xs ys : List Action) : sends (xs ++ ys) = sends xs ++ sends ys :=
  List.filterMap_append ..

theorem mem_sends {actions : List Action} {write : ControlWrite} :
    write ∈ sends actions ↔ .send write ∈ actions := by
  rw [sends, List.mem_filterMap]
  constructor
  · rintro ⟨action, hmem, hwrite⟩
    cases action with
    | send other => exact Option.some.inj hwrite ▸ hmem
    | note | enter | hold | check | report | refuse => cases hwrite
  · intro hmem
    exact ⟨.send write, hmem, rfl⟩

@[simp] theorem allDeeds_append (pass : String) (asks : Bool) (xs ys : List Action) :
    allDeeds pass asks (xs ++ ys) = allDeeds pass asks xs ++ allDeeds pass asks ys :=
  List.flatMap_append

theorem feasible_append {xs ys : List Action} :
    Feasible (xs ++ ys) ↔ Feasible xs ∧ Feasible ys := by
  simp [Feasible, forall_and]

theorem attempts_allDeeds (pass : String) (asks : Bool) (actions : List Action) :
    attempts (allDeeds pass asks actions) = (sends actions).map Attempt.ok := by
  induction actions with
  | nil => rfl
  | cons action rest ih =>
      rw [show action :: rest = [action] ++ rest from rfl, allDeeds_append, attempts_append, ih,
        sends_append, List.map_append]
      congr 1
      cases action <;> cases asks <;> rfl

theorem map_write_ok (list : List ControlWrite) :
    (list.map Attempt.ok).map Attempt.write = list := by
  simp [Attempt.ok, Function.comp_def]

theorem writes_of_seen {pass : String} {asks : Bool} {actions : List Action}
    {events rest : List Event} (h : deeds events = allDeeds pass asks actions ++ rest) :
    writes events = sends actions ++ writes rest := by
  rw [writes, ← attempts_deeds, h, attempts_append, attempts_allDeeds, List.map_append,
    map_write_ok, writes]

def checks (actions : List Action) : Nat :=
  actions.count .check

theorem checks_append (xs ys : List Action) : checks (xs ++ ys) = checks xs + checks ys :=
  List.count_append ..

theorem answers_allDeeds (pass : String) (asks : Bool) (actions : List Action) :
    answers (allDeeds pass asks actions)
      = if asks then List.replicate (checks actions) false else [] := by
  induction actions with
  | nil => cases asks <;> rfl
  | cons action rest ih =>
      rw [show action :: rest = [action] ++ rest from rfl, allDeeds_append, answers_append, ih,
        checks_append]
      cases asks with
      | false => cases action <;> rfl
      | true =>
          simp only [if_true, ← List.replicate_append_replicate]
          congr 1
          cases action <;> rfl

/-! ### What a body comes to -/

/-- What performing actions comes to. -/
inductive Performed (pass : String) (asks : Bool) (engine : Engine) (actions : List Action)
    (run : Run σ) : Prop
  /-- All of them went well. -/
  | finished (feasible : Feasible actions) (failure : run.failure = none)
    (seen : deeds run.events = allDeeds pass asks actions)
    (left : run.engine = engineAfter engine actions)
  /-- One of them stopped it. -/
  | stopped (before after : List Action) (action : Action) (cause : Failure) (last : List Event)
    (split : actions = before ++ action :: after) (stops : Stops action cause last)
    (failure : run.failure = some cause)
    (seen : deeds run.events = allDeeds pass asks before ++ last)
    (left : run.engine = engineAfter engine before)

/-- An action that goes well, in front of others. -/
theorem Performed.cons {pass : String} {asks : Bool} {engine : Engine} (action : Action)
    {rest : List Action} {run : Run σ} {events : List Event}
    (hrest : Performed pass asks (action.engine engine) rest run)
    (hrefuse : ∀ cause, action ≠ .refuse cause)
    (hevents : deeds events = action.deeds pass asks) :
    Performed pass asks engine (action :: rest) (run.after events) := by
  cases hrest with
  | finished feasible failure seen left =>
      refine .finished ?_ failure ?_ left
      · intro cause hmem
        rcases List.mem_cons.mp hmem with heq | hin
        · exact hrefuse cause heq.symm
        · exact feasible cause hin
      · simp [Run.after, hevents, seen, allDeeds]
  | stopped before after stopper cause last split stops failure seen left =>
      refine .stopped (action :: before) after stopper cause last ?_ stops failure ?_ left
      · rw [split, List.cons_append]
      · simp [Run.after, hevents, seen, allDeeds]

/-- An action that goes unseen, in front of others. -/
theorem Performed.unseen {pass : String} {asks : Bool} {engine : Engine} (action : Action)
    {rest : List Action} {run : Run σ}
    (hrest : Performed pass asks (action.engine engine) rest run)
    (hrefuse : ∀ cause, action ≠ .refuse cause) (hunseen : action.deeds pass asks = []) :
    Performed pass asks engine (action :: rest) run := by
  have hafter : run.after [] = run := rfl
  rw [← hafter]
  exact .cons action hrest hrefuse hunseen.symm

theorem Performed.stop {pass : String} {asks : Bool} {engine : Engine} {action : Action}
    {rest : List Action} {run : Run σ} {cause : Failure} {last : List Event}
    (hstops : Stops action cause last) (hfailure : run.failure = some cause)
    (hseen : deeds run.events = last) (hleft : run.engine = engine) :
    Performed pass asks engine (action :: rest) run :=
  .stopped [] rest action cause last rfl hstops hfailure hseen hleft

/-- **A body goes well up to the first action that stops it.** -/
theorem perform_performed (port : Port σ) (pass : String) (actions : List Action)
    (engine : Engine) (state : σ) :
    Performed pass port.cancelled.isSome engine actions
      (perform port pass actions engine state) := by
  induction actions generalizing engine state with
  | nil => exact .finished (by simp [Feasible]) rfl rfl rfl
  | cons action rest ih =>
      cases action with
      | note line => exact .cons (.note line) (ih engine state) nofun rfl
      | enter phase => exact .unseen (.enter phase) (ih _ state) nofun rfl
      | hold => exact .unseen .hold (ih _ state) nofun rfl
      | report written total => exact .cons (.report written total) (ih engine state) nofun rfl
      | refuse cause => exact .stop (.refuse cause) rfl rfl rfl
      | check =>
          rw [perform]
          cases hask : port.cancelled with
          | none =>
              rw [hask] at ih
              exact .unseen .check (ih engine state) nofun rfl
          | some ask =>
              rw [hask] at ih
              rcases hanswer : ask state with ⟨_ | _, next⟩
              · simp only [hanswer]
                exact .cons .check (ih engine next) nofun rfl
              · simp only [hanswer]
                exact .stop .check rfl rfl rfl
      | send write =>
          rw [perform]
          obtain ⟨reply, next⟩ := port.write write state
          cases hreply : reply.failure with
          | none =>
              simp only [hreply]
              refine .cons (.send write) (ih engine next) nofun ?_
              rw [deeds_writeEvents, hreply]
              rfl
          | some cause =>
              simp only [hreply]
              refine .stop (.send write cause) rfl ?_ rfl
              rw [deeds_writeEvents, hreply]

end UsbBoot.Pass
