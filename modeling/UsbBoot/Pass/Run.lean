/-
Performing a pass.

A body is performed action by action until one goes wrong.  Once the CPU may have been
halted or a transfer has begun, the write that lets the CPU run is attempted in any
case, so that no device is left standing.  The failure that ended the body is the one
that counts; a failure of that last write is kept beside it.  When the body went well,
the last write may find that the device has left the bus: the firmware it started did
that, and the pass is a success.

All that can be seen of a pass is in its events, in order.
-/
import UsbBoot.Pass.Script

namespace UsbBoot.Pass

/-- What can be seen of a pass. -/
inductive Event
  /-- Something was said. -/
  | note (line : Log.Line)
  /-- The user was asked, and answered. -/
  | asked (answer : Bool)
  /-- A write was attempted, with this failure if it failed. -/
  | wrote (write : ControlWrite) (failure : Option Failure)
  /-- So many of all bytes were reported as written, by the pass of this name. -/
  | progress (pass : String) (written total : Nat)
  deriving DecidableEq, Repr

/-- What is remembered from pass to pass. -/
structure Engine where
  /-- How far the last pass came. -/
  phase : Phase
  /-- Whether the CPU may be halted. -/
  held : Bool
  /-- How letting the CPU run failed after a pass that had failed. -/
  releaseFailure : Option Failure
  deriving DecidableEq, Repr

def Engine.fresh : Engine :=
  ⟨.idle, false, none⟩

/-- The engine at the beginning of a pass: what earlier passes left behind is cleared. -/
def Engine.restart (engine : Engine) : Engine :=
  { engine with phase := .idle, held := false, releaseFailure := none }

/-- What came of performing something. -/
structure Run (σ : Type) where
  /-- The engine afterwards. -/
  engine : Engine
  /-- The state of the port afterwards. -/
  port : σ
  /-- What was seen, in order. -/
  events : List Event
  /-- What went wrong, if anything did. -/
  failure : Option Failure

/-- The same with something seen before. -/
def Run.after {σ : Type} (earlier : List Event) (run : Run σ) : Run σ :=
  { run with events := earlier ++ run.events }

/-- What is seen of a write. -/
def writeEvents (write : ControlWrite) (reply : Reply) : List Event :=
  reply.notes.map .note ++ [.wrote write reply.failure]

variable {σ : Type}

/-- Perform actions until one goes wrong. -/
def perform (port : Port σ) (pass : String) : List Action → Engine → σ → Run σ
  | [], engine, state => ⟨engine, state, [], none⟩
  | .note line :: rest, engine, state =>
    (perform port pass rest engine state).after [.note line]
  | .enter phase :: rest, engine, state =>
    perform port pass rest { engine with phase := phase } state
  | .hold :: rest, engine, state =>
    perform port pass rest { engine with held := true } state
  | .check :: rest, engine, state =>
    match port.cancelled with
    | none => perform port pass rest engine state
    | some ask =>
      match ask state with
      | (true, state) => ⟨engine, state, [.asked true], some .cancelled⟩
      | (false, state) => (perform port pass rest engine state).after [.asked false]
  | .send write :: rest, engine, state =>
    match port.write write state with
    | (reply, state) =>
      match reply.failure with
      | some failure => ⟨engine, state, writeEvents write reply, some failure⟩
      | none => (perform port pass rest engine state).after (writeEvents write reply)
  | .report written total :: rest, engine, state =>
    (perform port pass rest engine state).after [.progress pass written total]
  | .refuse failure :: _, engine, state => ⟨engine, state, [], some failure⟩

/-- Let the CPU run. -/
def release (port : Port σ) (profile : Chip.Profile) (engine : Engine) (state : σ) : Run σ :=
  match port.write (releaseWrite profile) state with
  | (reply, state) =>
    let events := .note (registerNote "Releasing CPU" profile profile.releaseValue) ::
      writeEvents (releaseWrite profile) reply
    match reply.failure with
    | some failure => ⟨engine, state, events, some failure⟩
    | none => ⟨{ engine with held := false }, state, events, none⟩

/-- Whether the CPU may be halted or the device be left amid a transfer. -/
def Engine.needsRelease (engine : Engine) : Bool :=
  engine.held || engine.phase == .transferring

/-- End a pass whose body went well. -/
def finishWell (port : Port σ) (profile : Chip.Profile) (engine : Engine) (state : σ) : Run σ :=
  if engine.needsRelease then
    let run := release port profile engine state
    match run.failure with
    | none => { run with engine := { run.engine with phase := .done } }
    | some failure =>
      -- The part may leave the bus to start the firmware before it has answered.
      if failure.isDisconnect then
        ⟨{ run.engine with phase := .done }, run.port,
          run.events ++ [.note (.debug .engine
            ("Device re-enumerated on reset release: " ++ failure.message))], none⟩
      else { run with engine := { run.engine with phase := .failed } }
  else ⟨{ engine with phase := .done }, state, [], none⟩

/-- End a pass whose body went wrong. -/
def finishBadly (port : Port σ) (profile : Chip.Profile) (cause : Failure) (engine : Engine)
    (state : σ) : Run σ :=
  if engine.needsRelease then
    let run := release port profile engine state
    match run.failure with
    | none => ⟨{ run.engine with phase := .failed }, run.port, run.events, some cause⟩
    | some failure =>
      -- What went wrong first is what the pass fails with.
      ⟨{ run.engine with phase := .failed, releaseFailure := some failure }, run.port,
        run.events ++ [.note (.warn .engine
          ("Reset release after failed pass also failed: " ++ failure.message))], some cause⟩
  else ⟨{ engine with phase := .failed }, state, [], some cause⟩

/-- End a pass, according to what came of its body. -/
def finish (port : Port σ) (profile : Chip.Profile) (body : Run σ) : Run σ :=
  (match body.failure with
   | none => finishWell port profile body.engine body.port
   | some cause => finishBadly port profile cause body.engine body.port).after body.events

/-- What is loaded: how the part is driven, and how it names itself. -/
structure Target where
  profile : Chip.Profile
  identity : Device.Identity
  deriving DecidableEq, Repr

/-- Run one pass.  An impossible plan leaves the port alone. -/
def run (port : Port σ) (target : Target) (pass : String) (plan : Plan) (engine : Engine)
    (state : σ) : Run σ :=
  match plan.obstacle? target.profile with
  | some failure => ⟨engine.restart, state, [], some failure⟩
  | none =>
    finish port target.profile
      (perform port pass (script target.profile target.identity plan) engine.restart state)

end UsbBoot.Pass
