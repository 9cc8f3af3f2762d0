/-
What can be seen of the program.

The program is a sequence of stages.  A stage does things that can be seen, and then
yields a value or fails; the stages after a failure do not take place.  What a stage
yields never depends on what was seen before, so the two are kept apart: for the outcome
of a run only the results count, and for what was seen only the effects.
-/
import UsbBoot.Log
import UsbBoot.Usb.Call

namespace UsbBoot

/-- One thing that can be seen. -/
inductive Effect
  /-- A line of the log, shown if its level is. -/
  | log (line : Log.Line)
  /-- A line for the user. -/
  | tell (line : String)
  /-- Text for whoever reads the output. -/
  | print (text : String)
  | call (call : Usb.Call)
  deriving DecidableEq, Repr

/-- What comes of a stage. -/
structure Stage (ε α : Type) where
  /-- What was seen, in order. -/
  effects : List Effect
  /-- What the stage yields, or why it failed. -/
  result : Except ε α

namespace Stage

variable {ε ε' α β : Type}

def yield (value : α) : Stage ε α :=
  ⟨[], .ok value⟩

def fail (error : ε) : Stage ε α :=
  ⟨[], .error error⟩

/-- One stage and then another that builds on it. -/
def andThen (stage : Stage ε α) (next : α → Stage ε β) : Stage ε β :=
  match stage.result with
  | .error error => ⟨stage.effects, .error error⟩
  | .ok value => ⟨stage.effects ++ (next value).effects, (next value).result⟩

instance : Monad (Stage ε) where
  pure := yield
  bind := andThen

/-- A stage without effects. -/
def ofExcept (result : Except ε α) : Stage ε α :=
  ⟨[], result⟩

/-- A stage that is nothing but its effects. -/
def emit (effects : List Effect) : Stage ε Unit :=
  ⟨effects, .ok ()⟩

def note (lines : List Log.Line) : Stage ε Unit :=
  emit (lines.map .log)

def call (call : Usb.Call) : Stage ε Unit :=
  emit [.call call]

def tell (lines : List String) : Stage ε Unit :=
  emit (lines.map .tell)

/-- A stage whose failure is looked at differently. -/
def mapError (change : ε → ε') (stage : Stage ε α) : Stage ε' α :=
  ⟨stage.effects, stage.result.mapError change⟩

/-- A stage that does something at its end, however it ends. -/
def endingWith (stage : Stage ε α) (effects : List Effect) : Stage ε α :=
  ⟨stage.effects ++ effects, stage.result⟩

/-- A stage that does something at its end if it fails. -/
def onFailure (stage : Stage ε α) (effects : List Effect) : Stage ε α :=
  match stage.result with
  | .ok _ => stage
  | .error _ => stage.endingWith effects

/-! ### Results and effects of composed stages -/

@[simp] theorem result_pure (value : α) : (pure value : Stage ε α).result = .ok value := rfl

@[simp] theorem effects_pure (value : α) : (pure value : Stage ε α).effects = [] := rfl

@[simp] theorem result_bind (stage : Stage ε α) (next : α → Stage ε β) :
    (stage >>= next).result = stage.result >>= fun value => (next value).result := by
  show (stage.andThen next).result = _
  unfold andThen
  cases stage.result <;> rfl

theorem effects_bind_of_ok {stage : Stage ε α} {value : α} (next : α → Stage ε β)
    (h : stage.result = .ok value) :
    (stage >>= next).effects = stage.effects ++ (next value).effects := by
  show (stage.andThen next).effects = _
  simp [andThen, h]

theorem effects_bind_of_error {stage : Stage ε α} {error : ε} (next : α → Stage ε β)
    (h : stage.result = .error error) : (stage >>= next).effects = stage.effects := by
  show (stage.andThen next).effects = _
  simp [andThen, h]

end Stage
end UsbBoot
