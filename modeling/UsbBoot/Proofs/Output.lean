/-
What adds nothing to the output.

Much of a run only logs.  A stage that does nothing else and yields a value can be taken out
in front of another one as far as the output and the result go; gathering the settings is
such a stage, whatever the settings files hold, so that a run comes down to what it is asked
to do.
-/
import UsbBoot.Program

namespace UsbBoot

variable {ε α β : Type}

/-- A stage that yields a value and, on the way to it, only logs. -/
def Stage.OnlyLogs (stage : Stage ε α) (value : α) : Prop :=
  ∃ lines : List Log.Line, stage = ⟨lines.map .log, .ok value⟩

theorem Stage.onlyLogs_note (lines : List Log.Line) :
    (Stage.note lines : Stage ε Unit).OnlyLogs () :=
  ⟨lines, rfl⟩

theorem Stage.onlyLogs_pure (value : α) : (pure value : Stage ε α).OnlyLogs value :=
  ⟨[], rfl⟩

theorem Stage.OnlyLogs.bind {stage : Stage ε α} {value : α} {next : α → Stage ε β} {last : β}
    (h : stage.OnlyLogs value) (hnext : (next value).OnlyLogs last) :
    (stage >>= next).OnlyLogs last := by
  obtain ⟨front, rfl⟩ := h
  obtain ⟨back, hback⟩ := hnext
  refine ⟨front ++ back, ?_⟩
  show (⟨_ ++ (next value).effects, (next value).result⟩ : Stage ε β) = _
  rw [hback, List.map_append]

theorem Stage.onlyLogs_noted (lines : List Log.Line) (value : α) :
    (Stage.note lines >>= fun _ => pure value : Stage ε α).OnlyLogs value :=
  (Stage.onlyLogs_note lines).bind (Stage.onlyLogs_pure value)

theorem Stage.OnlyLogs.eq_ok {stage : Stage ε α} {value : α} (h : stage.OnlyLogs value) :
    stage.result = .ok value := by
  obtain ⟨lines, rfl⟩ := h
  rfl

theorem Stage.OnlyLogs.result {stage : Stage ε α} {value : α} (h : stage.OnlyLogs value)
    (next : α → Stage ε β) : (stage >>= next).result = (next value).result := by
  obtain ⟨lines, rfl⟩ := h
  rfl

namespace Program

theorem output_logged (lines : List Log.Line) (effects : List Effect) :
    String.join ((lines.map Effect.log ++ effects).map outputOf)
      = String.join (effects.map outputOf) := by
  induction lines with
  | nil => rfl
  | cons line rest ih => simpa [outputOf] using ih

theorem effects_logged (lines : List Log.Line) (value : α) (next : α → Stage Report Unit) :
    effects ((⟨lines.map .log, .ok value⟩ : Stage Report α) >>= next)
      = lines.map Effect.log ++ effects (next value) := by
  show effects ⟨_ ++ (next value).effects, (next value).result⟩ = _
  rw [effects, effects]
  cases (next value).result with
  | ok => rfl
  | error report => exact List.append_assoc ..

end Program

theorem Stage.OnlyLogs.output {stage : Stage Report α} {value : α} (h : stage.OnlyLogs value)
    (next : α → Stage Report Unit) :
    Program.output (stage >>= next) = Program.output (next value) := by
  obtain ⟨lines, rfl⟩ := h
  rw [Program.output, Program.effects_logged, Program.output_logged, Program.output]

/-! ### Settings -/

namespace Settings

/-- The settings in a document, if it is there and holds settings. -/
def document? (files : String → Lookup) (path : String) : Option Settings :=
  (ofLookup path (files path)).toOption

theorem named_onlyLogs (files : String → Lookup) (path : String) :
    (named files path : Stage ε Settings).OnlyLogs ((document? files path).getD empty) := by
  rw [named, document?]
  cases ofLookup path (files path) with
  | ok settings => exact Stage.onlyLogs_noted _ settings
  | error => exact Stage.onlyLogs_noted _ empty

theorem layer_onlyLogs (files : String → Lookup) (title path : String) :
    (layer files title path : Stage ε Settings).OnlyLogs
      ((document? files path).getD empty) := by
  rw [layer, document?]
  cases ofLookup path (files path) with
  | ok settings => exact Stage.onlyLogs_noted _ settings
  | error => exact Stage.onlyLogs_noted _ empty

theorem layered_onlyLogs (files : String → Lookup) (user : Option String) :
    (layered files user : Stage ε Settings).OnlyLogs
      (((user.bind (document? files)).getD empty).merge
        ((document? files localPath).getD empty)) := by
  have hupper := @layer_onlyLogs ε files "local" localPath
  cases user with
  | none => exact (Stage.onlyLogs_pure empty).bind (hupper.bind (Stage.onlyLogs_pure _))
  | some path =>
      have hlower := @layer_onlyLogs ε files "global" path
      exact hlower.bind (hupper.bind (Stage.onlyLogs_pure _))

/-- Whatever the settings files hold, there are settings in the end. -/
theorem gather_onlyLogs (files : String → Lookup) (user caller : Option String) :
    ∃ settings, (gather files user caller : Stage ε Settings).OnlyLogs settings := by
  cases caller with
  | none => exact ⟨_, layered_onlyLogs files user⟩
  | some path => exact ⟨_, named_onlyLogs files path⟩

end Settings

/-! ### A run -/

/-- A run ends and prints as what it is asked to do. -/
theorem Program.run_performs (world : World) (options : Options) :
    ∃ settings, (run world options).result = (perform world settings options).result ∧
      output (run world options) = output (perform world settings options) := by
  obtain ⟨settings, hgathered⟩ := Settings.gather_onlyLogs world.files
    (userSettings? world.environment) options.settings
  refine ⟨settings, ?_, ?_⟩
  · rw [run, (Stage.onlyLogs_note _).result, hgathered.result]
  · rw [run, (Stage.onlyLogs_note _).output, hgathered.output]

end UsbBoot
