/-
Which device a job asks for, and who says so.

The family may come from the job or from the settings, and the pair of numbers from the job,
from the environment or from the settings.  Of these sources the first one that is there is
selected.  No other one is ever read, so what stands there makes no difference, be it malformed
or not.  That the family is looked at first shows only where what is selected for the pair is
malformed as well.
-/
import Mathlib.Data.List.Basic
import UsbBoot.Job.Basic
import UsbBoot.Proofs.Stage

namespace UsbBoot.Job

open Device (Id Selector)

/-! ### Sources -/

/-- What the first source says that is there. -/
def firstGiven {α : Type} (sources : List (Option α)) : Option α :=
  sources.findSome? id

section

variable {α : Type}

theorem firstGiven_some (said : α) (rest : List (Option α)) :
    firstGiven (some said :: rest) = some said := rfl

theorem firstGiven_none (rest : List (Option α)) :
    firstGiven (none :: rest) = firstGiven rest := rfl

theorem firstGiven_singleton (said : Option α) : firstGiven [said] = said := by
  cases said <;> rfl

end

/-- The family that settings name, if there is one of that name. -/
def typeSays (name : String) : Except Report Chip.Family :=
  match Chip.Family.ofName? name with
  | none => .error (.of (.settings ("unknown microcontroller type in config: " ++ name)))
  | some family => .ok family

/-- The pair that a text in the environment names, if it does. -/
def variableSays (text : String) : Except Report Id :=
  (Id.read text).mapError fun fault => .of (.usage ("$DEVICE: " ++ fault.message))

/-- The pair that a text in the settings names, if it does. -/
def deviceSays (text : String) : Except Report Id :=
  (Id.read text).mapError fun fault => .of (.settings ("device.vid_pid: " ++ fault.message))

/-- The sources of the family, those that come first in front. -/
def familySources (job : Job) (settings : Settings) : List (Option (Except Report Chip.Family)) :=
  [job.family.map .ok, settings.type.map typeSays]

/-- The sources of the pair of numbers; `named` is what the environment says. -/
def deviceSources (job : Job) (settings : Settings) (named : Option String) :
    List (Option (Except Report Id)) :=
  [job.device.map .ok, named.map variableSays, settings.device.map deviceSays]

/-! ### What is selected -/

/-- What a selected source comes to.  That there is none is no failure. -/
def heard {α : Type} : Option (Except Report α) → Except Report (Option α)
  | none => .ok none
  | some (.ok value) => .ok (some value)
  | some (.error report) => .error report

section

variable {α : Type} {said : Option (Except Report α)}

theorem heard_eq_ok_iff {found : Option α} : heard said = .ok found ↔ said = found.map .ok := by
  rcases said with _ | _ | value <;> cases found <;> simp [heard]

end

theorem selectFamily_eq (job : Job) (settings : Settings) :
    job.selectFamily settings = heard (firstGiven (job.familySources settings)) := by
  unfold selectFamily familySources Settings.family
  cases job.family with
  | some family => rfl
  | none =>
      cases settings.type with
      | none => rfl
      | some name =>
          show _ = heard (some (typeSays name))
          unfold typeSays
          dsimp only
          cases Chip.Family.ofName? name <;> rfl

theorem message_badDevice (fault : Id.Fault) :
    (Fault.badDevice fault).message = "$DEVICE: " ++ fault.message := by
  have hmark : "$" ++ deviceVariable ++ ": " = "$DEVICE: " := by decide +kernel
  rw [Fault.message, hmark]

theorem selectDevice_eq (job : Job) (settings : Settings) (named : Option String) :
    job.selectDevice settings named = heard (firstGiven (job.deviceSources settings named)) := by
  unfold selectDevice deviceSources Settings.deviceId
  cases job.device with
  | some id => rfl
  | none =>
      cases named with
      | some text =>
          show _ = heard (some (variableSays text))
          unfold variableSays
          dsimp only
          cases Id.read text with
          | ok id => rfl
          | error fault =>
              show Except.error (Report.of (.usage (Fault.badDevice fault).message)) = _
              rw [message_badDevice]
              rfl
      | none =>
          cases settings.device with
          | none => rfl
          | some text =>
              show _ = heard (some (deviceSays text))
              unfold deviceSays
              dsimp only
              cases Id.read text <;> rfl

/-- The family is heard first, then the pair. -/
theorem selector_eq (job : Job) (settings : Settings) (named : Option String) :
    job.selector settings named
      = heard (firstGiven (job.familySources settings)) >>= fun family =>
        heard (firstGiven (job.deviceSources settings named)) >>= fun id => .ok ⟨family, id⟩ := by
  rw [← selectFamily_eq, ← selectDevice_eq]
  rfl

theorem selector_eq_ok_iff {job : Job} {settings : Settings} {named : Option String}
    {selector : Selector} :
    job.selector settings named = .ok selector ↔
      firstGiven (job.familySources settings) = selector.family.map .ok ∧
        firstGiven (job.deviceSources settings named) = selector.id.map .ok := by
  rw [selector_eq]
  simp only [bind_eq_ok_iff, heard_eq_ok_iff, Except.ok.injEq]
  constructor
  · rintro ⟨family, hfamily, id, hid, rfl⟩
    exact ⟨hfamily, hid⟩
  · rintro ⟨hfamily, hid⟩
    exact ⟨_, hfamily, _, hid, rfl⟩

theorem selector_eq_error_iff {job : Job} {settings : Settings} {named : Option String}
    {report : Report} :
    job.selector settings named = .error report ↔
      firstGiven (job.familySources settings) = some (.error report) ∨
        (∀ other, firstGiven (job.familySources settings) ≠ some (.error other)) ∧
          firstGiven (job.deviceSources settings named) = some (.error report) := by
  rw [selector_eq]
  generalize firstGiven (job.familySources settings) = family
  generalize firstGiven (job.deviceSources settings named) = device
  -- The pair is heard only if the family was not malformed.
  rcases family with _ | wrong | family
  · rcases device with _ | wrong | id <;> simp [heard, bind, Except.bind]
  · simp [heard, bind, Except.bind]
  · rcases device with _ | wrong | id <;> simp [heard, bind, Except.bind]

/-! ### What is wrong with a source -/

theorem report_of_familySources {job : Job} {settings : Settings} {wrong : Report}
    (h : firstGiven (job.familySources settings) = some (.error wrong)) :
    ∃ text, wrong = .of (.settings text) := by
  rw [familySources] at h
  cases hjob : job.family with
  | some family =>
      rw [hjob, Option.map_some, firstGiven_some] at h
      cases h
  | none =>
      rw [hjob, Option.map_none, firstGiven_none, firstGiven_singleton] at h
      obtain ⟨name, -, hsays⟩ := Option.map_eq_some_iff.mp h
      unfold typeSays at hsays
      split at hsays
      · cases hsays
        exact ⟨_, rfl⟩
      · cases hsays

theorem report_of_deviceSources {job : Job} {settings : Settings} {named : Option String}
    {wrong : Report} (h : firstGiven (job.deviceSources settings named) = some (.error wrong)) :
    (named ≠ none ∧ ∃ text, wrong = .of (.usage text)) ∨
      (named = none ∧ ∃ text, wrong = .of (.settings text)) := by
  rw [deviceSources] at h
  cases hjob : job.device with
  | some id =>
      rw [hjob, Option.map_some, firstGiven_some] at h
      cases h
  | none =>
      rw [hjob, Option.map_none, firstGiven_none] at h
      cases named with
      | some text =>
          rw [Option.map_some, firstGiven_some] at h
          obtain ⟨fault, -, rfl⟩ := mapError_eq_error_iff.mp (Option.some.inj h)
          exact Or.inl ⟨nofun, _, rfl⟩
      | none =>
          rw [Option.map_none, firstGiven_none, firstGiven_singleton] at h
          obtain ⟨text, -, hsays⟩ := Option.map_eq_some_iff.mp h
          obtain ⟨fault, -, rfl⟩ := mapError_eq_error_iff.mp hsays
          exact Or.inr ⟨rfl, _, rfl⟩

/-! ### What is not selected -/

theorem familySources_congr {job : Job} {settings other : Settings}
    (h : job.family = none → other.type = settings.type) :
    firstGiven (job.familySources other) = firstGiven (job.familySources settings) := by
  rw [familySources, familySources]
  cases hjob : job.family with
  | some family => rfl
  | none => rw [h hjob]

theorem deviceSources_congr {job : Job} {settings other : Settings} {named again : Option String}
    (hnamed : job.device = none → again = named)
    (hset : job.device = none → named = none → other.device = settings.device) :
    firstGiven (job.deviceSources other again) = firstGiven (job.deviceSources settings named) := by
  rw [deviceSources, deviceSources]
  cases hjob : job.device with
  | some id => rfl
  | none =>
      rw [hnamed hjob]
      cases named with
      | some text => rfl
      | none => rw [hset hjob rfl]

/--
**Only the source that is selected counts.**

A selector has the family of the first source of the family that is there, and the pair of the
first source of the pair.  There is none exactly if one of these two sources is malformed.  A
malformed family is a fault of the settings, and it is reported whatever is said of the pair.
A malformed pair is the caller's fault if it comes from the environment, and else one of the
settings.  What stands in sources behind the selected ones changes nothing at all, and with
family and pair in the job neither settings nor environment do.
-/
theorem selector_precedence (job : Job) (settings : Settings) (named : Option String) :
    let family := firstGiven (job.familySources settings)
    let device := firstGiven (job.deviceSources settings named)
    (∀ selector, job.selector settings named = .ok selector ↔
      family = selector.family.map .ok ∧ device = selector.id.map .ok) ∧
    ((∃ report, job.selector settings named = .error report) ↔
      (∃ wrong, family = some (.error wrong)) ∨ ∃ wrong, device = some (.error wrong)) ∧
    (∀ wrong, family = some (.error wrong) →
      job.selector settings named = .error wrong ∧ ∃ text, wrong = .of (.settings text)) ∧
    (∀ wrong, (∀ other, family ≠ some (.error other)) → device = some (.error wrong) →
      job.selector settings named = .error wrong ∧
        ((named ≠ none ∧ ∃ text, wrong = .of (.usage text)) ∨
          (named = none ∧ ∃ text, wrong = .of (.settings text)))) ∧
    (∀ (other : Settings) (again : Option String),
      (job.family = none → other.type = settings.type) → (job.device = none → again = named) →
      (job.device = none → named = none → other.device = settings.device) →
      job.selector other again = job.selector settings named) ∧
    (job.family ≠ none → job.device ≠ none → ∀ (other : Settings) (again : Option String),
      job.selector other again = job.selector settings named) := by
  intro family device
  have hsame : ∀ (other : Settings) (again : Option String),
      (job.family = none → other.type = settings.type) → (job.device = none → again = named) →
      (job.device = none → named = none → other.device = settings.device) →
      job.selector other again = job.selector settings named := by
    intro other again htype hnamed hset
    rw [selector_eq, selector_eq, familySources_congr htype, deviceSources_congr hnamed hset]
  refine ⟨fun selector => selector_eq_ok_iff, ?_, ?_, ?_, hsame, ?_⟩
  · simp only [selector_eq_error_iff]
    constructor
    · rintro ⟨report, hfamily | ⟨-, hdevice⟩⟩
      · exact Or.inl ⟨report, hfamily⟩
      · exact Or.inr ⟨report, hdevice⟩
    · rintro (⟨wrong, hfamily⟩ | ⟨wrong, hdevice⟩)
      · exact ⟨wrong, Or.inl hfamily⟩
      · by_cases hfamily : ∃ other, family = some (.error other)
        · obtain ⟨other, hother⟩ := hfamily
          exact ⟨other, Or.inl hother⟩
        · exact ⟨wrong, Or.inr ⟨not_exists.mp hfamily, hdevice⟩⟩
  · intro wrong hfamily
    exact ⟨selector_eq_error_iff.mpr (Or.inl hfamily), report_of_familySources hfamily⟩
  · intro wrong hfamily hdevice
    exact ⟨selector_eq_error_iff.mpr (Or.inr ⟨hfamily, hdevice⟩), report_of_deviceSources hdevice⟩
  · intro hfamily hdevice other again
    exact hsame other again (fun hnone => absurd hnone hfamily) (fun hnone => absurd hnone hdevice)
      (fun hnone => absurd hnone hdevice)

/-- A job that leaves all open, and one that leaves nothing open: malformed settings do no harm
behind a good environment, or behind the job; a malformed environment is the caller's fault,
unless the settings' family is malformed as well. -/
theorem selector_precedence_malformed :
    let bare : Job := ⟨"firmware.hex", none, none, none, none⟩
    let full : Job := ⟨"firmware.hex", none, none, some .fx2, some ⟨1, 2⟩⟩
    let right : Settings := ⟨some "0547:2131", some "AN21", none, []⟩
    let half : Settings := ⟨some "nope", some "AN21", none, []⟩
    let wrong : Settings := ⟨some "nope", some "fx3", none, []⟩
    bare.selector half (some "04b4:8613") = .ok ⟨some .an21, some ⟨0x04B4, 0x8613⟩⟩ ∧
      bare.selector right (some "04b4:8613") = bare.selector half (some "04b4:8613") ∧
      bare.selector wrong (some "nope")
        = .error (.of (.settings "unknown microcontroller type in config: fx3")) ∧
      (∃ text, bare.selector half (some "nope") = .error (.of (.usage text))) ∧
      (∃ text, bare.selector half none = .error (.of (.settings text))) ∧
      full.selector wrong (some "nope") = full.selector right none := by
  intro bare full right half wrong
  have hnope : Id.read "nope" = .error (.noColon "nope") := by decide +kernel
  have hnamed : firstGiven (bare.deviceSources half (some "nope"))
      = some (.error (.of (.usage ("$DEVICE: " ++ (Id.Fault.noColon "nope").message)))) := by
    show some (variableSays "nope") = _
    rw [variableSays, hnope]
    rfl
  have hset : firstGiven (bare.deviceSources half none)
      = some (.error (.of
          (.settings ("device.vid_pid: " ++ (Id.Fault.noColon "nope").message)))) := by
    show some (deviceSays "nope") = _
    rw [deviceSays, hnope]
    rfl
  have hfamily : firstGiven (bare.familySources half) = some (.ok .an21) := by decide +kernel
  have hsound : ∀ other, firstGiven (bare.familySources half) ≠ some (.error other) := by
    rw [hfamily]
    exact nofun
  obtain ⟨hok, -, -, -, hlazy, -⟩ := selector_precedence bare half (some "04b4:8613")
  obtain ⟨-, -, hunknown, -⟩ := selector_precedence bare wrong (some "nope")
  obtain ⟨-, -, -, hvariable, -⟩ := selector_precedence bare half (some "nope")
  obtain ⟨-, -, -, hdevice, -⟩ := selector_precedence bare half none
  obtain ⟨-, -, -, -, -, hfull⟩ := selector_precedence full right none
  refine ⟨(hok _).mpr ⟨hfamily, by decide +kernel⟩,
    hlazy right _ (fun _ => rfl) (fun _ => rfl) nofun, (hunknown _ (by decide +kernel)).1,
    ⟨_, (hvariable _ hsound hnamed).1⟩, ⟨_, (hdevice _ hsound hset).1⟩,
    hfull nofun nofun wrong _⟩

end UsbBoot.Job
