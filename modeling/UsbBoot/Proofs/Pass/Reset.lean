/-
The CPU is halted while on-chip RAM is written, and never left halted.

On-chip RAM must not be written under a running CPU, and what a loader writes must not
be sent to a halted one.  So a RAM pass sends what lies outside the chip, halts the CPU,
and only then, if that went well, sends what lies on it.  An EEPROM pass never halts the
CPU.  Every pass that does anything ends by letting the CPU run, once, whatever went
wrong and however often.  All this holds over any port, so in particular over every
course of failures and of answers.

The CPU control register is written by the same request as on-chip RAM.  Where the
register lies outside the windows, no chunk of the firmware ever hits it.
-/
import UsbBoot.Proofs.Chunk
import UsbBoot.Proofs.Pass.Answer
import UsbBoot.Proofs.Pass.EepromScript
import UsbBoot.Proofs.Pass.RamScript

namespace UsbBoot

variable {σ : Type}

instance (write : ControlWrite) (address : Nat) : Decidable (write.touches address) :=
  inferInstanceAs (Decidable (_ ∧ _))

/-- No known family has the CPU control register in a window. -/
theorem Chip.Family.register_outside (family : Chip.Family) :
    family.profile.isOnChip family.profile.resetRegister.toNat = false := by
  cases family <;> decide

/-- Whether a write gets at the CPU control register. -/
def ControlWrite.drivesCpu (profile : Chip.Profile) (write : ControlWrite) : Bool :=
  write.request == .onChip && decide (write.touches profile.resetRegister.toNat)

theorem ControlWrite.drivesCpu_of_request {profile : Chip.Profile} {write : ControlWrite}
    (h : write.request ≠ .onChip) : write.drivesCpu profile = false := by
  simp [drivesCpu, h]

/-- A chunk on the chip does not get at the register, if that lies outside the windows. -/
theorem Chunk.Sound.drivesCpu {profile : Chip.Profile} {limit : Option Nat} {chunk : Chunk}
    (h : chunk.Sound profile limit) (honChip : chunk.onChip = true)
    (hregister : profile.isOnChip profile.resetRegister.toNat = false) (request : Request) :
    (chunk.write request).drivesCpu profile = false := by
  rw [ControlWrite.drivesCpu, Bool.and_eq_false_iff]
  refine Or.inr (decide_eq_false fun htouches => ?_)
  have hside := h.isOnChip htouches.1 htouches.2
  rw [hregister, honChip] at hside
  cases hside

namespace Pass

theorem drivesCpu_holdWrite (profile : Chip.Profile) :
    (holdWrite profile).drivesCpu profile = true := by
  simp [ControlWrite.drivesCpu, ControlWrite.touches, holdWrite]

theorem drivesCpu_releaseWrite (profile : Chip.Profile) :
    (releaseWrite profile).drivesCpu profile = true := by
  simp [ControlWrite.drivesCpu, ControlWrite.touches, releaseWrite]

/-! ### What is attempted -/

section

variable {profile : Chip.Profile} {pass : String} {asks : Bool} {run : Run σ}

/-- An ended pass attempted all writes of its body, or those until a stop, and then let the
CPU run. -/
theorem Ended.attempts {actions : List Action} (h : Ended profile pass asks actions run) :
    ∃ release body, attempts run.events = body ++ [⟨releaseWrite profile, release⟩] ∧
      (body = (sends actions).map Attempt.ok ∨
        ∃ before after action cause last, actions = before ++ action :: after ∧
          Stops action cause last ∧ body = triedUntil before last) := by
  cases h with
  | finished release feasible seen failure phase releaseFailure =>
      refine ⟨release, _, ?_, Or.inl rfl⟩
      rw [← attempts_deeds, seen, attempts_append, attempts_allDeeds]
      rfl
  | stopped release before after action cause last split stops seen failure phase _ =>
      refine ⟨release, _, ?_, Or.inr ⟨before, after, action, cause, last, split, stops, rfl⟩⟩
      rw [← attempts_deeds, seen, attempts_append, attempts_append, attempts_allDeeds]
      rfl

theorem triedUntil_subset {before after : List Action} {action : Action} {cause : Failure}
    {last : List Event} (hstops : Stops action cause last) :
    ∀ attempt ∈ triedUntil before last, attempt.write ∈ sends (before ++ action :: after) := by
  intro attempt hmem
  rw [sends_append, List.mem_append]
  rcases List.mem_append.mp hmem with hbefore | hlast
  · obtain ⟨write, hwrite, rfl⟩ := List.mem_map.mp hbefore
    exact Or.inl hwrite
  · cases hstops with
    | check => cases hlast
    | refuse => cases hlast
    | send write cause =>
        rw [List.mem_singleton.mp hlast]
        exact Or.inr List.mem_cons_self

/-! ### RAM -/

/-- What a RAM pass attempts before it lets the CPU run. -/
structure RamBody (profile : Chip.Profile) (list : List Chunk) (external : List Attempt)
    (hold : Option Attempt) (onChip : List Attempt) : Prop where
  /-- First come chunks outside the chip, in order, by the loader's request. -/
  external_sent : external.map Attempt.write <+: externalWrites list
  /-- The next write is the one that halts the CPU. -/
  hold_write : ∀ attempt, hold = some attempt → attempt.write = holdWrite profile
  /-- It is attempted exactly if all chunks outside the chip were sent. -/
  hold_iff : hold.isSome ↔ external = (externalWrites list).map Attempt.ok
  /-- Anything after it is attempted only if it went well. -/
  halted : onChip ≠ [] → hold = some (.ok (holdWrite profile))
  /-- Then come chunks on the chip, in order, by the silicon's request. -/
  onChip_sent : onChip.map Attempt.write <+: onChipWrites list

theorem ramBody_all (profile : Chip.Profile) (list : List Chunk) :
    RamBody profile list ((externalWrites list).map Attempt.ok)
      (some (.ok (holdWrite profile))) ((onChipWrites list).map Attempt.ok) where
  external_sent := ⟨[], by rw [List.append_nil, map_write_ok]⟩
  hold_write attempt h := by
    rw [← Option.some.inj h]
    rfl
  hold_iff := by simp
  halted _ := rfl
  onChip_sent := ⟨[], by rw [List.append_nil, map_write_ok]⟩

theorem Ended.ramBody {list : List Chunk}
    (h : Ended profile pass asks (ramScript profile list) run) :
    ∃ external hold onChip release,
      Pass.attempts run.events
        = external ++ hold.toList ++ onChip ++ [⟨releaseWrite profile, release⟩] ∧
      RamBody profile list external hold onChip := by
  obtain ⟨release, body, hattempts, hbody⟩ := h.attempts
  have hall := ramBody_all profile list
  rcases hbody with rfl | ⟨before, after, action, cause, last, hsplit, hstops, rfl⟩
  · refine ⟨_, _, _, release, ?_, hall⟩
    rw [hattempts, sends_ramScript]
    simp
  rw [ramScript] at hsplit
  rcases split_append hsplit with ⟨_, hfront⟩ | ⟨later, rfl, honChip⟩
  · rcases split_append hfront with ⟨_, hexternal⟩ | ⟨later, rfl, hhold⟩
    · -- Stopped amid the chunks outside the chip: the CPU is not halted at all.
      have hcut := externalActions_stopped hexternal hstops
      refine ⟨triedUntil before last, none, [], release, by simp [hattempts], ?_⟩
      exact {
        external_sent := hcut.leading
        hold_write := by simp
        hold_iff := by simpa [externalWrites] using hcut.ne_all
        halted := fun hne => absurd rfl hne
        onChip_sent := List.nil_prefix }
    · have hfailed := holdActions_stopped hhold hstops
      refine ⟨(externalWrites list).map Attempt.ok, some ⟨holdWrite profile, some cause⟩, [],
        release, ?_, ?_⟩
      · rw [hattempts, triedUntil_append, sends_externalActions, hfailed]
        simp [externalWrites]
      · exact {
          external_sent := hall.external_sent
          hold_write := fun attempt heq => by rw [← Option.some.inj heq]
          hold_iff := by simp
          halted := fun hne => absurd rfl hne
          onChip_sent := List.nil_prefix }
  · have hcut := onChipActions_stopped honChip hstops
    refine ⟨(externalWrites list).map Attempt.ok, some (.ok (holdWrite profile)),
      triedUntil later last, release, ?_,
      { hall with onChip_sent := hcut.leading, halted := fun _ => rfl }⟩
    rw [hattempts, triedUntil_append, sends_append, sends_externalActions, sends_holdActions]
    simp [externalWrites]

/-- Of a RAM body, only the halt gets at the register. -/
theorem RamBody.drivesCpu {list : List Chunk} {limit : Option Nat}
    {external onChip : List Attempt} {hold : Option Attempt}
    (h : RamBody profile list external hold onChip)
    (hsound : ∀ chunk ∈ list, chunk.Sound profile limit)
    (hregister : profile.isOnChip profile.resetRegister.toNat = false) :
    ((external ++ hold.toList ++ onChip).map Attempt.write).filter
        (ControlWrite.drivesCpu profile)
      = hold.toList.map Attempt.write := by
  have hexternal : (external.map Attempt.write).filter (ControlWrite.drivesCpu profile) = [] := by
    refine List.filter_eq_nil_iff.mpr fun write hmem => ?_
    obtain ⟨chunk, -, rfl⟩ := mem_chunkWrites (h.external_sent.subset hmem)
    have hrequest : (chunk.write .external).request ≠ .onChip := nofun
    simp [ControlWrite.drivesCpu_of_request hrequest]
  have honChip : (onChip.map Attempt.write).filter (ControlWrite.drivesCpu profile) = [] := by
    refine List.filter_eq_nil_iff.mpr fun write hmem => ?_
    obtain ⟨chunk, hchunk, rfl⟩ := mem_chunkWrites (h.onChip_sent.subset hmem)
    obtain ⟨hin, hside⟩ := List.mem_filter.mp hchunk
    simp [(hsound chunk hin).drivesCpu hside hregister]
  have hhold : (hold.toList.map Attempt.write).filter (ControlWrite.drivesCpu profile)
      = hold.toList.map Attempt.write := by
    refine List.filter_eq_self.mpr fun write hmem => ?_
    obtain ⟨attempt, hattempt, rfl⟩ := List.mem_map.mp hmem
    rw [h.hold_write attempt (Option.mem_toList.mp hattempt)]
    exact drivesCpu_holdWrite profile
  rw [List.map_append, List.map_append, List.filter_append, List.filter_append, hexternal, hhold,
    honChip, List.append_nil, List.nil_append]

/-- However an EEPROM pass ends, it wrote nothing but the EEPROM before it let the CPU run. -/
theorem Ended.eepromBody {actions : List Action} (h : Ended profile pass asks actions run)
    (honly : EepromOnly actions) :
    ∃ records release,
      Pass.attempts run.events = records ++ [⟨releaseWrite profile, release⟩] ∧
      ∀ attempt ∈ records, attempt.write.request = .eeprom := by
  obtain ⟨release, body, hattempts, hbody⟩ := h.attempts
  refine ⟨body, release, hattempts, fun attempt hmem => honly _ ?_⟩
  rcases hbody with rfl | ⟨before, after, action, cause, last, rfl, hstops, rfl⟩
  · obtain ⟨write, hwrite, rfl⟩ := List.mem_map.mp hmem
    exact hwrite
  · exact triedUntil_subset hstops attempt hmem

/-! ### The register -/

/-- The writes of some events that get at the register. -/
def registerWrites (profile : Chip.Profile) (events : List Event) : List ControlWrite :=
  (writes events).filter (ControlWrite.drivesCpu profile)

theorem registerWrites_released {events : List Event} {body : List Attempt}
    {release : Option Failure}
    (h : Pass.attempts events = body ++ [⟨releaseWrite profile, release⟩]) :
    registerWrites profile events
      = (body.map Attempt.write).filter (ControlWrite.drivesCpu profile)
        ++ [releaseWrite profile] := by
  rw [registerWrites, writes, h, List.map_append, List.filter_append]
  simp [drivesCpu_releaseWrite]

theorem Ended.ram_resets {list : List Chunk} {limit : Option Nat}
    (h : Ended profile pass asks (ramScript profile list) run)
    (hsound : ∀ chunk ∈ list, chunk.Sound profile limit)
    (hregister : profile.isOnChip profile.resetRegister.toNat = false) :
    ∃ external hold onChip release,
      Pass.attempts run.events
        = external ++ hold.toList ++ onChip ++ [⟨releaseWrite profile, release⟩] ∧
      RamBody profile list external hold onChip ∧
      registerWrites profile run.events
        = hold.toList.map Attempt.write ++ [releaseWrite profile] := by
  obtain ⟨external, hold, onChip, release, hattempts, hbody⟩ := h.ramBody
  refine ⟨external, hold, onChip, release, hattempts, hbody, ?_⟩
  rw [registerWrites_released hattempts, hbody.drivesCpu hsound hregister]

theorem Ended.eeprom_resets {actions : List Action} (h : Ended profile pass asks actions run)
    (honly : EepromOnly actions) :
    ∃ records release,
      Pass.attempts run.events = records ++ [⟨releaseWrite profile, release⟩] ∧
      (∀ attempt ∈ records, attempt.write.request = .eeprom) ∧
      registerWrites profile run.events = [releaseWrite profile] := by
  obtain ⟨records, release, hattempts, hrecords⟩ := h.eepromBody honly
  refine ⟨records, release, hattempts, hrecords, ?_⟩
  have hnone : (records.map Attempt.write).filter (ControlWrite.drivesCpu profile) = [] := by
    refine List.filter_eq_nil_iff.mpr fun write hmem => ?_
    obtain ⟨attempt, hattempt, rfl⟩ := List.mem_map.mp hmem
    have hrequest : attempt.write.request ≠ .onChip := by simp [hrecords attempt hattempt]
    simp [ControlWrite.drivesCpu_of_request hrequest]
  rw [registerWrites_released hattempts, hnone, List.nil_append]

end

/--
**On-chip RAM is written only while the CPU is halted, and the CPU is always let run.**

Over any port, a pass writes nothing at all exactly if it is not allowed.  Otherwise its
last write lets the CPU run.  Before that, a RAM pass has the shape of a `RamBody`, and an
EEPROM pass writes nothing but the EEPROM.  If the CPU control register lies outside the
windows, it is written by no chunk: only by the halt, if there was one, and by the last
write.
-/
theorem run_resets (port : Port σ) (target : Target) (pass : String) (plan : Plan)
    (engine : Engine) (state : σ)
    (hregister : target.profile.isOnChip target.profile.resetRegister.toNat = false) :
    let events := (run port target pass plan engine state).events
    (attempts events = [] ↔ plan.obstacle? target.profile ≠ none) ∧
      (plan.obstacle? target.profile = none →
        match plan.destination with
        | .ram =>
          ∃ external hold onChip release,
            attempts events = external ++ hold.toList ++ onChip
              ++ [⟨releaseWrite target.profile, release⟩] ∧
            RamBody target.profile (plan.chunks target.profile) external hold onChip ∧
            registerWrites target.profile events
              = hold.toList.map Attempt.write ++ [releaseWrite target.profile]
        | .eeprom =>
          ∃ records release,
            attempts events = records ++ [⟨releaseWrite target.profile, release⟩] ∧
            (∀ attempt ∈ records, attempt.write.request = .eeprom) ∧
            registerWrites target.profile events = [releaseWrite target.profile]) := by
  intro events
  constructor
  · cases hobstacle : plan.obstacle? target.profile with
    | some cause => simp [events, run_refused port target pass engine state hobstacle]
    | none =>
        obtain ⟨release, body, hattempts, -⟩ :=
          (run_ended port target pass engine state hobstacle).attempts
        simp [events, hattempts]
  · intro hobstacle
    have hended := run_ended port target pass engine state hobstacle
    have hsound : ∀ chunk ∈ plan.chunks target.profile, chunk.Sound target.profile _ :=
      chunks_sound target.profile (plan.limit target.profile) plan.segments
    cases hdestination : plan.destination with
    | ram =>
        rw [script_of_ram target.profile target.identity hdestination] at hended
        exact hended.ram_resets hsound hregister
    | eeprom =>
        rw [script_of_eeprom target.profile target.identity hdestination] at hended
        exact hended.eeprom_resets (eepromOnly_eepromScript _ _ _ _ _)

/-- The device leaves the bus amid a chunk on the chip: the register was written twice. -/
theorem run_resets_unplugged :
    let schedule : Schedule := ⟨fun n => if n = 2 then some .disconnected else none, none⟩
    let events := (run (schedule.port "loader") blankPart "firmware" straddling .fresh
      ⟨0, 0⟩).events
    blankPart.profile.isOnChip blankPart.profile.resetRegister.toNat = false ∧
      writes events = [⟨.external, 0x2000, [3, 4]⟩, holdWrite blankPart.profile,
        ⟨.onChip, 0x1FFE, [1, 2]⟩, releaseWrite blankPart.profile] ∧
      registerWrites blankPart.profile events
        = [holdWrite blankPart.profile, releaseWrite blankPart.profile] := by
  intro schedule events
  have houtside : blankPart.profile.isOnChip blankPart.profile.resetRegister.toNat = false :=
    Chip.Family.register_outside .fx2
  refine ⟨houtside, by decide +kernel, ?_⟩
  obtain ⟨-, hshape⟩ := run_resets (schedule.port "loader") blankPart "firmware" straddling
    .fresh ⟨0, 0⟩ houtside
  obtain ⟨external, hold, onChip, release, -, hbody, hregister⟩ := hshape rfl
  cases hold with
  | some attempt =>
      have hwrite := hbody.hold_write attempt rfl
      rw [← hwrite]
      exact hregister
  | none =>
      have htwice : (registerWrites blankPart.profile events).length = 2 := by decide +kernel
      have honce := congrArg List.length hregister
      cases htwice.symm.trans honce

end Pass
end UsbBoot
