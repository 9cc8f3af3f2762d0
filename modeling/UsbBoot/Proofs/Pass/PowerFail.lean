/-
An EEPROM that is not finished does not boot.

A write that fails may have torn what it touches: any of its bytes may have been stored, or
something else in their place.  What it does not touch stays.  As the records lie behind the
place of the header, none of them gets at the first byte, whatever becomes of it; so from
the moment that byte is spoiled until the header is written over it, a part that wakes up
finds no marker.  This holds after each attempt, so it does not matter whether the pass was
stopped or the power was cut.
-/
import UsbBoot.Proofs.Pass.EepromOrder

namespace UsbBoot

variable {σ : Type}

/-- A part boots off an EEPROM that begins with its marker. -/
def Eeprom.Boots (profile : Chip.Profile) (memory : Memory) : Prop :=
  memory 0 = some profile.bootMarker

theorem Chip.Family.bootMarker_ne_noBoot (family : Chip.Family) :
    family.profile.bootMarker ≠ Eeprom.noBoot := by
  cases family <;> decide

theorem Chip.Profile.bootHeaderLength_pos (profile : Chip.Profile) :
    0 < profile.bootHeaderLength := by
  rw [Chip.Profile.bootHeaderLength]
  split <;> decide

namespace Pass

open Eeprom (imageLength)

/-! ### What attempts do to a memory -/

/-- What a memory may be after some attempts, if it was the first one before. -/
inductive Undergoes : Memory → List Attempt → Memory → Prop
  | done (memory : Memory) : Undergoes memory [] memory
  /-- A write that goes well stores its bytes. -/
  | stored {memory after : Memory} {rest : List Attempt} (write : ControlWrite)
    (hrest : Undergoes (memory.replay [write]) rest after) :
    Undergoes memory (⟨write, none⟩ :: rest) after
  /-- A write that fails leaves alone what it does not touch. -/
  | torn {memory torn after : Memory} {rest : List Attempt} (write : ControlWrite)
    (cause : Failure)
    (hkept : ∀ address, ¬write.touches address → torn address = memory address)
    (hrest : Undergoes torn rest after) : Undergoes memory (⟨write, some cause⟩ :: rest) after

theorem replay_of_not_touches {write : ControlWrite} {address : Nat}
    (h : ¬write.touches address) (memory : Memory) :
    (memory.replay [write]) address = memory address := by
  have hnone : Memory.stretch write.address.toNat write.data address = none := by
    rw [← Option.not_isSome_iff_eq_none, Memory.stretch_isSome]
    exact h
  show ((Memory.stretch write.address.toNat write.data).onto memory) address = _
  rw [Memory.onto_apply, hnone, Option.none_or]

theorem Undergoes.frame {before after : Memory} {tried : List Attempt}
    (h : Undergoes before tried after) {address : Nat}
    (hmiss : ∀ attempt ∈ tried, ¬attempt.write.touches address) :
    after address = before address := by
  induction h with
  | done => rfl
  | stored write _ ih =>
      obtain ⟨hfirst, hrest⟩ := List.forall_mem_cons.mp hmiss
      rw [ih hrest, replay_of_not_touches hfirst]
  | torn write cause hkept _ ih =>
      obtain ⟨hfirst, hrest⟩ := List.forall_mem_cons.mp hmiss
      rw [ih hrest, hkept address hfirst]

/-- After the first byte was spoiled, attempts behind it leave it so. -/
theorem Undergoes.spoiled {before after : Memory} {done : List Attempt}
    (h : Undergoes before (⟨spoilWrite, none⟩ :: done) after)
    (hbehind : ∀ attempt ∈ done, 0 < attempt.write.address.toNat) :
    after 0 = some Eeprom.noBoot := by
  cases h with
  | stored _ hrest =>
      rw [hrest.frame fun attempt hmem htouches =>
        Nat.not_lt.mpr htouches.1 (hbehind attempt hmem)]
      rfl

/--
**An EEPROM pass is safe at every point where it can be stopped.**

Over any port, so for every course of failures and of answers, an EEPROM pass that is not
refused first writes the one byte that keeps the part from booting; if that fails it writes
nothing else.  All that follows lies behind the place of the header, but for the header
itself, which has just the length of that place.  It is attempted last, and only after the
header and the data of every record were written, the final one included.  Until then the
first byte of the EEPROM stays what it is, and no known part boots.
-/
theorem run_powerFail (port : Port σ) (target : Target) (pass : String) (plan : Plan)
    (engine : Engine) (state : σ) (heeprom : plan.destination = .eeprom)
    (hshort : imageLength target.profile (plan.chunks target.profile) < longLimit) :
    let tried := eepromAttempts (run port target pass plan engine state).events
    let records := imageWrites target.profile (plan.chunks target.profile)
    let header := sealWrite target.profile target.identity plan.config
    (tried = [] ↔ plan.obstacle? target.profile ≠ none) ∧
      header.address = 0 ∧ header.data.length = target.profile.bootHeaderLength ∧
      ∀ first later, tried = first :: later →
        first.write = ⟨.eeprom, 0, [0x00]⟩ ∧
        (first.failure ≠ none → later = []) ∧
        (∀ attempt ∈ later, attempt.write ≠ header →
          target.profile.bootHeaderLength ≤ attempt.write.address.toNat) ∧
        (∀ attempt ∈ later, attempt.write = header →
          ∃ failure, later = records.map Attempt.ok ++ [⟨header, failure⟩]) ∧
        ∀ done before after, done <+: later → first.failure = none →
          (∀ attempt ∈ done, attempt.write ≠ header) → Undergoes before (first :: done) after →
          after 0 = some 0x00 ∧
            ∀ family : Chip.Family, target.profile = family.profile →
              ¬Eeprom.Boots target.profile after := by
  intro tried records header
  have hplaced : ∀ write ∈ records, target.profile.bootHeaderLength ≤ write.address.toNat :=
    le_address_imageWrites hshort
  have hpos := target.profile.bootHeaderLength_pos
  -- The header starts at zero and every record behind it, so the two are told apart.
  have hheader : header ∉ records := by
    intro hmem
    exact absurd (hplaced header hmem) (Nat.not_le.mpr hpos)
  have hrefused : ∀ cause, plan.obstacle? target.profile = some cause → tried = [] := by
    intro cause hobstacle
    simp [tried, eepromAttempts, run_refused port target pass engine state hobstacle]
  refine ⟨?_, rfl, Eeprom.length_bootHeader _ _ _, ?_⟩
  · cases hobstacle : plan.obstacle? target.profile with
    | some cause => simp [hrefused cause hobstacle]
    | none =>
        obtain ⟨first, later, hseen, -⟩ :=
          run_eepromOrder port target pass engine state heeprom hobstacle
        simp [tried, hseen]
  · intro first later htried
    have hallowed : plan.obstacle? target.profile = none := by
      cases hobstacle : plan.obstacle? target.profile with
      | none => rfl
      | some cause => cases (hrefused cause hobstacle).symm.trans htried
    obtain ⟨spoil, rest, hseen, hwrite, hfailed, hshape⟩ :=
      run_eepromOrder port target pass engine state heeprom hallowed
    obtain ⟨rfl, rfl⟩ := List.cons.inj (htried.symm.trans hseen)
    have hbehind : ∀ attempt ∈ later, attempt.write ≠ header →
        target.profile.bootHeaderLength ≤ attempt.write.address.toNat := by
      intro attempt hmem hother
      rcases hshape with hrecords | ⟨failure, rfl⟩
      · exact hplaced _ (hrecords attempt hmem)
      · rcases List.mem_append.mp hmem with hrecord | hlast
        · obtain ⟨write, hplace, rfl⟩ := List.mem_map.mp hrecord
          exact hplaced write hplace
        · rw [List.mem_singleton.mp hlast] at hother
          exact absurd rfl hother
    refine ⟨hwrite, hfailed, hbehind, ?_, ?_⟩
    · intro attempt hmem hsealed
      rcases hshape with hrecords | hall
      · exact absurd (hsealed ▸ hrecords attempt hmem) hheader
      · exact hall
    · intro done before after hdone hspoiled hunsealed hundergoes
      have hfirst : first = ⟨spoilWrite, none⟩ := by
        rw [← hwrite, ← hspoiled]
      rw [hfirst] at hundergoes
      have hzero : after 0 = some Eeprom.noBoot := by
        refine hundergoes.spoiled fun attempt hmem => ?_
        exact Nat.lt_of_lt_of_le hpos
          (hbehind attempt (hdone.subset hmem) (hunsealed attempt hmem))
      refine ⟨hzero, ?_⟩
      intro family hfamily hboots
      rw [Eeprom.Boots, hzero, hfamily, Option.some_inj] at hboots
      exact family.bootMarker_ne_noBoot hboots.symm

/-- The device leaves the bus amid the data of a record, which may be torn. -/
theorem run_powerFail_unplugged :
    let schedule : Schedule :=
      ⟨fun n => if n = 2 then some .disconnected else none, some fun _ => false⟩
    let plan : Plan := .eeprom [⟨0x0100, [1, 2]⟩, ⟨0x0200, [3]⟩] none
    let tried := eepromAttempts
      (run (schedule.port "loader") blankPart "EEPROM" plan .fresh ⟨0, 0⟩).events
    imageLength blankPart.profile (plan.chunks blankPart.profile) < longLimit ∧
      tried = [.ok ⟨.eeprom, 0, [0x00]⟩, .ok ⟨.eeprom, 8, [0x00, 0x02, 0x01, 0x00]⟩,
        ⟨⟨.eeprom, 12, [1, 2]⟩, some .disconnected⟩] ∧
      ∀ before after, Undergoes before tried after →
        after 0 = some 0x00 ∧ ¬Eeprom.Boots blankPart.profile after := by
  intro schedule plan tried
  have hshort : imageLength blankPart.profile (plan.chunks blankPart.profile) < longLimit := by
    decide +kernel
  have htried : tried = [.ok ⟨.eeprom, 0, [0x00]⟩,
      .ok ⟨.eeprom, 8, [0x00, 0x02, 0x01, 0x00]⟩,
      ⟨⟨.eeprom, 12, [1, 2]⟩, some .disconnected⟩] := by
    decide +kernel
  refine ⟨hshort, htried, ?_⟩
  intro before after hundergoes
  obtain ⟨-, -, -, hsafe⟩ := run_powerFail (schedule.port "loader") blankPart "EEPROM" plan .fresh
    ⟨0, 0⟩ rfl hshort
  obtain ⟨-, -, -, -, hcut⟩ := hsafe _ _ htried
  rw [htried] at hundergoes
  obtain ⟨hzero, hdead⟩ := hcut _ before after (List.prefix_refl _) rfl (by decide) hundergoes
  exact ⟨hzero, hdead .fx2 rfl⟩

end Pass
end UsbBoot
