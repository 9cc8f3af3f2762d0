/-
Which families an image fits.

The families are told whose on-chip RAM holds an image as it is.  For this the image is cut
up for each family, and its chunks are looked at; a load on the chip is judged by cutting the
image up as well.  So the two agree, although neither of them looks at the bytes one by one:
where a family is told, a load succeeds unless the device fails or the user gives up, and
where it is not told, a load is refused.

What decides is where the bytes are, and nothing else about the segments they come in.  That is
why segments can be split and merged.  It is also why the list of families has one of four
forms only: each family has room wherever the one before it has, and the first two have the
same room.
-/
import UsbBoot.Load
import UsbBoot.Proofs.Pass.Allowed
import UsbBoot.Proofs.Pass.Answer
import UsbBoot.Proofs.Pass.RamScript

namespace UsbBoot

open Chip (Family)
open Pass (Engine Target)

variable {σ : Type} {image other : Image} {family : Family}

/-! ### Images whose bytes are all on the chip -/

/-- Whether the image puts a byte at an address. -/
def Image.Covers (image : Image) (address : Nat) : Prop :=
  ∃ segment ∈ image.segments, segment.Covers address

theorem Image.forall_covers_iff {good : Nat → Prop} :
    (∀ address, image.Covers address → good address)
      ↔ ∀ segment ∈ image.segments, ∀ address, segment.Covers address → good address := by
  constructor
  · intro h segment hmem address hcovers
    exact h address ⟨segment, hmem, hcovers⟩
  · rintro h address ⟨segment, hmem, hcovers⟩
    exact h segment hmem address hcovers

/-- An image fits a family exactly if the pass that puts it on the chip is allowed. -/
theorem Image.fits_iff_allowed :
    image.fits family = true ↔ image.onChipPlan.obstacle? family.profile = none := by
  have hobstacle : image.onChipPlan.obstacle? family.profile = Pass.Plan.firstOutside?
      (chunks family.profile family.profile.transferLimit image.segments) := rfl
  simp only [fits, hobstacle, Pass.Plan.firstOutside?, Option.map_eq_none_iff,
    List.find?_eq_none, List.all_eq_true, Bool.not_eq_true', Bool.not_eq_false]

theorem Image.fits_iff (hfits : ∀ segment ∈ image.segments, segment.Fits) :
    image.fits family = true
      ↔ ∀ address, image.Covers address → family.profile.isOnChip address = true := by
  rw [fits_iff_allowed, Pass.Plan.obstacle?_eq_none_iff family.profile hfits, forall_covers_iff]
  simp [onChipPlan, Pass.Plan.onChip, Pass.Plan.LacksEeprom, Pass.Plan.ReachesOut]

theorem Image.mem_fittingFamilies :
    family ∈ image.fittingFamilies ↔ image.fits family = true := by
  have hall : family ∈ Family.all := by cases family <;> decide
  simp [fittingFamilies, hall]

/-- On a calm port a load on the chip succeeds exactly if its pass is allowed. -/
theorem loadOnChip_calm_iff {port : Port σ} (hcalm : port.Calm) (target : Target)
    (image : Image) (engine : Engine) (state : σ) :
    (loadOnChip port target image engine state).failure = none
      ↔ image.onChipPlan.obstacle? target.profile = none := by
  constructor
  · intro hwell
    exact (Pass.feasible_of_success hwell).1
  · intro hallowed
    obtain ⟨-, hwell, -⟩ := Pass.run_calm hcalm target "firmware" engine state hallowed
      (Pass.feasible_ramScript _ _)
    exact hwell

/-! ### Families with more room -/

/-- The second family has on-chip RAM wherever the first one has. -/
def Chip.Family.Within (family wider : Family) : Prop :=
  ∀ address, family.profile.isOnChip address = true → wider.profile.isOnChip address = true

/-- From the oldest family on, none has less room than the one before it. -/
theorem Chip.Family.isChain_within : Family.all.IsChain Family.Within := by
  simp only [all, List.isChain_cons_cons, List.isChain_singleton, and_true]
  refine ⟨fun _ h => h, fun address => ?_, fun address => ?_⟩
  · simp [Profile.isOnChip, profile, Window.contains]
    omega
  · simp [Profile.isOnChip, profile, Window.contains]
    omega

theorem Image.fits_of_within (hfits : ∀ segment ∈ image.segments, segment.Fits) {wider : Family}
    (hwithin : family.Within wider) (h : image.fits family = true) :
    image.fits wider = true := by
  rw [fits_iff hfits] at h ⊢
  intro address hcovers
  exact hwithin address (h address hcovers)

theorem Image.fittingFamilies_cases (hfits : ∀ segment ∈ image.segments, segment.Fits) :
    image.fittingFamilies
      ∈ [[], [Family.fx2lp], [.fx2, .fx2lp], [.an21, .fx, .fx2, .fx2lp]] := by
  have hchain := Family.isChain_within
  simp only [Family.all, List.isChain_cons_cons, List.isChain_singleton, and_true] at hchain
  obtain ⟨-, hfx, hfx2⟩ := hchain
  have hsecond : image.fits .fx = true → image.fits .fx2 = true := fits_of_within hfits hfx
  have hthird : image.fits .fx2 = true → image.fits .fx2lp = true := fits_of_within hfits hfx2
  -- The first two families differ in their profiles, but not in their windows.
  have hfirst : image.fits .an21 = image.fits .fx := by
    rw [Bool.eq_iff_iff, fits_iff hfits, fits_iff hfits]
    rfl
  by_cases hold : image.fits .fx = true
  · simp [fittingFamilies, Family.all, hfirst, hold, hsecond hold, hthird (hsecond hold)]
  · by_cases hmiddle : image.fits .fx2 = true
    · simp [fittingFamilies, Family.all, hfirst, hold, hmiddle, hthird hmiddle]
    · by_cases hlast : image.fits .fx2lp = true <;>
        simp [fittingFamilies, Family.all, hfirst, hold, hmiddle, hlast]

/-! ### Splitting and merging -/

/-- Where one image has a segment, the other one has two, of which the second starts where the
first ends.  Both may have their segments in any order. -/
def Image.SplitInto (image other : Image) : Prop :=
  ∃ (first second : Segment) (rest : List Segment), second.base.toNat = first.stop ∧
    image.segments.Perm (first.extend second.bytes :: rest) ∧
    other.segments.Perm (first :: second :: rest)

section

variable {first second : Segment} (habut : second.base.toNat = first.stop)
include habut

theorem Segment.covers_extend (address : Nat) :
    (first.extend second.bytes).Covers address
      ↔ first.Covers address ∨ second.Covers address := by
  have hbase : first.base.toNat ≤ first.stop := Nat.le_add_right ..
  have hstop : second.base.toNat ≤ second.stop := Nat.le_add_right ..
  rw [Covers, stop_extend habut]
  show first.base.toNat ≤ address ∧ _ ↔ _
  simp only [Covers]
  omega

/-- The first one always fits, since the second one starts at an address. -/
theorem Segment.fits_extend :
    (first.extend second.bytes).Fits ↔ first.Fits ∧ second.Fits := by
  have hfirst : first.Fits := by
    rw [Fits, ← habut]
    exact Nat.le_of_lt second.base.toNat_lt
  rw [Fits, stop_extend habut, ← Fits]
  exact ⟨fun h => ⟨hfirst, h⟩, And.right⟩

end

theorem Image.SplitInto.covers_iff (h : image.SplitInto other) (address : Nat) :
    image.Covers address ↔ other.Covers address := by
  obtain ⟨first, second, rest, habut, himage, hother⟩ := h
  simp only [Covers, himage.mem_iff, hother.mem_iff, List.exists_mem_cons_iff,
    Segment.covers_extend habut, or_assoc]

theorem Image.SplitInto.fits_iff (h : image.SplitInto other) :
    (∀ segment ∈ image.segments, segment.Fits) ↔ ∀ segment ∈ other.segments, segment.Fits := by
  obtain ⟨first, second, rest, habut, himage, hother⟩ := h
  simp only [himage.mem_iff, hother.mem_iff, List.forall_mem_cons, Segment.fits_extend habut,
    and_assoc]

/-- However often segments are split and merged, the bytes stay where they are. -/
theorem Image.recut (h : Relation.EqvGen Image.SplitInto image other) :
    ((∀ segment ∈ image.segments, segment.Fits) ↔ ∀ segment ∈ other.segments, segment.Fits) ∧
      ∀ address, image.Covers address ↔ other.Covers address := by
  induction h with
  | rel image other hsplit => exact ⟨hsplit.fits_iff, hsplit.covers_iff⟩
  | refl image => exact ⟨Iff.rfl, fun _ => Iff.rfl⟩
  | symm image other _ ih => exact ⟨ih.1.symm, fun address => (ih.2 address).symm⟩
  | trans image middle other _ _ ih ihrest =>
      exact ⟨ih.1.trans ihrest.1, fun address => (ih.2 address).trans (ihrest.2 address)⟩

theorem Image.fittingFamilies_congr (hfits : ∀ segment ∈ image.segments, segment.Fits)
    (hother : ∀ segment ∈ other.segments, segment.Fits)
    (hcovers : ∀ address, image.Covers address ↔ other.Covers address) :
    image.fittingFamilies = other.fittingFamilies := by
  refine List.filter_congr fun family _ => ?_
  rw [Bool.eq_iff_iff, fits_iff hfits, fits_iff hother]
  simp only [hcovers]

/--
**An image is told to fit the families that it can be loaded on without a loader.**

Of an image whose segments fit, a family is told exactly if each byte has its address in one of
the windows of that family, and exactly if a load on the chip of such a part succeeds when
the device never fails and the user never gives up.  The families are none, or the last one,
or the last two, or all four, from the oldest on.  The list stays the same however segments
that touch are merged and segments are split.
-/
theorem Image.fittingFamilies_exact {image : Image}
    (hfits : ∀ segment ∈ image.segments, segment.Fits) :
    (∀ family : Family,
      (family ∈ image.fittingFamilies ↔ ∀ segment ∈ image.segments, ∀ address,
        segment.Covers address →
          ∃ window ∈ family.profile.onChip, window.contains address = true) ∧
      ∀ (σ : Type) (port : Port σ), port.Calm → ∀ identity engine state,
        (family ∈ image.fittingFamilies
          ↔ (loadOnChip port ⟨family.profile, identity⟩ image engine state).failure = none)) ∧
    image.fittingFamilies
      ∈ [[], [Family.fx2lp], [.fx2, .fx2lp], [.an21, .fx, .fx2, .fx2lp]] ∧
    ∀ other, Relation.EqvGen Image.SplitInto image other →
      other.fittingFamilies = image.fittingFamilies := by
  refine ⟨fun family => ⟨?_, ?_⟩, Image.fittingFamilies_cases hfits, fun other hrecut => ?_⟩
  · rw [Image.mem_fittingFamilies, Image.fits_iff hfits, Image.forall_covers_iff]
    simp only [Chip.Profile.isOnChip, List.any_eq_true]
  · intro σ port hcalm identity engine state
    rw [Image.mem_fittingFamilies, Image.fits_iff_allowed]
    exact (loadOnChip_calm_iff hcalm ⟨family.profile, identity⟩ image engine state).symm
  · obtain ⟨hsame, hcovers⟩ := Image.recut hrecut
    exact (Image.fittingFamilies_congr hfits (hsame.mp hfits) hcovers).symm

/-- Two bytes on either side of where the windows of the older families end, in one segment and
in two with another one between them. -/
theorem Image.fittingFamilies_exact_split :
    let image : Image := ⟨[⟨0xE1FE, [1, 2]⟩, ⟨0x1B3F, [3, 4]⟩]⟩
    let split : Image := ⟨[⟨0x1B3F, [3]⟩, ⟨0xE1FE, [1, 2]⟩, ⟨0x1B40, [4]⟩]⟩
    let load (family : Family) :=
      loadOnChip (Schedule.calm.port "device") ⟨family.profile, Pass.blankPart.identity⟩ image
        .fresh ⟨0, 0⟩
    (∀ segment ∈ image.segments, segment.Fits) ∧ image.fittingFamilies = [.fx2, .fx2lp] ∧
      split.fittingFamilies = [.fx2, .fx2lp] ∧
      (load .fx2).failure = none ∧ (load .fx).failure ≠ none := by
  intro image split load
  have hfits : ∀ segment ∈ image.segments, segment.Fits := by decide
  have hfamilies : image.fittingFamilies = [.fx2, .fx2lp] := by decide +kernel
  obtain ⟨hfamily, -, hsame⟩ := fittingFamilies_exact hfits
  have hload : ∀ family, family ∈ image.fittingFamilies ↔ (load family).failure = none :=
    fun family => (hfamily family).2 _ _ (Schedule.port_calm "device") _ _ _
  have hsplit : Image.SplitInto image split :=
    ⟨⟨0x1B3F, [3]⟩, ⟨0x1B40, [4]⟩, [⟨0xE1FE, [1, 2]⟩], by decide, by decide, by decide⟩
  rw [hfamilies] at hload
  exact ⟨hfits, hfamilies, (hsame split (.rel _ _ hsplit)).trans hfamilies,
    (hload .fx2).mp (by decide), fun hwell => absurd ((hload .fx).mpr hwell) (by decide)⟩

end UsbBoot
