/-
Data that are written again.

When the data of a record meet data that came before, the failure names an address.  It is the
one at which the record starts, and that need not be an address where both have a byte: a record
may begin in front of what it runs into.  The first address that is written again is then the
start of something that came before, and lies above the one that is named.  So the named address
is a bound for the first one that is written again, and is that one just if something had been
written there already.
-/
import Mathlib.Order.Nat
import UsbBoot.Proofs.Image.Deciding

namespace UsbBoot.Image

/-- The addresses at which a record puts bytes though these records have put some there. -/
def rewritten (earlier : List Record) (record : Record) : Set Nat :=
  {address | (∃ segment ∈ contents earlier, segment.Covers address) ∧
    (record.placedAt (baseAfter earlier)).Covers address}

/-- A line behind others that decide nothing holds data which find room among the addresses, but
not apart from what came before. -/
structure Rewrites (before : List (List UInt8)) (line : List UInt8) (earlier : List Record)
    (record : Record) : Prop where
  before : Undecided before earlier
  holds : Holds line record
  data : record.kind = .data
  fits : (record.placedAt (baseAfter earlier)).Fits
  again : (rewritten earlier record).Nonempty

/-- Reading fails with data that overlap just on a line that writes something again, and names
the address at which that line's record starts. -/
theorem read_eq_overlapping_iff {source : Source} {address : UInt32} :
    read source = .error (.overlapping address) ↔
      ∃ before line after earlier record, source.HasLines (before ++ line :: after) ∧
        Rewrites before line earlier record ∧
        (record.placedAt (baseAfter earlier)).base = address := by
  rw [read_eq_iff]
  constructor
  · intro h
    generalize hresult : Except.error (Failure.overlapping address) = result at h
    cases h with
    | decided hlines hdecided =>
        obtain ⟨after, hbefore, hline⟩ := hdecided
        cases hline with
        | overlapping hholds hdata hfits hmem hcovers hagain =>
            cases hresult
            exact ⟨_, _, after, _, _, hlines,
              ⟨hbefore, hholds, hdata, hfits, _, ⟨_, hmem, hcovers⟩, hagain⟩, rfl⟩
        | ended | noText | noRecord | pastEnd => cases hresult
    | truncated => cases hresult
    | failed => cases hresult
  · rintro ⟨before, line, after, earlier, record, hlines, hrewrites, rfl⟩
    obtain ⟨again, ⟨segment, hmem, hcovers⟩, hagain⟩ := hrewrites.again
    exact .decided hlines (.intro after hrewrites.before
      (.overlapping hrewrites.holds hrewrites.data hrewrites.fits hmem hcovers hagain))

/-! ### The first address that is written again -/

section

variable {earlier : List Record} {record : Record}

/-- A record writes nothing in front of where it starts. -/
theorem start_mem_lowerBounds :
    (record.placedAt (baseAfter earlier)).base.toNat ∈ lowerBounds (rewritten earlier record) :=
  fun _ hagain => hagain.2.1

/-- Where a record that writes something again starts, it writes something. -/
theorem covers_start (h : (rewritten earlier record).Nonempty) :
    (record.placedAt (baseAfter earlier)).Covers
      (record.placedAt (baseAfter earlier)).base.toNat := by
  obtain ⟨again, -, hlow, hhigh⟩ := h
  exact ⟨Nat.le_refl _, Nat.lt_of_le_of_lt hlow hhigh⟩

theorem isLeast_start_iff (h : (rewritten earlier record).Nonempty) :
    IsLeast (rewritten earlier record) (record.placedAt (baseAfter earlier)).base.toNat ↔
      ∃ segment ∈ contents earlier,
        segment.Covers (record.placedAt (baseAfter earlier)).base.toNat :=
  ⟨fun hleast => hleast.1.1, fun hcovered => ⟨⟨hcovered, covers_start h⟩, start_mem_lowerBounds⟩⟩

/-- What is written again starts with the record, or with something that came before. -/
theorem starts_of_isLeast {lowest : Nat} (h : IsLeast (rewritten earlier record) lowest) :
    lowest = (record.placedAt (baseAfter earlier)).base.toNat ∨
      ∃ segment ∈ contents earlier, segment.base.toNat = lowest := by
  obtain ⟨⟨⟨segment, hmem, hlow, hhigh⟩, hfrom, hto⟩, hleast⟩ := h
  by_contra hneither
  push Not at hneither
  have hsegment := hneither.2 segment hmem
  -- Neither begins there, so both have the address in front of it as well.
  have hfront : lowest - 1 ∈ rewritten earlier record := by
    refine ⟨⟨segment, hmem, ?_, ?_⟩, ?_, ?_⟩ <;> omega
  have hbelow := hleast hfront
  omega

end

/--
**An overlap is reported at the start of the record that brings it.**

Some line behind lines that decide nothing holds data that have addresses in common with data
that came before, and the address that is named is the one at which these data start.  None of
the addresses in common lies below it.  The lowest of them is the named one if something that
came before has a byte there, and only then; otherwise it is where something that came before
starts.
-/
theorem read_overlapping {source : Source} {address : UInt32}
    (h : read source = .error (.overlapping address)) :
    ∃ before line after earlier record,
      source.HasLines (before ++ line :: after) ∧ Rewrites before line earlier record ∧
      (record.placedAt (baseAfter earlier)).base = address ∧
      (∃ lowest, IsLeast (rewritten earlier record) lowest ∧ address.toNat ≤ lowest ∧
        (lowest = address.toNat ∨ ∃ segment ∈ contents earlier, segment.base.toNat = lowest)) ∧
      (IsLeast (rewritten earlier record) address.toNat ↔
        ∃ segment ∈ contents earlier, segment.Covers address.toNat) := by
  classical
  obtain ⟨before, line, after, earlier, record, hlines, hrewrites, rfl⟩ :=
    read_eq_overlapping_iff.mp h
  have hleast := hrewrites.again.isLeast_natFind
  exact ⟨before, line, after, earlier, record, hlines, hrewrites, rfl,
    ⟨_, hleast, start_mem_lowerBounds hleast.1, starts_of_isLeast hleast⟩,
    isLeast_start_iff hrewrites.again⟩

/-- Data that start amid data from before: the named address is the first one written again. -/
theorem read_overlapping_amid :
    let source := Source.ofText ":0400000001020304F2\n:020002000909EA\n".toList
    read source = .error (.overlapping 2) ∧
      ∃ before line after earlier record,
        source.HasLines (before ++ line :: after) ∧ Rewrites before line earlier record ∧
        (record.placedAt (baseAfter earlier)).base = 2 ∧
        (∃ lowest, IsLeast (rewritten earlier record) lowest ∧ 2 ≤ lowest ∧
          (lowest = 2 ∨ ∃ segment ∈ contents earlier, segment.base.toNat = lowest)) ∧
        (IsLeast (rewritten earlier record) 2 ↔
          ∃ segment ∈ contents earlier, segment.Covers 2) := by
  intro source
  have h : read source = .error (.overlapping 2) := by decide +kernel
  exact ⟨h, read_overlapping h⟩

/-- Data that start in front of data from before: 4 is the first address that is written again,
and 2 is named, where nothing was. -/
theorem read_overlapping_front :
    let source := Source.ofText ":020004000102F7\n:0400020009090909D6\n:00000001FF\n".toList
    let earlier : List Record := [.data 4 [0x01, 0x02]]
    let record : Record := .data 2 [0x09, 0x09, 0x09, 0x09]
    read source = .error (.overlapping 2) ∧
      (∃ before line after, source.HasLines (before ++ line :: after) ∧
        Rewrites before line earlier record) ∧
      IsLeast (rewritten earlier record) 4 ∧ ¬IsLeast (rewritten earlier record) 2 := by
  intro source earlier record
  have hleast : IsLeast (rewritten earlier record) 4 := by
    refine ⟨⟨⟨⟨4, [0x01, 0x02]⟩, by decide, by decide, by decide⟩, by decide, by decide⟩, ?_⟩
    rintro address ⟨⟨segment, hmem, hlow, -⟩, -⟩
    obtain rfl := List.mem_singleton.mp hmem
    exact hlow
  have hearlier : Holds (Text.encode ":020004000102F7".toList) (.data 4 [0x01, 0x02]) :=
    holds_of_ofLine (by decide +kernel)
  have hundecided : Undecided [Text.encode ":020004000102F7".toList] earlier :=
    ⟨.record hearlier (by decide) .nothing, by decide +kernel, List.pairwise_singleton _ _⟩
  refine ⟨by decide +kernel, ⟨_, Text.encode ":0400020009090909D6".toList,
    [Text.encode ":00000001FF".toList], hasLines_iff.mpr (by decide +kernel), hundecided,
    holds_of_ofLine (by decide +kernel), rfl, by decide +kernel, 4, hleast.1⟩, hleast,
    fun hstart => absurd (hleast.2 hstart.1) (by decide)⟩

end UsbBoot.Image
