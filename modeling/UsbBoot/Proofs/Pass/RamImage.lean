/-
A RAM pass leaves the image in memory.

Segments are put into memory one after the other, so where they meet the last one counts.
The pass cuts them into chunks and sends those outside the chip first.  Neither shows in
what is left behind: chunks of a segment make up the segment, and chunks that touch one
address are all on the same side of the edges, so none of them overtakes another.

What is left does not depend on how much one transfer may carry, nor on what else the
profile says.
-/
import UsbBoot.Proofs.Chunk
import UsbBoot.Proofs.Pass.Answer
import UsbBoot.Proofs.Pass.RamScript

namespace UsbBoot

variable {σ : Type}

theorem ControlWrite.byteAt?_of_touches {write : ControlWrite} {address : Nat}
    (h : write.touches address) : ∃ byte, write.segment.byteAt? address = some byte :=
  Option.isSome_iff_exists.mp (Memory.stretch_of_inside h.1 h.2)

namespace Pass

/-! ### The firmware of a RAM pass -/

theorem map_segment_chunkWrites (request : Request) (list : List Chunk) :
    (chunkWrites request list).map ControlWrite.segment = list.map Chunk.segment := by
  simp [chunkWrites, Chunk.write, ControlWrite.segment, Chunk.segment, Function.comp_def]

/-- The writes that carry firmware: those outside the chip, then those on it. -/
def firmwareWrites (list : List Chunk) : List ControlWrite :=
  externalWrites list ++ onChipWrites list

theorem map_segment_firmwareWrites (list : List Chunk) :
    (firmwareWrites list).map ControlWrite.segment
      = (list.filter (!·.onChip) ++ list.filter (·.onChip)).map Chunk.segment := by
  rw [firmwareWrites, List.map_append, externalWrites, onChipWrites, map_segment_chunkWrites,
    map_segment_chunkWrites, List.map_append]

/-- A write of firmware is a chunk by the request for its side. -/
theorem mem_firmwareWrites {list : List Chunk} {write : ControlWrite}
    (h : write ∈ firmwareWrites list) : ∃ chunk ∈ list,
      write = chunk.write (if chunk.onChip then .onChip else .external) := by
  rcases List.mem_append.mp h with hexternal | honChip
  · obtain ⟨chunk, hchunk, rfl⟩ := mem_chunkWrites hexternal
    obtain ⟨hin, hside⟩ := List.mem_filter.mp hchunk
    have houtside : chunk.onChip = false := by simpa using hside
    exact ⟨chunk, hin, by simp [houtside]⟩
  · obtain ⟨chunk, hchunk, rfl⟩ := mem_chunkWrites honChip
    obtain ⟨hin, hside⟩ := List.mem_filter.mp hchunk
    exact ⟨chunk, hin, by simp [hside]⟩

section

variable {profile : Chip.Profile} {limit : Option Nat} {list : List Chunk}

/-- Every byte goes by the request for the side its address is on. -/
theorem request_firmwareWrites (hsound : ∀ chunk ∈ list, chunk.Sound profile limit)
    {write : ControlWrite} (hmem : write ∈ firmwareWrites list) {address : Nat}
    (htouches : write.touches address) :
    write.request = if profile.isOnChip address then .onChip else .external := by
  obtain ⟨chunk, hin, rfl⟩ := mem_firmwareWrites hmem
  rw [(hsound chunk hin).isOnChip htouches.1 htouches.2]
  rfl

/-- Replaying the firmware is loading the chunks in image order. -/
theorem replay_firmwareWrites (hsound : ∀ chunk ∈ list, chunk.Sound profile limit)
    (memory : Memory) :
    memory.replay (firmwareWrites list) = memory.load (list.map Chunk.segment) := by
  rw [Memory.replay, map_segment_firmwareWrites, Memory.load_eq_onto, byteAt?_sides hsound,
    Memory.load_eq_onto]

theorem placedOf_firmwareWrites (list : List Chunk) :
    (placedOf ((firmwareWrites list).map ControlWrite.segment)).Perm
      (placedOf (list.map Chunk.segment)) := by
  rw [map_segment_firmwareWrites]
  have hsides : (list.filter (!·.onChip) ++ list.filter (·.onChip)).Perm list :=
    List.perm_append_comm.trans (List.filter_append_perm (·.onChip) list)
  exact (hsides.map Chunk.segment).flatMap_right Segment.placed

end

/--
**A RAM pass writes the image, and nothing else.**

On a calm port a RAM pass that is allowed succeeds.  Its writes are the firmware around
the halt, and the release.  They touch no address that no segment puts a byte at, and every
byte of the image is sent to its address once, by the request for the side it is on.
Whatever was in memory before, the firmware leaves there what loading the segments one
after the other leaves.
-/
theorem run_loads_image {port : Port σ} (hcalm : port.Calm) (target : Target) (pass : String)
    (plan : Plan) (engine : Engine) (state : σ)
    (hram : plan.destination = .ram)
    (hallowed : plan.obstacle? target.profile = none)
    (hfits : ∀ segment ∈ plan.segments, segment.Fits) :
    let result := run port target pass plan engine state
    result.failure = none ∧ result.engine.phase = .done ∧
      ∃ external onChip,
        writes result.events = external ++ [holdWrite target.profile] ++ onChip
          ++ [releaseWrite target.profile] ∧
        (∀ write ∈ external ++ onChip, ∀ address, write.touches address →
          (∃ segment ∈ plan.segments, (segment.byteAt? address).isSome = true) ∧
            write.request = if target.profile.isOnChip address then .onChip else .external) ∧
        (placedOf ((external ++ onChip).map ControlWrite.segment)).Perm
          (placedOf plan.segments) ∧
        ∀ memory : Memory, memory.replay (external ++ onChip) = memory.load plan.segments := by
  intro result
  have hscript : script target.profile target.identity plan
      = ramScript target.profile (plan.chunks target.profile) := script_of_ram _ _ hram
  have hfeasible : Feasible (script target.profile target.identity plan) := by
    rw [hscript]
    exact feasible_ramScript _ _
  obtain ⟨hevents, hfailure, hphase, -⟩ :=
    run_calm hcalm target pass engine state hallowed hfeasible
  have hsound : ∀ chunk ∈ plan.chunks target.profile, chunk.Sound target.profile _ :=
    chunks_sound target.profile (plan.limit target.profile) plan.segments
  have hplaced := placedOf_firmwareWrites (plan.chunks target.profile)
  rw [Plan.chunks, placedOf_chunks target.profile _ hfits] at hplaced
  refine ⟨hfailure, hphase, externalWrites (plan.chunks target.profile),
    onChipWrites (plan.chunks target.profile), ?_, ?_, hplaced, ?_⟩
  · rw [writes_of_seen hevents, hscript, sends_ramScript]
    rfl
  · intro write hmem address htouches
    refine ⟨?_, request_firmwareWrites hsound hmem htouches⟩
    obtain ⟨byte, hbyte⟩ := write.byteAt?_of_touches htouches
    have hsent := mem_placedOf.mpr ⟨write.segment, List.mem_map_of_mem hmem, hbyte⟩
    obtain ⟨segment, hsegment, hfound⟩ := mem_placedOf.mp (hplaced.subset hsent)
    exact ⟨segment, hsegment, by simp [hfound]⟩
  · intro memory
    have hreplay := replay_firmwareWrites hsound memory
    rw [Plan.chunks, Memory.load_eq_onto, byteAt?_chunks _ _ hfits, ← Memory.load_eq_onto]
      at hreplay
    exact hreplay

/-- Two segments that meet on both sides of an edge: the second one counts on either side,
although its part on the chip is sent after the part of the first one outside. -/
theorem run_loads_image_overlapping :
    let plan : Plan := .throughLoader [⟨0x1FFE, [1, 2, 3, 4]⟩, ⟨0x1FFF, [5, 6]⟩]
    let result := run (Schedule.calm.port "loader") blankPart "firmware" plan .fresh ⟨0, 0⟩
    plan.obstacle? blankPart.profile = none ∧ (∀ segment ∈ plan.segments, segment.Fits) ∧
      result.failure = none ∧
      ∃ external onChip,
        writes result.events = external ++ [holdWrite blankPart.profile] ++ onChip
          ++ [releaseWrite blankPart.profile] ∧
        (Memory.unknown.replay (external ++ onChip)).read? 0x1FFE 4 = some [1, 5, 6, 4] := by
  intro plan result
  have hfits : ∀ segment ∈ plan.segments, segment.Fits := by decide
  obtain ⟨hfailure, -, external, onChip, hwrites, -, -, hreplay⟩ :=
    run_loads_image (Schedule.port_calm "loader") blankPart "firmware" plan .fresh ⟨0, 0⟩
      rfl rfl hfits
  refine ⟨rfl, hfits, hfailure, external, onChip, hwrites, ?_⟩
  rw [hreplay]
  rfl

end Pass
end UsbBoot
