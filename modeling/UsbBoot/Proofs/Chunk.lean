/-
Cutting loses nothing.

Chunks of a segment are contiguous and hold its bytes, so a device that receives them in
order holds what the segment says.  Each chunk lies wholly on the chip or wholly outside:
the cuts at window edges see to that, because an address can only change sides at an edge.
Hence the chunks that touch an address all have the same mark, and sending the chunks of
one mark before those of the other changes nothing at any address.
-/
import UsbBoot.Proofs.Memory

namespace UsbBoot

variable {profile : Chip.Profile} {limit : Option Nat}

/-! ### Edges -/

theorem Chip.Profile.nearerEdge_le {edge other nearest : UInt32}
    (h : nearerEdge edge (some other) = some nearest) : nearest ≤ edge ∧ nearest ≤ other := by
  simp only [nearerEdge, Option.some.injEq] at h
  subst h
  split
  · rename_i hlt
    exact ⟨UInt32.le_of_lt hlt, UInt32.le_refl _⟩
  · rename_i hge
    exact ⟨UInt32.le_refl _, UInt32.not_lt.mp hge⟩

theorem Chip.Profile.foldr_nearerEdge_eq_none {edges : List UInt32}
    (h : edges.foldr nearerEdge none = none) : edges = [] := by
  cases edges with
  | nil => rfl
  | cons first rest =>
      rw [List.foldr_cons] at h
      cases hrest : rest.foldr nearerEdge none <;> simp [hrest, nearerEdge] at h

theorem Chip.Profile.foldr_nearerEdge_le {edges : List UInt32} {nearest : UInt32}
    (h : edges.foldr nearerEdge none = some nearest) : ∀ edge ∈ edges, nearest ≤ edge := by
  induction edges generalizing nearest with
  | nil => simp at h
  | cons first rest ih =>
      intro edge hmem
      rw [List.foldr_cons] at h
      cases hrest : rest.foldr nearerEdge none with
      | none =>
          rw [foldr_nearerEdge_eq_none hrest] at hmem
          simp only [hrest, nearerEdge, Option.some.injEq] at h
          rw [List.mem_singleton.mp hmem, h]
          exact UInt32.le_refl _
      | some other =>
          rw [hrest] at h
          obtain ⟨hfirst, hother⟩ := nearerEdge_le h
          rcases List.mem_cons.mp hmem with rfl | hin
          · exact hfirst
          · exact UInt32.le_trans hother (ih hrest edge hin)

/-- No edge lies between an address and the edge found after it. -/
theorem Chip.Profile.nextEdge?_le {address next edge : UInt32}
    (h : profile.nextEdge? address = some next) (hedge : edge ∈ profile.edges)
    (hlt : address < edge) : next ≤ edge :=
  foldr_nearerEdge_le h edge (List.mem_filter.mpr ⟨hedge, by simpa using hlt⟩)

theorem Chip.Profile.nextEdge?_ne_none {address edge : UInt32} (hedge : edge ∈ profile.edges)
    (hlt : address < edge) : profile.nextEdge? address ≠ none := by
  intro hnone
  have hmem : edge ∈ profile.edges.filter (address < ·) :=
    List.mem_filter.mpr ⟨hedge, by simpa using hlt⟩
  rw [foldr_nearerEdge_eq_none hnone] at hmem
  simp at hmem

theorem Chip.Profile.start_mem_edges {window : Chip.Window} (h : window ∈ profile.onChip) :
    window.start ∈ profile.edges :=
  List.mem_flatMap.mpr ⟨window, h, by simp⟩

theorem Chip.Profile.stop_mem_edges {window : Chip.Window} (h : window ∈ profile.onChip) :
    window.stop ∈ profile.edges :=
  List.mem_flatMap.mpr ⟨window, h, by simp⟩

/-! ### How much a chunk takes -/

theorem Chunk.limited_le (limit : Option Nat) (left : Nat) : limited limit left ≤ left := by
  cases limit <;> simp only [limited] <;> omega

theorem Chunk.limited_of_le {left count : Nat} (h : count ≤ limited limit left) :
    limited limit count = count := by
  cases limit <;> simp only [limited] at h ⊢
  omega

theorem Chunk.limited_eq (limit : Option Nat) (left : Nat) :
    limited limit left = left
      ∨ ∃ most, limit = some most ∧ limited limit left = max most 1 := by
  cases limit with
  | none => exact Or.inl rfl
  | some most =>
      simp only [limited, Option.some.injEq, exists_eq_left']
      omega

theorem Chunk.take_le_limited (profile : Chip.Profile) (limit : Option Nat) (address : UInt32)
    (left : Nat) : take profile limit address left ≤ limited limit left := by
  unfold take
  split <;> omega

theorem Chunk.take_le (profile : Chip.Profile) (limit : Option Nat) (address : UInt32)
    (left : Nat) : take profile limit address left ≤ left :=
  Nat.le_trans (take_le_limited profile limit address left) (limited_le limit left)

/-- A chunk ends at the next edge at the latest. -/
theorem Chunk.take_le_edge (limit : Option Nat) (left : Nat) {address edge : UInt32}
    (hedge : edge ∈ profile.edges) (hlt : address < edge) :
    address.toNat + take profile limit address left ≤ edge.toNat := by
  cases hnext : profile.nextEdge? address with
  | none => exact absurd hnext (Chip.Profile.nextEdge?_ne_none hedge hlt)
  | some next =>
      have hle := UInt32.le_iff_toNat_le.mp (Chip.Profile.nextEdge?_le hnext hedge hlt)
      have hafter := UInt32.lt_iff_toNat_lt.mp (Chip.Profile.lt_of_nextEdge? hnext)
      simp only [take, hnext]
      omega

/-- A chunk takes all that is left, or as much as a transfer may carry, or all up to an edge. -/
theorem Chunk.take_eq (profile : Chip.Profile) (limit : Option Nat) (address : UInt32)
    (left : Nat) : take profile limit address left = left
      ∨ (∃ most, limit = some most ∧ take profile limit address left = max most 1)
      ∨ ∃ edge ∈ profile.edges, address < edge
        ∧ take profile limit address left = edge.toNat - address.toNat := by
  have hlimited := limited_eq limit left
  cases hnext : profile.nextEdge? address with
  | none =>
      simp only [take, hnext]
      rcases hlimited with hall | hfull
      · exact Or.inl hall
      · exact Or.inr (Or.inl hfull)
  | some edge =>
      simp only [take, hnext]
      rcases Nat.le_total (limited limit left) (edge.toNat - address.toNat) with hle | hle
      · rw [Nat.min_eq_left hle]
        rcases hlimited with hall | hfull
        · exact Or.inl hall
        · exact Or.inr (Or.inl hfull)
      · rw [Nat.min_eq_right hle]
        have hmem := (List.mem_filter.mp (Chip.Profile.mem_of_foldr_nearerEdge hnext)).1
        exact Or.inr (Or.inr ⟨edge, hmem, Chip.Profile.lt_of_nextEdge? hnext, rfl⟩)

/-! ### Sound chunks -/

/-- What holds of every chunk that segments are cut into. -/
structure Chunk.Sound (profile : Chip.Profile) (limit : Option Nat) (chunk : Chunk) : Prop where
  /-- It carries something. -/
  nonempty : 0 < chunk.data.length
  /-- It is no longer than a transfer may be. -/
  bounded : limited limit chunk.data.length = chunk.data.length
  /-- It is marked by whether one window holds it. -/
  marked : chunk.onChip = profile.holds chunk.address chunk.data.length
  /-- No window begins or ends within it. -/
  uncut : ∀ edge ∈ profile.edges, chunk.address < edge →
    chunk.address.toNat + chunk.data.length ≤ edge.toNat

theorem runChunks_sound (profile : Chip.Profile) (limit : Option Nat) (address : UInt32)
    (bytes : List UInt8) : ∀ chunk ∈ runChunks profile limit address bytes,
      chunk.Sound profile limit := by
  fun_induction runChunks profile limit address bytes with
  | case1 => simp
  | case2 address first rest count ih =>
      intro chunk hmem
      rcases List.mem_cons.mp hmem with rfl | htail
      · have hle : count ≤ rest.length + 1 := Chunk.take_le ..
        have hlength : ((first :: rest).take count).length = count := by simp [hle]
        refine ⟨?_, ?_, ?_, ?_⟩
        · simpa [hlength] using Chunk.take_pos profile limit address (Nat.succ_pos _)
        · rw [hlength]
          exact Chunk.limited_of_le (Chunk.take_le_limited profile limit address _)
        · rw [hlength]
        · intro edge hedge hlt
          rw [hlength]
          exact Chunk.take_le_edge limit _ hedge hlt
      · exact ih chunk htail

theorem chunks_sound (profile : Chip.Profile) (limit : Option Nat) (segments : List Segment) :
    ∀ chunk ∈ chunks profile limit segments, chunk.Sound profile limit := by
  intro chunk hmem
  obtain ⟨segment, -, hchunk⟩ := List.mem_flatMap.mp hmem
  exact runChunks_sound profile limit segment.base segment.bytes chunk hchunk

/-- All addresses of a chunk are on the side it is marked for. -/
theorem Chunk.Sound.isOnChip {chunk : Chunk} (h : chunk.Sound profile limit) {address : Nat}
    (hlow : chunk.address.toNat ≤ address)
    (hhigh : address < chunk.address.toNat + chunk.data.length) :
    profile.isOnChip address = chunk.onChip := by
  rw [h.marked, Bool.eq_iff_iff]
  simp only [Chip.Profile.isOnChip, Chip.Profile.holds, List.any_eq_true, Chip.Window.contains,
    Chip.Window.holds, Bool.and_eq_true, decide_eq_true_eq]
  constructor
  · rintro ⟨window, hmem, hstart, hstop⟩
    refine ⟨window, hmem, ?_, ?_⟩
    · refine Nat.le_of_not_lt fun hafter => ?_
      have := h.uncut window.start (Chip.Profile.start_mem_edges hmem)
        (UInt32.lt_iff_toNat_lt.mpr hafter)
      omega
    · exact h.uncut window.stop (Chip.Profile.stop_mem_edges hmem)
        (UInt32.lt_iff_toNat_lt.mpr (by omega))
  · rintro ⟨window, hmem, hstart, hstop⟩
    exact ⟨window, hmem, by omega, by omega⟩

/-! ### The chunks of a segment make up the segment -/

def Chunk.segment (chunk : Chunk) : Segment :=
  ⟨chunk.address, chunk.data⟩

theorem runChunks_nil (profile : Chip.Profile) (limit : Option Nat) (address : UInt32) :
    runChunks profile limit address [] = [] := by
  rw [runChunks]

theorem bytesOf_runChunks (profile : Chip.Profile) (limit : Option Nat) (address : UInt32)
    (bytes : List UInt8) :
    bytesOf ((runChunks profile limit address bytes).map Chunk.segment) = bytes := by
  fun_induction runChunks profile limit address bytes with
  | case1 => rfl
  | case2 address first rest count ih =>
      rw [List.map_cons, bytesOf_cons, ih]
      exact List.take_append_drop count (first :: rest)

theorem contiguous_runChunks (profile : Chip.Profile) (limit : Option Nat) (address : UInt32)
    (bytes : List UInt8) (h : (Segment.mk address bytes).Fits) :
    Contiguous address.toNat ((runChunks profile limit address bytes).map Chunk.segment) := by
  fun_induction runChunks profile limit address bytes with
  | case1 => trivial
  | case2 address first rest count ih =>
      have hrest := ih h.drop
      refine ⟨rfl, ?_⟩
      by_cases hlast : count < (first :: rest).length
      · have hlength : ((first :: rest).take count).length = count := by
          rw [List.length_take, Nat.min_eq_left (Nat.le_of_lt hlast)]
        rw [h.toNat_next hlast] at hrest
        simpa [Chunk.segment, Segment.length, hlength] using hrest
      · -- Behind the last chunk nothing is left to be placed, even where addresses end.
        rw [List.drop_eq_nil_of_le (Nat.le_of_not_lt hlast), runChunks_nil]
        trivial

/-- The chunks of segments put the same byte at each address as the segments do. -/
theorem byteAt?_chunks (profile : Chip.Profile) (limit : Option Nat) {segments : List Segment}
    (hfits : ∀ segment ∈ segments, segment.Fits) :
    (Image.mk ((chunks profile limit segments).map Chunk.segment)).byteAt?
      = (Image.mk segments).byteAt? := by
  induction segments with
  | nil => rfl
  | cons segment rest ih =>
      have hsegment := contiguous_runChunks profile limit segment.base segment.bytes
        (hfits segment List.mem_cons_self)
      have hrest := ih fun other hmem => hfits other (List.mem_cons_of_mem _ hmem)
      funext address
      rw [chunks, List.flatMap_cons, List.map_append, Image.byteAt?_append, ← chunks, hrest,
        hsegment.byteAt?, bytesOf_runChunks, Image.byteAt?_cons, Segment.byteAt?_eq]

/-! ### Every byte in its place -/

/-- The bytes of a segment, each with its address. -/
def Segment.placed (segment : Segment) : List (Nat × UInt8) :=
  segment.bytes.mapIdx fun i byte => (segment.base.toNat + i, byte)

def placedOf (segments : List Segment) : List (Nat × UInt8) :=
  segments.flatMap Segment.placed

theorem Segment.mem_placed {segment : Segment} {address : Nat} {byte : UInt8} :
    (address, byte) ∈ segment.placed ↔ segment.byteAt? address = some byte := by
  rw [placed, List.mem_mapIdx, byteAt?]
  constructor
  · rintro ⟨i, hi, heq⟩
    obtain ⟨rfl, rfl⟩ := Prod.mk.inj heq
    simp [hi]
  · intro h
    split at h
    · rename_i hle
      obtain ⟨hi, rfl⟩ := List.getElem?_eq_some_iff.mp h
      exact ⟨address - segment.base.toNat, hi, by simp [Nat.add_sub_cancel' hle]⟩
    · cases h

theorem mem_placedOf {segments : List Segment} {address : Nat} {byte : UInt8} :
    (address, byte) ∈ placedOf segments
      ↔ ∃ segment ∈ segments, segment.byteAt? address = some byte := by
  simp only [placedOf, List.mem_flatMap, Segment.mem_placed]

@[simp] theorem placedOf_append (front back : List Segment) :
    placedOf (front ++ back) = placedOf front ++ placedOf back := by
  simp [placedOf]

theorem Contiguous.placedOf {address : Nat} {segments : List Segment}
    (h : Contiguous address segments) :
    placedOf segments = (bytesOf segments).mapIdx fun i byte => (address + i, byte) := by
  induction segments generalizing address with
  | nil => rfl
  | cons segment rest ih =>
      obtain ⟨rfl, hrest⟩ := h
      have htail := ih hrest
      simp only [UsbBoot.placedOf] at htail
      simp only [UsbBoot.placedOf, List.flatMap_cons, htail, bytesOf_cons, List.mapIdx_append,
        Segment.placed, Segment.length]
      simp only [Nat.add_assoc, Nat.add_comm segment.bytes.length]

/-- Cutting segments up places each byte once, where it was. -/
theorem placedOf_chunks (profile : Chip.Profile) (limit : Option Nat) {segments : List Segment}
    (hfits : ∀ segment ∈ segments, segment.Fits) :
    placedOf ((chunks profile limit segments).map Chunk.segment) = placedOf segments := by
  induction segments with
  | nil => rfl
  | cons segment rest ih =>
      have hsegment := contiguous_runChunks profile limit segment.base segment.bytes
        (hfits segment List.mem_cons_self)
      have hrest := ih fun other hmem => hfits other (List.mem_cons_of_mem _ hmem)
      rw [chunks, List.flatMap_cons, List.map_append, placedOf_append, ← chunks, hrest,
        hsegment.placedOf, bytesOf_runChunks]
      rfl

/-! ### Sending one side before the other -/

theorem Chunk.Sound.byteAt?_eq_none {chunk : Chunk} (h : chunk.Sound profile limit)
    {address : Nat} (hside : profile.isOnChip address ≠ chunk.onChip) :
    chunk.segment.byteAt? address = none := by
  by_cases hlow : address < chunk.address.toNat
  · exact Memory.stretch_of_lt _ hlow
  · refine Memory.stretch_of_le (Nat.le_of_not_lt fun hhigh => hside ?_)
    exact h.isOnChip (Nat.not_lt.mp hlow) hhigh

/-- Chunks that put no byte at an address can be left out there. -/
theorem byteAt?_filter (keep : Chunk → Bool) {list : List Chunk} {address : Nat}
    (h : ∀ chunk ∈ list, keep chunk = false → chunk.segment.byteAt? address = none) :
    (Image.mk ((list.filter keep).map Chunk.segment)).byteAt? address
      = (Image.mk (list.map Chunk.segment)).byteAt? address := by
  induction list with
  | nil => rfl
  | cons chunk rest ih =>
      have hrest := ih fun other hmem => h other (List.mem_cons_of_mem _ hmem)
      rw [List.map_cons, Image.byteAt?_cons]
      cases hkeep : keep chunk with
      | true => rw [List.filter_cons_of_pos hkeep, List.map_cons, Image.byteAt?_cons, hrest]
      | false =>
          rw [List.filter_cons_of_neg (by simp [hkeep]), hrest,
            h chunk List.mem_cons_self hkeep, Option.or_none]

/-- **Sending what lies outside the chip first changes nothing at any address.** -/
theorem byteAt?_sides {list : List Chunk} (h : ∀ chunk ∈ list, chunk.Sound profile limit) :
    (Image.mk ((list.filter (!·.onChip) ++ list.filter (·.onChip)).map Chunk.segment)).byteAt?
      = (Image.mk (list.map Chunk.segment)).byteAt? := by
  funext address
  rw [List.map_append, Image.byteAt?_append]
  -- Of the two sides, the one the address is not on has nothing to say about it.
  have hother : ∀ keep : Chunk → Bool,
      (∀ chunk, keep chunk = true → profile.isOnChip address ≠ chunk.onChip) →
      (Image.mk ((list.filter keep).map Chunk.segment)).byteAt? address = none := by
    intro keep hkeep
    refine Image.byteAt?_eq_none fun segment hmem => ?_
    obtain ⟨chunk, hchunk, rfl⟩ := List.mem_map.mp hmem
    obtain ⟨hin, hkept⟩ := List.mem_filter.mp hchunk
    exact (h chunk hin).byteAt?_eq_none (hkeep chunk hkept)
  have hown : ∀ keep : Chunk → Bool,
      (∀ chunk, keep chunk = false → profile.isOnChip address ≠ chunk.onChip) →
      (Image.mk ((list.filter keep).map Chunk.segment)).byteAt? address
        = (Image.mk (list.map Chunk.segment)).byteAt? address :=
    fun keep hkeep => byteAt?_filter keep fun chunk hin hdropped =>
      (h chunk hin).byteAt?_eq_none (hkeep chunk hdropped)
  cases hside : profile.isOnChip address with
  | true =>
      rw [hown (·.onChip) (by simp [hside]), hother (!·.onChip) (by simp [hside]),
        Option.or_none]
  | false =>
      rw [hother (·.onChip) (by simp [hside]), hown (!·.onChip) (by simp [hside]),
        Option.none_or]

end UsbBoot
