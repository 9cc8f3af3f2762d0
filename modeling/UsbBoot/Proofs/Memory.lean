/-
What writes leave behind.

A memory says of every address which byte is known to stand there, if any is.  Memories
are laid onto one another: where the upper one knows a byte it hides the lower one.  A
stretch of bytes is a memory of its own, so putting bytes somewhere is laying a stretch
onto what was there, and putting them twice or in two pieces is a law about `onto`.

Segments, chunks and writes are all stretches of bytes.  Only segments are loaded into a
memory here; the other two are looked at as segments.
-/
import UsbBoot.Chunk
import UsbBoot.Pass.Port

namespace UsbBoot

/-- What is known of the byte at each address. -/
abbrev Memory : Type :=
  Nat → Option UInt8

namespace Memory

/-- The memory of which nothing is known. -/
def unknown : Memory :=
  fun _ => none

/-- The memory that knows some bytes, one after the other from an address on. -/
def stretch (base : Nat) (bytes : List UInt8) : Memory :=
  fun address => if base ≤ address then bytes[address - base]? else none

/-- One memory laid onto another. -/
def onto (upper lower : Memory) : Memory :=
  fun address => (upper address).or (lower address)

/-- The bytes from an address on, if all of them are known. -/
def read? (memory : Memory) : Nat → Nat → Option (List UInt8)
  | _, 0 => some []
  | address, length + 1 => do
    let byte ← memory address
    let rest ← memory.read? (address + 1) length
    return byte :: rest

/-! ### Laying memories onto one another -/

theorem onto_apply (upper lower : Memory) (address : Nat) :
    (upper.onto lower) address = (upper address).or (lower address) := rfl

@[simp] theorem onto_unknown (memory : Memory) : memory.onto unknown = memory := by
  funext address
  simp [onto, unknown]

theorem onto_assoc (upper middle lower : Memory) :
    (upper.onto middle).onto lower = upper.onto (middle.onto lower) := by
  funext address
  exact Option.or_assoc

/-- Memories that never know the same address can be laid in either order. -/
theorem onto_comm {upper lower : Memory}
    (h : ∀ address, upper address = none ∨ lower address = none) :
    upper.onto lower = lower.onto upper := by
  funext address
  rcases h address with hnone | hnone <;> simp [onto, hnone]

/-! ### Stretches -/

@[simp] theorem stretch_nil (base : Nat) : stretch base [] = unknown := by
  funext address
  simp [stretch, unknown]

theorem stretch_of_lt {base address : Nat} (bytes : List UInt8) (h : address < base) :
    stretch base bytes address = none := by
  simp [stretch, Nat.not_le.mpr h]

theorem stretch_of_le {base address : Nat} {bytes : List UInt8}
    (h : base + bytes.length ≤ address) : stretch base bytes address = none := by
  have hpast : bytes[address - base]? = none := List.getElem?_eq_none (by omega)
  simp [stretch, hpast]

theorem stretch_of_inside {base address : Nat} {bytes : List UInt8} (hlow : base ≤ address)
    (hhigh : address < base + bytes.length) : (stretch base bytes address).isSome = true := by
  have hlt : address - base < bytes.length := by omega
  simp [stretch, hlow, hlt]

theorem stretch_isSome (base : Nat) (bytes : List UInt8) (address : Nat) :
    (stretch base bytes address).isSome = true
      ↔ base ≤ address ∧ address < base + bytes.length := by
  constructor
  · intro h
    refine ⟨Nat.le_of_not_lt fun hlow => ?_, Nat.lt_of_not_le fun hhigh => ?_⟩
    · simp [stretch_of_lt bytes hlow] at h
    · simp [stretch_of_le hhigh] at h
  · rintro ⟨hlow, hhigh⟩
    exact stretch_of_inside hlow hhigh

/-- Two stretches, one starting where the other ends, make up one. -/
theorem stretch_append (base : Nat) (xs ys : List UInt8) :
    stretch base (xs ++ ys) = (stretch base xs).onto (stretch (base + xs.length) ys) := by
  funext address
  rw [onto_apply]
  by_cases hlow : address < base
  · rw [stretch_of_lt _ hlow, stretch_of_lt _ hlow, stretch_of_lt _ (by omega)]
    rfl
  · by_cases hmid : address < base + xs.length
    · have hlt : address - base < xs.length := by omega
      simp [stretch, Nat.not_lt.mp hlow, hlt, List.getElem?_append_left hlt]
    · have hge : xs.length ≤ address - base := by omega
      rw [stretch_of_le (Nat.not_lt.mp hmid)]
      simp [stretch, Nat.not_lt.mp hlow, Nat.not_lt.mp hmid, List.getElem?_append_right hge,
        Nat.sub_sub]

/-- Stretches that do not meet can be laid in either order. -/
theorem stretch_onto_comm {base other : Nat} {xs ys : List UInt8} (h : base + xs.length ≤ other) :
    (stretch base xs).onto (stretch other ys) = (stretch other ys).onto (stretch base xs) := by
  refine onto_comm fun address => ?_
  by_cases hlt : address < other
  · exact Or.inr (stretch_of_lt _ hlt)
  · exact Or.inl (stretch_of_le (by omega))

/-- A stretch hides a shorter one at the same place. -/
theorem stretch_onto_shorter (base : Nat) {xs ys : List UInt8} (h : ys.length ≤ xs.length) :
    (stretch base xs).onto (stretch base ys) = stretch base xs := by
  funext address
  rw [onto_apply]
  by_cases hinside : base ≤ address ∧ address < base + xs.length
  · have hsome := stretch_of_inside hinside.1 hinside.2
    exact Option.or_of_isSome hsome
  · have hnone : stretch base ys address = none := by
      by_cases hlow : address < base
      · exact stretch_of_lt _ hlow
      · exact stretch_of_le (by omega)
    rw [hnone, Option.or_none]

theorem stretch_behind (start : Nat) (front back : List UInt8) (i : Nat) :
    stretch start (front ++ back) (start + front.length + i) = back[i]? := by
  have hbehind : start + front.length + i - start = front.length + i := by omega
  simp only [stretch, hbehind]
  rw [if_pos (by omega), List.getElem?_append_right (by omega), Nat.add_sub_cancel_left]

theorem read?_stretch (start : Nat) (front middle back : List UInt8) :
    (stretch start (front ++ middle ++ back)).read? (start + front.length) middle.length
      = some middle := by
  induction middle generalizing front with
  | nil => rfl
  | cons byte rest ih =>
      have hbyte : stretch start (front ++ byte :: rest ++ back) (start + front.length)
          = some byte := by
        simp [stretch]
      have hrest := ih (front ++ [byte])
      simp only [List.append_assoc, List.singleton_append, List.length_append,
        List.length_singleton] at hrest hbyte ⊢
      rw [List.length_cons, read?, hbyte]
      simp only [Nat.add_assoc, List.cons_append] at hrest ⊢
      simp [hrest]

end Memory

/-! ### Segments -/

theorem Segment.byteAt?_eq (segment : Segment) (address : Nat) :
    segment.byteAt? address = Memory.stretch segment.base.toNat segment.bytes address := rfl

@[simp] theorem Image.byteAt?_nil (address : Nat) : (Image.mk []).byteAt? address = none := rfl

theorem Image.byteAt?_append (front back : List Segment) (address : Nat) :
    (Image.mk (front ++ back)).byteAt? address
      = ((Image.mk back).byteAt? address).or ((Image.mk front).byteAt? address) := by
  simp only [Image.byteAt?, List.reverse_append]
  exact List.findSome?_append

theorem Image.byteAt?_cons (segment : Segment) (rest : List Segment) (address : Nat) :
    (Image.mk (segment :: rest)).byteAt? address
      = ((Image.mk rest).byteAt? address).or (segment.byteAt? address) := by
  rw [show segment :: rest = [segment] ++ rest from rfl, Image.byteAt?_append]
  congr 1
  simp [Image.byteAt?]

theorem Image.byteAt?_eq_none {segments : List Segment} {address : Nat}
    (h : ∀ segment ∈ segments, segment.byteAt? address = none) :
    (Image.mk segments).byteAt? address = none := by
  unfold Image.byteAt?
  rw [List.findSome?_eq_none_iff]
  intro segment hmem
  exact h segment (List.mem_reverse.mp hmem)

/-- The memory after segments were put into it one after the other. -/
def Memory.load (memory : Memory) (segments : List Segment) : Memory :=
  segments.foldl
    (fun memory segment => (stretch segment.base.toNat segment.bytes).onto memory) memory

@[simp] theorem Memory.load_nil (memory : Memory) : memory.load [] = memory := rfl

theorem Memory.load_cons (memory : Memory) (segment : Segment) (rest : List Segment) :
    memory.load (segment :: rest)
      = ((stretch segment.base.toNat segment.bytes).onto memory).load rest := rfl

theorem Memory.load_append (memory : Memory) (front back : List Segment) :
    memory.load (front ++ back) = (memory.load front).load back := by
  simp [Memory.load]

/-- Loading lays the image onto the memory: of segments that meet, the last one counts, and
where there is none the memory is as before. -/
theorem Memory.load_eq_onto (memory : Memory) (segments : List Segment) :
    memory.load segments = Memory.onto (Image.mk segments).byteAt? memory := by
  induction segments generalizing memory with
  | nil => rfl
  | cons segment rest ih =>
      funext address
      rw [Memory.load_cons, ih, Memory.onto_apply, Memory.onto_apply, Memory.onto_apply,
        Image.byteAt?_cons, Option.or_assoc, Segment.byteAt?_eq]

/-! ### Segments that fit -/

section

variable {address : UInt32} {bytes : List UInt8} {count : Nat}
  (hfits : (Segment.mk address bytes).Fits)
include hfits

/-- Short of the end of a segment that fits, addresses do not start over. -/
theorem Segment.Fits.toNat_next (hlt : count < bytes.length) :
    (address + count.toUInt32).toNat = address.toNat + count := by
  simp only [Segment.Fits, Segment.stop, Segment.length, addressLimit, longLimit] at hfits
  rw [UInt32.toNat_add, Nat.toUInt32_eq, UInt32.toNat_ofNat']
  omega

theorem Segment.Fits.drop : (Segment.mk (address + count.toUInt32) (bytes.drop count)).Fits := by
  by_cases hlt : count < bytes.length
  · have hnext := hfits.toNat_next hlt
    simp only [Segment.Fits, Segment.stop, Segment.length, List.length_drop] at hfits ⊢
    omega
  · have hempty : bytes.drop count = [] := List.drop_eq_nil_of_le (Nat.le_of_not_lt hlt)
    rw [hempty]
    exact Nat.le_of_lt (address + count.toUInt32).toNat_lt

end

/-! ### Segments that make up one stretch -/

/-- Each segment starts where the one before it ends, the first one at the given address. -/
def Contiguous : Nat → List Segment → Prop
  | _, [] => True
  | address, segment :: rest =>
    segment.base.toNat = address ∧ Contiguous (address + segment.length) rest

/-- The bytes of some segments, one after the other. -/
def bytesOf (segments : List Segment) : List UInt8 :=
  segments.flatMap Segment.bytes

@[simp] theorem bytesOf_nil : bytesOf [] = [] := rfl

@[simp] theorem bytesOf_cons (segment : Segment) (rest : List Segment) :
    bytesOf (segment :: rest) = segment.bytes ++ bytesOf rest := by
  simp [bytesOf]

@[simp] theorem bytesOf_append (front back : List Segment) :
    bytesOf (front ++ back) = bytesOf front ++ bytesOf back := by
  simp [bytesOf]

theorem contiguous_append {address : Nat} {front back : List Segment}
    (hfront : Contiguous address front)
    (hback : Contiguous (address + (bytesOf front).length) back) :
    Contiguous address (front ++ back) := by
  induction front generalizing address with
  | nil => simpa using hback
  | cons segment rest ih =>
      refine ⟨hfront.1, ih hfront.2 ?_⟩
      simpa [Segment.length, Nat.add_assoc] using hback

/-- Contiguous segments know what a single stretch of all their bytes knows. -/
theorem Contiguous.byteAt? {address : Nat} {segments : List Segment}
    (h : Contiguous address segments) :
    (Image.mk segments).byteAt? = Memory.stretch address (bytesOf segments) := by
  induction segments generalizing address with
  | nil =>
      funext place
      simp [Memory.unknown]
  | cons segment rest ih =>
      obtain ⟨rfl, hrest⟩ := h
      funext place
      rw [Image.byteAt?_cons, ih hrest, bytesOf_cons, Memory.stretch_append,
        Memory.stretch_onto_comm (Nat.le_refl _)]
      rfl

theorem Contiguous.load {address : Nat} {segments : List Segment}
    (h : Contiguous address segments) (memory : Memory) :
    memory.load segments = (Memory.stretch address (bytesOf segments)).onto memory := by
  rw [Memory.load_eq_onto, h.byteAt?]

/-! ### Writes -/

def ControlWrite.segment (write : ControlWrite) : Segment :=
  ⟨write.address, write.data⟩

/-- Whether a write puts a byte at an address. -/
def ControlWrite.touches (write : ControlWrite) (address : Nat) : Prop :=
  write.address.toNat ≤ address ∧ address < write.address.toNat + write.data.length

def Memory.replay (memory : Memory) (writes : List ControlWrite) : Memory :=
  memory.load (writes.map ControlWrite.segment)

end UsbBoot
