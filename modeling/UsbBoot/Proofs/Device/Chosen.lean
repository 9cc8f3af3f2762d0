/-
Which device is chosen.

With a pair of numbers there is nothing to choose: the devices on the bus are not even looked
at.  With a family alone it counts which pairs of that family are attached, and not how often
or in which order; only the wording of the complaint that there are several may depend on that.
With nothing at all the order decides, and it is the order of the list of known devices: the
first one listed is taken.

None of this asks how the table came about.
-/
import UsbBoot.Job.Run
import UsbBoot.Proofs.Device.Table
import UsbBoot.Proofs.Output

namespace UsbBoot.Device

/-! ### Pairs of a family -/

/-- The pair is that of an attached device, and by the table it belongs to the family. -/
def Present (table : Table) (family : Chip.Family) (devices : List Info) (id : Id) : Prop :=
  (∃ device ∈ devices, device.id = id) ∧
    ∃ known, table.lookup id = some known ∧ known.family = family

variable {table : Table} {family : Chip.Family} {devices : List Info}

theorem mem_candidates {known : Known} :
    known ∈ candidates table family devices ↔
      known.family = family ∧ ∃ device ∈ devices, table.lookup device.id = some known := by
  simp only [candidates, List.mem_eraseDups, List.mem_filter, List.mem_filterMap, beq_iff_eq]
  exact and_comm

/-- A candidate is what is found for its own pair, so candidates differ by their pairs. -/
theorem lookup_of_mem_candidates {known : Known} (h : known ∈ candidates table family devices) :
    table.lookup known.id = some known := by
  obtain ⟨-, device, -, hlookup⟩ := mem_candidates.mp h
  rwa [Table.id_of_lookup hlookup]

theorem present_iff {id : Id} :
    Present table family devices id
      ↔ ∃ known ∈ candidates table family devices, known.id = id := by
  constructor
  · rintro ⟨⟨device, hmem, rfl⟩, known, hlookup, hfamily⟩
    exact ⟨known, mem_candidates.mpr ⟨hfamily, device, hmem, hlookup⟩,
      Table.id_of_lookup hlookup⟩
  · rintro ⟨known, hmem, rfl⟩
    obtain ⟨hfamily, device, hdevice, hlookup⟩ := mem_candidates.mp hmem
    exact ⟨⟨device, hdevice, (Table.id_of_lookup hlookup).symm⟩, known,
      lookup_of_mem_candidates hmem, hfamily⟩

theorem ne_of_eraseDups {α : Type} [DecidableEq α] {list rest : List α} {first second : α}
    (h : list.eraseDups = first :: second :: rest) : second ≠ first := by
  cases list with
  | nil => simp at h
  | cons head tail =>
      rw [List.eraseDups_cons] at h
      obtain ⟨rfl, htail⟩ := List.cons.inj h
      have hmem : second ∈ (tail.filter fun other => !other == head).eraseDups := by
        rw [htail]
        exact List.mem_cons_self
      simpa using (List.mem_filter.mp (List.mem_eraseDups.mp hmem)).2

/-! ### Asking for a family -/

/-- What asking for a family comes to, by the pairs of it that are present. -/
inductive Found (present : Id → Prop) (family : Chip.Family) : Except Failure Resolved → Prop
  | nobody (hnone : ∀ id, ¬present id) : Found present family (.error .notFound)
  | only (id : Id) (honly : ∀ other, present other ↔ other = id) :
    Found present family (.ok ⟨id, family, .explicit⟩)
  | several (one other : Id) (detail : String) (hne : one ≠ other) (hone : present one)
    (hother : present other) : Found present family (.error (.ambiguous detail))

theorem found_resolve (table : Table) (family : Chip.Family) (devices : List Info) :
    Found (Present table family devices) family (resolve table ⟨some family, none⟩ devices) := by
  simp only [resolve]
  have hpresent := fun id => @present_iff table family devices id
  have hlookup := fun known => @lookup_of_mem_candidates table family devices known
  cases hfound : candidates table family devices with
  | nil =>
      rw [hfound] at hpresent
      exact .nobody fun id => by simp [hpresent]
  | cons first rest =>
      rw [hfound] at hpresent hlookup
      cases rest with
      | nil => exact .only first.id fun other => by simp [hpresent, eq_comm]
      | cons second rest =>
          refine .several second.id first.id _ (fun hsame => ?_)
            ((hpresent _).mpr ⟨second, by simp, rfl⟩) ((hpresent _).mpr ⟨first, by simp, rfl⟩)
          have hsecond := hlookup second (by simp)
          rw [hsame, hlookup first (by simp)] at hsecond
          exact ne_of_eraseDups hfound (Option.some.inj hsecond).symm

/-- Two outcomes are the same but for the wording of an ambiguity. -/
inductive SameOutcome : Except Failure Resolved → Except Failure Resolved → Prop
  | same (outcome : Except Failure Resolved) : SameOutcome outcome outcome
  | ambiguous (one other : String) :
    SameOutcome (.error (.ambiguous one)) (.error (.ambiguous other))

section

variable {present : Id → Prop} {outcome other : Except Failure Resolved}

theorem Found.notFound_iff (h : Found present family outcome) :
    outcome = .error .notFound ↔ ∀ id, ¬present id := by
  cases h with
  | nobody hnone => simpa using hnone
  | only id honly => simpa using ⟨id, (honly id).mpr rfl⟩
  | several one other detail hne hone hother => simpa using ⟨one, hone⟩

theorem Found.ok_iff (h : Found present family outcome) (id : Id) :
    outcome = .ok ⟨id, family, .explicit⟩ ↔ ∀ other, present other ↔ other = id := by
  cases h with
  | nobody hnone => simp [hnone]
  | only found honly =>
      simp only [Except.ok.injEq, Resolved.mk.injEq, and_true, honly]
      exact ⟨fun heq other => by rw [heq], fun hsame => (hsame found).mp rfl⟩
  | several one second detail hne hone hsecond =>
      refine ⟨nofun, fun hid => ?_⟩
      exact absurd (((hid one).mp hone).trans ((hid second).mp hsecond).symm) hne

theorem Found.ambiguous_iff (h : Found present family outcome) :
    (∃ detail, outcome = .error (.ambiguous detail))
      ↔ ∃ one other, one ≠ other ∧ present one ∧ present other := by
  cases h with
  | nobody hnone => simp [hnone]
  | only id honly => simp [honly]
  | several one second detail hne hone hsecond =>
      exact ⟨fun _ => ⟨one, second, hne, hone, hsecond⟩, fun _ => ⟨detail, rfl⟩⟩

/-- Only the pairs that are present count. -/
theorem Found.sameOutcome (h : Found present family outcome)
    (hother : Found present family other) : SameOutcome outcome other := by
  cases h with
  | nobody hnone =>
      rw [hother.notFound_iff.mpr hnone]
      exact .same _
  | only id honly =>
      rw [(hother.ok_iff id).mpr honly]
      exact .same _
  | several one second detail hne hone hsecond =>
      obtain ⟨wording, hwording⟩ := hother.ambiguous_iff.mpr ⟨one, second, hne, hone, hsecond⟩
      rw [hwording]
      exact .ambiguous detail wording

end

/-- Which pairs are present does not depend on how often or in which order devices are
listed. -/
theorem present_congr {others : List Info} (h : ∀ device, device ∈ others ↔ device ∈ devices) :
    Present table family others = Present table family devices := by
  funext id
  simp only [Present, h]

/-! ### Asking for nothing -/

theorem findSome?_lookup (table : Table) (devices : List Info) :
    (devices.findSome? fun device => table.lookup device.id)
      = (table.known devices).head?.bind fun device => table.lookup device.id := by
  induction devices with
  | nil => rfl
  | cons device rest ih =>
      rw [List.findSome?_cons, Table.known]
      cases hlookup : table.lookup device.id with
      | none =>
          rw [List.filter_cons_of_neg (by simp [hlookup])]
          exact ih
      | some known =>
          rw [List.filter_cons_of_pos (by simp [hlookup])]
          exact hlookup.symm

theorem isSome_lookup_of_mem_known {device : Info} (h : device ∈ table.known devices) :
    ∃ known, table.lookup device.id = some known :=
  Option.isSome_iff_exists.mp (List.mem_filter.mp h).2

/-! ### The bus -/

/-- With a pair of numbers the bus is left alone. -/
theorem choose_onlyLogs (bus : Usb.Bus) {wanted : Option Chip.Family} {id : Id}
    {resolved : Resolved} (h : resolve table ⟨wanted, some id⟩ [] = .ok resolved) :
    (Job.choose bus table ⟨wanted, some id⟩).OnlyLogs resolved := by
  have hlast : (Stage.ofExcept ((resolve table ⟨wanted, some id⟩ []).mapError Report.ofFailure)
      : Stage Report Resolved).OnlyLogs resolved := by
    rw [h]
    exact Stage.onlyLogs_pure resolved
  exact (Stage.onlyLogs_pure []).bind ((Stage.onlyLogs_note _).bind hlast)

/--
**Which device is chosen depends on no more than was left open.**

With a pair of numbers the devices do not matter, so the choice is made without looking at the
bus: the family is the one asked for, or else the one in the table, or else the fallback.  With
a family alone the one pair of it that is present is taken; that there is none, or that there
are several, is told apart, and neither order nor repetition of the devices changes any of it.
With nothing the first of the known devices is taken, and it fails exactly if there are none.
-/
theorem resolve_policy (table : Table) (devices : List Info) :
    (∀ family id, resolve table ⟨some family, some id⟩ devices
      = .ok ⟨id, family, .explicit⟩) ∧
    (∀ id known, table.lookup id = some known →
      resolve table ⟨none, some id⟩ devices = .ok ⟨id, known.family, .table⟩) ∧
    (∀ id, table.lookup id = none →
      resolve table ⟨none, some id⟩ devices = .ok ⟨id, .fx, .fallback⟩) ∧
    (∀ bus wanted id, ∃ resolved, resolve table ⟨wanted, some id⟩ devices = .ok resolved ∧
      (Job.choose bus table ⟨wanted, some id⟩).OnlyLogs resolved) ∧
    (∀ family, let present := Present table family devices
      let outcome := resolve table ⟨some family, none⟩ devices
      (∀ id, outcome = .ok ⟨id, family, .explicit⟩ ↔ ∀ other, present other ↔ other = id) ∧
      (outcome = .error .notFound ↔ ∀ id, ¬present id) ∧
      ((∃ detail, outcome = .error (.ambiguous detail)) ↔
        ∃ one other, one ≠ other ∧ present one ∧ present other) ∧
      ∀ others, (∀ device, device ∈ others ↔ device ∈ devices) →
        SameOutcome outcome (resolve table ⟨some family, none⟩ others)) ∧
    (∀ first rest, table.known devices = first :: rest →
      ∃ known, table.lookup first.id = some known ∧
        resolve table anyKnown devices = .ok ⟨first.id, known.family, .table⟩) ∧
    (resolve table anyKnown devices = .error .notFound ↔ table.known devices = []) := by
  have hknown : ∀ first rest, table.known devices = first :: rest →
      ∃ known, table.lookup first.id = some known ∧
        resolve table anyKnown devices = .ok ⟨first.id, known.family, .table⟩ := by
    intro first rest hlist
    obtain ⟨known, hlookup⟩ :=
      isSome_lookup_of_mem_known (hlist ▸ List.mem_cons_self : first ∈ table.known devices)
    have hid := Table.id_of_lookup hlookup
    refine ⟨known, hlookup, ?_⟩
    simp [resolve, anyKnown, findSome?_lookup, hlist, hlookup, hid]
  refine ⟨fun family id => rfl, ?_, ?_, ?_, ?_, hknown, ?_⟩
  · intro id known hlookup
    simp [resolve, resolveId, hlookup]
  · intro id hlookup
    simp [resolve, resolveId, hlookup, Chip.Family.fallback]
  · intro bus wanted id
    cases wanted with
    | some family => exact ⟨_, rfl, choose_onlyLogs bus rfl⟩
    | none => exact ⟨_, rfl, choose_onlyLogs bus rfl⟩
  · intro family present outcome
    have hfound := found_resolve table family devices
    refine ⟨hfound.ok_iff, hfound.notFound_iff, hfound.ambiguous_iff, fun others hsame => ?_⟩
    have hothers := found_resolve table family others
    rw [present_congr hsame] at hothers
    exact hfound.sameOutcome hothers
  · constructor
    · intro hnone
      cases hlist : table.known devices with
      | nil => rfl
      | cons first rest =>
          obtain ⟨known, -, hresolved⟩ := hknown first rest hlist
          rw [hresolved] at hnone
          cases hnone
    · intro hlist
      simp [resolve, anyKnown, findSome?_lookup, hlist]

/-- A bench with a stranger, an old part and the same newer part twice: asked for its family,
the newer part is chosen in any order, and one more board of the family makes it ambiguous.
Asked for nothing, the old part is chosen, because the stranger before it is not known. -/
theorem resolve_policy_bench :
    let table := Table.builtin.add ⟨⟨0x1209, 0x0001⟩, .fx2lp, "Board"⟩
    let stranger : Info := ⟨1, 2, ⟨0x1234, 0x5678⟩, 0x0000⟩
    let old : Info := ⟨1, 3, ⟨0x0547, 0x2131⟩, 0x0004⟩
    let part : Info := ⟨1, 4, ⟨0x04B4, 0x8613⟩, 0xA001⟩
    let twin : Info := ⟨2, 7, ⟨0x04B4, 0x8613⟩, 0xA001⟩
    let board : Info := ⟨2, 8, ⟨0x1209, 0x0001⟩, 0x0100⟩
    let devices := [stranger, old, part, twin]
    (∀ device, device ∈ [twin, part, old, part, stranger] ↔ device ∈ devices) ∧
      resolve table ⟨some .fx2lp, none⟩ devices = .ok ⟨part.id, .fx2lp, .explicit⟩ ∧
      SameOutcome (resolve table ⟨some .fx2lp, none⟩ devices)
        (resolve table ⟨some .fx2lp, none⟩ [twin, part, old, part, stranger]) ∧
      (∃ detail, resolve table ⟨some .fx2lp, none⟩ (board :: devices)
        = .error (.ambiguous detail)) ∧
      table.known devices = [old, part, twin] ∧
      (∃ known, table.lookup old.id = some known ∧
        resolve table anyKnown devices = .ok ⟨old.id, known.family, .table⟩) ∧
      table.lookup stranger.id = none ∧
      resolve table ⟨none, some stranger.id⟩ devices = .ok ⟨stranger.id, .fx, .fallback⟩ := by
  intro table stranger old part twin board devices
  have hsame : ∀ device, device ∈ [twin, part, old, part, stranger] ↔ device ∈ devices := by
    intro device
    simp only [devices, List.mem_cons, List.not_mem_nil, or_false]
    tauto
  have hknown : table.known devices = [old, part, twin] := by decide
  have hstranger : table.lookup stranger.id = none := by decide
  obtain ⟨-, -, hfallback, -, hfamily, hfirst, -⟩ := resolve_policy table devices
  obtain ⟨-, -, -, -, hmore, -, -⟩ := resolve_policy table (board :: devices)
  obtain ⟨-, -, -, houtcome⟩ := hfamily .fx2lp
  refine ⟨hsame, by decide, houtcome _ hsame, ?_, hknown, hfirst _ _ hknown, hstranger,
    hfallback _ hstranger⟩
  exact (hmore .fx2lp).2.2.1.mpr ⟨board.id, part.id, by decide,
    ⟨⟨board, by decide, rfl⟩, _, rfl, rfl⟩, ⟨part, by decide, rfl⟩, _, rfl, rfl⟩

end UsbBoot.Device
