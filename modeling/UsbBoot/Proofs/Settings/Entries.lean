/-
Entries for the table of known devices, as they are written.

Entries are added one after the other, so a table is looked up as if only the last entry for
each pair had ever been there.  What is wrong with an entry is not forgiven because a later one
takes its place: the first entry of an unknown family is what the table fails with.
-/
import Mathlib.Data.List.Forall2
import UsbBoot.Proofs.Device.Table
import UsbBoot.Settings.Basic

namespace UsbBoot.Settings

open Device (Id Known Table)

/-! ### Entries of unknown families -/

/-- Of some entries the first one whose family has no such name. -/
def firstUnknown? (entries : List Entry) : Option Entry :=
  entries.find? fun entry => (Chip.Family.ofName? entry.type).isNone

theorem firstUnknown?_eq_none_iff {entries : List Entry} :
    firstUnknown? entries = none
      ↔ ∀ entry ∈ entries, Chip.Family.ofName? entry.type ≠ none := by
  simp [firstUnknown?]

theorem addEntries_cons (table : Table) (entry : Entry) (rest : List Entry) :
    addEntries table (entry :: rest)
      = entry.known >>= fun device => addEntries (table.add device) rest := by
  rw [addEntries, List.foldlM_cons]
  cases entry.known <;> rfl

/-- Adding entries fails with the first one of an unknown family, if there is one. -/
theorem addEntries_eq_error_iff {table : Table} {entries : List Entry} {fault : Fault} :
    addEntries table entries = .error fault ↔ ∃ entry, firstUnknown? entries = some entry ∧
      fault = .unknownEntryType entry.type entry.id := by
  induction entries generalizing table with
  | nil => simp [addEntries, firstUnknown?, pure, Except.pure]
  | cons entry rest ih =>
      rw [addEntries_cons, firstUnknown?, List.find?_cons, Entry.known]
      cases hfamily : Chip.Family.ofName? entry.type with
      | none => simp [bind, Except.bind, eq_comm]
      | some family => exact ih

/-- Entries can be added to a table unless the family of one of them has no such name. -/
theorem addEntries_fails_iff {table : Table} {entries : List Entry} :
    (∃ fault, addEntries table entries = .error fault)
      ↔ ∃ entry ∈ entries, Chip.Family.ofName? entry.type = none := by
  have hnone := @firstUnknown?_eq_none_iff entries
  simp only [addEntries_eq_error_iff]
  cases hfirst : firstUnknown? entries with
  | none =>
      have hknown := hnone.mp hfirst
      simpa using hknown
  | some entry =>
      have hfound := List.find?_some hfirst
      exact ⟨fun _ => ⟨entry, List.mem_of_find?_eq_some hfirst, by simpa using hfound⟩,
        fun _ => ⟨_, entry, rfl, rfl⟩⟩

/-! ### Entries of known families -/

/-- What a table holds for some entries, each of them being of a known family. -/
def Names : List Entry → List Known → Prop :=
  List.Forall₂ fun entry device => entry.known = .ok device

theorem Entry.known_eq_ok_iff {entry : Entry} {device : Known} :
    entry.known = .ok device ↔ ∃ family, Chip.Family.ofName? entry.type = some family ∧
      device = ⟨entry.id, family, entry.name.getD (family.display ++ " device")⟩ := by
  unfold Entry.known
  cases Chip.Family.ofName? entry.type <;> simp [eq_comm]

theorem Entry.id_of_known {entry : Entry} {device : Known} (h : entry.known = .ok device) :
    device.id = entry.id := by
  obtain ⟨family, -, rfl⟩ := Entry.known_eq_ok_iff.mp h
  rfl

/-- Entries of known families are added one after the other. -/
theorem addEntries_of_known {entries : List Entry}
    (h : ∀ entry ∈ entries, Chip.Family.ofName? entry.type ≠ none) (table : Table) :
    ∃ devices, Names entries devices ∧ addEntries table entries = .ok (table.addAll devices) := by
  induction entries generalizing table with
  | nil => exact ⟨[], .nil, rfl⟩
  | cons entry rest ih =>
      obtain ⟨hentry, hrest⟩ := List.forall_mem_cons.mp h
      obtain ⟨family, hfamily⟩ := Option.ne_none_iff_exists'.mp hentry
      have hknown := Entry.known_eq_ok_iff.mpr ⟨family, hfamily, rfl⟩
      obtain ⟨devices, hnames, hadded⟩ := ih hrest (table.add _)
      refine ⟨_ :: devices, .cons hknown hnames, ?_⟩
      rw [addEntries_cons, hknown]
      exact hadded

theorem Names.map_id {entries : List Entry} {devices : List Known} (h : Names entries devices) :
    devices.map Known.id = entries.map Entry.id := by
  induction h with
  | nil => rfl
  | cons hknown _ ih => rw [List.map_cons, List.map_cons, ih, Entry.id_of_known hknown]

/-! ### The last entry for a pair -/

/-- Of some entries the last one for a pair. -/
def lastFor? (entries : List Entry) (id : Id) : Option Entry :=
  (entries.filter fun entry => entry.id = id).getLast?

theorem lastFor?_eq_none_iff {entries : List Entry} {id : Id} :
    lastFor? entries id = none ↔ ∀ entry ∈ entries, entry.id ≠ id := by
  simp [lastFor?]

/-- The last device for a pair is the one for the last entry for it. -/
theorem Names.last {entries : List Entry} {devices : List Known} (h : Names entries devices)
    (id : Id) : Option.Rel (fun entry device => entry.known = .ok device) (lastFor? entries id)
      (devices.filter fun device => device.id = id).getLast? := by
  rw [lastFor?]
  induction h with
  | nil => exact .none
  | @cons entry device rest others hknown _ ih =>
      have hsame : device.id = id ↔ entry.id = id := by rw [Entry.id_of_known hknown]
      by_cases hid : entry.id = id
      · rw [List.filter_cons_of_pos (by simpa using hid),
          List.filter_cons_of_pos (by simpa using hsame.mpr hid), List.getLast?_cons,
          List.getLast?_cons]
        generalize (rest.filter fun entry => entry.id = id).getLast? = last at ih
        generalize (others.filter fun device => device.id = id).getLast? = found at ih
        cases ih with
        | none => exact .some hknown
        | some hlater => exact .some hlater
      · rw [List.filter_cons_of_neg (by simpa using hid),
          List.filter_cons_of_neg (by simpa using hsame.not.mpr hid)]
        exact ih

theorem lookup_of_lastFor? {entries : List Entry} {devices : List Known}
    (h : Names entries devices) (table : Table) {id : Id} {entry : Entry}
    (hlast : lastFor? entries id = some entry) :
    ∃ family, Chip.Family.ofName? entry.type = some family ∧ (table.addAll devices).lookup id
      = some ⟨id, family, entry.name.getD (family.display ++ " device")⟩ := by
  have hfound := h.last id
  have hid : entry.id = id := by
    simpa using (List.mem_filter.mp (List.mem_of_getLast? hlast)).2
  rw [Table.lookup_addAll]
  rw [hlast] at hfound
  generalize (devices.filter fun device => device.id = id).getLast? = found at hfound
  cases hfound with
  | some hknown =>
      obtain ⟨family, hfamily, rfl⟩ := Entry.known_eq_ok_iff.mp hknown
      exact ⟨family, hfamily, by rw [hid]; rfl⟩

theorem lookup_of_lastFor?_eq_none {entries : List Entry} {devices : List Known}
    (h : Names entries devices) (table : Table) {id : Id} (hlast : lastFor? entries id = none) :
    (table.addAll devices).lookup id = table.lookup id := by
  have hfound := h.last id
  rw [Table.lookup_addAll]
  rw [hlast] at hfound
  generalize (devices.filter fun device => device.id = id).getLast? = found at hfound
  cases hfound with
  | none => rfl

end UsbBoot.Settings
