/-
The table of known devices is a finite map.

An entry that is added takes the place of the one for its pair, or comes last if there is
none.  So what is found for a pair after any number of additions is the last entry for it, the
pairs stand in the order in which they were first added, and none of them stands there twice.

A table that has each pair once is known from what is found in it, up to the order of its
entries.  That is why additions for different pairs can change places.
-/
import Mathlib.Data.Finset.Card
import Mathlib.Data.List.Nodup
import UsbBoot.Device.Table

namespace UsbBoot.Device.Table

/-- The pairs that the table has an entry for, in its order. -/
def ids (table : Table) : List Id :=
  table.entries.map Known.id

/-- A table with devices added to it, one after the other. -/
def addAll (table : Table) (devices : List Known) : Table :=
  devices.foldl add table

@[simp] theorem addAll_nil (table : Table) : table.addAll [] = table := rfl

@[simp] theorem addAll_cons (table : Table) (device : Known) (rest : List Known) :
    table.addAll (device :: rest) = (table.add device).addAll rest := rfl

theorem id_of_lookup {table : Table} {id : Id} {known : Known}
    (h : table.lookup id = some known) : known.id = id := by
  simpa using List.find?_some h

/-! ### One addition -/

theorem lookup_add (table : Table) (device : Known) (id : Id) :
    (table.add device).lookup id = if device.id = id then some device else table.lookup id := by
  obtain ⟨entries⟩ := table
  simp only [add, lookup]
  induction entries with
  | nil => by_cases hid : device.id = id <;> simp [insert, hid]
  | cons entry rest ih =>
      rw [insert]
      by_cases hplace : entry.id = device.id
      · -- The entry whose place is taken is for the same pair, so nothing else is found behind it.
        rw [if_pos hplace]
        by_cases hid : device.id = id <;> simp [hplace, hid]
      · rw [if_neg hplace]
        by_cases hfirst : entry.id = id
        · have hid : device.id ≠ id := fun heq => hplace (hfirst.trans heq.symm)
          simp [hfirst, hid]
        · simpa [hfirst] using ih

theorem ids_add (table : Table) (device : Known) :
    (table.add device).ids
      = if device.id ∈ table.ids then table.ids else table.ids ++ [device.id] := by
  obtain ⟨entries⟩ := table
  simp only [add, ids]
  induction entries with
  | nil => simp [insert]
  | cons entry rest ih =>
      rw [insert]
      by_cases hplace : entry.id = device.id
      · simp [hplace]
      · rw [if_neg hplace, List.map_cons, ih]
        by_cases hmem : device.id ∈ rest.map Known.id <;> simp [hmem, Ne.symm hplace]

theorem nodup_ids_add {table : Table} (h : table.ids.Nodup) (device : Known) :
    (table.add device).ids.Nodup := by
  rw [ids_add]
  split
  · exact h
  · rename_i hnew
    exact List.nodup_append'.mpr ⟨h, List.nodup_singleton _, by simpa using hnew⟩

/-- Of two additions for the same pair, nothing is left of the first one. -/
theorem add_add {old new : Known} (h : old.id = new.id) (table : Table) :
    (table.add old).add new = table.add new := by
  obtain ⟨entries⟩ := table
  simp only [add, mk.injEq]
  induction entries with
  | nil => simp [insert, h]
  | cons entry rest ih =>
      by_cases hplace : entry.id = new.id
      · simp [insert, h, hplace]
      · simp [insert, h, hplace, ih]

/-! ### What is found, and what is there -/

theorem mem_entries_iff {table : Table} (h : table.ids.Nodup) {device : Known} :
    device ∈ table.entries ↔ table.lookup device.id = some device := by
  constructor
  · intro hmem
    obtain ⟨entries⟩ := table
    induction entries with
    | nil => cases hmem
    | cons entry rest ih =>
        obtain ⟨hnew, hrest⟩ := List.nodup_cons.mp h
        rcases List.mem_cons.mp hmem with rfl | hlater
        · simp [lookup]
        · have hother : entry.id ≠ device.id := fun heq => hnew (heq ▸ List.mem_map_of_mem hlater)
          rw [lookup, List.find?_cons_of_neg (by simpa using hother)]
          exact ih hrest hlater
  · intro hfound
    exact List.mem_of_find?_eq_some hfound

/-- Tables in which the same is found differ in the order of their entries only. -/
theorem perm_of_lookup {one other : Table} (hone : one.ids.Nodup) (hother : other.ids.Nodup)
    (h : ∀ id, one.lookup id = other.lookup id) : one.entries.Perm other.entries := by
  refine (List.perm_ext_iff_of_nodup hone.of_map hother.of_map).mpr fun device => ?_
  rw [mem_entries_iff hone, mem_entries_iff hother, h]

theorem length_entries {table : Table} (h : table.ids.Nodup) :
    table.entries.length = table.ids.toFinset.card := by
  rw [List.toFinset_card_of_nodup h, ids, List.length_map]

/-! ### Any number of additions -/

theorem addAll_append (table : Table) (before after : List Known) :
    table.addAll (before ++ after) = (table.addAll before).addAll after :=
  List.foldl_append

/-- Of the entries added for a pair the last one counts; without one, what was there before. -/
theorem lookup_addAll (table : Table) (devices : List Known) (id : Id) :
    (table.addAll devices).lookup id
      = ((devices.filter fun device => device.id = id).getLast?).or (table.lookup id) := by
  induction devices generalizing table with
  | nil => rfl
  | cons device rest ih =>
      rw [addAll_cons, ih, lookup_add]
      by_cases hid : device.id = id
      · rw [List.filter_cons_of_pos (by simpa using hid), List.getLast?_cons, if_pos hid]
        cases (rest.filter fun device => device.id = id).getLast? <;> rfl
      · rw [List.filter_cons_of_neg (by simpa using hid), if_neg hid]

/-- Pairs keep their places; the ones that are new follow in the order in which they were first
added. -/
theorem ids_addAll (table : Table) (devices : List Known) :
    (table.addAll devices).ids
      = table.ids ++ ((devices.map Known.id).removeAll table.ids).eraseDups := by
  induction devices generalizing table with
  | nil => simp [List.removeAll]
  | cons device rest ih =>
      rw [addAll_cons, ih, ids_add, List.map_cons, List.cons_removeAll]
      by_cases hmem : device.id ∈ table.ids
      · simp [hmem]
      · have hlater : (rest.map Known.id).removeAll (table.ids ++ [device.id])
            = ((rest.map Known.id).removeAll table.ids).filter fun id => !id == device.id := by
          simp only [List.removeAll, List.filter_filter]
          refine List.filter_congr fun id _ => ?_
          simp [Bool.and_comm, beq_eq_decide]
        simp [hmem, hlater, List.eraseDups_cons]

theorem nodup_ids_addAll {table : Table} (h : table.ids.Nodup) (devices : List Known) :
    (table.addAll devices).ids.Nodup := by
  induction devices generalizing table with
  | nil => exact h
  | cons device rest ih => exact ih (nodup_ids_add h device)

theorem nodup_ids_builtin : builtin.ids.Nodup := by
  decide

theorem mem_ids_addAll {table : Table} {devices : List Known} {id : Id} :
    id ∈ (table.addAll devices).ids ↔ id ∈ table.ids ++ devices.map Known.id := by
  rw [ids_addAll, List.mem_append, List.mem_append, List.mem_eraseDups, List.removeAll,
    List.mem_filter, List.elem_eq_mem, Bool.not_eq_true', decide_eq_false_iff_not]
  tauto

/-- Additions leave every pair at its place. -/
theorem ids_prefix_addAll (table : Table) (devices : List Known) :
    table.ids <+: (table.addAll devices).ids := by
  rw [ids_addAll]
  exact List.prefix_append ..

theorem length_entries_addAll {table : Table} (h : table.ids.Nodup) (devices : List Known) :
    (table.addAll devices).entries.length
      = (table.ids ++ devices.map Known.id).toFinset.card := by
  rw [length_entries (nodup_ids_addAll h devices)]
  congr 1
  ext id
  rw [List.mem_toFinset, List.mem_toFinset, mem_ids_addAll]

section Order

variable {table : Table} (h : table.ids.Nodup)
include h

/-- The order of additions counts among those for the same pair only. -/
theorem perm_addAll {devices others : List Known}
    (hsame : ∀ id, (devices.filter fun device => device.id = id)
      = others.filter fun device => device.id = id) :
    (table.addAll devices).entries.Perm (table.addAll others).entries := by
  refine perm_of_lookup (nodup_ids_addAll h devices) (nodup_ids_addAll h others) fun id => ?_
  rw [lookup_addAll, lookup_addAll, hsame]

theorem perm_addAll_swap {one other : Known} (hne : one.id ≠ other.id)
    (before after : List Known) :
    (table.addAll (before ++ one :: other :: after)).entries.Perm
      (table.addAll (before ++ other :: one :: after)).entries := by
  refine perm_addAll h fun id => ?_
  rw [List.filter_append, List.filter_append]
  congr 1
  -- At most one of the two is for the pair.
  by_cases hone : one.id = id
  · have hother : other.id ≠ id := fun heq => hne (hone.trans heq.symm)
    simp [hone, hother]
  · simp [List.filter_cons, hone]

end Order

theorem lookup_addAll_last (table : Table) {before after : List Known} {device : Known}
    (hlast : ∀ later ∈ after, later.id ≠ device.id) :
    (table.addAll (before ++ device :: after)).lookup device.id = some device := by
  have hnone : after.filter (fun later => later.id = device.id) = [] := by
    simpa using hlast
  rw [lookup_addAll, List.filter_append, List.filter_cons_of_pos (by simp), hnone,
    List.getLast?_append]
  rfl

theorem lookup_addAll_of_absent (table : Table) {devices : List Known} {id : Id}
    (habsent : ∀ device ∈ devices, device.id ≠ id) :
    (table.addAll devices).lookup id = table.lookup id := by
  have hnone : devices.filter (fun device => device.id = id) = [] := by
    simpa using habsent
  rw [lookup_addAll, hnone]
  rfl

/--
**Whatever is added to a table, it stays a finite map.**

Neither the empty table nor the one to begin with has a pair twice.  Let any devices be added
to a table that has none twice.  Then it still has none twice.  What is found for a pair is the
device that was added last for it, and without one what was found before.  The pairs that were
there keep their places, and the new ones follow in the order in which they were first added;
this order never changes again.  There are as many entries as there are different pairs.
Neighbouring additions for different pairs can change places, which changes no more than the
order of the entries, and one that is made twice in a row may as well be made once.
-/
theorem addAll_isMap :
    empty.ids.Nodup ∧ builtin.ids.Nodup ∧
    ∀ (start : Table) (devices : List Known), start.ids.Nodup →
      let table := start.addAll devices
      table.ids.Nodup ∧
      (∀ before device after, devices = before ++ device :: after →
        (∀ later ∈ after, later.id ≠ device.id) → table.lookup device.id = some device) ∧
      (∀ id, (∀ device ∈ devices, device.id ≠ id) → table.lookup id = start.lookup id) ∧
      table.ids = start.ids ++ ((devices.map Known.id).removeAll start.ids).eraseDups ∧
      (∀ before after, devices = before ++ after → (start.addAll before).ids <+: table.ids) ∧
      table.entries.length = (start.ids ++ devices.map Known.id).toFinset.card ∧
      (∀ before one other after, devices = before ++ one :: other :: after → one.id ≠ other.id →
        table.entries.Perm (start.addAll (before ++ other :: one :: after)).entries) ∧
      ∀ before device after, devices = before ++ device :: device :: after →
        table = start.addAll (before ++ device :: after) := by
  refine ⟨List.nodup_nil, nodup_ids_builtin, ?_⟩
  intro start devices hstart table
  refine ⟨nodup_ids_addAll hstart devices, ?_, ?_, ids_addAll start devices, ?_,
    length_entries_addAll hstart devices, ?_, ?_⟩
  · rintro before device after rfl hlast
    exact lookup_addAll_last start hlast
  · intro id habsent
    exact lookup_addAll_of_absent start habsent
  · rintro before after rfl
    rw [show table = _ from addAll_append start before after]
    exact ids_prefix_addAll _ after
  · rintro before one other after rfl hne
    exact perm_addAll_swap hstart hne before after
  · rintro before device after rfl
    show start.addAll _ = _
    rw [addAll_append, addAll_append, addAll_cons, addAll_cons, addAll_cons, add_add rfl]

/-- A board of the user's own that is added twice and corrected in between, and a part that the
table comes with, under a new name: the part keeps its place, the board comes last. -/
theorem addAll_isMap_corrected :
    let draft : Known := ⟨⟨0x1209, 0x0001⟩, .fx2, "Board"⟩
    let board : Known := ⟨⟨0x1209, 0x0001⟩, .fx2lp, "Board"⟩
    let part : Known := ⟨⟨0x0547, 0x2131⟩, .fx, "Part"⟩
    let table := builtin.addAll [draft, part, board, board]
    builtin.ids.Nodup ∧ table.ids.Nodup ∧
      table.lookup board.id = some board ∧ table.lookup part.id = some part ∧
      table.lookup ⟨0x04B4, 0x8613⟩ = builtin.lookup ⟨0x04B4, 0x8613⟩ ∧
      builtin.ids <+: table.ids ∧ table.entries.length = 12 ∧
      table.entries.Perm (builtin.addAll [part, draft, board, board]).entries ∧
      table = builtin.addAll [draft, part, board] := by
  intro draft board part table
  obtain ⟨-, hbuiltin, hmap⟩ := addAll_isMap
  obtain ⟨hnodup, hlast, habsent, -, hplaces, hlength, hswap, hagain⟩ :=
    hmap builtin [draft, part, board, board] hbuiltin
  refine ⟨hbuiltin, hnodup, hlast [draft, part, board] board [] rfl nofun,
    hlast [draft] part [board, board] rfl (by decide), habsent _ (by decide),
    hplaces [] _ rfl, hlength.trans (by decide), hswap [] draft part [board, board] rfl (by decide),
    hagain [draft, part] board [] rfl⟩

end UsbBoot.Device.Table
