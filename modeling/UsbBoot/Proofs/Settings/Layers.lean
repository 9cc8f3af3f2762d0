/-
Settings laid over one another.

Of settings in several documents the last one that sets a value decides it, whatever the
others say.  Their entries for the table of known devices are not laid over one another: all of
them count, in the order of the documents.

The settings of a run are of this kind.  Its documents are the one that the caller names, or
else the user's own and the one in the working directory, as far as they hold settings.
-/
import UsbBoot.Proofs.Output
import UsbBoot.Proofs.Settings.Entries

namespace UsbBoot.Settings

open Device (Table)

/-- Settings of several documents, each laid over those before it. -/
def stack (layers : List Settings) : Settings :=
  layers.foldl merge empty

/-! ### Values -/

theorem merge_assoc (lower middle upper : Settings) :
    (lower.merge middle).merge upper = lower.merge (middle.merge upper) := by
  simp [merge, Option.orElse_eq_or, Option.or_assoc]

/-- A value that the upper one of two layers decides is decided by the last layer of a stack
that sets it. -/
theorem field_stack {α : Type} {field : Settings → Option α} (hempty : field empty = none)
    (hmerge : ∀ lower upper, field (lower.merge upper) = (field upper).or (field lower))
    (layers : List Settings) : field (stack layers) = (layers.filterMap field).getLast? := by
  have hover : ∀ base, field (layers.foldl merge base)
      = (layers.filterMap field).getLast?.or (field base) := by
    induction layers with
    | nil => exact fun base => rfl
    | cons layer rest ih =>
        intro base
        rw [List.foldl_cons, ih, hmerge, List.filterMap_cons]
        cases field layer with
        | none => rfl
        | some value =>
            rw [List.getLast?_cons]
            cases (rest.filterMap field).getLast? <;> rfl
  rw [stack, hover, hempty, Option.or_none]

theorem known_stack (layers : List Settings) :
    (stack layers).known = layers.flatMap Settings.known := by
  have hover : ∀ base, (layers.foldl merge base).known
      = base.known ++ layers.flatMap Settings.known := by
    induction layers with
    | nil => simp
    | cons layer rest ih => simp [ih, merge]
  exact hover empty

/-! ### The documents of a run -/

/-- The paths where the settings of a run are looked for. -/
def sources (user caller : Option String) : List String :=
  match caller with
  | some path => [path]
  | none => user.toList ++ [localPath]

/-- The settings in those documents that hold settings. -/
def documents (files : String → Lookup) (paths : List String) : List Settings :=
  paths.filterMap (document? files)

theorem stack_toList (document : Option Settings) :
    stack document.toList = document.getD empty := by
  cases document <;> simp [stack]

theorem stack_append_toList (layers : List Settings) (document : Option Settings) :
    stack (layers ++ document.toList) = (stack layers).merge (document.getD empty) := by
  cases document <;> simp [stack]

theorem documents_singleton (files : String → Lookup) (path : String) :
    documents files [path] = (document? files path).toList := by
  rw [documents, List.filterMap_cons]
  cases document? files path <;> rfl

theorem documents_toList (files : String → Lookup) (path : Option String) :
    documents files path.toList = (path.bind (document? files)).toList := by
  cases path with
  | none => rfl
  | some path => exact documents_singleton files path

/-- The settings of a run are those of its documents, laid over one another. -/
theorem result_gather {ε : Type} (files : String → Lookup) (user caller : Option String) :
    (gather files user caller : Stage ε Settings).result
      = .ok (stack (documents files (sources user caller))) := by
  cases caller with
  | some path =>
      rw [sources, documents_singleton, stack_toList]
      exact (named_onlyLogs files path).eq_ok
  | none =>
      have hdocuments : documents files (sources user none)
          = (user.bind (document? files)).toList ++ (document? files localPath).toList := by
        rw [← documents_toList, ← documents_singleton]
        exact List.filterMap_append
      rw [hdocuments, stack_append_toList, stack_toList]
      exact (layered_onlyLogs files user).eq_ok

/--
**Of settings in several documents the last one that sets a value decides it, and the last
entry for a pair is the one that is found.**

Each value is the last of those that are set.  Laying settings over one another can be grouped
in any way, and empty settings make no difference.  The table cannot be put together exactly if
there is an entry of an unknown family in any document, and the first one is told.  Otherwise
the pairs it comes with keep their places, the other ones follow as they are first mentioned,
and none comes twice.  A pair is found as the last entry for it says, called after its family
if it has no name, and as before where no document mentions it.
-/
theorem stack_means (layers : List Settings) :
    let entries := layers.flatMap Settings.known
    (stack layers).device = (layers.filterMap Settings.device).getLast? ∧
    (stack layers).type = (layers.filterMap Settings.type).getLast? ∧
    (stack layers).loader = (layers.filterMap Settings.loader).getLast? ∧
    (∀ lower middle upper : Settings,
      (lower.merge middle).merge upper = lower.merge (middle.merge upper)) ∧
    (∀ settings : Settings, empty.merge settings = settings ∧ settings.merge empty = settings) ∧
    ((∃ fault, (stack layers).table = .error fault) ↔
      ∃ layer ∈ layers, ∃ entry ∈ layer.known, Chip.Family.ofName? entry.type = none) ∧
    (∀ fault, (stack layers).table = .error fault →
      ∃ entry, firstUnknown? entries = some entry ∧
        fault.report = .of (.settings ("unknown type '" ++ entry.type ++ "' for known device "
          ++ entry.id.lower))) ∧
    ((∀ layer ∈ layers, ∀ entry ∈ layer.known, Chip.Family.ofName? entry.type ≠ none) →
      ∃ table, (stack layers).table = .ok table ∧
        table.ids = Table.builtin.ids
          ++ ((entries.map Entry.id).removeAll Table.builtin.ids).eraseDups ∧
        table.ids.Nodup ∧
        (∀ id entry, lastFor? entries id = some entry →
          ∃ family, Chip.Family.ofName? entry.type = some family ∧ table.lookup id
            = some ⟨id, family, entry.name.getD (family.display ++ " device")⟩) ∧
        ∀ id, (∀ layer ∈ layers, ∀ entry ∈ layer.known, entry.id ≠ id) →
          table.lookup id = Table.builtin.lookup id) ∧
    ∀ files user caller, (gather files user caller : Stage Report Settings).result
      = .ok (stack (documents files (sources user caller))) := by
  intro entries
  have hknown : (stack layers).known = entries := known_stack layers
  have hall : ∀ good : Entry → Prop, (∀ layer ∈ layers, ∀ entry ∈ layer.known, good entry) →
      ∀ entry ∈ entries, good entry := by
    intro good h entry hmem
    obtain ⟨layer, hlayer, hentry⟩ := List.mem_flatMap.mp hmem
    exact h layer hlayer entry hentry
  refine ⟨field_stack rfl (fun _ _ => Option.orElse_eq_or ..) layers,
    field_stack rfl (fun _ _ => Option.orElse_eq_or ..) layers,
    field_stack rfl (fun _ _ => Option.orElse_eq_or ..) layers, merge_assoc,
    fun settings => ⟨empty_merge settings, merge_empty settings⟩, ?_, ?_, ?_, result_gather⟩
  · rw [Settings.table, hknown, addEntries_fails_iff]
    constructor
    · rintro ⟨entry, hmem, hunknown⟩
      obtain ⟨layer, hlayer, hentry⟩ := List.mem_flatMap.mp hmem
      exact ⟨layer, hlayer, entry, hentry, hunknown⟩
    · rintro ⟨layer, hlayer, entry, hentry, hunknown⟩
      exact ⟨entry, List.mem_flatMap.mpr ⟨layer, hlayer, hentry⟩, hunknown⟩
  · intro fault hfault
    rw [Settings.table, hknown] at hfault
    obtain ⟨entry, hfirst, rfl⟩ := addEntries_eq_error_iff.mp hfault
    exact ⟨entry, hfirst, rfl⟩
  · intro hfamilies
    obtain ⟨devices, hnames, hadded⟩ := addEntries_of_known (hall _ hfamilies) Table.builtin
    refine ⟨_, by rw [Settings.table, hknown, hadded], ?_, ?_, ?_, ?_⟩
    · rw [Table.ids_addAll, hnames.map_id]
    · exact Table.nodup_ids_addAll Table.nodup_ids_builtin devices
    · exact fun id entry hlast => lookup_of_lastFor? hnames Table.builtin hlast
    · intro id hnone
      exact lookup_of_lastFor?_eq_none hnames Table.builtin
        (lastFor?_eq_none_iff.mpr (hall _ hnone))

/-- Two documents that both have an entry for a board of the user's own, the lower one also one
for a part that the table comes with: the board is what the upper one says, and stands behind
all others; a part that nobody mentions stays as it is. -/
theorem stack_means_overridden :
    let lower : Settings := ⟨some "04b4:8613", some "fx2", none,
      [⟨⟨0x1209, 0x0001⟩, "an21", some "Board"⟩, ⟨⟨0x04B4, 0x8613⟩, "FX2", some "Kit"⟩]⟩
    let upper : Settings := ⟨none, some "fx2lp", some "a3load.hex",
      [⟨⟨0x1209, 0x0001⟩, "fx", none⟩]⟩
    (∀ layer ∈ [lower, upper], ∀ entry ∈ layer.known,
        Chip.Family.ofName? entry.type ≠ none) ∧
      (stack [lower, upper]).device = some "04b4:8613" ∧
      (stack [lower, upper]).type = some "fx2lp" ∧
      ∃ table, (stack [lower, upper]).table = .ok table ∧
        table.ids = Table.builtin.ids ++ [⟨0x1209, 0x0001⟩] ∧
        table.lookup ⟨0x1209, 0x0001⟩ = some ⟨⟨0x1209, 0x0001⟩, .fx, "FX device"⟩ ∧
        table.lookup ⟨0x04B4, 0x8613⟩ = some ⟨⟨0x04B4, 0x8613⟩, .fx2, "Kit"⟩ ∧
        table.lookup ⟨0x04B4, 0x6473⟩ = Table.builtin.lookup ⟨0x04B4, 0x6473⟩ := by
  intro lower upper
  have hknown : ∀ layer ∈ [lower, upper], ∀ entry ∈ layer.known,
      Chip.Family.ofName? entry.type ≠ none := by
    decide +kernel
  obtain ⟨hdevice, htype, -, -, -, -, -, hmade, -⟩ := stack_means [lower, upper]
  obtain ⟨table, htable, hids, -, hlast, hothers⟩ := hmade hknown
  obtain ⟨family, hfamily, hboard⟩ := hlast ⟨0x1209, 0x0001⟩ ⟨⟨0x1209, 0x0001⟩, "fx", none⟩ rfl
  obtain ⟨other, hother, hkit⟩ :=
    hlast ⟨0x04B4, 0x8613⟩ ⟨⟨0x04B4, 0x8613⟩, "FX2", some "Kit"⟩ rfl
  have hfx : Chip.Family.ofName? "fx" = some .fx := by decide +kernel
  have hfx2 : Chip.Family.ofName? "FX2" = some .fx2 := by decide +kernel
  obtain rfl := Option.some.inj (hfamily.symm.trans hfx)
  obtain rfl := Option.some.inj (hother.symm.trans hfx2)
  have hnew : (([lower, upper].flatMap Settings.known).map Entry.id).removeAll
      Table.builtin.ids = [⟨0x1209, 0x0001⟩, ⟨0x1209, 0x0001⟩] := by
    decide
  rw [hnew] at hids
  exact ⟨hknown, hdevice, htype, table, htable, hids, hboard, hkit,
    hothers ⟨0x04B4, 0x6473⟩ (by decide)⟩

end UsbBoot.Settings
