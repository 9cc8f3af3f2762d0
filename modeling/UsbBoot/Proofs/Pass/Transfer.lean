/-
What carries the data of a pass.

Most of a script carries data: it asks, writes by one request, and tells how far it has
come.  None of that touches the engine, and all that is written goes by that request.
Both facts are needed for chunks and for records alike, so both are read off one
predicate on actions.  What is left of an EEPROM script are the remarks in front and the
phase it enters.
-/
import UsbBoot.Proofs.Pass.Body

namespace UsbBoot.Pass

/-! ### What carries data -/

/-- An action that leaves the engine as it is. -/
def Action.Steady (action : Action) : Prop :=
  ∀ engine, action.engine engine = engine

/-- An action that can be part of carrying data by one request. -/
inductive Action.Transfers (request : Request) : Action → Prop
  | note (line : Log.Line) : Transfers request (.note line)
  | check : Transfers request .check
  | send (address : UInt32) (data : List UInt8) :
    Transfers request (.send ⟨request, address, data⟩)
  | report (written total : Nat) : Transfers request (.report written total)
  | refuse (failure : Failure) : Transfers request (.refuse failure)

/-- Actions that carry data by one request. -/
def AllTransfer (request : Request) (actions : List Action) : Prop :=
  ∀ action ∈ actions, action.Transfers request

theorem Action.Transfers.steady {request : Request} {action : Action}
    (h : action.Transfers request) : action.Steady := by
  cases h <;> exact fun _ => rfl

theorem AllTransfer.steady {request : Request} {actions : List Action}
    (h : AllTransfer request actions) : ∀ action ∈ actions, action.Steady :=
  fun action hmem => (h action hmem).steady

/-- All that is written when data are carried by one request is written by that request. -/
theorem AllTransfer.request {request : Request} {actions : List Action}
    (h : AllTransfer request actions) : ∀ write ∈ sends actions, write.request = request := by
  intro write hmem
  cases h _ (mem_sends.mp hmem)
  rfl

theorem allTransfer_cons {request : Request} {action : Action} {rest : List Action} :
    AllTransfer request (action :: rest)
      ↔ action.Transfers request ∧ AllTransfer request rest :=
  List.forall_mem_cons

theorem allTransfer_append {request : Request} {xs ys : List Action} :
    AllTransfer request (xs ++ ys) ↔ AllTransfer request xs ∧ AllTransfer request ys :=
  List.forall_mem_append

theorem allTransfer_nil (request : Request) : AllTransfer request [] := nofun

theorem transfers_sendChunks (request : Request) (total written : Nat) (list : List Chunk) :
    AllTransfer request (sendChunks request total written list) := by
  induction list generalizing written with
  | nil => exact allTransfer_nil request
  | cons chunk rest ih =>
      simp only [sendChunks, allTransfer_cons]
      exact ⟨.check, .note _, .send _ _, .report _ _, ih _⟩

theorem transfers_eepromWrite (offset : UInt32) (data : List UInt8) :
    AllTransfer .eeprom (eepromWrite offset data) := by
  simp only [eepromWrite, allTransfer_cons]
  exact ⟨.note _, .send _ _, allTransfer_nil _⟩

theorem transfers_recordActions (offset address : UInt32) (data : List UInt8) (last : Bool)
    {between : List Action} (hbetween : AllTransfer .eeprom between) :
    AllTransfer .eeprom (recordActions offset address data last between) := by
  rw [recordActions]
  split
  · exact allTransfer_cons.mpr ⟨.refuse _, allTransfer_nil _⟩
  · rw [allTransfer_append, allTransfer_append]
    exact ⟨⟨hbetween, transfers_eepromWrite _ _⟩, transfers_eepromWrite _ _⟩

theorem transfers_chunkRecords (total : Nat) (offset : UInt32) (written : Nat)
    (list : List Chunk) : AllTransfer .eeprom (chunkRecords total offset written list) := by
  induction list generalizing offset written with
  | nil => exact allTransfer_nil _
  | cons chunk rest ih =>
      have hcheck : AllTransfer .eeprom [.check] :=
        allTransfer_cons.mpr ⟨.check, allTransfer_nil _⟩
      rw [chunkRecords, allTransfer_append, allTransfer_cons]
      exact ⟨transfers_recordActions _ _ _ _ hcheck, .report _ _, ih _ _⟩

/-! ### The transfer of an EEPROM pass -/

/-- Writing all records, the last one included. -/
def recordsScript (profile : Chip.Profile) (total : Nat) (list : List Chunk) : List Action :=
  chunkRecords total profile.bootHeaderLength.toUInt32 0 list ++
    recordActions (recordsEnd profile.bootHeaderLength.toUInt32 list) profile.resetRegister
      [profile.releaseValue] true []

/-- What an EEPROM pass does once it has entered the transfer. -/
def eepromTransfers (profile : Chip.Profile) (identity : Device.Identity)
    (config : Option UInt8) (total : Nat) (list : List Chunk) : List Action :=
  eepromWrite 0 [Eeprom.noBoot] ++ recordsScript profile total list ++
    eepromWrite 0 (Eeprom.bootHeader profile identity (configByte profile config)) ++
    [.note (.debug .engine ("EEPROM image complete, " ++
      toString (nextOffset (recordsEnd profile.bootHeaderLength.toUInt32 list) 1).toNat ++
      " bytes used"))]

theorem eepromScript_eq (profile : Chip.Profile) (identity : Device.Identity)
    (config : Option UInt8) (total : Nat) (list : List Chunk) :
    eepromScript profile identity config total list
      = (eepromNotes profile identity config).map .note ++
        .enter .transferring :: eepromTransfers profile identity config total list := by
  simp only [eepromScript, eepromTransfers, recordsScript, List.append_assoc,
    List.cons_append, List.nil_append]

theorem transfers_eepromTransfers (profile : Chip.Profile) (identity : Device.Identity)
    (config : Option UInt8) (total : Nat) (list : List Chunk) :
    AllTransfer .eeprom (eepromTransfers profile identity config total list) := by
  simp only [eepromTransfers, recordsScript, allTransfer_append, allTransfer_cons]
  exact ⟨⟨⟨transfers_eepromWrite _ _, transfers_chunkRecords _ _ _ _,
    transfers_recordActions _ _ _ _ (allTransfer_nil _)⟩, transfers_eepromWrite _ _⟩,
    .note _, allTransfer_nil _⟩

end UsbBoot.Pass
