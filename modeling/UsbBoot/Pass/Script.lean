/-
The body of a pass as a list of actions.

What a pass does between its start and the release of the CPU is fixed by plan, profile
and identity alone: the answers of the device only decide how far it gets.  So the body
is a list of actions, and performing it stops at the first one that goes wrong.

In a RAM pass chunks outside on-chip RAM go first, while the loader still runs; then the
CPU is held, and the chunks on the chip follow.  In an EEPROM pass the first byte is
made unbootable, the records follow, and the header that makes the EEPROM bootable again
comes last, when all it vouches for is in place.
-/
import UsbBoot.Count
import UsbBoot.Pass.Plan
import UsbBoot.Pass.Port

namespace UsbBoot.Pass

open Device (Identity)

/-- How far a pass has come. -/
inductive Phase
  | idle
  | resetAsserted
  | transferring
  | resetReleased
  | done
  | failed
  deriving DecidableEq, Repr

/-- One action of a pass. -/
inductive Action
  | note (line : Log.Line)
  | enter (phase : Phase)
  /-- Take the CPU for halted, since the next write may halt it even if it fails. -/
  | hold
  /-- Ask whether the user has given up. -/
  | check
  | send (write : ControlWrite)
  /-- Tell how many of all bytes are written. -/
  | report (written total : Nat)
  /-- Give up, because what comes next cannot be put into a transfer. -/
  | refuse (failure : Failure)
  deriving DecidableEq, Repr

/-! ### Writes -/

/-- The write that halts the CPU. -/
def holdWrite (profile : Chip.Profile) : ControlWrite :=
  ⟨.onChip, profile.resetRegister, [profile.holdValue]⟩

/-- The write that lets the CPU run. -/
def releaseWrite (profile : Chip.Profile) : ControlWrite :=
  ⟨.onChip, profile.resetRegister, [profile.releaseValue]⟩

/-- How a write to the CPU control register is told. -/
def registerNote (what : String) (profile : Chip.Profile) (value : UInt8) : Log.Line :=
  .debug .engine (what ++ " (0x" ++ Text.upperHex 4 profile.resetRegister.toNat ++ " <- 0x" ++
    Text.upperHex 2 value.toNat ++ ")")

/-- How a chunk is told. -/
def chunkNote (request : Request) (chunk : Chunk) : Log.Line :=
  .trace .engine ("Write 0x" ++ Text.upperHex 2 request.code.toNat ++ ": " ++
    toString chunk.data.length ++ " bytes @ 0x" ++ Text.upperHex 4 chunk.address.toNat)

def eepromWrite (offset : UInt32) (data : List UInt8) : List Action :=
  [.note (.trace .engine ("EEPROM write: " ++ toString data.length ++ " bytes @ 0x" ++
      Text.upperHex 4 offset.toNat)),
   .send ⟨.eeprom, offset, data⟩]

/-! ### RAM -/

/-- Sending chunks by one request when `written` of `total` bytes are there already. -/
def sendChunks (request : Request) (total : Nat) : Nat → List Chunk → List Action
  | _, [] => []
  | written, chunk :: rest =>
    let written := written + chunk.data.length
    .check :: .note (chunkNote request chunk) ::
      .send ⟨request, chunk.address, chunk.data⟩ :: .report written total ::
      sendChunks request total written rest

def byteCount (chunks : List Chunk) : Nat :=
  total (chunks.map (·.data.length))

/-- Sending the chunks outside on-chip RAM, if there are any. -/
def externalActions (total : Nat) (external : List Chunk) : List Action :=
  if external.isEmpty then []
  else
    .note (.debug .engine ("Writing " ++ toString external.length ++
      " external chunk(s) through the loader")) ::
    .enter .transferring :: sendChunks .external total 0 external

def holdActions (profile : Chip.Profile) : List Action :=
  [.note (registerNote "Holding CPU in reset" profile profile.holdValue), .hold,
   .send (holdWrite profile), .enter .resetAsserted]

/-- Sending the chunks on the chip when `written` of `total` bytes are there already. -/
def onChipActions (written total : Nat) (onChip : List Chunk) : List Action :=
  .enter .transferring ::
    .note (.debug .engine ("Writing " ++ toString onChip.length ++ " on-chip chunk(s)")) ::
    sendChunks .onChip total written onChip

def ramScript (profile : Chip.Profile) (chunks : List Chunk) : List Action :=
  let onChip := chunks.filter (·.onChip)
  let external := chunks.filter (!·.onChip)
  let total := byteCount onChip + byteCount external
  -- The loader runs on the CPU, so what needs it comes before the CPU is halted.
  externalActions total external ++ holdActions profile ++
    onChipActions (byteCount external) total onChip

/-! ### EEPROM -/

/-- The config byte to write, of the one asked for. -/
def configByte (profile : Chip.Profile) : Option UInt8 → UInt8
  | none => 0
  | some config => if profile.hasConfigByte then config &&& profile.configMask else 0

/-- What is said about the config byte asked for. -/
def configNotes (profile : Chip.Profile) : Option UInt8 → List Log.Line
  | none => []
  | some config =>
    if profile.hasConfigByte then
      if config &&& profile.configMask = config then []
      else [.warn .engine (profile.family.display ++ " ignores config bits 0x" ++
        Text.upperHex 2 (config &&& ~~~profile.configMask).toNat)]
    else [.warn .engine (profile.family.display ++ " has no EEPROM config byte, ignoring 0x" ++
      Text.upperHex 2 config.toNat)]

/-- What is said before the EEPROM is written. -/
def eepromNotes (profile : Chip.Profile) (identity : Identity) (config : Option UInt8) :
    List Log.Line :=
  configNotes profile config ++
    [.info .engine (profile.family.display ++ ": EEPROM config = 0x" ++
      Text.upperHex 2 (configByte profile config).toNat ++ ", VID:PID " ++
      identity.id.upper)]

/-- Writing a record at an offset, unless its header has no room for it. -/
def recordActions (offset : UInt32) (address : UInt32) (data : List UInt8) (last : Bool)
    (between : List Action) : List Action :=
  match Eeprom.recordHeader data.length address last with
  | .error failure => [.refuse failure]
  | .ok header =>
    between ++ eepromWrite offset header ++ eepromWrite (offset + Eeprom.recordHeaderLength) data

/-- The offset after a record with this much data. -/
def nextOffset (offset : UInt32) (length : Nat) : UInt32 :=
  offset + Eeprom.recordHeaderLength + length.toUInt32

/-- Writing the chunks as records when `written` of `total` bytes are there already. -/
def chunkRecords (total : Nat) : UInt32 → Nat → List Chunk → List Action
  | _, _, [] => []
  | offset, written, chunk :: rest =>
    let written := written + chunk.data.length
    recordActions offset chunk.address chunk.data false [.check] ++
      .report written total ::
      chunkRecords total (nextOffset offset chunk.data.length) written rest

/-- The offset after the records of some chunks. -/
def recordsEnd (offset : UInt32) (chunks : List Chunk) : UInt32 :=
  chunks.foldl (fun offset chunk => nextOffset offset chunk.data.length) offset

def eepromScript (profile : Chip.Profile) (identity : Identity) (config : Option UInt8)
    (total : Nat) (chunks : List Chunk) : List Action :=
  let start := profile.bootHeaderLength.toUInt32
  let last := recordsEnd start chunks
  (eepromNotes profile identity config).map .note ++ [.enter .transferring] ++
    -- From here until the header is written the part does not boot off its EEPROM.
    eepromWrite 0 [Eeprom.noBoot] ++
    chunkRecords total start 0 chunks ++
    recordActions last profile.resetRegister [profile.releaseValue] true [] ++
    eepromWrite 0 (Eeprom.bootHeader profile identity (configByte profile config)) ++
    [.note (.debug .engine ("EEPROM image complete, " ++ toString (nextOffset last 1).toNat ++
      " bytes used"))]

def script (profile : Chip.Profile) (identity : Identity) (plan : Plan) : List Action :=
  match plan.destination with
  | .ram => ramScript profile (plan.chunks profile)
  | .eeprom => eepromScript profile identity plan.config plan.length (plan.chunks profile)

theorem script_of_ram (profile : Chip.Profile) (identity : Identity) {plan : Plan}
    (h : plan.destination = .ram) :
    script profile identity plan = ramScript profile (plan.chunks profile) := by
  rw [script, h]

theorem script_of_eeprom (profile : Chip.Profile) (identity : Identity) {plan : Plan}
    (h : plan.destination = .eeprom) :
    script profile identity plan
      = eepromScript profile identity plan.config plan.length (plan.chunks profile) := by
  rw [script, h]

end UsbBoot.Pass
