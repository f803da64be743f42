import MemSim.DRAMArray
import MemSim.DRAMConfig
import MemSim.Sweep

namespace MemSim

open Machine Sweep

structure DRAMBank where
  arrays : List DRAMSubarray
  deriving DecidableEq, Repr

namespace DRAMBank

/-- Both extents are narrowed to thirty-two bits on the way. -/
def new (config : DRAMConfig) : Checked String DRAMBank := do
  let numberOfRows ← shiftSigned config.rowBits
  let numberOfCols ← shiftSigned config.colBits
  return ⟨List.replicate config.numberOfSubarrays.toNat
    (DRAMSubarray.new (UInt32.ofInt numberOfRows) (UInt32.ofInt numberOfCols))⟩

def openRowRound (rowAddr : UInt32) (i : Nat) : EStateM (Stop String) (DRAMSubarray × Unit) Unit := do
  let s ← get
  let a ← s.1.precharge
  set (a, ())
  let r ← a.activate rowAddr
  set (r.2, ())
  if !r.1 then
    throw (.raised ("Failed to activate DRAM subarray " ++ toString (i + 1) ++
      " at row " ++ toString rowAddr))

def openRow (rowAddr : UInt32) : EStateM (Stop String) DRAMBank Unit := fun b =>
  match sweep (openRowRound rowAddr) 0 b.arrays () with
  | .ok () s => .ok () ⟨s.1⟩
  | .error e s => .error e ⟨s.1⟩

def transferRound (colAddr : UInt32) (isWrite : Bool) (i : Nat) :
    EStateM (Stop String) (DRAMSubarray × List UInt8) Unit := do
  let s ← get
  let d ← (element s.2 i : Checked String UInt8)
  if isWrite then
    let r ← s.1.write colAddr d
    set (r.2, s.2)
    if !r.1 then
      throw (.raised ("Failed to write to DRAM subarray " ++ toString (i + 1) ++
        " at column " ++ toString colAddr))
  else
    match ← s.1.read colAddr with
    | some out => set (s.1, s.2.set i out)
    | none => throw (.raised ("Failed to read from DRAM subarray " ++ toString (i + 1) ++
        " at column " ++ toString colAddr))

def transferData (colAddr : UInt32) (isWrite : Bool) :
    EStateM (Stop String) (DRAMBank × List UInt8) Unit := fun s =>
  match sweep (transferRound colAddr isWrite) 0 s.1.arrays s.2 with
  | .ok () t => .ok () (⟨t.1⟩, t.2)
  | .error e t => .error e (⟨t.1⟩, t.2)

end DRAMBank

structure DRAMBankEqClass where
  banks : List DRAMBank
  dramConfig : DRAMConfig
  deriving DecidableEq, Repr

namespace DRAMBankEqClass

def new (config : DRAMConfig) : Checked String DRAMBankEqClass := do
  let chips ← config.numberOfChips
  let bank ← DRAMBank.new config
  return ⟨List.replicate chips.toNat bank, config⟩

/-- The loop tests the number of banks instead of its index, so after the
last bank it indexes past the end. -/
def openRow (rowAddr : UInt32) : EStateM (Stop String) DRAMBankEqClass Unit := fun c =>
  let round : Nat → EStateM (Stop String) (DRAMBank × Unit) Unit := fun _ s =>
    match DRAMBank.openRow rowAddr s.1 with
    | .ok () b => .ok () (b, ())
    | .error e b => .error e (b, ())
  match sweep round 0 c.banks () with
  | .error e s => .error e { c with banks := s.1 }
  | .ok () s =>
      if c.banks = [] then .ok () { c with banks := s.1 }
      else .error (.fault .outOfRange) { c with banks := s.1 }

/-- One bank's share of the caller's span; the offset is a thirty-two bit product. -/
def transferRound (colAddr : UInt32) (isWrite : Bool) (chipBits : UInt8) (i : Nat) :
    EStateM (Stop String) (DRAMBank × List UInt8) Unit := fun s =>
  let start := (UInt32.ofNat i * chipBits.toUInt32).toNat
  if start + chipBits.toNat ≤ s.2.length then
    match DRAMBank.transferData colAddr isWrite (s.1, (s.2.drop start).take chipBits.toNat) with
    | .ok () t => .ok () (t.1, splice s.2 start t.2)
    | .error e t => .error e (t.1, splice s.2 start t.2)
  else .error (.fault .outOfRange) s

def transferData (colAddr : UInt32) (isWrite : Bool) :
    EStateM (Stop String) (DRAMBankEqClass × List UInt8) Unit := fun s =>
  let busWidth := s.1.dramConfig.sysConfig.dataBusWidth
  let chipBits := s.1.dramConfig.chipWidthBits
  if s.2.length ≠ busWidth.toNat then
    .error (.raised "data size mismatch, must be equal to data bus width") s
  else
    match (divide busWidth chipBits : Checked String UInt8) with
    | .error e => .error e s
    | .ok expected =>
        if s.1.banks.length ≠ expected.toNat then
          .error (.raised "number of banks mismatch in an equivalence class") s
        else
          match sweep (transferRound colAddr isWrite chipBits) 0 s.1.banks s.2 with
          | .ok () t => .ok () ({ s.1 with banks := t.1 }, t.2)
          | .error e t => .error e ({ s.1 with banks := t.1 }, t.2)

end DRAMBankEqClass

end MemSim
