import MemSim.Dispatcher
import MemSim.Geometry
import MemSim.PowerOfTwo

namespace MemSim

open Machine

namespace DRAMController

def baseCycles : UInt32 := 12

def baseRows : UInt32 := 512

def baseCols : UInt32 := 1024

/-- The constant `0.3`, as an unsigned integer. -/
def scale : UInt32 := 0

/-- The member is assigned, field by field; what is returned is a local that
never was. -/
def calculateTimings (config : DRAMConfig) (timing : DRAMTiming) : EStateM (Stop String) DRAMTiming DRAMTiming := do
  let rows ← (shiftSigned config.rowBits : Checked String Int)
  let cols ← (shiftSigned config.colBits : Checked String Int)
  let numRows := UInt32.ofInt rows
  let numCols := UInt32.ofInt cols
  modify fun timings => { timings with
    precharge := baseCycles * (numRows / baseRows)
    activate := baseCycles * (numRows / baseRows) }
  let n ← log2Of (numCols / baseCols)
  modify fun timings => { timings with transfer := baseCycles + scale * n.toUInt32 }
  return timing

/-- The constructor stores what is returned over the member. -/
def newTimings (config : DRAMConfig) (member timing : DRAMTiming) : Checked String DRAMTiming :=
  match (calculateTimings config timing).run member with
  | .ok returned _ => .ok returned
  | .error e _ => .error e

end DRAMController

namespace Timings

open DRAMController MemSim.Geometry

def computed (config : DRAMConfig) : DRAMTiming :=
  { precharge := baseCycles * (UInt32.ofInt (2 ^ config.rowBits.toNat) / baseRows)
    activate := baseCycles * (UInt32.ofInt (2 ^ config.rowBits.toNat) / baseRows)
    transfer := baseCycles }

variable {config : DRAMConfig}

theorem calculateTimings_eq (h : config.validate = .ok ()) (timing member : DRAMTiming) :
    (calculateTimings config timing).run member = .ok timing (computed config) := by
  obtain ⟨_, hrow, hcol, _⟩ := widths_le (DRAMConfig.Valid.of_validate h)
  have htransfer : ∀ n : UInt32, baseCycles + scale * n = baseCycles := by
    intro n
    rw [scale, UInt32.zero_mul, UInt32.add_zero]
  unfold calculateTimings
  rw [shiftSigned_eq hrow, shiftSigned_eq hcol]
  simp only [PowerOfTwo.log2Of_eq]
  exact congrArg (fun transfer => EStateM.Result.ok timing { computed config with transfer }) (htransfer _)

theorem newTimings_eq (h : config.validate = .ok ()) (member timing : DRAMTiming) :
    newTimings config member timing = .ok timing := by
  rw [newTimings, calculateTimings_eq h]

end Timings

end MemSim
