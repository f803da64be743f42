import MemSim.DRAMBank

namespace MemSim.DRAMController

open Machine DRAMConfig

def newEqClass (config : DRAMConfig) : Checked String (List DRAMBankEqClass) := do
  let banks ← config.numberOfBanks
  let eqClass ← DRAMBankEqClass.new config
  return List.replicate banks.toNat eqClass

def getBankId (c : DRAMConfig) (address : UInt64) : Checked String UInt64 :=
  extract address c.addressMappings.bankMask

def getRowId (c : DRAMConfig) (address : UInt64) : Checked String UInt64 :=
  extract address c.addressMappings.rowMask

def getColId (c : DRAMConfig) (address : UInt64) : Checked String UInt64 :=
  extract address c.addressMappings.colMask

end MemSim.DRAMController
