import MemSim.Machine

namespace MemSim

open Machine

def numberOfBlocks (size blockSize : UInt32) : Checked String UInt32 := divide size blockSize

def numberOfSets (numBlocks associativity : UInt32) : Checked String UInt32 :=
  divide numBlocks associativity

def lineAddress (address blockSize : UInt32) : Checked String UInt32 := divide address blockSize

def offset (address blockSize : UInt32) : Checked String UInt32 := modulo address blockSize

end MemSim
