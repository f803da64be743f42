import MemSim.Machine
import MemSim.While
import Mathlib.Tactic.Tauto

namespace MemSim

open Machine

def isPowerOf2 (v : UInt32) : Bool := v > 0 && (v &&& (v - 1)) == 0

def log2Round (s : UInt32 × UInt8) : UInt32 × UInt8 := (s.1 >>> 1, s.2 + 1)

/-- The test of the loop shifts before it looks, so the first shift comes
ahead of every round and each round ends with the next. -/
def log2Of (v : UInt32) : Checked String UInt8 :=
  match While.loop (fun s => s.1 != 0) log2Round 32 (v >>> 1, 0) with
  | some s => .ok s.2
  | none => .error (.fault .endless)

structure SystemConfig where
  addressBusWidth : UInt8
  dataBusWidth : UInt8
  wordSize : UInt8
  blockSize : UInt32
  deriving DecidableEq, Repr

namespace SystemConfig

def addressSpaceBytes (c : SystemConfig) : Checked String UInt64 := shiftUnsigned c.addressBusWidth

def totalBlocks (c : SystemConfig) : Checked String UInt64 := do
  let space ← c.addressSpaceBytes
  divide space c.blockSize.toUInt64

def transfersPerBlock (c : SystemConfig) : Checked String UInt32 :=
  divide c.blockSize (c.dataBusWidth / 8).toUInt32

def wordsPerBlock (c : SystemConfig) : Checked String UInt32 :=
  divide c.blockSize c.wordSize.toUInt32

def offsetBits (c : SystemConfig) : Checked String UInt8 := log2Of c.blockSize

/-- The difference is narrowed to eight bits. -/
def tagIndexBits (c : SystemConfig) : Checked String UInt8 := do
  let offset ← c.offsetBits
  return c.addressBusWidth - offset

/-- The validator answers false by raising the text it stores in its
argument. The products by eight are taken in the operand's own promotion. -/
def validate (c : SystemConfig) : Checked String Unit := do
  reject (c.addressBusWidth = 0 ∨ c.addressBusWidth > 64) "addr_bits must be in [1, 64]"
  reject (¬ isPowerOf2 c.blockSize) "block_size must be a power of 2"
  reject (c.blockSize * 8 < c.dataBusWidth.toUInt32) "block_size must be >= data_bus_bytes"
  let busRest ← modulo (c.blockSize * 8) c.dataBusWidth.toUInt32
  reject (busRest ≠ 0) "block_size must be a multiple of data_bus_bytes"
  let wordRest ← modulo c.blockSize c.wordSize.toUInt32
  reject (wordRest ≠ 0) "block_size must be a multiple of word_size"
  reject (¬ isPowerOf2 c.dataBusWidth.toUInt32) "data_bus_bytes must be a power of 2"
  reject (c.dataBusWidth > 64) "data_bus_bytes cannot exceed 8 (64-bit bus)"
  reject (c.wordSize ≠ 1 ∧ c.wordSize ≠ 2 ∧ c.wordSize ≠ 4 ∧ c.wordSize ≠ 8)
    "word_size must be 1, 2, 4, or 8"
  reject (c.wordSize.toNat * 8 > c.dataBusWidth.toNat) "word_size cannot exceed data_bus_bytes"

structure Valid (c : SystemConfig) : Prop where
  address_pos : 1 ≤ c.addressBusWidth.toNat
  address_le : c.addressBusWidth.toNat ≤ 64
  block_pow : isPowerOf2 c.blockSize
  bus_le_block : c.dataBusWidth.toUInt32 ≤ c.blockSize * 8
  bus_ne : c.dataBusWidth.toUInt32 ≠ 0
  bus_dvd : c.blockSize * 8 % c.dataBusWidth.toUInt32 = 0
  word_ne : c.wordSize.toUInt32 ≠ 0
  word_dvd : c.blockSize % c.wordSize.toUInt32 = 0
  bus_pow : isPowerOf2 c.dataBusWidth.toUInt32
  bus_le : c.dataBusWidth ≤ 64
  word_range : c.wordSize = 1 ∨ c.wordSize = 2 ∨ c.wordSize = 4 ∨ c.wordSize = 8
  word_le_bus : c.wordSize.toNat * 8 ≤ c.dataBusWidth.toNat

theorem address_not_rejected (c : SystemConfig) : ¬ (c.addressBusWidth = 0 ∨ c.addressBusWidth > 64) ↔
    1 ≤ c.addressBusWidth.toNat ∧ c.addressBusWidth.toNat ≤ 64 := by
  rw [← UInt8.toNat_inj, gt_iff_lt, UInt8.lt_iff_toNat_lt]
  simp only [UInt8.toNat_ofNat]
  omega

theorem validate_eq_ok (c : SystemConfig) : c.validate = .ok () ↔ Valid c := by
  have hword : ¬ (c.wordSize ≠ 1 ∧ c.wordSize ≠ 2 ∧ c.wordSize ≠ 4 ∧ c.wordSize ≠ 8) ↔
      c.wordSize = 1 ∨ c.wordSize = 2 ∨ c.wordSize = 4 ∨ c.wordSize = 8 := by tauto
  simp only [validate, reject_bind_eq_ok, modulo_bind_eq_ok, reject_eq_ok, address_not_rejected,
    hword, not_not, UInt32.not_lt, gt_iff_lt, UInt8.not_lt, Nat.not_lt]
  constructor
  · rintro ⟨⟨ha, ha'⟩, hb, hl, hz, hd, hw, he, hp, h64, hr, hm⟩
    exact ⟨ha, ha', hb, hl, hz, hd, hw, he, hp, h64, hr, hm⟩
  · rintro ⟨ha, ha', hb, hl, hz, hd, hw, he, hp, h64, hr, hm⟩
    exact ⟨⟨ha, ha'⟩, hb, hl, hz, hd, hw, he, hp, h64, hr, hm⟩

end SystemConfig

end MemSim
