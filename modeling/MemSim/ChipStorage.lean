import MemSim.AddressDecoding
import MemSim.Geometry
import MemSim.SystemGeometry

namespace MemSim.ChipStorage

open Machine DRAMConfig DRAMController

def cellsPerChip (c : DRAMConfig) : Nat :=
  2 ^ c.bankBits.toNat * c.numberOfSubarrays.toNat * 2 ^ c.rowBits.toNat * 2 ^ c.colBits.toNat

structure StorageFits (c : DRAMConfig) : Prop where
  chip : ∃ n, c.sizeOfChipBytes = .ok n ∧ cellsPerChip c ≤ 8 * n.toNat
  rank : ∃ n, c.numberOfChips = .ok n ∧
    n.toNat * cellsPerChip c ≤ 8 * 2 ^ c.sysConfig.addressBusWidth.toNat

def bankCells (b : DRAMBank) : Nat := (b.arrays.map (·.storage.length)).sum

def chipCells (l : List DRAMBankEqClass) (chip : Nat) : Nat :=
  (l.map fun k => (k.banks[chip]?.map bankCells).getD 0).sum

section

variable {c : DRAMConfig}

theorem numberOfChips_eq (h : Valid c) : ∃ n, c.numberOfChips = .ok n ∧
    n.toNat = c.sysConfig.dataBusWidth.toNat / c.chipWidthBits.toNat ∧
    n.toNat * c.chipWidthBits.toNat = c.sysConfig.dataBusWidth.toNat := by
  have hdvd : c.chipWidthBits.toNat ∣ c.sysConfig.dataBusWidth.toNat := by
    have hmod := congrArg UInt8.toNat h.chip_dvd
    rw [UInt8.toNat_mod] at hmod
    exact Nat.dvd_of_mod_eq_zero hmod
  have hn : (c.sysConfig.dataBusWidth / c.chipWidthBits).toUInt32.toNat =
      c.sysConfig.dataBusWidth.toNat / c.chipWidthBits.toNat := by
    rw [UInt8.toNat_toUInt32, UInt8.toNat_div]
  refine ⟨_, by rw [numberOfChips, divide_of_ne h.chip_ne]; rfl, hn, ?_⟩
  rw [hn, Nat.div_mul_cancel hdvd]

theorem chipWidth_pos (h : Valid c) : 0 < c.chipWidthBits.toNat := by
  have hne := h.chip_ne
  rw [ne_eq, ← UInt8.toNat_inj, UInt8.toNat_zero] at hne
  omega

theorem dataBusWidth_ge (h : Valid c) : 8 ≤ c.sysConfig.dataBusWidth.toNat := by
  have hword := (SystemChecks.word_ne_zero h.sysConfig.word_range).2
  have hle := h.sysConfig.word_le_bus
  omega

theorem sizeOfChipBytes_eq (h : Valid c) : ∃ n, c.sizeOfChipBytes = .ok n ∧
    n.toNat = 2 ^ c.sysConfig.addressBusWidth.toNat /
      (c.sysConfig.dataBusWidth.toNat / c.chipWidthBits.toNat) := by
  obtain ⟨space, hspace, hval⟩ := SystemGeometry.addressSpaceBytes_of_lt h.address_lt
  obtain ⟨chips, hchips, hn, hmul⟩ := numberOfChips_eq h
  have hne : chips.toUInt64 ≠ 0 := by
    rw [ne_eq, ← UInt64.toNat_inj, UInt32.toNat_toUInt64, UInt64.toNat_zero]
    intro hz
    rw [hz, Nat.zero_mul] at hmul
    have hge := dataBusWidth_ge h
    omega
  refine ⟨space / chips.toUInt64, ?_, ?_⟩
  · rw [sizeOfChipBytes, hspace, hchips, bind_ok, bind_ok, divide_of_ne hne]
  · rw [UInt64.toNat_div, UInt32.toNat_toUInt64, hval, hn]

theorem cellsPerChip_eq (h : Valid c) :
    cellsPerChip c = c.chipWidthBits.toNat * 2 ^ c.sysConfig.addressBusWidth.toNat := by
  rw [cellsPerChip, numberOfSubarrays, UInt8.toNat_toUInt32, ← h.sum_bits, pow_add, pow_add]
  ring

theorem rankCells_eq (h : Valid c) {n : UInt32} (hn : c.numberOfChips = .ok n) :
    n.toNat * cellsPerChip c =
      c.sysConfig.dataBusWidth.toNat * 2 ^ c.sysConfig.addressBusWidth.toNat := by
  obtain ⟨n', hn', _, hmul⟩ := numberOfChips_eq h
  obtain rfl := Except.ok.inj (hn.symm.trans hn')
  rw [cellsPerChip_eq h, ← Nat.mul_assoc, hmul]

theorem allocated_eq (h : Valid c) (hbank : c.bankBits.toNat ≤ 31)
    (hfit : 2 ^ (c.rowBits.toNat + c.colBits.toNat) < 2 ^ 32) {l : List DRAMBankEqClass}
    (hl : newEqClass c = .ok l) {chip : Nat}
    (hchip : chip < c.sysConfig.dataBusWidth.toNat / c.chipWidthBits.toNat) :
    chipCells l chip = cellsPerChip c := by
  obtain ⟨b, hb, hlen, hw⟩ := Geometry.bank_new_wellFormed h hfit
  obtain ⟨n, hn, hval, _⟩ := numberOfChips_eq h
  obtain ⟨m, hm, hbanks⟩ := Geometry.numberOfBanks_eq h
  have hpow : 2 ^ c.bankBits.toNat < 2 ^ 32 := Nat.pow_lt_pow_right (by omega) (by omega)
  have hcells : bankCells b =
      c.chipWidthBits.toNat * (2 ^ c.rowBits.toNat * 2 ^ c.colBits.toNat) := by
    rw [bankCells, List.map_eq_replicate_iff.mpr (fun a ha => (hw a ha).1.storage_length),
      List.sum_replicate_nat, hlen]
  have hl' : l = List.replicate m.toNat ⟨List.replicate n.toNat b, c⟩ := by
    rw [newEqClass, hm, bind_ok, DRAMBankEqClass.new, hn, bind_ok, hb] at hl
    exact (Except.ok.inj hl).symm
  rw [hl', chipCells, List.map_replicate, List.sum_replicate_nat, List.getElem?_replicate,
    if_pos (by omega), Option.map_some, Option.getD_some, hcells, hbanks, Nat.mod_eq_of_lt hpow, cellsPerChip,
    numberOfSubarrays, UInt8.toNat_toUInt32]
  ring

end

/-- The check leaves out the number of subarrays, and a chip of any width then
holds a bus width of bits for each address of a byte. -/
theorem storageFits_iff (c : DRAMConfig) (h : c.validate = .ok ()) :
    StorageFits c ↔ c.sysConfig.dataBusWidth = 8 := by
  have hv := Valid.of_validate h
  have hpos := Nat.two_pow_pos c.sysConfig.addressBusWidth.toNat
  constructor
  · intro hs
    obtain ⟨n, hn, hle⟩ := hs.rank
    rw [rankCells_eq hv hn] at hle
    have hbus := Nat.le_of_mul_le_mul_right hle hpos
    have hge := dataBusWidth_ge hv
    rw [← UInt8.toNat_inj]
    exact Nat.le_antisymm hbus hge
  · intro hbus
    have height : c.sysConfig.dataBusWidth.toNat = 8 := by rw [hbus]; rfl
    obtain ⟨n, hn, hchips, hmul⟩ := numberOfChips_eq hv
    obtain ⟨size, hsize, hval⟩ := sizeOfChipBytes_eq hv
    refine ⟨⟨size, hsize, ?_⟩, n, hn, by rw [rankCells_eq hv hn, height]⟩
    have hspace : n.toNat ∣ 2 ^ c.sysConfig.addressBusWidth.toNat := by
      have height' : n.toNat ∣ 2 ^ 3 := ⟨c.chipWidthBits.toNat, by rw [hmul, height]; rfl⟩
      have hsum := hv.sum_bits
      have hbank := hv.bank_range
      have hrow := hv.row_range
      have hcol := hv.col_range
      exact height'.trans (Nat.pow_dvd_pow 2 (by omega))
    rw [hval, ← hchips, cellsPerChip_eq hv, ← height, ← hmul, Nat.mul_comm n.toNat, Nat.mul_assoc,
      Nat.mul_div_cancel' hspace]

theorem storageFits_iff_narrow : StorageFits AddressDecoding.stacked ↔
    AddressDecoding.stacked.sysConfig.dataBusWidth = 8 :=
  storageFits_iff AddressDecoding.stacked (by decide)

theorem wide_bus_exceeds_chip : (Geometry.stackedConfig 3 14 10).validate = .ok () ∧
    cellsPerChip (Geometry.stackedConfig 3 14 10) = 2 ^ 30 ∧
    (Geometry.stackedConfig 3 14 10).sizeOfChipBytes = .ok 0x1000000 ∧
    ¬ StorageFits (Geometry.stackedConfig 3 14 10) := by
  have hsize : (Geometry.stackedConfig 3 14 10).sizeOfChipBytes = .ok 0x1000000 := by decide
  refine ⟨by decide, by decide, hsize, ?_⟩
  intro hs
  obtain ⟨n, hn, hle⟩ := hs.chip
  obtain rfl := Except.ok.inj (hsize.symm.trans hn)
  exact absurd hle (by decide)

end MemSim.ChipStorage
