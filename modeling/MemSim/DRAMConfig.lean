import MemSim.BitFields
import MemSim.SystemConfig
import MemSim.While

namespace MemSim

open Machine BitFields

structure AddressMapping where
  bankMask : UInt64
  rowMask : UInt64
  colMask : UInt64
  deriving DecidableEq, Repr

structure DRAMConfig where
  sysConfig : SystemConfig
  chipWidthBits : UInt8
  bankBits : UInt8
  rowBits : UInt8
  colBits : UInt8
  addressMappings : AddressMapping
  deriving DecidableEq, Repr

namespace DRAMConfig

/-- One round of counting clears the lowest one. -/
def popcountRound (s : UInt64 × UInt8) : UInt64 × UInt8 := (s.1 &&& (s.1 - 1), s.2 + 1)

/-- A word has no more ones than places, so as many rounds always suffice. -/
def popcount (mask : UInt64) : Checked String UInt8 :=
  match While.loop (fun s => s.1 != 0) popcountRound 64 (mask, 0) with
  | some s => .ok s.2
  | none => .error (.fault .endless)

def firstOnePosition (mask : UInt64) : Checked String UInt8 := do
  assert (mask > 0) "mask must be positive integer"
  match While.loop (fun s => s.1 % 2 == 0) (fun s => (s.1 / 2, s.2 + 1)) 64 (mask, 0) with
  | some s => .ok s.2
  | none => .error (.fault .endless)

def extract (address mask : UInt64) : Checked String UInt64 := do
  let d ← firstOnePosition mask
  divide (address &&& mask) d.toUInt64

def numberOfChips (c : DRAMConfig) : Checked String UInt32 := do
  let chips ← divide c.sysConfig.dataBusWidth c.chipWidthBits
  return chips.toUInt32

def sizeOfChipBytes (c : DRAMConfig) : Checked String UInt64 := do
  let space ← c.sysConfig.addressSpaceBytes
  let chips ← c.numberOfChips
  divide space chips.toUInt64

def numberOfBanks (c : DRAMConfig) : Checked String UInt32 := do
  let banks ← shiftSigned c.bankBits
  return UInt32.ofInt banks

def numberOfSubarrays (c : DRAMConfig) : UInt32 := c.chipWidthBits.toUInt32

def sizeOfSubarrayBytes (c : DRAMConfig) : Checked String UInt64 := do
  let rows ← shiftSigned c.rowBits
  let cols ← shiftSigned c.colBits
  let cells ← mulSigned rows cols
  return UInt64.ofInt (cells.tdiv 8)

def validate (c : DRAMConfig) : Checked String Unit := do
  c.sysConfig.validate
  reject (c.chipWidthBits = 0) "chip_width_bits must be > 0"
  reject (¬ isPowerOf2 c.chipWidthBits.toUInt32) "chip_width_bits must be power of 2"
  reject (c.chipWidthBits > c.sysConfig.dataBusWidth) "chip_width_bits cannot exceed data_bus_width"
  let busRest ← modulo c.sysConfig.dataBusWidth c.chipWidthBits
  reject (busRest ≠ 0) "data_bus_width must be a multiple of chip_width_bits"
  let chips ← c.numberOfChips
  reject (chips = 0) "number_of_chips calculation resulted in 0"
  let space ← c.sysConfig.addressSpaceBytes
  let spaceRest ← modulo space chips.toUInt64
  reject (spaceRest ≠ 0) "address space doesn't divide evenly by number of chips"
  reject (c.bankBits = 0 ∨ c.bankBits > 63) "bank_bits must be in range [1, 63]"
  reject (c.rowBits = 0 ∨ c.rowBits > 63) "row_bits must be in range [1, 63]"
  reject (c.colBits = 0 ∨ c.colBits > 63) "col_bits must be in range [1, 63]"
  reject (c.rowBits.toNat + c.colBits.toNat ≥ 64) "row_bits + col_bits must be < 64 (shift overflow)"
  reject (c.bankBits.toNat + c.rowBits.toNat + c.colBits.toNat ≠ c.sysConfig.addressBusWidth.toNat)
    "bank_bits + row_bits + col_bits must equal address_bus_width"
  let chip ← c.sizeOfChipBytes
  let banks ← c.numberOfBanks
  let subarray ← c.sizeOfSubarrayBytes
  reject (chip < banks.toUInt64 * subarray) "chip capacity < (banks × subarray size)"

/-- The constructor derives the three widths from the masks, then throws
unless they are accepted. -/
def construct (sysConfig : SystemConfig) (chipWidth : UInt8) (addressMappings : AddressMapping) :
    Checked String DRAMConfig := do
  let bankBits ← popcount addressMappings.bankMask
  let rowBits ← popcount addressMappings.rowMask
  let colBits ← popcount addressMappings.colMask
  let config : DRAMConfig :=
    { sysConfig, chipWidthBits := chipWidth, bankBits, rowBits, colBits, addressMappings }
  match config.validate with
  | .ok () => return config
  | .error (.raised text) => .error (.raised ("DRAMConfig validation failed: " ++ text))
  | .error (.fault f) => .error (.fault f)

theorem popcount_guard (s : UInt64 × UInt8) : (s.1 != 0) = true ↔ 0 < count s.1.toNat := by
  rw [bne_iff_ne, ne_eq, ← UInt64.toNat_inj, UInt64.toNat_zero]
  constructor
  · exact count_pos
  · intro h hz
    simp [hz] at h

theorem popcount_clear {m : UInt64} (h : m ≠ 0) : count (m &&& (m - 1)).toNat + 1 = count m.toNat := by
  have hz : m.toNat ≠ 0 := by rwa [ne_eq, ← UInt64.toNat_inj, UInt64.toNat_zero] at h
  have hsub : (m - 1).toNat = m.toNat - 1 := by
    rw [UInt64.toNat_sub_of_le _ _ (by rw [UInt64.le_iff_toNat_le]; exact Nat.pos_iff_ne_zero.mpr hz)]
    rfl
  rw [UInt64.toNat_and, hsub, count_and_pred hz]

theorem count_le_64 (mask : UInt64) : count mask.toNat ≤ 64 := count_le (by simpa using mask.toNat_lt)

theorem popcount_loop (mask : UInt64) (n : Nat) :
    While.loop (fun s => s.1 != 0) popcountRound n (mask, 0) =
      if count mask.toNat ≤ n then some (0, UInt8.ofNat (count mask.toNat)) else none := by
  have hrun := While.loop_of_rank _ popcountRound (fun _ => True) _ (fun s _ => popcount_guard s)
    (fun s _ hr => ⟨trivial, popcount_clear (by simpa using (popcount_guard s).mpr hr)⟩) n (mask, 0) trivial
  rw [hrun]
  by_cases hn : count mask.toNat ≤ n
  · rw [if_pos hn] at hrun
    obtain ⟨hq, _, hend⟩ := While.loop_conserves _ popcountRound (fun _ => True)
      (fun s : UInt64 × UInt8 => UInt8.ofNat (count s.1.toNat) + s.2)
      (by
        intro s _ hg
        change UInt8.ofNat (count (s.1 &&& (s.1 - 1)).toNat) + (s.2 + 1) = _
        rw [← popcount_clear (m := s.1) (by simpa using hg), UInt8.ofNat_add, UInt8.add_assoc, UInt8.add_comm s.2]
        rfl)
      (fun _ _ _ => trivial) n (mask, 0) _ trivial hrun
    have hzero := bne_eq_false_iff_eq.mp hend
    rw [if_pos hn, if_pos hn, Option.some.injEq]
    exact Prod.ext hzero (by simpa [hzero] using hq)
  · rw [if_neg hn, if_neg hn]

theorem popcount_eq (mask : UInt64) :
    popcount mask = .ok (UInt8.ofNat (count mask.toNat)) := by
  rw [popcount, popcount_loop, if_pos (count_le_64 mask)]

theorem popcount_toNat {mask : UInt64} {n : UInt8} (h : popcount mask = .ok n) :
    n.toNat = count mask.toNat := by
  rw [popcount_eq] at h
  have hle := count_le_64 mask
  rw [← Except.ok.inj h, UInt8.toNat_ofNat', Nat.mod_eq_of_lt (by omega)]

structure Valid (c : DRAMConfig) : Prop where
  sysConfig : c.sysConfig.Valid
  chip_ne : c.chipWidthBits ≠ 0
  chip_pow : isPowerOf2 c.chipWidthBits.toUInt32
  chip_le : c.chipWidthBits ≤ c.sysConfig.dataBusWidth
  chip_dvd : c.sysConfig.dataBusWidth % c.chipWidthBits = 0
  address_lt : c.sysConfig.addressBusWidth.toNat < 64
  bank_range : 1 ≤ c.bankBits.toNat ∧ c.bankBits.toNat ≤ 63
  row_range : 1 ≤ c.rowBits.toNat ∧ c.rowBits.toNat ≤ 63
  col_range : 1 ≤ c.colBits.toNat ∧ c.colBits.toNat ≤ 63
  row_add_col : c.rowBits.toNat + c.colBits.toNat < 64
  sum_bits : c.bankBits.toNat + c.rowBits.toNat + c.colBits.toNat = c.sysConfig.addressBusWidth.toNat
  capacity : ∃ chip banks subarray, c.sizeOfChipBytes = .ok chip ∧
    c.numberOfBanks = .ok banks ∧
    c.sizeOfSubarrayBytes = .ok subarray ∧ banks.toUInt64 * subarray ≤ chip

theorem range_of_not_rejected {n : UInt8} (h : ¬ (n = 0 ∨ n > 63)) : 1 ≤ n.toNat ∧ n.toNat ≤ 63 := by
  rw [← UInt8.toNat_inj, gt_iff_lt, UInt8.lt_iff_toNat_lt] at h
  simp only [UInt8.toNat_ofNat] at h
  omega

theorem Valid.of_validate {c : DRAMConfig} (h : c.validate = .ok ()) : Valid c := by
  simp only [validate, bind_eq_ok (x := c.sysConfig.validate), bind_eq_ok (x := c.numberOfChips),
    bind_eq_ok (x := c.sysConfig.addressSpaceBytes), bind_eq_ok (x := c.sizeOfChipBytes),
    bind_eq_ok (x := c.numberOfBanks), bind_eq_ok (x := c.sizeOfSubarrayBytes), reject_bind_eq_ok,
    modulo_bind_eq_ok, reject_eq_ok] at h
  obtain ⟨_, hsys, hz, hp, hle, _, hd, chips, _, _, space, hspace, _, _, hb, hr, hc, hrc, hsum,
    chip, hchip, banks, hbanks, subarray, hsub, hcap⟩ := h
  have hlt : c.sysConfig.addressBusWidth < 64 := by
    by_contra hn
    simp [SystemConfig.addressSpaceBytes, shiftUnsigned, hn] at hspace
  exact
    { sysConfig := (SystemConfig.validate_eq_ok _).mp hsys
      chip_ne := hz
      chip_pow := not_not.mp hp
      chip_le := UInt8.not_lt.mp hle
      chip_dvd := not_not.mp hd
      address_lt := UInt8.lt_iff_toNat_lt.mp hlt
      bank_range := range_of_not_rejected hb
      row_range := range_of_not_rejected hr
      col_range := range_of_not_rejected hc
      row_add_col := Nat.not_le.mp hrc
      sum_bits := not_not.mp hsum
      capacity := ⟨chip, banks, subarray, hchip, hbanks, hsub, UInt64.not_lt.mp hcap⟩ }

theorem construct_eq_ok {sysConfig : SystemConfig} {chipWidth : UInt8} {addressMappings : AddressMapping}
    {c : DRAMConfig} (h : construct sysConfig chipWidth addressMappings = .ok c) :
    c.validate = .ok () ∧ c.sysConfig = sysConfig ∧ c.addressMappings = addressMappings ∧
      c.bankBits.toNat = count addressMappings.bankMask.toNat ∧
      c.rowBits.toNat = count addressMappings.rowMask.toNat ∧
      c.colBits.toNat = count addressMappings.colMask.toNat := by
  simp only [construct, bind_eq_ok] at h
  obtain ⟨bank, hb, row, hr, col, hc, h⟩ := h
  split at h
  · next hv =>
      obtain rfl := Except.ok.inj h
      exact ⟨hv, rfl, rfl, popcount_toNat hb, popcount_toNat hr, popcount_toNat hc⟩
  · cases h
  · cases h

end DRAMConfig

end MemSim
