import MemSim.DRAMController
import Mathlib.Tactic.Positivity

namespace MemSim.Geometry

open Machine DRAMConfig DRAMController

/-- Every extent that the model derives from the three widths is the power of
two they stand for, and nothing on the way leaves its machine type. -/
structure Exact (c : DRAMConfig) : Prop where
  banks : ∃ n, c.numberOfBanks = .ok n ∧ n.toNat = 2 ^ c.bankBits.toNat
  classes : ∃ l, newEqClass c = .ok l ∧ l.length = 2 ^ c.bankBits.toNat
  cells : ∃ b, DRAMBank.new c = .ok b ∧ ∀ a ∈ b.arrays,
    a.rows.toNat = 2 ^ c.rowBits.toNat ∧ a.cols.toNat = 2 ^ c.colBits.toNat ∧
    (a.rows * a.cols).toNat = 2 ^ (c.rowBits.toNat + c.colBits.toNat) ∧
    a.storage.length = 2 ^ (c.rowBits.toNat + c.colBits.toNat) ∧
    ∀ r : UInt32, r.toNat < 2 ^ c.rowBits.toNat →
      a.getRow r = .ok ⟨r.toNat * 2 ^ c.colBits.toNat, 2 ^ c.colBits.toNat⟩
  bytes : ∃ n, c.sizeOfSubarrayBytes = .ok n ∧
    n.toNat * 8 = 2 ^ (c.rowBits.toNat + c.colBits.toNat)
  address_fits : 2 ^ c.sysConfig.addressBusWidth.toNat < 2 ^ 64
  bank_fits : 2 ^ c.bankBits.toNat < 2 ^ 32
  row_fits : 2 ^ c.rowBits.toNat < 2 ^ 32
  col_fits : 2 ^ c.colBits.toNat < 2 ^ 32
  cells_fit : 2 ^ c.rowBits.toNat * 2 ^ c.colBits.toNat < 2 ^ 32
  row_start_fits : ∀ r, r < 2 ^ c.rowBits.toNat → r * 2 ^ c.colBits.toNat < 2 ^ 32
  capacity_fits : 2 ^ c.bankBits.toNat * (2 ^ (c.rowBits.toNat + c.colBits.toNat) / 8) < 2 ^ 64

theorem shiftSigned_eq {n : UInt8} (h : n.toNat ≤ 62) :
    (shiftSigned n : Checked String Int) = .ok (2 ^ n.toNat) := by
  have hlt : n < 64 := by
    rw [UInt8.lt_iff_toNat_lt]
    exact Nat.lt_of_le_of_lt h (by decide)
  have hpow : (2 : Int) ^ n.toNat ≤ 2 ^ 62 := by exact_mod_cast Nat.pow_le_pow_right (by omega) h
  have hpos : (0 : Int) < 2 ^ n.toNat := by positivity
  rw [shiftSigned, if_pos hlt, Int.bmod_eq_of_le (by omega) (by omega)]

theorem mulSigned_eq {a b : Int} {n : Nat} (h : a * b = n) (hn : n < 2 ^ 63) :
    (mulSigned a b : Checked String Int) = .ok n := by
  rw [mulSigned, if_pos ⟨by omega, by omega⟩, h]

theorem ofInt_two_pow (n : Nat) : (UInt32.ofInt (2 ^ n)).toNat = 2 ^ n % 2 ^ 32 := by
  have hcast : ((2 : Int) ^ n % 2 ^ 32).toNat = 2 ^ n % 2 ^ 32 := by
    rw [show ((2 : Int) ^ n % 2 ^ 32) = ((2 ^ n % 2 ^ 32 : Nat) : Int) by push_cast; rfl,
      Int.toNat_natCast]
  rw [UInt32.ofInt, hcast, UInt32.toNat_ofNat', Nat.mod_mod]

section

variable {c : DRAMConfig}

theorem widths_le (h : Valid c) : c.bankBits.toNat ≤ 62 ∧ c.rowBits.toNat ≤ 62 ∧
    c.colBits.toNat ≤ 62 ∧ c.rowBits.toNat + c.colBits.toNat ≤ 62 := by
  have hsum := h.sum_bits
  have haddress := h.address_lt
  have hbank := h.bank_range
  have hrow := h.row_range
  have hcol := h.col_range
  omega

theorem numberOfBanks_eq (h : Valid c) :
    ∃ n, c.numberOfBanks = .ok n ∧ n.toNat = 2 ^ c.bankBits.toNat % 2 ^ 32 := by
  refine ⟨UInt32.ofInt (2 ^ c.bankBits.toNat), ?_, ofInt_two_pow _⟩
  rw [numberOfBanks, shiftSigned_eq (widths_le h).1]
  rfl

theorem bank_new_eq (h : Valid c) :
    DRAMBank.new c = .ok ⟨List.replicate c.chipWidthBits.toNat
      (DRAMSubarray.new (UInt32.ofInt (2 ^ c.rowBits.toNat)) (UInt32.ofInt (2 ^ c.colBits.toNat)))⟩ := by
  obtain ⟨_, hrow, hcol, _⟩ := widths_le h
  rw [DRAMBank.new, shiftSigned_eq hrow, shiftSigned_eq hcol]
  simp only [bind_ok, numberOfSubarrays, UInt8.toNat_toUInt32]
  rfl

theorem bank_new_wellFormed (h : Valid c)
    (hfit : 2 ^ (c.rowBits.toNat + c.colBits.toNat) < 2 ^ 32) :
    ∃ b, DRAMBank.new c = .ok b ∧ b.arrays.length = c.chipWidthBits.toNat ∧
      ∀ a ∈ b.arrays, a.WellFormed (2 ^ c.rowBits.toNat) (2 ^ c.colBits.toNat) ∧
        a.isWordOpen = false ∧ ∀ v ∈ a.storage, v = 0 := by
  rw [pow_add] at hfit
  have hrows : (UInt32.ofInt (2 ^ c.rowBits.toNat)).toNat = 2 ^ c.rowBits.toNat := by
    rw [ofInt_two_pow, Nat.mod_eq_of_lt]
    exact lt_of_le_of_lt (Nat.le_mul_of_pos_right _ (Nat.two_pow_pos _)) hfit
  have hcols : (UInt32.ofInt (2 ^ c.colBits.toNat)).toNat = 2 ^ c.colBits.toNat := by
    rw [ofInt_two_pow, Nat.mod_eq_of_lt]
    exact lt_of_le_of_lt (Nat.le_mul_of_pos_left _ (Nat.two_pow_pos _)) hfit
  refine ⟨_, bank_new_eq h, List.length_replicate, ?_⟩
  intro a ha
  obtain rfl := List.eq_of_mem_replicate ha
  have hw := DRAMSubarray.new_wellFormed (m := UInt32.ofInt (2 ^ c.rowBits.toNat))
    (n := UInt32.ofInt (2 ^ c.colBits.toNat)) (by rw [hrows, hcols]; exact hfit)
  rw [hrows, hcols] at hw
  exact ⟨hw, rfl, fun v hv => List.eq_of_mem_replicate hv⟩

theorem newEqClass_eq (h : Valid c) :
    ∃ l, newEqClass c = .ok l ∧ l.length = 2 ^ c.bankBits.toNat % 2 ^ 32 := by
  obtain ⟨n, hn, hn'⟩ := numberOfBanks_eq h
  obtain ⟨k, hk⟩ : ∃ k, DRAMBankEqClass.new c = .ok k := by
    rw [DRAMBankEqClass.new, numberOfChips, divide, if_neg h.chip_ne, bank_new_eq h]
    exact ⟨_, rfl⟩
  refine ⟨List.replicate n.toNat k, ?_, by rw [List.length_replicate, hn']⟩
  rw [newEqClass, hn, hk]
  rfl

theorem sizeOfSubarrayBytes_eq (h : Valid c) :
    ∃ n, c.sizeOfSubarrayBytes = .ok n ∧
      n.toNat = 2 ^ (c.rowBits.toNat + c.colBits.toNat) / 8 := by
  obtain ⟨_, hrow, hcol, hsum⟩ := widths_le h
  have hlt : 2 ^ (c.rowBits.toNat + c.colBits.toNat) < 2 ^ 63 :=
    Nat.pow_lt_pow_right (by omega) (by omega)
  have hprod : (2 : Int) ^ c.rowBits.toNat * 2 ^ c.colBits.toNat =
      ((2 ^ (c.rowBits.toNat + c.colBits.toNat) : Nat) : Int) := by
    push_cast
    rw [pow_add]
  rw [sizeOfSubarrayBytes, shiftSigned_eq hrow, shiftSigned_eq hcol, bind_ok, bind_ok,
    mulSigned_eq hprod hlt, bind_ok]
  generalize 2 ^ (c.rowBits.toNat + c.colBits.toNat) = cells at hlt ⊢
  refine ⟨_, rfl, ?_⟩
  have htdiv : (cells : Int).tdiv 8 = ((cells / 8 : Nat) : Int) := by
    rw [Int.tdiv_eq_ediv_of_nonneg (by omega)]
    omega
  rw [htdiv, UInt64.ofInt, UInt64.toNat_ofNat']
  omega

theorem exact_of_bounds (h : Valid c) (hbank : c.bankBits.toNat ≤ 31)
    (hlo : 3 ≤ c.rowBits.toNat + c.colBits.toNat) (hhi : c.rowBits.toNat + c.colBits.toNat ≤ 31) :
    Exact c := by
  have hpow : ∀ n, n ≤ 31 → 2 ^ n < 2 ^ 32 := fun n hn => Nat.pow_lt_pow_right (by omega) (by omega)
  have hcells := pow_add 2 c.rowBits.toNat c.colBits.toNat
  have hfit : 2 ^ c.rowBits.toNat * 2 ^ c.colBits.toNat < 2 ^ 32 := hcells ▸ hpow _ hhi
  have height : ∃ k, 2 ^ (c.rowBits.toNat + c.colBits.toNat) = 8 * k :=
    ⟨2 ^ (c.rowBits.toNat + c.colBits.toNat - 3), by
      rw [show (8 : Nat) = 2 ^ 3 from rfl, ← pow_add]
      congr 1
      omega⟩
  refine
    { banks := ?_, classes := ?_, cells := ?_, bytes := ?_
      address_fits := Nat.pow_lt_pow_right (by omega) h.address_lt
      bank_fits := hpow _ hbank
      row_fits := hpow _ (by omega)
      col_fits := hpow _ (by omega)
      cells_fit := hfit
      row_start_fits := fun r hr =>
        (Nat.mul_lt_mul_of_pos_right hr (Nat.two_pow_pos _)).trans hfit
      capacity_fits := ?_ }
  · obtain ⟨n, hn, hn'⟩ := numberOfBanks_eq h
    exact ⟨n, hn, by rw [hn', Nat.mod_eq_of_lt (hpow _ hbank)]⟩
  · obtain ⟨l, hl, hl'⟩ := newEqClass_eq h
    exact ⟨l, hl, by rw [hl', Nat.mod_eq_of_lt (hpow _ hbank)]⟩
  · obtain ⟨b, hb, _, hw⟩ := bank_new_wellFormed h (hpow _ hhi)
    refine ⟨b, hb, fun a ha => ?_⟩
    obtain ⟨hwa, _⟩ := hw a ha
    refine ⟨hwa.rows_eq, hwa.cols_eq, ?_, ?_, fun r hr => DRAMSubarray.getRow_eq hwa hr⟩
    · rw [UInt32.toNat_mul, hwa.rows_eq, hwa.cols_eq, Nat.mod_eq_of_lt hfit, hcells]
    · rw [hwa.storage_length, hcells]
  · obtain ⟨n, hn, hn'⟩ := sizeOfSubarrayBytes_eq h
    obtain ⟨k, hk⟩ := height
    exact ⟨n, hn, by omega⟩
  · calc 2 ^ c.bankBits.toNat * (2 ^ (c.rowBits.toNat + c.colBits.toNat) / 8)
        ≤ 2 ^ c.bankBits.toNat * 2 ^ (c.rowBits.toNat + c.colBits.toNat) :=
          Nat.mul_le_mul_left _ (Nat.div_le_self _ _)
      _ = 2 ^ (c.bankBits.toNat + (c.rowBits.toNat + c.colBits.toNat)) := (pow_add _ _ _).symm
      _ < 2 ^ 64 := Nat.pow_lt_pow_right (by omega) (by omega)

theorem bounds_of_exact (h : Valid c) (he : Exact c) :
    c.bankBits.toNat ≤ 31 ∧ 3 ≤ c.rowBits.toNat + c.colBits.toNat ∧
      c.rowBits.toNat + c.colBits.toNat ≤ 31 := by
  have hbank : c.bankBits.toNat < 32 := (Nat.pow_lt_pow_iff_right Nat.one_lt_two).mp he.bank_fits
  have hcells : c.rowBits.toNat + c.colBits.toNat < 32 :=
    (Nat.pow_lt_pow_iff_right Nat.one_lt_two).mp (by rw [pow_add]; exact he.cells_fit)
  refine ⟨by omega, ?_, by omega⟩
  by_contra hlt
  have hrow := h.row_range
  have hcol := h.col_range
  have htwo : c.rowBits.toNat + c.colBits.toNat = 2 := by omega
  obtain ⟨n, _, hn⟩ := he.bytes
  rw [htwo] at hn
  omega

end

theorem exact_iff_bounds (c : DRAMConfig) (h : c.validate = .ok ()) :
    Exact c ↔ c.bankBits.toNat ≤ 31 ∧ 3 ≤ c.rowBits.toNat + c.colBits.toNat ∧
      c.rowBits.toNat + c.colBits.toNat ≤ 31 := by
  constructor
  · exact bounds_of_exact (Valid.of_validate h)
  · rintro ⟨hbank, hlo, hhi⟩
    exact exact_of_bounds (Valid.of_validate h) hbank hlo hhi

def stackedConfig (bank row col : UInt8) : DRAMConfig :=
  { sysConfig := ⟨bank + row + col, 64, 8, 64⟩, chipWidthBits := 8
    bankBits := bank, rowBits := row, colBits := col
    addressMappings :=
      { bankMask := ((1 <<< bank.toUInt64) - 1) <<< (row + col).toUInt64
        rowMask := ((1 <<< row.toUInt64) - 1) <<< col.toUInt64
        colMask := (1 <<< col.toUInt64) - 1 } }

theorem exact_three_fourteen_ten : Exact (stackedConfig 3 14 10) ↔
    (3 : UInt8).toNat ≤ 31 ∧ 3 ≤ (14 : UInt8).toNat + (10 : UInt8).toNat ∧
      (14 : UInt8).toNat + (10 : UInt8).toNat ≤ 31 :=
  exact_iff_bounds (stackedConfig 3 14 10) (by decide)

theorem sixteen_sixteen_not_exact :
    (stackedConfig 1 16 16).validate = .ok () ∧ ¬ Exact (stackedConfig 1 16 16) := by
  have hv : (stackedConfig 1 16 16).validate = .ok () := by decide
  refine ⟨hv, ?_⟩
  intro he
  have hb := (bounds_of_exact (Valid.of_validate hv) he).2.2
  revert hb
  decide

end MemSim.Geometry
