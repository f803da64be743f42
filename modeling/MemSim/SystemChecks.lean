import MemSim.PowerOfTwo

namespace MemSim.SystemChecks

open Machine SystemConfig PowerOfTwo

/-- The constraints that the messages of the validator name, in exact
arithmetic and in no order. -/
structure Stated (c : SystemConfig) : Prop where
  address : 1 ≤ c.addressBusWidth.toNat ∧ c.addressBusWidth.toNat ≤ 64
  block : ∃ k, c.blockSize.toNat = 2 ^ k
  bus_le_block : c.dataBusWidth.toNat ≤ c.blockSize.toNat * 8
  bus_dvd : c.dataBusWidth.toNat ∣ c.blockSize.toNat * 8
  word_dvd : c.wordSize.toNat ∣ c.blockSize.toNat
  bus : ∃ k, c.dataBusWidth.toNat = 2 ^ k
  bus_le : c.dataBusWidth.toNat ≤ 64
  word : c.wordSize = 1 ∨ c.wordSize = 2 ∨ c.wordSize = 4 ∨ c.wordSize = 8
  word_le_bus : c.wordSize.toNat * 8 ≤ c.dataBusWidth.toNat

def Faulty (c : SystemConfig) : Prop := ∃ f, c.validate = .error (.fault f)

structure AcceptsStated (c : SystemConfig) : Prop where
  no_fault : ¬ Faulty c
  accepts : c.validate = .ok () ↔ Stated c

/-- The inputs that reach one of the two remainders too early, or whose block
size times eight does not fit thirty-two bits. -/
structure Overlooked (c : SystemConfig) : Prop where
  address : 1 ≤ c.addressBusWidth.toNat ∧ c.addressBusWidth.toNat ≤ 64
  block : ∃ k, c.blockSize.toNat = 2 ^ k
  cause : c.dataBusWidth = 0 ∨
    (c.wordSize = 0 ∧ c.blockSize.toNat < 2 ^ 29 ∧ c.dataBusWidth.toNat ∣ c.blockSize.toNat * 8) ∨
    (2 ^ 29 ≤ c.blockSize.toNat ∧ (∃ k, c.dataBusWidth.toNat = 2 ^ k) ∧ c.dataBusWidth.toNat ≤ 64 ∧
      (c.wordSize = 1 ∨ c.wordSize = 2 ∨ c.wordSize = 4 ∨ c.wordSize = 8) ∧
      c.wordSize.toNat * 8 ≤ c.dataBusWidth.toNat)

section

variable {c : SystemConfig}

theorem product_of_lt (h : c.blockSize.toNat < 2 ^ 29) :
    (c.blockSize * 8).toNat = c.blockSize.toNat * 8 := by
  rw [UInt32.toNat_mul, Nat.mod_eq_of_lt]
  · rfl
  · change c.blockSize.toNat * 8 < 2 ^ 32
    omega

theorem product_of_ge (h : ∃ k, c.blockSize.toNat = 2 ^ k) (hge : 2 ^ 29 ≤ c.blockSize.toNat) :
    (c.blockSize * 8).toNat = 0 := by
  obtain ⟨k, hk⟩ := h
  have hexp : 29 ≤ k := by
    rw [hk] at hge
    exact (Nat.pow_le_pow_iff_right Nat.one_lt_two).mp hge
  rw [UInt32.toNat_mul, hk, show (8 : UInt32).toNat = 2 ^ 3 from rfl, ← Nat.pow_add]
  exact Nat.mod_eq_zero_of_dvd (Nat.pow_dvd_pow 2 (by omega))

theorem block_pos (h : ∃ k, c.blockSize.toNat = 2 ^ k) : 0 < c.blockSize.toNat := by
  obtain ⟨k, hk⟩ := h
  rw [hk]
  exact Nat.two_pow_pos k

theorem block_lt_of_bus_le (h : ∃ k, c.blockSize.toNat = 2 ^ k) (hne : c.dataBusWidth.toUInt32 ≠ 0)
    (hle : c.dataBusWidth.toUInt32 ≤ c.blockSize * 8) : c.blockSize.toNat < 2 ^ 29 := by
  by_contra hge
  rw [UInt32.le_iff_toNat_le, product_of_ge h (Nat.not_lt.mp hge)] at hle
  apply hne
  rw [← UInt32.toNat_inj, UInt32.toNat_zero]
  omega

theorem toUInt32_ne_zero {n : UInt8} : n.toUInt32 ≠ 0 ↔ n ≠ 0 := by
  rw [ne_eq, ne_eq, ← UInt32.toNat_inj, ← UInt8.toNat_inj, UInt8.toNat_toUInt32]
  rfl

theorem bus_rest_eq_zero (h : c.blockSize.toNat < 2 ^ 29) :
    c.blockSize * 8 % c.dataBusWidth.toUInt32 = 0 ↔ c.dataBusWidth.toNat ∣ c.blockSize.toNat * 8 := by
  rw [← UInt32.toNat_inj, UInt32.toNat_mod, product_of_lt h, UInt8.toNat_toUInt32, UInt32.toNat_zero,
    Nat.dvd_iff_mod_eq_zero]

theorem word_rest_eq_zero :
    c.blockSize % c.wordSize.toUInt32 = 0 ↔ c.wordSize.toNat ∣ c.blockSize.toNat := by
  rw [← UInt32.toNat_inj, UInt32.toNat_mod, UInt8.toNat_toUInt32, UInt32.toNat_zero,
    Nat.dvd_iff_mod_eq_zero]

theorem bus_pow_iff : isPowerOf2 c.dataBusWidth.toUInt32 = true ↔ ∃ k, c.dataBusWidth.toNat = 2 ^ k := by
  rw [isPowerOf2_iff, UInt8.toNat_toUInt32]

theorem word_ne_zero (h : c.wordSize = 1 ∨ c.wordSize = 2 ∨ c.wordSize = 4 ∨ c.wordSize = 8) :
    c.wordSize ≠ 0 ∧ 1 ≤ c.wordSize.toNat := by
  rcases h with h | h | h | h <;> rw [h] <;> decide

theorem valid_iff_stated : Valid c ↔ Stated c ∧ c.blockSize.toNat < 2 ^ 29 := by
  constructor
  · intro h
    have hblock := (isPowerOf2_iff c.blockSize).mp h.block_pow
    have hlt := block_lt_of_bus_le hblock h.bus_ne h.bus_le_block
    have hle := h.bus_le_block
    rw [UInt32.le_iff_toNat_le, product_of_lt hlt, UInt8.toNat_toUInt32] at hle
    exact
      ⟨{ address := ⟨h.address_pos, h.address_le⟩, block := hblock, bus_le_block := hle
         bus_dvd := (bus_rest_eq_zero hlt).mp h.bus_dvd, word_dvd := word_rest_eq_zero.mp h.word_dvd
         bus := bus_pow_iff.mp h.bus_pow, bus_le := UInt8.le_iff_toNat_le.mp h.bus_le
         word := h.word_range, word_le_bus := h.word_le_bus }, hlt⟩
  · rintro ⟨h, hlt⟩
    obtain ⟨hword, hpos⟩ := word_ne_zero h.word
    have hbus : c.dataBusWidth ≠ 0 := by
      have hle := h.word_le_bus
      rw [ne_eq, ← UInt8.toNat_inj, UInt8.toNat_zero]
      omega
    exact
      { address_pos := h.address.1, address_le := h.address.2
        block_pow := (isPowerOf2_iff c.blockSize).mpr h.block
        bus_le_block := by
          rw [UInt32.le_iff_toNat_le, product_of_lt hlt, UInt8.toNat_toUInt32]
          exact h.bus_le_block
        bus_ne := toUInt32_ne_zero.mpr hbus, bus_dvd := (bus_rest_eq_zero hlt).mpr h.bus_dvd
        word_ne := toUInt32_ne_zero.mpr hword, word_dvd := word_rest_eq_zero.mpr h.word_dvd
        bus_pow := bus_pow_iff.mpr h.bus, bus_le := UInt8.le_iff_toNat_le.mpr h.bus_le
        word_range := h.word, word_le_bus := h.word_le_bus }

end

/-- The two remainders are the only places to fault, each when its check has
not yet been made. -/
theorem faulty_iff (c : SystemConfig) : Faulty c ↔
    (1 ≤ c.addressBusWidth.toNat ∧ c.addressBusWidth.toNat ≤ 64) ∧ (∃ k, c.blockSize.toNat = 2 ^ k) ∧
      (c.dataBusWidth = 0 ∨ (c.wordSize = 0 ∧ c.blockSize.toNat < 2 ^ 29 ∧
        c.dataBusWidth.toNat ∣ c.blockSize.toNat * 8)) := by
  simp only [Faulty, validate, reject_bind_eq_fault, modulo_bind_eq_fault, reject_ne_fault, address_not_rejected,
    not_not, UInt32.not_lt, and_false, or_false, isPowerOf2_iff]
  constructor
  · rintro ⟨f, ha, hb, hle, ⟨hz, _⟩ | ⟨hne, hrest, hw, _⟩⟩
    · exact ⟨ha, hb, Or.inl (not_not.mp (mt toUInt32_ne_zero.mpr (not_not.mpr hz)))⟩
    · have hlt := block_lt_of_bus_le hb hne hle
      exact ⟨ha, hb, Or.inr ⟨not_not.mp (mt toUInt32_ne_zero.mpr (not_not.mpr hw)), hlt,
        (bus_rest_eq_zero hlt).mp hrest⟩⟩
  · rintro ⟨ha, hb, hcause⟩
    refine ⟨.divisionByZero, ha, hb, ?_⟩
    by_cases hz : c.dataBusWidth = 0
    · rw [hz]
      exact ⟨UInt32.zero_le, Or.inl ⟨rfl, rfl⟩⟩
    · obtain ⟨hw, hlt, hd⟩ := hcause.resolve_left hz
      refine ⟨?_, Or.inr ⟨toUInt32_ne_zero.mpr hz, (bus_rest_eq_zero hlt).mpr hd, ?_, rfl⟩⟩
      · rw [UInt32.le_iff_toNat_le, product_of_lt hlt, UInt8.toNat_toUInt32]
        exact Nat.le_of_dvd (by have := block_pos hb; omega) hd
      · rw [hw]
        rfl

theorem stated_of_large {c : SystemConfig} (ha : 1 ≤ c.addressBusWidth.toNat ∧ c.addressBusWidth.toNat ≤ 64)
    (hb : ∃ k, c.blockSize.toNat = 2 ^ k) (hge : 2 ^ 29 ≤ c.blockSize.toNat)
    (hbus : ∃ k, c.dataBusWidth.toNat = 2 ^ k) (hle : c.dataBusWidth.toNat ≤ 64)
    (hw : c.wordSize = 1 ∨ c.wordSize = 2 ∨ c.wordSize = 4 ∨ c.wordSize = 8)
    (hwb : c.wordSize.toNat * 8 ≤ c.dataBusWidth.toNat) : Stated c := by
  obtain ⟨k, hk⟩ := hb
  obtain ⟨j, hj⟩ := hbus
  have hexp : 29 ≤ k := by
    rw [hk] at hge
    exact (Nat.pow_le_pow_iff_right Nat.one_lt_two).mp hge
  have hsmall : j ≤ 6 := by
    rw [hj] at hle
    exact (Nat.pow_le_pow_iff_right Nat.one_lt_two).mp hle
  have hword : c.wordSize.toNat ∣ 2 ^ 3 := by
    rcases hw with h | h | h | h <;> rw [h] <;> decide
  exact
    { address := ha, block := ⟨k, hk⟩, bus_le_block := by omega
      bus_dvd := by
        rw [hk, hj]
        exact Nat.dvd_mul_right_of_dvd (Nat.pow_dvd_pow 2 (by omega)) 8
      word_dvd := by
        rw [hk]
        exact Nat.dvd_trans hword (Nat.pow_dvd_pow 2 (by omega))
      bus := ⟨j, hj⟩, bus_le := hle, word := hw, word_le_bus := hwb }

theorem acceptsStated_iff (c : SystemConfig) : AcceptsStated c ↔ ¬ Overlooked c := by
  constructor
  · intro h ho
    rcases ho.cause with hz | hw | ⟨hge, hbus, hle, hw, hwb⟩
    · exact h.no_fault ((faulty_iff c).mpr ⟨ho.address, ho.block, Or.inl hz⟩)
    · exact h.no_fault ((faulty_iff c).mpr ⟨ho.address, ho.block, Or.inr hw⟩)
    · have hv := (validate_eq_ok c).mp
        (h.accepts.mpr (stated_of_large ho.address ho.block hge hbus hle hw hwb))
      have hlt := (valid_iff_stated.mp hv).2
      omega
  · intro ho
    refine ⟨?_, ?_⟩
    · intro hf
      obtain ⟨ha, hb, hcause⟩ := (faulty_iff c).mp hf
      rcases hcause with hz | hw
      · exact ho ⟨ha, hb, Or.inl hz⟩
      · exact ho ⟨ha, hb, Or.inr (Or.inl hw)⟩
    · rw [validate_eq_ok, valid_iff_stated]
      constructor
      · exact And.left
      · intro hs
        refine ⟨hs, ?_⟩
        by_contra hge
        exact ho ⟨hs.address, hs.block, Or.inr (Or.inr ⟨Nat.not_lt.mp hge, hs.bus, hs.bus_le, hs.word,
          hs.word_le_bus⟩)⟩

theorem no_bus_divides_by_zero :
    (SystemConfig.mk 32 0 4 64).validate = .error (.fault .divisionByZero) ∧
      ¬ AcceptsStated (SystemConfig.mk 32 0 4 64) := by
  have hf : (SystemConfig.mk 32 0 4 64).validate = .error (.fault .divisionByZero) := rfl
  exact ⟨hf, fun h => h.no_fault ⟨_, hf⟩⟩

end MemSim.SystemChecks
