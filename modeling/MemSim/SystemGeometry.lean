import MemSim.SystemChecks

namespace MemSim.SystemGeometry

open Machine SystemConfig SystemChecks PowerOfTwo

/-- Every derived quantity is defined and is the one its name says. -/
structure Derived (c : SystemConfig) : Prop where
  space : ∃ n, c.addressSpaceBytes = .ok n ∧ n.toNat = 2 ^ c.addressBusWidth.toNat
  blocks : ∃ space n, c.addressSpaceBytes = .ok space ∧ c.totalBlocks = .ok n ∧ 1 ≤ n.toNat ∧
    n.toNat * c.blockSize.toNat = space.toNat
  transfers : ∃ n, c.transfersPerBlock = .ok n ∧
    n.toNat * c.dataBusWidth.toNat = 8 * c.blockSize.toNat
  words : ∃ n, c.wordsPerBlock = .ok n ∧ n.toNat * c.wordSize.toNat = c.blockSize.toNat
  places : ∃ offset tag, c.offsetBits = .ok offset ∧ c.tagIndexBits = .ok tag ∧
    2 ^ offset.toNat = c.blockSize.toNat ∧
    offset.toNat + tag.toNat = c.addressBusWidth.toNat

section

variable {c : SystemConfig}

theorem addressSpaceBytes_of_lt (h : c.addressBusWidth.toNat < 64) :
    ∃ n, c.addressSpaceBytes = .ok n ∧ n.toNat = 2 ^ c.addressBusWidth.toNat := by
  have hlt : c.addressBusWidth < 64 := UInt8.lt_iff_toNat_lt.mpr h
  refine ⟨_, if_pos hlt, ?_⟩
  rw [UInt64.toNat_shiftLeft, UInt8.toNat_toUInt64, Nat.mod_eq_of_lt h, Nat.shiftLeft_eq]
  rw [show (1 : UInt64).toNat = 1 from rfl, Nat.one_mul]
  exact Nat.mod_eq_of_lt (Nat.pow_lt_pow_right Nat.one_lt_two h)

theorem addressSpaceBytes_lt {n : UInt64} (h : c.addressSpaceBytes = .ok n) :
    c.addressBusWidth.toNat < 64 := by
  by_contra hge
  have hno : ¬ c.addressBusWidth < 64 := fun hlt => hge (UInt8.lt_iff_toNat_lt.mp hlt)
  simp [addressSpaceBytes, shiftUnsigned, hno] at h

theorem totalBlocks_of_le (hs : Stated c) (h : c.addressBusWidth.toNat < 64)
    (hle : c.blockSize.toNat ≤ 2 ^ c.addressBusWidth.toNat) :
    ∃ space n, c.addressSpaceBytes = .ok space ∧ c.totalBlocks = .ok n ∧ 1 ≤ n.toNat ∧
      n.toNat * c.blockSize.toNat = space.toNat := by
  obtain ⟨space, hspace, hval⟩ := addressSpaceBytes_of_lt h
  have hpos := block_pos hs.block
  have hne : c.blockSize.toUInt64 ≠ 0 := by
    rw [ne_eq, ← UInt64.toNat_inj, UInt32.toNat_toUInt64, UInt64.toNat_zero]
    omega
  have hdiv : (space / c.blockSize.toUInt64).toNat = 2 ^ c.addressBusWidth.toNat / c.blockSize.toNat := by
    rw [UInt64.toNat_div, UInt32.toNat_toUInt64, hval]
  refine ⟨space, space / c.blockSize.toUInt64, hspace, ?_, ?_, ?_⟩
  · rw [totalBlocks, hspace, bind_ok, divide_of_ne hne]
  · rw [hdiv]
    exact Nat.div_pos hle hpos
  · obtain ⟨k, hk⟩ := hs.block
    rw [hdiv, hval]
    apply Nat.div_mul_cancel
    rw [hk] at hle ⊢
    exact Nat.pow_dvd_pow 2 ((Nat.pow_le_pow_iff_right Nat.one_lt_two).mp hle)

theorem transfersPerBlock_eq (hs : Stated c) :
    ∃ n, c.transfersPerBlock = .ok n ∧ n.toNat * c.dataBusWidth.toNat = 8 * c.blockSize.toNat := by
  obtain ⟨j, hj⟩ := hs.bus
  have hword := (word_ne_zero hs.word).2
  have hwb := hs.word_le_bus
  have hthree : 3 ≤ j := by
    apply (Nat.pow_le_pow_iff_right Nat.one_lt_two).mp
    rw [← hj]
    omega
  have hbus : c.dataBusWidth.toNat = 8 * 2 ^ (j - 3) := by
    rw [hj, show (8 : Nat) = 2 ^ 3 from rfl, ← Nat.pow_add]
    congr 1
    omega
  have hbytes : (c.dataBusWidth / 8).toUInt32.toNat = 2 ^ (j - 3) := by
    rw [UInt8.toNat_toUInt32, UInt8.toNat_div, hbus]
    exact Nat.mul_div_cancel_left _ (by decide)
  have hpos := Nat.two_pow_pos (j - 3)
  have hne : (c.dataBusWidth / 8).toUInt32 ≠ 0 := by
    rw [ne_eq, ← UInt32.toNat_inj, hbytes, UInt32.toNat_zero]
    omega
  have hdvd : 2 ^ (j - 3) ∣ c.blockSize.toNat := by
    have hd := hs.bus_dvd
    rw [hbus, Nat.mul_comm _ 8] at hd
    exact Nat.dvd_of_mul_dvd_mul_left (by decide) hd
  refine ⟨c.blockSize / (c.dataBusWidth / 8).toUInt32, divide_of_ne hne, ?_⟩
  rw [UInt32.toNat_div, hbytes, hbus, Nat.mul_left_comm, Nat.div_mul_cancel hdvd]

theorem wordsPerBlock_eq (hs : Stated c) :
    ∃ n, c.wordsPerBlock = .ok n ∧ n.toNat * c.wordSize.toNat = c.blockSize.toNat := by
  have hne : c.wordSize.toUInt32 ≠ 0 := toUInt32_ne_zero.mpr (word_ne_zero hs.word).1
  refine ⟨c.blockSize / c.wordSize.toUInt32, divide_of_ne hne, ?_⟩
  rw [UInt32.toNat_div, UInt8.toNat_toUInt32, Nat.div_mul_cancel hs.word_dvd]

theorem offsetBits_eq (hs : Stated c) :
    ∃ offset, c.offsetBits = .ok offset ∧ 2 ^ offset.toNat = c.blockSize.toNat := by
  have hlog := log2Of_eq c.blockSize
  refine ⟨_, hlog, ?_⟩
  rw [log2Of_toNat hlog]
  exact ((isPowerOf2_iff_log2 c.blockSize).mp ((isPowerOf2_iff c.blockSize).mpr hs.block)).2

theorem tagIndexBits_eq {offset : UInt8} (ho : c.offsetBits = .ok offset)
    (hle : offset.toNat ≤ c.addressBusWidth.toNat) :
    ∃ tag, c.tagIndexBits = .ok tag ∧ offset.toNat + tag.toNat = c.addressBusWidth.toNat := by
  have htag : c.tagIndexBits = .ok (c.addressBusWidth - offset) := by
    rw [tagIndexBits, ho, bind_ok]
    rfl
  refine ⟨_, htag, ?_⟩
  rw [UInt8.toNat_sub_of_le _ _ (UInt8.le_iff_toNat_le.mpr hle)]
  omega

end

/-- Accepted configurations miss two constraints: a bus that the shift can
express, and a block that fits the address space. -/
theorem derived_iff (c : SystemConfig) (h : c.validate = .ok ()) :
    Derived c ↔ c.addressBusWidth.toNat < 64 ∧ c.blockSize.toNat ≤ 2 ^ c.addressBusWidth.toNat := by
  obtain ⟨hs, _⟩ := valid_iff_stated.mp ((validate_eq_ok c).mp h)
  constructor
  · intro hd
    obtain ⟨space, hspace, hval⟩ := hd.space
    refine ⟨addressSpaceBytes_lt hspace, ?_⟩
    obtain ⟨space', n, hspace', _, hn, hmul⟩ := hd.blocks
    obtain rfl := Except.ok.inj (hspace.symm.trans hspace')
    rw [← hval, ← hmul]
    exact Nat.le_mul_of_pos_left _ hn
  · rintro ⟨hlt, hle⟩
    obtain ⟨offset, ho, hpow⟩ := offsetBits_eq hs
    have hoff : offset.toNat ≤ c.addressBusWidth.toNat := by
      rw [← hpow] at hle
      exact (Nat.pow_le_pow_iff_right Nat.one_lt_two).mp hle
    obtain ⟨tag, ht, hsum⟩ := tagIndexBits_eq ho hoff
    exact ⟨addressSpaceBytes_of_lt hlt, totalBlocks_of_le hs hlt hle, transfersPerBlock_eq hs,
      wordsPerBlock_eq hs, offset, tag, ho, ht, hpow, hsum⟩

theorem derived_iff_thirtyTwo : Derived (SystemConfig.mk 32 64 8 64) ↔
    (32 : UInt8).toNat < 64 ∧ (64 : UInt32).toNat ≤ 2 ^ (32 : UInt8).toNat :=
  derived_iff (SystemConfig.mk 32 64 8 64) rfl

theorem widest_bus_not_derived :
    (SystemConfig.mk 64 64 8 64).validate = .ok () ∧
      (SystemConfig.mk 64 64 8 64).addressSpaceBytes = .error (.fault .shiftRange) ∧
      ¬ Derived (SystemConfig.mk 64 64 8 64) := by
  refine ⟨rfl, rfl, ?_⟩
  intro h
  obtain ⟨n, hn, _⟩ := h.space
  cases hn

end MemSim.SystemGeometry
