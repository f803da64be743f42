import MemSim.ChipStorage
import Mathlib.Data.Nat.Prime.Basic

namespace MemSim.ConfigChecks

open Machine DRAMConfig SystemChecks PowerOfTwo

def chipCount (c : DRAMConfig) : Nat := c.sysConfig.dataBusWidth.toNat / c.chipWidthBits.toNat

structure ChipFits (c : DRAMConfig) : Prop where
  system : c.sysConfig.validate = .ok ()
  pow : ∃ k, c.chipWidthBits.toNat = 2 ^ k
  le : c.chipWidthBits.toNat ≤ c.sysConfig.dataBusWidth.toNat

structure Split (c : DRAMConfig) : Prop where
  bank : 1 ≤ c.bankBits.toNat
  row : 1 ≤ c.rowBits.toNat
  col : 1 ≤ c.colBits.toNat
  sum : c.bankBits.toNat + c.rowBits.toNat + c.colBits.toNat = c.sysConfig.addressBusWidth.toNat
  address : c.sysConfig.addressBusWidth.toNat ≤ 63

/-- All that the checks ask for, without machine arithmetic. The comparison of
capacities is only made for fewer than 32 bank bits, and more than four cells. -/
structure Accepted (c : DRAMConfig) : Prop extends ChipFits c, Split c where
  chips_dvd : chipCount c ∣ 2 ^ c.sysConfig.addressBusWidth.toNat
  capacity : chipCount c ≤ 8 ∨ 32 ≤ c.bankBits.toNat ∨ c.rowBits.toNat + c.colBits.toNat = 2

def validateSplit (c : DRAMConfig) (chips : UInt32) : Checked String Unit := do
  let space ← c.sysConfig.addressSpaceBytes
  let spaceRest ← modulo space chips.toUInt64
  reject (spaceRest ≠ 0) "address space doesn't divide evenly by number of chips"
  reject (c.bankBits = 0 ∨ c.bankBits > 63) "bank_bits must be in range [1, 63]"
  reject (c.rowBits = 0 ∨ c.rowBits > 63) "row_bits must be in range [1, 63]"
  reject (c.colBits = 0 ∨ c.colBits > 63) "col_bits must be in range [1, 63]"
  reject (c.rowBits.toNat + c.colBits.toNat ≥ 64) "row_bits + col_bits must be < 64 (shift overflow)"
  reject (c.bankBits.toNat + c.rowBits.toNat + c.colBits.toNat ≠ c.sysConfig.addressBusWidth.toNat)
    "bank_bits + row_bits + col_bits must equal address_bus_width"
  let chip ← c.sizeOfChipBytes
  let banks ← c.numberOfBanks
  let subarray ← c.sizeOfSubarrayBytes
  reject (chip < banks.toUInt64 * subarray) "chip capacity < (banks × subarray size)"

variable {c : DRAMConfig}

theorem ChipFits.bus_pow (h : ChipFits c) : ∃ k, c.sysConfig.dataBusWidth.toNat = 2 ^ k :=
  (valid_iff_stated.mp ((SystemConfig.validate_eq_ok _).mp h.system)).1.bus

theorem ChipFits.chipCount_pow (h : ChipFits c) : ∃ k, chipCount c = 2 ^ k ∧
    chipCount c * c.chipWidthBits.toNat = c.sysConfig.dataBusWidth.toNat := by
  obtain ⟨i, hi⟩ := h.pow
  obtain ⟨j, hj⟩ := h.bus_pow
  have hle : i ≤ j := by
    have := h.le
    rw [hi, hj] at this
    exact (Nat.pow_le_pow_iff_right Nat.one_lt_two).mp this
  refine ⟨j - i, ?_, ?_⟩
  · rw [chipCount, hi, hj, Nat.pow_div hle Nat.two_pos]
  · rw [chipCount, hi, hj, Nat.div_mul_cancel (Nat.pow_dvd_pow 2 hle)]

theorem ChipFits.chip_ne (h : ChipFits c) : c.chipWidthBits ≠ 0 := by
  obtain ⟨k, hk⟩ := h.pow
  rw [ne_eq, ← UInt8.toNat_inj, hk]
  exact (Nat.two_pow_pos k).ne'

theorem ChipFits.numberOfChips_eq (h : ChipFits c) :
    ∃ n, c.numberOfChips = .ok n ∧ n.toNat = chipCount c ∧ n ≠ 0 := by
  have hval : (c.sysConfig.dataBusWidth / c.chipWidthBits).toUInt32.toNat = chipCount c := by
    rw [UInt8.toNat_toUInt32, UInt8.toNat_div, chipCount]
  refine ⟨_, by rw [numberOfChips, divide_of_ne h.chip_ne]; rfl, hval, ?_⟩
  obtain ⟨k, hk, _⟩ := h.chipCount_pow
  rw [ne_eq, ← UInt32.toNat_inj, hval, hk]
  exact (Nat.two_pow_pos k).ne'

theorem validate_of_chipFits (h : ChipFits c) {n : UInt32} (hn : c.numberOfChips = .ok n) :
    c.validate = validateSplit c n := by
  obtain ⟨n', hn', _, hne⟩ := h.numberOfChips_eq
  obtain rfl := Except.ok.inj (hn.symm.trans hn')
  have hpow : isPowerOf2 c.chipWidthBits.toUInt32 = true := by
    rw [isPowerOf2_iff, UInt8.toNat_toUInt32]
    exact h.pow
  have hle : ¬ c.chipWidthBits > c.sysConfig.dataBusWidth := by
    rw [gt_iff_lt, UInt8.lt_iff_toNat_lt]
    exact Nat.not_lt.mpr h.le
  have hrest : c.sysConfig.dataBusWidth % c.chipWidthBits = 0 := by
    obtain ⟨_, _, hmul⟩ := h.chipCount_pow
    rw [← UInt8.toNat_inj, UInt8.toNat_mod, ← hmul]
    exact Nat.mul_mod_left _ _
  rw [validate, h.system, bind_ok]
  simp only [reject, h.chip_ne, hpow, hle, hrest, modulo_of_ne h.chip_ne, hn, hne, not_true_eq_false, if_false,
    ne_eq, bind_ok]
  rfl

theorem Split.widths (h : Split c) : c.bankBits.toNat ≤ 61 ∧ c.rowBits.toNat ≤ 61 ∧ c.colBits.toNat ≤ 61 ∧
    c.rowBits.toNat + c.colBits.toNat ≤ 62 := by
  have hbank := h.bank
  have hrow := h.row
  have hcol := h.col
  have hsum := h.sum
  have haddress := h.address
  omega

theorem Split.numberOfBanks_eq (h : Split c) :
    ∃ n, c.numberOfBanks = .ok n ∧ n.toNat = 2 ^ c.bankBits.toNat % 2 ^ 32 := by
  have hbank : c.bankBits.toNat ≤ 62 := h.widths.1.trans (Nat.le_succ 61)
  refine ⟨UInt32.ofInt (2 ^ c.bankBits.toNat), ?_, Geometry.ofInt_two_pow _⟩
  rw [numberOfBanks, Geometry.shiftSigned_eq hbank]
  rfl

theorem Split.sizeOfSubarrayBytes_eq (h : Split c) :
    ∃ n, c.sizeOfSubarrayBytes = .ok n ∧ n.toNat = 2 ^ (c.rowBits.toNat + c.colBits.toNat) / 8 := by
  obtain ⟨_, hrow, hcol, hsum⟩ := h.widths
  have hcells : 2 ^ (c.rowBits.toNat + c.colBits.toNat) < 2 ^ 63 :=
    Nat.pow_lt_pow_right (by omega) (by omega)
  have hprod : (2 : Int) ^ c.rowBits.toNat * 2 ^ c.colBits.toNat =
      ((2 ^ (c.rowBits.toNat + c.colBits.toNat) : Nat) : Int) := by
    push_cast
    rw [pow_add]
  rw [sizeOfSubarrayBytes, Geometry.shiftSigned_eq (hrow.trans (Nat.le_succ 61)),
    Geometry.shiftSigned_eq (hcol.trans (Nat.le_succ 61)), bind_ok, bind_ok,
    Geometry.mulSigned_eq hprod hcells, bind_ok]
  generalize 2 ^ (c.rowBits.toNat + c.colBits.toNat) = cells at hcells ⊢
  refine ⟨_, rfl, ?_⟩
  rw [Int.tdiv_eq_ediv_of_nonneg (Int.natCast_nonneg cells), UInt64.ofInt, UInt64.toNat_ofNat']
  omega

theorem Split.product (h : Split c) {banks : UInt32} {subarray : UInt64}
    (hbanks : banks.toNat = 2 ^ c.bankBits.toNat % 2 ^ 32)
    (hsub : subarray.toNat = 2 ^ (c.rowBits.toNat + c.colBits.toNat) / 8) :
    (banks.toUInt64 * subarray).toNat =
      2 ^ c.bankBits.toNat % 2 ^ 32 * (2 ^ (c.rowBits.toNat + c.colBits.toNat) / 8) := by
  have hsum := h.sum
  have haddress := h.address
  rw [UInt64.toNat_mul, UInt32.toNat_toUInt64, hbanks, hsub, Nat.mod_eq_of_lt]
  calc 2 ^ c.bankBits.toNat % 2 ^ 32 * (2 ^ (c.rowBits.toNat + c.colBits.toNat) / 8)
      ≤ 2 ^ c.bankBits.toNat * 2 ^ (c.rowBits.toNat + c.colBits.toNat) :=
        Nat.mul_le_mul (Nat.mod_le _ _) (Nat.div_le_self _ _)
    _ = 2 ^ (c.bankBits.toNat + (c.rowBits.toNat + c.colBits.toNat)) := (pow_add _ _ _).symm
    _ < 2 ^ 64 := Nat.pow_lt_pow_right (by omega) (by omega)

theorem capacity_iff {a b k n : Nat} (ha : b + n = a) (hn : 2 ≤ n) (hk : k ≤ a) :
    2 ^ b % 2 ^ 32 * (2 ^ n / 8) ≤ 2 ^ a / 2 ^ k ↔ 2 ^ k ≤ 8 ∨ 32 ≤ b ∨ n = 2 := by
  by_cases hb : 32 ≤ b
  · rw [Nat.mod_eq_zero_of_dvd (Nat.pow_dvd_pow 2 hb)]
    simp [hb]
  · by_cases hn' : n = 2
    · subst hn'
      simp
    · have hbanks : 2 ^ b % 2 ^ 32 = 2 ^ b := Nat.mod_eq_of_lt (Nat.pow_lt_pow_right (by omega) (by omega))
      have hcells : 2 ^ n / 8 = 2 ^ (n - 3) := by
        rw [show (8 : Nat) = 2 ^ 3 from rfl, Nat.pow_div (by omega) Nat.two_pos]
      rw [hbanks, hcells, ← pow_add, Nat.pow_div hk Nat.two_pos, Nat.pow_le_pow_iff_right Nat.one_lt_two,
        show (8 : Nat) = 2 ^ 3 from rfl, Nat.pow_le_pow_iff_right Nat.one_lt_two]
      omega

theorem ChipFits.sizeOfChipBytes_eq (h : ChipFits c) (ha : c.sysConfig.addressBusWidth.toNat < 64) :
    ∃ n, c.sizeOfChipBytes = .ok n ∧ n.toNat = 2 ^ c.sysConfig.addressBusWidth.toNat / chipCount c := by
  obtain ⟨space, hspace, hval⟩ := SystemGeometry.addressSpaceBytes_of_lt ha
  obtain ⟨chips, hchips, hn, hne⟩ := h.numberOfChips_eq
  have hne' : chips.toUInt64 ≠ 0 := by
    rw [ne_eq, ← UInt64.toNat_inj, UInt32.toNat_toUInt64]
    rw [ne_eq, ← UInt32.toNat_inj] at hne
    exact hne
  refine ⟨space / chips.toUInt64, ?_, ?_⟩
  · rw [sizeOfChipBytes, hspace, hchips, bind_ok, bind_ok, divide_of_ne hne']
  · rw [UInt64.toNat_div, UInt32.toNat_toUInt64, hval, hn]

theorem Split.capacity_iff (hs : Split c) (h : ChipFits c) (hdvd : chipCount c ∣ 2 ^ c.sysConfig.addressBusWidth.toNat) :
    ∃ size banks subarray, c.sizeOfChipBytes = .ok size ∧ c.numberOfBanks = .ok banks ∧
      c.sizeOfSubarrayBytes = .ok subarray ∧ (¬ size < banks.toUInt64 * subarray ↔
        chipCount c ≤ 8 ∨ 32 ≤ c.bankBits.toNat ∨ c.rowBits.toNat + c.colBits.toNat = 2) := by
  obtain ⟨size, hsize, hsizeVal⟩ := h.sizeOfChipBytes_eq (Nat.lt_succ_of_le hs.address)
  obtain ⟨banks, hbanks, hbanksVal⟩ := hs.numberOfBanks_eq
  obtain ⟨subarray, hsub, hsubVal⟩ := hs.sizeOfSubarrayBytes_eq
  obtain ⟨k, hk, _⟩ := h.chipCount_pow
  refine ⟨size, banks, subarray, hsize, hbanks, hsub, ?_⟩
  have hrow := hs.row
  have hcol := hs.col
  have hsum := hs.sum
  have hle : k ≤ c.sysConfig.addressBusWidth.toNat := by
    rw [hk] at hdvd
    exact (Nat.pow_dvd_pow_iff_le_right Nat.one_lt_two).mp hdvd
  rw [UInt64.lt_iff_toNat_lt, Nat.not_lt, hs.product hbanksVal hsubVal, hsizeVal, hk]
  exact ConfigChecks.capacity_iff (by omega) (by omega) hle

theorem range_not_rejected {n : UInt8} (h : 1 ≤ n.toNat) (hle : n.toNat ≤ 63) : ¬ (n = 0 ∨ n > 63) := by
  rw [← UInt8.toNat_inj, gt_iff_lt, UInt8.lt_iff_toNat_lt]
  simp only [UInt8.toNat_ofNat]
  omega

theorem spaceRest_eq (h : ChipFits c) {n : UInt32} (hn : c.numberOfChips = .ok n) {space : UInt64}
    (hspace : c.sysConfig.addressSpaceBytes = .ok space) :
    n.toUInt64 ≠ 0 ∧ (space % n.toUInt64 = 0 ↔ chipCount c ∣ 2 ^ c.sysConfig.addressBusWidth.toNat) := by
  obtain ⟨n', hn', hval, hne⟩ := h.numberOfChips_eq
  obtain rfl := Except.ok.inj (hn.symm.trans hn')
  obtain ⟨space', hspace', hspaceVal⟩ :=
    SystemGeometry.addressSpaceBytes_of_lt (SystemGeometry.addressSpaceBytes_lt hspace)
  obtain rfl := Except.ok.inj (hspace.symm.trans hspace')
  refine ⟨?_, ?_⟩
  · rw [ne_eq, ← UInt64.toNat_inj, UInt32.toNat_toUInt64]
    rw [ne_eq, ← UInt32.toNat_inj] at hne
    exact hne
  · rw [← UInt64.toNat_inj, UInt64.toNat_mod, UInt32.toNat_toUInt64, hval, hspaceVal, UInt64.toNat_zero,
      Nat.dvd_iff_mod_eq_zero]

theorem validateSplit_eq_ok (h : ChipFits c) {n : UInt32} (hn : c.numberOfChips = .ok n) :
    validateSplit c n = .ok () ↔ Accepted c := by
  constructor
  · intro hok
    simp only [validateSplit, bind_eq_ok (x := c.sysConfig.addressSpaceBytes), modulo_bind_eq_ok,
      reject_bind_eq_ok, bind_eq_ok (x := c.sizeOfChipBytes), bind_eq_ok (x := c.numberOfBanks),
      bind_eq_ok (x := c.sizeOfSubarrayBytes), reject_eq_ok] at hok
    obtain ⟨space, hspace, _, hrest, hbank, hrow, hcol, _, hsum, size, hsize, banks, hbanks, subarray, hsub, hcap⟩ := hok
    have hsplit : Split c :=
      { bank := (range_of_not_rejected hbank).1, row := (range_of_not_rejected hrow).1
        col := (range_of_not_rejected hcol).1, sum := not_not.mp hsum
        address := Nat.le_of_lt_succ (SystemGeometry.addressSpaceBytes_lt hspace) }
    have hdvd := (spaceRest_eq h hn hspace).2.mp (not_not.mp hrest)
    obtain ⟨size', banks', subarray', hsize', hbanks', hsub', hiff⟩ := hsplit.capacity_iff h hdvd
    obtain rfl := Except.ok.inj (hsize.symm.trans hsize')
    obtain rfl := Except.ok.inj (hbanks.symm.trans hbanks')
    obtain rfl := Except.ok.inj (hsub.symm.trans hsub')
    exact ⟨h, hsplit, hdvd, hiff.mp hcap⟩
  · intro ha
    have haddress := ha.address
    have hbounds := ha.toSplit.widths
    obtain ⟨space, hspace, _⟩ := SystemGeometry.addressSpaceBytes_of_lt (Nat.lt_succ_of_le haddress)
    obtain ⟨hne, hrest⟩ := spaceRest_eq h hn hspace
    obtain ⟨size, banks, subarray, hsize, hbanks, hsub, hiff⟩ := ha.toSplit.capacity_iff h ha.chips_dvd
    simp only [validateSplit, hspace, bind_ok, modulo_bind_eq_ok, reject_bind_eq_ok, hsize, hbanks, hsub, reject_eq_ok]
    refine ⟨hne, not_not.mpr (hrest.mpr ha.chips_dvd), range_not_rejected ha.bank (by omega),
      range_not_rejected ha.row (by omega), range_not_rejected ha.col (by omega), by omega, not_not.mpr ha.sum,
      hiff.mpr ha.capacity⟩

/-- The shift of the address space is the one place left to fault. -/
theorem validateSplit_eq_fault (h : ChipFits c) {n : UInt32} (hn : c.numberOfChips = .ok n) :
    (∃ f, validateSplit c n = .error (.fault f)) ↔ c.sysConfig.addressBusWidth.toNat = 64 := by
  have hvalid := (SystemConfig.validate_eq_ok _).mp h.system
  constructor
  · rintro ⟨f, hf⟩
    by_contra hne
    have hlt : c.sysConfig.addressBusWidth.toNat < 64 := by
      have := hvalid.address_le
      omega
    obtain ⟨space, hspace, _⟩ := SystemGeometry.addressSpaceBytes_of_lt hlt
    have hchips := (spaceRest_eq h hn hspace).1
    simp only [validateSplit, hspace, bind_ok, modulo_bind_eq_fault, hchips, false_and, false_or, ne_eq,
      not_false_eq_true, true_and, reject_bind_eq_fault] at hf
    obtain ⟨hrest, hbank, hrow, hcol, _, hsum, hf⟩ := hf
    have hsplit : Split c :=
      { bank := (range_of_not_rejected hbank).1, row := (range_of_not_rejected hrow).1
        col := (range_of_not_rejected hcol).1, sum := not_not.mp hsum, address := Nat.le_of_lt_succ hlt }
    obtain ⟨size, banks, subarray, hsize, hbanks, hsub, _⟩ :=
      hsplit.capacity_iff h ((spaceRest_eq h hn hspace).2.mp (not_not.mp hrest))
    rw [hsize, bind_ok, hbanks, bind_ok, hsub, bind_ok] at hf
    exact reject_ne_fault _ _ _ hf
  · intro ha
    have hno : ¬ c.sysConfig.addressBusWidth < 64 := by
      rw [UInt8.lt_iff_toNat_lt, ha]
      decide
    refine ⟨.shiftRange, ?_⟩
    rw [validateSplit, SystemConfig.addressSpaceBytes, shiftUnsigned, if_neg hno]
    rfl

theorem chipFits_of_not_rejected (hs : c.sysConfig.validate = .ok ())
    (hp : ¬ ¬ isPowerOf2 c.chipWidthBits.toUInt32 = true) (hle : ¬ c.chipWidthBits > c.sysConfig.dataBusWidth) :
    ChipFits c where
  system := hs
  pow := by
    have hpow := (isPowerOf2_iff _).mp (not_not.mp hp)
    rwa [UInt8.toNat_toUInt32] at hpow
  le := UInt8.le_iff_toNat_le.mp (UInt8.not_lt.mp hle)

theorem accepts_iff (c : DRAMConfig) : c.validate = .ok () ↔ Accepted c := by
  constructor
  · intro h
    have hv := Valid.of_validate h
    have hfits := chipFits_of_not_rejected ((SystemConfig.validate_eq_ok _).mpr hv.sysConfig)
      (not_not.mpr hv.chip_pow) (UInt8.not_lt.mpr hv.chip_le)
    obtain ⟨n, hn, _⟩ := hfits.numberOfChips_eq
    rw [validate_of_chipFits hfits hn] at h
    exact (validateSplit_eq_ok hfits hn).mp h
  · intro h
    obtain ⟨n, hn, _⟩ := h.toChipFits.numberOfChips_eq
    rw [validate_of_chipFits h.toChipFits hn]
    exact (validateSplit_eq_ok h.toChipFits hn).mpr h

theorem faults_iff (c : DRAMConfig) : (∃ f, c.validate = .error (.fault f)) ↔
    Faulty c.sysConfig ∨ ChipFits c ∧ c.sysConfig.addressBusWidth.toNat = 64 := by
  cases hs : c.sysConfig.validate with
  | error e =>
      have hno : ¬ ChipFits c := by
        intro h
        rw [h.system] at hs
        cases hs
      simp only [validate, hs, bind_error, Faulty, hno, false_and, or_false]
  | ok =>
      have hnot : ¬ Faulty c.sysConfig := by
        rintro ⟨f, hf⟩
        rw [hf] at hs
        cases hs
      rw [or_iff_right hnot]
      constructor
      · rintro ⟨f, hf⟩
        have hfault := hf
        simp only [validate, hs, bind_ok, reject_bind_eq_fault] at hf
        have hfits := chipFits_of_not_rejected hs hf.2.1 hf.2.2.1
        obtain ⟨n, hn, _⟩ := hfits.numberOfChips_eq
        rw [validate_of_chipFits hfits hn] at hfault
        exact ⟨hfits, (validateSplit_eq_fault hfits hn).mp ⟨f, hfault⟩⟩
      · rintro ⟨hfits, ha⟩
        obtain ⟨n, hn, _⟩ := hfits.numberOfChips_eq
        rw [validate_of_chipFits hfits hn]
        exact (validateSplit_eq_fault hfits hn).mpr ha

/-- What the validator decides, and where it has no result. -/
theorem validate_iff (c : DRAMConfig) : (c.validate = .ok () ↔ Accepted c) ∧
    ((∃ f, c.validate = .error (.fault f)) ↔
      Faulty c.sysConfig ∨ ChipFits c ∧ c.sysConfig.addressBusWidth.toNat = 64) :=
  ⟨accepts_iff c, faults_iff c⟩

theorem reject_bind_eq_raised {β : Type} {p : Prop} [Decidable p] {text t : String} {g : Unit → Checked String β} :
    (reject p text >>= g) = .error (.raised t) ↔ p ∧ text = t ∨ ¬ p ∧ g () = .error (.raised t) := by
  by_cases hp : p <;> simp [reject, hp]

theorem reject_eq_raised {p : Prop} [Decidable p] {text t : String} :
    (reject p text : Checked String Unit) = .error (.raised t) ↔ p ∧ text = t := by
  by_cases hp : p <;> simp [reject, hp]

theorem modulo_bind_eq_raised {α β : Type} [Mod α] [OfNat α 0] [DecidableEq α] {x y : α} {t : String}
    {g : α → Checked String β} :
    (modulo x y >>= g) = .error (.raised t) ↔ y ≠ 0 ∧ g (x % y) = .error (.raised t) := by
  by_cases hy : y = 0 <;> simp [modulo, hy]

def systemTexts : List String :=
  ["addr_bits must be in [1, 64]", "block_size must be a power of 2", "block_size must be >= data_bus_bytes",
    "block_size must be a multiple of data_bus_bytes", "block_size must be a multiple of word_size",
    "data_bus_bytes cannot exceed 8 (64-bit bus)", "word_size must be 1, 2, 4, or 8",
    "word_size cannot exceed data_bus_bytes"]

def splitTexts : List String :=
  ["chip_width_bits must be > 0", "chip_width_bits must be power of 2",
    "chip_width_bits cannot exceed data_bus_width", "address space doesn't divide evenly by number of chips",
    "bank_bits must be in range [1, 63]", "row_bits must be in range [1, 63]", "col_bits must be in range [1, 63]",
    "row_bits + col_bits must be < 64 (shift overflow)",
    "bank_bits + row_bits + col_bits must equal address_bus_width", "chip capacity < (banks × subarray size)"]

theorem system_raised {sc : SystemConfig} {text : String} (h : sc.validate = .error (.raised text)) :
    text ∈ systemTexts := by
  simp only [SystemConfig.validate, reject_bind_eq_raised, modulo_bind_eq_raised, reject_eq_raised, not_not] at h
  rcases h with ⟨_, rfl⟩ | ⟨_, ⟨_, rfl⟩ | ⟨hblock, ⟨_, rfl⟩ | ⟨hle, hne, ⟨_, rfl⟩ | ⟨hdvd, _, ⟨_, rfl⟩ |
    ⟨_, ⟨hpow, _⟩ | ⟨_, ⟨_, rfl⟩ | ⟨_, ⟨_, rfl⟩ | ⟨_, _, rfl⟩⟩⟩⟩⟩⟩⟩⟩
  any_goals simp [systemTexts]
  exfalso
  apply hpow
  have hblock' := (isPowerOf2_iff _).mp hblock
  have hlt := block_lt_of_bus_le hblock' hne (UInt32.not_lt.mp hle)
  obtain ⟨k, hk⟩ := hblock'
  have hd : sc.dataBusWidth.toNat ∣ 2 ^ (k + 3) := by
    rw [pow_add, ← hk]
    exact (bus_rest_eq_zero hlt).mp hdvd
  obtain ⟨j, _, hj⟩ := (Nat.dvd_prime_pow Nat.prime_two).mp hd
  exact bus_pow_iff.mpr ⟨j, hj⟩

theorem split_raised (h : ChipFits c) {n : UInt32} (hn : c.numberOfChips = .ok n) {text : String}
    (hr : validateSplit c n = .error (.raised text)) : text ∈ splitTexts := by
  have hlt : c.sysConfig.addressBusWidth.toNat < 64 := by
    have hle := ((SystemConfig.validate_eq_ok _).mp h.system).address_le
    have hne : c.sysConfig.addressBusWidth.toNat ≠ 64 := by
      intro ha
      obtain ⟨f, hf⟩ := (validateSplit_eq_fault h hn).mpr ha
      rw [hr] at hf
      cases hf
    omega
  obtain ⟨space, hspace, _⟩ := SystemGeometry.addressSpaceBytes_of_lt hlt
  simp only [validateSplit, hspace, bind_ok, modulo_bind_eq_raised, reject_bind_eq_raised] at hr
  rcases hr with ⟨_, ⟨_, rfl⟩ | ⟨hrest, ⟨_, rfl⟩ | ⟨hbank, ⟨_, rfl⟩ | ⟨hrow, ⟨_, rfl⟩ | ⟨hcol, ⟨_, rfl⟩ |
    ⟨_, ⟨_, rfl⟩ | ⟨hsum, hr⟩⟩⟩⟩⟩⟩⟩
  any_goals simp [splitTexts]
  have hsplit : Split c :=
    { bank := (range_of_not_rejected hbank).1, row := (range_of_not_rejected hrow).1
      col := (range_of_not_rejected hcol).1, sum := not_not.mp hsum, address := Nat.le_of_lt_succ hlt }
  obtain ⟨size, banks, subarray, hsize, hbanks, hsub, _⟩ :=
    hsplit.capacity_iff h ((spaceRest_eq h hn hspace).2.mp (not_not.mp hrest))
  rw [hsize, bind_ok, hbanks, bind_ok, hsub, bind_ok, reject_eq_raised] at hr
  rw [← hr.2]
  simp

theorem config_raised {text : String} (h : c.validate = .error (.raised text)) :
    text ∈ systemTexts ++ splitTexts := by
  cases hs : c.sysConfig.validate with
  | error e =>
      rw [validate, hs, bind_error] at h
      obtain rfl := Except.error.inj h
      exact List.mem_append_left _ (system_raised hs)
  | ok =>
      apply List.mem_append_right
      have hraised := h
      simp only [validate, hs, bind_ok, reject_bind_eq_raised] at hraised
      rcases hraised with ⟨_, rfl⟩ | ⟨_, ⟨_, rfl⟩ | ⟨hp, ⟨_, rfl⟩ | ⟨hle, _⟩⟩⟩
      · simp [splitTexts]
      · simp [splitTexts]
      · simp [splitTexts]
      · have hfits := chipFits_of_not_rejected hs hp hle
        obtain ⟨n, hn, _⟩ := hfits.numberOfChips_eq
        rw [validate_of_chipFits hfits hn] at h
        exact split_raised hfits hn h

def tried (address bus word : UInt8) (block : UInt32) (chip bank row col : UInt8) : DRAMConfig :=
  ⟨⟨address, bus, word, block⟩, chip, bank, row, col, ⟨0, 0, 0⟩⟩

/-- A message is given for some configuration exactly if it is one of these:
that the bus is a power of two, that it is a multiple of the chip's width and
that there is a chip are checked too late to be given. -/
theorem raised_iff (text : String) :
    (∃ c : DRAMConfig, c.validate = .error (.raised text)) ↔ text ∈ systemTexts ++ splitTexts := by
  constructor
  · rintro ⟨c, hc⟩
    exact config_raised hc
  · intro h
    simp only [systemTexts, splitTexts, List.cons_append, List.nil_append, List.mem_cons, List.not_mem_nil,
      or_false] at h
    rcases h with rfl | rfl | rfl | rfl | rfl | rfl | rfl | rfl | rfl | rfl | rfl | rfl | rfl | rfl | rfl | rfl |
      rfl | rfl
    · exact ⟨tried 0 8 1 64 8 2 6 6, rfl⟩
    · exact ⟨tried 14 8 1 3 8 2 6 6, rfl⟩
    · exact ⟨tried 14 64 1 1 8 2 6 6, rfl⟩
    · exact ⟨tried 14 3 1 64 8 2 6 6, rfl⟩
    · exact ⟨tried 14 8 3 64 8 2 6 6, rfl⟩
    · exact ⟨tried 14 128 1 64 8 2 6 6, rfl⟩
    · exact ⟨tried 14 64 16 64 8 2 6 6, rfl⟩
    · exact ⟨tried 14 8 2 64 8 2 6 6, rfl⟩
    · exact ⟨tried 14 8 1 64 0 2 6 6, rfl⟩
    · exact ⟨tried 14 8 1 64 3 2 6 6, rfl⟩
    · exact ⟨tried 14 8 1 64 16 2 6 6, rfl⟩
    · exact ⟨tried 3 64 1 64 1 1 1 1, rfl⟩
    · exact ⟨tried 14 8 1 64 8 0 6 6, rfl⟩
    · exact ⟨tried 14 8 1 64 8 2 0 6, rfl⟩
    · exact ⟨tried 14 8 1 64 8 2 6 0, rfl⟩
    · exact ⟨tried 14 8 1 64 8 2 40 40, rfl⟩
    · exact ⟨tried 14 8 1 64 8 3 6 6, rfl⟩
    · exact ⟨tried 14 64 1 64 4 2 6 6, rfl⟩

end MemSim.ConfigChecks
