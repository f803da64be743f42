import MemSim.DRAMController

namespace MemSim.AddressDecoding

open Machine BitFields DRAMConfig DRAMController

def decode (c : DRAMConfig) (address : UInt64) : Checked String (UInt64 × UInt64 × UInt64) := do
  let bank ← getBankId c address
  let row ← getRowId c address
  let col ← getColId c address
  return (bank, row, col)

def Partitioned (m : AddressMapping) (width : UInt8) : Prop :=
  Partition m.bankMask.toNat m.rowMask.toNat m.colMask.toNat width.toNat

/-- Decoding is total on the addresses of the bus, stays within the three
widths and tells any two addresses apart. -/
structure Bijective (c : DRAMConfig) : Prop where
  lands : ∀ address : UInt64, address.toNat < 2 ^ c.sysConfig.addressBusWidth.toNat →
    ∃ bank row col, decode c address = .ok (bank, row, col) ∧
      bank.toNat < 2 ^ c.bankBits.toNat ∧ row.toNat < 2 ^ c.rowBits.toNat ∧
      col.toNat < 2 ^ c.colBits.toNat
  injective : ∀ a b : UInt64, a.toNat < 2 ^ c.sysConfig.addressBusWidth.toNat →
    b.toNat < 2 ^ c.sysConfig.addressBusWidth.toNat →
    decode c a = decode c b → a = b

theorem extract_odd {mask : UInt64} (h : mask.toNat % 2 = 1) (address : UInt64) :
    extract address mask = .error (.fault .divisionByZero) := by
  have hodd : mask % 2 ≠ 0 := by
    rw [ne_eq, ← UInt64.toNat_inj, UInt64.toNat_mod]
    simpa using h
  have hpos : mask > 0 := by
    rw [gt_iff_lt, UInt64.lt_iff_toNat_lt, UInt64.toNat_zero]
    omega
  have hposition : firstOnePosition mask = .ok 0 := by
    simp [firstOnePosition, assert, hpos, While.loop, hodd]
  simp [extract, hposition, divide]

theorem Partitioned.lowest_odd {m : AddressMapping} {width : UInt8} (h : Partitioned m width)
    (hw : 0 < width.toNat) :
    m.bankMask.toNat % 2 = 1 ∨ m.rowMask.toNat % 2 = 1 ∨ m.colMask.toNat % 2 = 1 := by
  have hodd : ∀ {n : Nat}, n.testBit 0 = true → n % 2 = 1 := by
    intro n hn
    simpa [Nat.testBit_zero] using hn
  rcases Partition.unique h hw with ⟨ha, _, _⟩ | ⟨_, hb, _⟩ | ⟨_, _, hc⟩
  · exact Or.inl (hodd ha)
  · exact Or.inr (Or.inl (hodd hb))
  · exact Or.inr (Or.inr (hodd hc))

/-- Some field holds bit zero, so no address at all is decoded. -/
theorem decode_ne_ok {c : DRAMConfig} (hv : c.validate = .ok ())
    (hm : Partitioned c.addressMappings c.sysConfig.addressBusWidth) (address : UInt64)
    (ids : UInt64 × UInt64 × UInt64) : decode c address ≠ .ok ids := by
  intro h
  simp only [decode, bind_eq_ok] at h
  obtain ⟨bank, hbank, row, hrow, col, hcol, _⟩ := h
  rcases hm.lowest_odd (Valid.of_validate hv).sysConfig.address_pos with ho | ho | ho
  · rw [getBankId, extract_odd ho] at hbank
    cases hbank
  · rw [getRowId, extract_odd ho] at hrow
    cases hrow
  · rw [getColId, extract_odd ho] at hcol
    cases hcol

theorem not_bijective (c : DRAMConfig) (hv : c.validate = .ok ())
    (hm : Partitioned c.addressMappings c.sysConfig.addressBusWidth) : ¬ Bijective c := by
  intro h
  obtain ⟨bank, row, col, hd, _⟩ := h.lands 0 (by simp)
  exact decode_ne_ok hv hm 0 _ hd

def stacked : DRAMConfig :=
  { sysConfig := ⟨9, 8, 1, 1⟩, chipWidthBits := 8, bankBits := 3, rowBits := 3, colBits := 3
    addressMappings := ⟨0x1c0, 0x38, 0x7⟩ }

theorem stacked_partitioned : Partitioned stacked.addressMappings stacked.sysConfig.addressBusWidth where
  disjoint_ab := by decide
  disjoint_ac := by decide
  disjoint_bc := by decide
  contiguous_a := ⟨6, 3, by decide⟩
  contiguous_b := ⟨3, 3, by decide⟩
  contiguous_c := ⟨0, 3, by decide⟩
  covers := by decide

theorem stacked_not_bijective : ¬ Bijective stacked :=
  not_bijective stacked (by decide) stacked_partitioned

theorem stacked_divides_by_zero : stacked.validate = .ok () ∧
    Partitioned stacked.addressMappings stacked.sysConfig.addressBusWidth ∧
    decode stacked 0 = .error (.fault .divisionByZero) ∧ ¬ Bijective stacked := by
  have hd : decode stacked 0 = .error (.fault .divisionByZero) := by decide
  refine ⟨by decide, stacked_partitioned, hd, ?_⟩
  intro h
  obtain ⟨bank, row, col, ho, _⟩ := h.lands 0 (by decide)
  rw [hd] at ho
  cases ho

/-- Acceptance fixes only the number of ones, so what it still leaves open is
that the masks are runs and reach every address bit. -/
theorem partitioned_iff_covers (sysConfig : SystemConfig) (chipWidth : UInt8) (m : AddressMapping)
    (c : DRAMConfig) (h : construct sysConfig chipWidth m = .ok c) :
    Partitioned m sysConfig.addressBusWidth ↔
      Contiguous m.bankMask.toNat ∧ Contiguous m.rowMask.toNat ∧ Contiguous m.colMask.toNat ∧
      (m.bankMask ||| m.rowMask ||| m.colMask).toNat = 2 ^ sysConfig.addressBusWidth.toNat - 1 := by
  obtain ⟨hv, hs, _, hb, hr, hc⟩ := construct_eq_ok h
  have hsum := (Valid.of_validate hv).sum_bits
  rw [hs, hb, hr, hc] at hsum
  constructor
  · intro hp
    exact ⟨hp.contiguous_a, hp.contiguous_b, hp.contiguous_c, by simpa using hp.covers⟩
  · rintro ⟨hbank, hrow, hcol, hcovers⟩
    have hcovers' : m.bankMask.toNat ||| m.rowMask.toNat ||| m.colMask.toNat =
        2 ^ sysConfig.addressBusWidth.toNat - 1 := by simpa using hcovers
    obtain ⟨hab, hac, hbc⟩ := disjoint_of_covers hcovers' hsum
    exact ⟨hab, hac, hbc, hbank, hrow, hcol, hcovers'⟩

theorem partitioned_iff_covers_stacked :
    Partitioned stacked.addressMappings 9 ↔
      Contiguous stacked.addressMappings.bankMask.toNat ∧
      Contiguous stacked.addressMappings.rowMask.toNat ∧
      Contiguous stacked.addressMappings.colMask.toNat ∧
      (stacked.addressMappings.bankMask ||| stacked.addressMappings.rowMask |||
        stacked.addressMappings.colMask).toNat = 2 ^ (9 : UInt8).toNat - 1 :=
  partitioned_iff_covers ⟨9, 8, 1, 1⟩ 8 stacked.addressMappings stacked (by decide)

theorem overlapping_accepted :
    construct ⟨3, 8, 1, 1⟩ 8 ⟨1, 1, 1⟩ =
      .ok { sysConfig := ⟨3, 8, 1, 1⟩, chipWidthBits := 8, bankBits := 1, rowBits := 1, colBits := 1
            addressMappings := ⟨1, 1, 1⟩ } ∧
      ¬ Partitioned ⟨1, 1, 1⟩ 3 := by
  refine ⟨by decide, ?_⟩
  intro h
  exact absurd h.disjoint_ab (by decide)

end MemSim.AddressDecoding
