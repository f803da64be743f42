import MemSim.BankRefinement
import MemSim.ChipStorage

namespace MemSim.Striping

open Machine Sweep BankRefinement DRAMBankEqClass

def cell (k : DRAMBankEqClass) (chip j row col : Nat) : Option UInt8 :=
  k.banks[chip]?.bind (content · j row col)

def chips (c : DRAMConfig) : Nat := c.sysConfig.dataBusWidth.toNat / c.chipWidthBits.toNat

/-- A class of the shape its constructor gives it, with every subarray of
every bank open at one row. -/
structure AllOpen (c : DRAMConfig) (row : UInt32) (k : DRAMBankEqClass) : Prop where
  config : k.dramConfig = c
  length_eq : k.banks.length = chips c
  banks : ∀ b ∈ k.banks, Consistent c.chipWidthBits.toNat (2 ^ c.rowBits.toNat) (2 ^ c.colBits.toNat)
    (.opened row) b

/-- A bus word written across the chips: each line to its own subarray, and
to no other cell. -/
structure Striped (c : DRAMConfig) (k : DRAMBankEqClass) (row col : UInt32) (data : List UInt8) : Prop where
  within : ∀ i, i < chips c →
    (UInt32.ofNat i * c.chipWidthBits.toUInt32).toNat + c.chipWidthBits.toNat ≤ data.length
  writes : ∃ k', transferData col true (k, data) = .ok () (k', data) ∧ AllOpen c row k' ∧
    (∀ n, n < c.sysConfig.dataBusWidth.toNat →
      cell k' (n / c.chipWidthBits.toNat) (n % c.chipWidthBits.toNat) row.toNat col.toNat = data[n]?) ∧
    ∀ i j r s, i < chips c → j < c.chipWidthBits.toNat → r < 2 ^ c.rowBits.toNat →
      s < 2 ^ c.colBits.toNat → ¬ (r = row.toNat ∧ s = col.toNat) → cell k' i j r s = cell k i j r s
  lands : ∀ n, n < c.sysConfig.dataBusWidth.toNat →
    n / c.chipWidthBits.toNat < chips c ∧ n % c.chipWidthBits.toNat < c.chipWidthBits.toNat
  receives : ∀ i j, i < chips c → j < c.chipWidthBits.toNat →
    ∃ n, n < c.sysConfig.dataBusWidth.toNat ∧
      (n / c.chipWidthBits.toNat = i ∧ n % c.chipWidthBits.toNat = j) ∧
      ∀ m, m / c.chipWidthBits.toNat = i ∧ m % c.chipWidthBits.toNat = j → m = n

section

variable {c : DRAMConfig} {k : DRAMBankEqClass} {row col : UInt32} {data : List UInt8}

theorem chips_mul (h : c.Valid) : chips c * c.chipWidthBits.toNat = c.sysConfig.dataBusWidth.toNat := by
  obtain ⟨n, _, hn, hmul⟩ := ChipStorage.numberOfChips_eq h
  rw [chips, ← hn, hmul]

theorem share_le (h : c.Valid) {i : Nat} (hi : i < chips c) :
    i * c.chipWidthBits.toNat + c.chipWidthBits.toNat ≤ c.sysConfig.dataBusWidth.toNat := by
  rw [← chips_mul h, ← Nat.succ_mul]
  exact Nat.mul_le_mul_right _ hi

theorem start_eq (h : c.Valid) {i : Nat} (hi : i < chips c) :
    (UInt32.ofNat i * c.chipWidthBits.toUInt32).toNat = i * c.chipWidthBits.toNat := by
  have hle := share_le h hi
  have hbus := c.sysConfig.dataBusWidth.toNat_lt
  have hpos := ChipStorage.chipWidth_pos h
  have hmul := Nat.le_mul_of_pos_right i hpos
  have hwrap : i % 2 ^ 32 = i := Nat.mod_eq_of_lt (by omega)
  rw [UInt32.toNat_mul, UInt32.toNat_ofNat', UInt8.toNat_toUInt32, hwrap, Nat.mod_eq_of_lt (by omega)]

theorem splice_window (s : List UInt8) (start n : Nat) (h : start + n ≤ s.length) :
    splice s start ((s.drop start).take n) = s := by
  have hlen : ((s.drop start).take n).length = n := by
    rw [List.length_take, List.length_drop]
    omega
  apply List.ext_getElem?
  intro i
  rw [getElem?_splice (by omega), hlen]
  by_cases hi : start ≤ i ∧ i < start + n
  · rw [if_pos hi, List.getElem?_take_of_lt (by omega), List.getElem?_drop]
    congr 1
    omega
  · rw [if_neg hi]

theorem writeRound (h : c.Valid) (hcol : col.toNat < 2 ^ c.colBits.toNat)
    (hdata : data.length = c.sysConfig.dataBusWidth.toNat) {i : Nat} (hi : i < chips c) {b : DRAMBank}
    (hb : Consistent c.chipWidthBits.toNat (2 ^ c.rowBits.toNat) (2 ^ c.colBits.toNat) (.opened row) b) :
    ∃ b', transferRound col true c.chipWidthBits i (b, data) = .ok () (b', data) ∧
      Consistent c.chipWidthBits.toNat (2 ^ c.rowBits.toNat) (2 ^ c.colBits.toNat) (.opened row) b' ∧
      ∀ j r s, j < c.chipWidthBits.toNat → r < 2 ^ c.rowBits.toNat → s < 2 ^ c.colBits.toNat →
        content b' j r s = if r = row.toNat ∧ s = col.toNat then data[i * c.chipWidthBits.toNat + j]?
          else content b j r s := by
  have hfit : i * c.chipWidthBits.toNat + c.chipWidthBits.toNat ≤ data.length := hdata ▸ share_le h hi
  have hlen : ((data.drop (i * c.chipWidthBits.toNat)).take c.chipWidthBits.toNat).length =
      c.chipWidthBits.toNat := by
    rw [List.length_take, List.length_drop]
    omega
  obtain ⟨b', hw, hb', hcells⟩ := write_accepted hb hlen.ge hcol
  refine ⟨b', ?_, hb', ?_⟩
  · rw [transferRound, start_eq h hi, if_pos hfit, hw]
    simp only [splice_window data _ _ hfit]
  · intro j r s hj hr hs
    rw [hcells j r s hj hr hs, List.getElem?_take_of_lt hj, List.getElem?_drop]

theorem write_class (h : c.Valid) (hk : AllOpen c row k) (hcol : col.toNat < 2 ^ c.colBits.toNat)
    (hdata : data.length = c.sysConfig.dataBusWidth.toNat) :
    ∃ k', transferData col true (k, data) = .ok () (k', data) ∧ AllOpen c row k' ∧
      ∀ i j r s, i < chips c → j < c.chipWidthBits.toNat → r < 2 ^ c.rowBits.toNat →
        s < 2 ^ c.colBits.toNat → cell k' i j r s =
          if r = row.toNat ∧ s = col.toNat then data[i * c.chipWidthBits.toNat + j]? else cell k i j r s := by
  obtain ⟨bs, u, hs, rfl, hlen, hQ⟩ := sweep_returns (transferRound col true c.chipWidthBits)
    (fun i b => i < chips c ∧
      Consistent c.chipWidthBits.toNat (2 ^ c.rowBits.toNat) (2 ^ c.colBits.toNat) (.opened row) b)
    (fun _ s => s = data)
    (fun i b b' =>
      Consistent c.chipWidthBits.toNat (2 ^ c.rowBits.toNat) (2 ^ c.colBits.toNat) (.opened row) b' ∧
      ∀ j r s, j < c.chipWidthBits.toNat → r < 2 ^ c.rowBits.toNat → s < 2 ^ c.colBits.toNat →
        content b' j r s = if r = row.toNat ∧ s = col.toNat then data[i * c.chipWidthBits.toNat + j]?
          else content b j r s)
    (by
      rintro i b s ⟨hi, hb⟩ rfl
      obtain ⟨b', hw, hb', hcells⟩ := writeRound h hcol hdata hi hb
      exact ⟨b', s, hw, ⟨hb', hcells⟩, rfl⟩)
    0 k.banks data (by
      intro i b hb
      obtain ⟨hi, _⟩ := List.getElem?_eq_some_iff.mp hb
      rw [hk.length_eq] at hi
      exact ⟨by omega, hk.banks b (List.mem_of_getElem? hb)⟩) rfl
  simp only [Nat.zero_add] at hQ
  have hget : ∀ i, i < chips c → ∃ b b', k.banks[i]? = some b ∧ bs[i]? = some b' := by
    intro i hi
    have hi' : i < k.banks.length := by rw [hk.length_eq]; exact hi
    exact ⟨_, _, List.getElem?_eq_getElem hi', List.getElem?_eq_getElem (by rw [hlen]; exact hi')⟩
  have hexpected : (divide c.sysConfig.dataBusWidth c.chipWidthBits : Checked String UInt8) =
      .ok (c.sysConfig.dataBusWidth / c.chipWidthBits) := divide_of_ne h.chip_ne
  have hcount : k.banks.length = (c.sysConfig.dataBusWidth / c.chipWidthBits).toNat := by
    rw [hk.length_eq, UInt8.toNat_div, chips]
  refine ⟨{ k with banks := bs }, ?_, ⟨hk.config, by rw [hlen, hk.length_eq], ?_⟩, ?_⟩
  · simp [transferData, hk.config, hdata, hexpected, hcount, hs]
  · intro b' hb'
    obtain ⟨i, hi, rfl⟩ := List.getElem_of_mem (l := bs) hb'
    exact (hQ i _ bs[i] (List.getElem?_eq_getElem (by omega)) (List.getElem?_eq_getElem hi)).1
  · intro i j r s hi hj hr hs
    obtain ⟨b, b', hb, hb'⟩ := hget i hi
    simpa [cell, hb, hb'] using (hQ i b b' hb hb').2 j r s hj hr hs

theorem AllOpen.row_lt (hk : AllOpen c row k) {i : Nat} (hi : i < chips c) :
    row.toNat < 2 ^ c.rowBits.toNat := by
  have hi' : i < k.banks.length := by rw [hk.length_eq]; exact hi
  have hb := hk.banks k.banks[i] (List.getElem_mem hi')
  obtain ⟨a, as, ha⟩ := head_exists hb
  obtain ⟨ho, hrow⟩ := hb.phase a (by simp [ha])
  rw [← hrow]
  exact (hb.wellFormed a (by simp [ha])).open_lt ho

theorem lands (h : c.Valid) {n : Nat} (hn : n < c.sysConfig.dataBusWidth.toNat) :
    n / c.chipWidthBits.toNat < chips c ∧ n % c.chipWidthBits.toNat < c.chipWidthBits.toNat := by
  have hpos := ChipStorage.chipWidth_pos h
  refine ⟨?_, Nat.mod_lt n hpos⟩
  rw [Nat.div_lt_iff_lt_mul hpos, chips_mul h]
  exact hn

theorem receives (h : c.Valid) {i j : Nat} (hi : i < chips c) (hj : j < c.chipWidthBits.toNat) :
    ∃ n, n < c.sysConfig.dataBusWidth.toNat ∧
      (n / c.chipWidthBits.toNat = i ∧ n % c.chipWidthBits.toNat = j) ∧
      ∀ m, m / c.chipWidthBits.toNat = i ∧ m % c.chipWidthBits.toNat = j → m = n := by
  have hle := share_le h hi
  have hpos := ChipStorage.chipWidth_pos h
  refine ⟨c.chipWidthBits.toNat * i + j, ?_, ⟨?_, ?_⟩, ?_⟩
  · rw [Nat.mul_comm]
    omega
  · rw [Nat.mul_add_div hpos, Nat.div_eq_of_lt hj, Nat.add_zero]
  · rw [Nat.mul_add_mod, Nat.mod_eq_of_lt hj]
  · rintro m ⟨rfl, rfl⟩
    exact (Nat.div_add_mod m _).symm

theorem transferData_of_length_ne (hk : k.dramConfig = c) (col : UInt32) (isWrite : Bool)
    (hdata : data.length ≠ c.sysConfig.dataBusWidth.toNat) :
    ∃ text, transferData col isWrite (k, data) = .error (.raised text) (k, data) := by
  refine ⟨"data size mismatch, must be equal to data bus width", ?_⟩
  simp [transferData, hk, hdata]

end

theorem transferData_stripes (c : DRAMConfig) (hv : c.validate = .ok ()) (k : DRAMBankEqClass)
    (row : UInt32) (hk : AllOpen c row k) (col : UInt32) (hcol : col.toNat < 2 ^ c.colBits.toNat)
    (data : List UInt8) :
    (data.length = c.sysConfig.dataBusWidth.toNat → Striped c k row col data) ∧
      (data.length ≠ c.sysConfig.dataBusWidth.toNat →
        ∃ text, transferData col true (k, data) = .error (.raised text) (k, data)) := by
  have h := DRAMConfig.Valid.of_validate hv
  refine ⟨?_, transferData_of_length_ne hk.config col true⟩
  intro hdata
  obtain ⟨k', hw, hk', hcells⟩ := write_class h hk hcol hdata
  refine ⟨?_, ⟨k', hw, hk', ?_, ?_⟩, fun n => lands h, fun i j => receives h⟩
  · intro i hi
    rw [start_eq h hi, hdata]
    exact share_le h hi
  · intro n hn
    obtain ⟨hi, hj⟩ := lands h hn
    rw [hcells _ _ _ _ hi hj (hk.row_lt hi) hcol, if_pos ⟨rfl, rfl⟩, Nat.div_add_mod']
  · intro i j r s hi hj hr hs hne
    rw [hcells i j r s hi hj hr hs, if_neg hne]

def squareOpen : DRAMBankEqClass :=
  ⟨List.replicate 8 (observe squareBank [.openRow 1]).bank, square⟩

theorem squareOpen_allOpen : AllOpen square 1 squareOpen := by
  refine ⟨rfl, by decide, ?_⟩
  intro b hb
  obtain rfl := List.eq_of_mem_replicate hb
  exact (observe_consistent (new_consistent (by decide) (by decide) square_new) [.openRow 1]
    (by simp [Supplied])).1

theorem transferData_stripes_square :
    ((List.replicate 64 (7 : UInt8)).length = square.sysConfig.dataBusWidth.toNat →
        Striped square squareOpen 1 0 (List.replicate 64 7)) ∧
      ((List.replicate 64 (7 : UInt8)).length ≠ square.sysConfig.dataBusWidth.toNat →
        ∃ text, transferData 0 true (squareOpen, List.replicate 64 7) =
          .error (.raised text) (squareOpen, List.replicate 64 7)) :=
  transferData_stripes square (by decide) squareOpen 1 squareOpen_allOpen 0 (by decide) _

end MemSim.Striping
