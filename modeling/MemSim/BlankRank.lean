import MemSim.RankOpening
import MemSim.RowBuffer

namespace MemSim.BlankRank

open Machine Sweep BankRefinement Striping RankOpening RowBuffer Runs

structure Blank (c : DRAMConfig) (k : DRAMBankEqClass) : Prop where
  config : k.dramConfig = c
  length_eq : k.banks.length = chips c
  banks : ∀ b ∈ k.banks, Holds c.chipWidthBits.toNat (2 ^ c.rowBits.toNat) (2 ^ c.colBits.toNat) b blank

def Defined (k : DRAMBankEqClass) (cs : List Command) : Prop :=
  ∀ pre d post, cs = pre ++ d :: post → ¬ Faults (RankOpening.perform (RankOpening.after k pre) d)

/-- A memory that nothing is ever stored in. -/
def answer (c : DRAMConfig) (k : DRAMBankEqClass) :
    Command → EStateM.Result (Stop String) (DRAMBankEqClass × List UInt8) Unit
  | .openRow row => .error (.raised (activateText 0 row)) (k, [])
  | .transferData col isWrite data =>
      if data.length ≠ c.sysConfig.dataBusWidth.toNat then
        .error (.raised "data size mismatch, must be equal to data bus width") (k, data)
      else if isWrite then .error (.raised (writeText 0 col)) (k, data)
      else if col.toNat < 2 ^ c.colBits.toNat then
        .ok () (k, List.replicate c.sysConfig.dataBusWidth.toNat 0)
      else .error (.raised (readText 0 col)) (k, data)

def Inside (c : DRAMConfig) (d : Command) : Prop := ∃ row, d = .openRow row ∧ row.toNat < 2 ^ c.rowBits.toNat

section

variable {c : DRAMConfig} {k : DRAMBankEqClass} {row col : UInt32} {data : List UInt8}

theorem new_blank (hv : c.validate = .ok ()) (hfit : 2 ^ (c.rowBits.toNat + c.colBits.toNat) < 2 ^ 32)
    (hk : DRAMBankEqClass.new c = .ok k) : Blank c k := by
  have h := DRAMConfig.Valid.of_validate hv
  obtain ⟨n, hn, hval, _⟩ := ChipStorage.numberOfChips_eq h
  obtain ⟨b, hb, _⟩ := Geometry.bank_new_wellFormed h hfit
  rw [DRAMBankEqClass.new, hn, bind_ok, hb, bind_ok] at hk
  obtain rfl := Except.ok.inj hk
  refine ⟨rfl, by rw [List.length_replicate, hval, chips], ?_⟩
  intro b' hb'
  obtain rfl := List.eq_of_mem_replicate hb'
  exact new_holds hv hfit hb

theorem Blank.arranged (h : Blank c k) : Arranged c k :=
  ⟨h.config, h.length_eq, fun b hb => ⟨_, (h.banks b hb).consistent⟩⟩

theorem Blank.head (h : Blank c k) (hc : c.Valid) : ∃ b bs, k.banks = b :: bs ∧
    Holds c.chipWidthBits.toNat (2 ^ c.rowBits.toNat) (2 ^ c.colBits.toNat) b blank := by
  obtain ⟨b, bs, hb⟩ := List.exists_cons_of_ne_nil (h.arranged.ne_nil hc)
  exact ⟨b, bs, hb, h.banks b (by simp [hb])⟩

theorem bank_refuses {n rows cols : Nat} {b : DRAMBank} (h : Holds n rows cols b blank) (hrow : rows ≤ row.toNat) :
    DRAMBank.openRow row b = .error (.raised (activateText 0 row)) b := by
  obtain ⟨a, as, hb⟩ := head_exists h.consistent
  have ho : a.isWordOpen = false := h.consistent.phase a (by simp [hb])
  have hround := activate_refused (i := 0) (DRAMSubarray.precharge_of_closed ho)
    (DRAMSubarray.activate_of_ge (h.consistent.wellFormed a (by simp [hb])) ho hrow)
  have hs := sweep_head_error as hround
  rw [DRAMBank.openRow, hb, hs]
  dsimp only
  rw [← hb]

theorem openRow_outside (hc : c.Valid) (h : Blank c k) (hrow : 2 ^ c.rowBits.toNat ≤ row.toNat) :
    RankOpening.perform k (.openRow row) = .error (.raised (activateText 0 row)) (k, []) := by
  obtain ⟨b, bs, hb, hholds⟩ := h.head hc
  have hround : bankRound row 0 (b, ()) = .error (.raised (activateText 0 row)) (b, ()) := by
    rw [bankRound, bank_refuses hholds hrow]
  have hs := sweep_head_error bs hround
  rw [← hb] at hs
  rw [RankOpening.perform, openRow_of_error hs]

theorem share_length (hc : c.Valid) (hdata : data.length = c.sysConfig.dataBusWidth.toNat) {i : Nat}
    (hi : i < chips c) :
    ((data.drop (i * c.chipWidthBits.toNat)).take c.chipWidthBits.toNat).length = c.chipWidthBits.toNat := by
  have hle := share_le hc hi
  rw [List.length_take, List.length_drop]
  omega

theorem checks_pass (hc : c.Valid) (h : Blank c k) :
    (divide c.sysConfig.dataBusWidth c.chipWidthBits : Checked String UInt8) =
        .ok (c.sysConfig.dataBusWidth / c.chipWidthBits) ∧
      k.banks.length = (c.sysConfig.dataBusWidth / c.chipWidthBits).toNat :=
  ⟨divide_of_ne hc.chip_ne, by rw [h.length_eq, UInt8.toNat_div, chips]⟩

theorem transferData_of_error (hc : c.Valid) (h : Blank c k) (hdata : data.length = c.sysConfig.dataBusWidth.toNat)
    {isWrite : Bool} {e : Stop String} {t : List DRAMBank × List UInt8}
    (hs : sweep (DRAMBankEqClass.transferRound col isWrite c.chipWidthBits) 0 k.banks data = .error e t) :
    RankOpening.perform k (.transferData col isWrite data) = .error e ({ k with banks := t.1 }, t.2) := by
  obtain ⟨hexpected, hcount⟩ := checks_pass hc h
  simp [RankOpening.perform, DRAMBankEqClass.transferData, h.config, hdata, hexpected, hcount, hs]

theorem transferData_of_ok (hc : c.Valid) (h : Blank c k) (hdata : data.length = c.sysConfig.dataBusWidth.toNat)
    {isWrite : Bool} {t : List DRAMBank × List UInt8}
    (hs : sweep (DRAMBankEqClass.transferRound col isWrite c.chipWidthBits) 0 k.banks data = .ok () t) :
    RankOpening.perform k (.transferData col isWrite data) = .ok () ({ k with banks := t.1 }, t.2) := by
  obtain ⟨hexpected, hcount⟩ := checks_pass hc h
  simp [RankOpening.perform, DRAMBankEqClass.transferData, h.config, hdata, hexpected, hcount, hs]

theorem transfer_refused (hc : c.Valid) (h : Blank c k) {isWrite : Bool} {text : String}
    (hdata : data.length = c.sysConfig.dataBusWidth.toNat)
    (hbank : ∀ b ∈ k.banks, ∀ s : List UInt8, s.length = c.chipWidthBits.toNat →
      DRAMBank.transferData col isWrite (b, s) = .error (.raised text) (b, s)) :
    RankOpening.perform k (.transferData col isWrite data) = .error (.raised text) (k, data) := by
  obtain ⟨b, bs, hb, _⟩ := h.head hc
  have hzero := chips_pos hc
  have hround : DRAMBankEqClass.transferRound col isWrite c.chipWidthBits 0 (b, data) =
      .error (.raised text) (b, data) := by
    have hle := share_le hc hzero
    have hshare := share_length hc hdata hzero
    rw [DRAMBankEqClass.transferRound, start_eq hc hzero, if_pos (by rw [hdata]; exact hle),
      hbank b (by simp [hb]) _ hshare]
    dsimp only
    rw [splice_window data _ _ (by rw [hdata]; exact hle)]
  have hs := sweep_head_error bs hround
  rw [← hb] at hs
  exact transferData_of_error hc h hdata hs

theorem splice_share (data : List UInt8) (n i : Nat) :
    splice (List.replicate (i * n) 0 ++ data.drop (i * n)) (i * n) (List.replicate n 0) =
      List.replicate ((i + 1) * n) 0 ++ data.drop ((i + 1) * n) := by
  have hlen : (List.replicate (i * n) (0 : UInt8)).length = i * n := List.length_replicate
  rw [splice, List.length_replicate, List.take_left' hlen, List.drop_append, hlen, Nat.add_sub_cancel_left,
    List.drop_of_length_le (by omega), List.nil_append, List.drop_drop, Nat.succ_mul, ← List.replicate_append_replicate]

theorem read_zeros (hc : c.Valid) (h : Blank c k) (hdata : data.length = c.sysConfig.dataBusWidth.toNat)
    (hcol : col.toNat < 2 ^ c.colBits.toNat) :
    RankOpening.perform k (.transferData col false data) =
      .ok () (k, List.replicate c.sysConfig.dataBusWidth.toNat 0) := by
  obtain ⟨bs, u, hs, hu, hlen, hQ⟩ := sweep_returns (DRAMBankEqClass.transferRound col false c.chipWidthBits)
    (fun i b => i < chips c ∧
      Holds c.chipWidthBits.toNat (2 ^ c.rowBits.toNat) (2 ^ c.colBits.toNat) b blank)
    (fun i s => s = List.replicate (i * c.chipWidthBits.toNat) 0 ++ data.drop (i * c.chipWidthBits.toNat))
    (fun _ b b' => b' = b)
    (by
      rintro i b s ⟨hi, hb⟩ rfl
      have hle := share_le hc hi
      have hlen : (List.replicate (i * c.chipWidthBits.toNat) 0 ++
          data.drop (i * c.chipWidthBits.toNat)).length = c.sysConfig.dataBusWidth.toNat := by
        rw [List.length_append, List.length_replicate, List.length_drop]
        omega
      have hshare := share_length hc hlen hi
      have hread := reading_closed hb.consistent hb.buffers hcol hshare.ge
      rw [List.drop_of_length_le hshare.le, List.append_nil] at hread
      refine ⟨b, _, ?_, rfl, splice_share data _ i⟩
      rw [DRAMBankEqClass.transferRound, start_eq hc hi, if_pos (by rw [hlen]; exact hle), hread])
    0 k.banks data (by
      intro i b hb
      obtain ⟨hi, _⟩ := List.getElem?_eq_some_iff.mp hb
      rw [h.length_eq] at hi
      exact ⟨by omega, h.banks b (List.mem_of_getElem? hb)⟩) (by simp)
  have hbanks : bs = k.banks := by
    apply List.ext_getElem hlen
    intro i hi hi'
    exact hQ i _ _ (List.getElem?_eq_getElem hi') (List.getElem?_eq_getElem hi)
  rw [transferData_of_ok hc h hdata hs, hbanks, hu, Nat.zero_add, h.length_eq, chips_mul hc,
    ← hdata, List.drop_length, List.append_nil]

theorem transferData_blank (hc : c.Valid) (h : Blank c k) (col : UInt32) (isWrite : Bool) (data : List UInt8) :
    RankOpening.perform k (.transferData col isWrite data) = answer c k (.transferData col isWrite data) := by
  rw [answer]
  split
  · next hne => simp [RankOpening.perform, DRAMBankEqClass.transferData, h.config, hne]
  · next heq =>
      have hdata := not_not.mp heq
      cases isWrite with
      | true =>
          exact transfer_refused hc h hdata fun b hb s hs =>
            writing_refused (h.banks b hb) hs.ge (Or.inl (by simp [blank]))
      | false =>
          by_cases hcol : col.toNat < 2 ^ c.colBits.toNat
          · simp only [Bool.false_eq_true, if_false, if_pos hcol]
            exact read_zeros hc h hdata hcol
          · simp only [Bool.false_eq_true, if_false, if_neg hcol]
            exact transfer_refused hc h hdata fun b hb s hs =>
              reading_refused (h.banks b hb) hs.ge (Or.inr (Nat.not_lt.mp hcol))

theorem openRow_inside (hc : c.Valid) (h : Blank c k) (hrow : row.toNat < 2 ^ c.rowBits.toNat) :
    Faults (RankOpening.perform k (.openRow row)) := by
  obtain ⟨k', hover, _⟩ := openRow_overruns hc h.arranged hrow
  rw [RankOpening.perform, hover]
  trivial

theorem answer_not_faults (c : DRAMConfig) (k : DRAMBankEqClass) (d : Command) : ¬ Faults (answer c k d) := by
  cases d with
  | openRow row => exact not_faults_raised _ _
  | transferData col isWrite data =>
      rw [answer]
      repeat' split
      all_goals simp

theorem final_answer (c : DRAMConfig) (k : DRAMBankEqClass) (d : Command) : (final (answer c k d)).1 = k := by
  cases d with
  | openRow row => rfl
  | transferData col isWrite data =>
      rw [answer]
      repeat' split
      all_goals rfl

/-- One call: past the end of the banks, or the answer of a memory that
stores nothing. -/
theorem perform_blank (hc : c.Valid) (h : Blank c k) (d : Command) :
    (Inside c d ∧ Faults (RankOpening.perform k d)) ∨ (¬ Inside c d ∧ RankOpening.perform k d = answer c k d) := by
  cases d with
  | openRow row =>
      by_cases hrow : row.toNat < 2 ^ c.rowBits.toNat
      · exact Or.inl ⟨⟨row, rfl, hrow⟩, openRow_inside hc h hrow⟩
      · refine Or.inr ⟨?_, openRow_outside hc h (Nat.not_lt.mp hrow)⟩
        rintro ⟨_, heq, hlt⟩
        obtain rfl := Command.openRow.inj heq
        exact hrow hlt
  | transferData col isWrite data =>
      refine Or.inr ⟨?_, transferData_blank hc h col isWrite data⟩
      rintro ⟨_, hd, _⟩
      cases hd

theorem perform_faults_iff (hc : c.Valid) (h : Blank c k) (d : Command) :
    Faults (RankOpening.perform k d) ↔ Inside c d := by
  rcases perform_blank hc h d with ⟨hin, hf⟩ | ⟨hout, heq⟩
  · exact ⟨fun _ => hin, fun _ => hf⟩
  · rw [heq]
    exact ⟨fun hf => absurd hf (answer_not_faults c k d), fun hin => absurd hin hout⟩

theorem after_blank (hc : c.Valid) (h : Blank c k) {cs : List Command} (hd : Defined k cs) :
    RankOpening.after k cs = k := by
  induction cs using List.reverseRecOn with
  | nil => rfl
  | append_singleton cs d ih =>
      obtain ⟨hcs, hlast⟩ := each_snoc.mp hd
      have hsame := ih hcs
      rw [hsame, perform_faults_iff hc h] at hlast
      rcases perform_blank hc h d with ⟨hin, _⟩ | ⟨_, heq⟩
      · exact absurd hin hlast
      · calc RankOpening.after k (cs ++ [d]) = (final (RankOpening.perform (RankOpening.after k cs) d)).1 := by
              simp [RankOpening.after]
          _ = k := by rw [hsame, heq, final_answer]

end

/-- No run ever stores a byte in the chips: as long as no opening names a row
of theirs, which the loop does not survive, each call is answered as if it were
the first. -/
theorem run_blank (c : DRAMConfig) (hv : c.validate = .ok ())
    (hfit : 2 ^ (c.rowBits.toNat + c.colBits.toNat) < 2 ^ 32) (k : DRAMBankEqClass)
    (hk : DRAMBankEqClass.new c = .ok k) (cs : List Command) (hd : Defined k cs) (d : Command) :
    RankOpening.after k cs = k ∧ (Faults (RankOpening.perform (RankOpening.after k cs) d) ↔ Inside c d) ∧
      (¬ Inside c d → RankOpening.perform (RankOpening.after k cs) d = answer c k d) := by
  have hc := DRAMConfig.Valid.of_validate hv
  have hblank := new_blank hv hfit hk
  have hsame := after_blank hc hblank hd
  rw [hsame]
  refine ⟨rfl, perform_faults_iff hc hblank d, fun hout => ?_⟩
  rcases perform_blank hc hblank d with ⟨hin, _⟩ | ⟨_, heq⟩
  · exact absurd hin hout
  · exact heq

theorem squareClass_defined : Defined squareClass ([] ++ [.openRow 2]) := by
  refine each_snoc.mpr ⟨each_nil, ?_⟩
  have hblank := new_blank (by decide) (by decide) squareClass_new
  intro hf
  obtain ⟨_, heq, hlt⟩ := (perform_faults_iff (DRAMConfig.Valid.of_validate (by decide)) hblank (.openRow 2)).mp hf
  obtain rfl := Command.openRow.inj heq
  exact absurd hlt (by decide)

theorem run_blank_square :
    RankOpening.after squareClass ([] ++ [.openRow 2]) = squareClass ∧
      (Faults (RankOpening.perform (RankOpening.after squareClass ([] ++ [.openRow 2]))
          (.transferData 0 false (List.replicate 64 5))) ↔ Inside square (.transferData 0 false (List.replicate 64 5))) ∧
      (¬ Inside square (.transferData 0 false (List.replicate 64 5)) →
        RankOpening.perform (RankOpening.after squareClass ([] ++ [.openRow 2]))
          (.transferData 0 false (List.replicate 64 5)) =
          answer square squareClass (.transferData 0 false (List.replicate 64 5))) :=
  run_blank square (by decide) (by decide) squareClass squareClass_new _ squareClass_defined _

end MemSim.BlankRank
