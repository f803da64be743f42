import MemSim.Striping

namespace MemSim.RankOpening

open Machine Sweep BankRefinement Striping

def perform (k : DRAMBankEqClass) :
    Command → EStateM.Result (Stop String) (DRAMBankEqClass × List UInt8) Unit
  | .openRow row =>
      match DRAMBankEqClass.openRow row k with
      | .ok () k' => .ok () (k', [])
      | .error e k' => .error e (k', [])
  | .transferData col isWrite data => DRAMBankEqClass.transferData col isWrite (k, data)

def after (k : DRAMBankEqClass) (cs : List Command) : DRAMBankEqClass :=
  cs.foldl (fun k c => (final (perform k c)).1) k

/-- A class of the shape its constructor gives it, its banks open or closed in
any way that calls on them lead to. -/
structure Arranged (c : DRAMConfig) (k : DRAMBankEqClass) : Prop where
  config : k.dramConfig = c
  length_eq : k.banks.length = chips c
  banks : ∀ b ∈ k.banks, ∃ p, Consistent c.chipWidthBits.toNat (2 ^ c.rowBits.toNat) (2 ^ c.colBits.toNat) p b

def Opens (c : DRAMConfig) (k : DRAMBankEqClass) (row : UInt32) (k' : DRAMBankEqClass) : Prop :=
  AllOpen c row k' ∧ ∀ i j r s, i < chips c → r < 2 ^ c.rowBits.toNat → s < 2 ^ c.colBits.toNat →
    cell k' i j r s = cell k i j r s

def OpensRow (c : DRAMConfig) (k : DRAMBankEqClass) (row : UInt32) : Prop :=
  ∃ k', DRAMBankEqClass.openRow row k = .ok () k' ∧ Opens c k row k'

def bankRound (row : UInt32) (_ : Nat) : EStateM (Stop String) (DRAMBank × Unit) Unit := fun s =>
  match DRAMBank.openRow row s.1 with
  | .ok () b => .ok () (b, ())
  | .error e b => .error e (b, ())

section

variable {k : DRAMBankEqClass} {row : UInt32}

theorem openRow_of_error {e : Stop String} {s : List DRAMBank × Unit}
    (h : sweep (bankRound row) 0 k.banks () = .error e s) :
    DRAMBankEqClass.openRow row k = .error e { k with banks := s.1 } := by
  unfold DRAMBankEqClass.openRow
  dsimp only
  split
  · next e' t ht =>
      cases h.symm.trans ht
      rfl
  · next t ht => cases h.symm.trans ht

theorem openRow_of_ok {s : List DRAMBank × Unit} (h : sweep (bankRound row) 0 k.banks () = .ok () s)
    (hne : k.banks ≠ []) :
    DRAMBankEqClass.openRow row k = .error (.fault .outOfRange) { k with banks := s.1 } := by
  unfold DRAMBankEqClass.openRow
  dsimp only
  split
  · next e' t ht => cases h.symm.trans ht
  · next t ht =>
      cases h.symm.trans ht
      exact if_neg hne

theorem bankRound_ok {i : Nat} {b b' : DRAMBank} (h : DRAMBank.openRow row b = .ok () b') :
    bankRound row i (b, ()) = .ok () (b', ()) := by
  simp [bankRound, h]

theorem final_bankRound (i : Nat) (b : DRAMBank) :
    (final (bankRound row i (b, ()))).1 = final (DRAMBank.openRow row b) := by
  unfold bankRound
  cases DRAMBank.openRow row b <;> rfl

end

section

variable {c : DRAMConfig} {k : DRAMBankEqClass} {n rows cols : Nat} {p : BankRefinement.Phase} {b : DRAMBank}

theorem bank_openRow (h : Consistent n rows cols p b) (row : UInt32) :
    ∃ q, Consistent n rows cols q (final (DRAMBank.openRow row b)) := by
  by_cases hlt : row.toNat < rows
  · obtain ⟨b', ho, hb', _⟩ := openRow_of_lt h hlt
    exact ⟨_, by rw [ho]; exact hb'⟩
  · obtain ⟨b', text, ho, hb', _⟩ := openRow_of_ge h (Nat.not_lt.mp hlt)
    exact ⟨_, by rw [ho]; exact hb'⟩

theorem bank_transferData (h : Consistent n rows cols p b) (col : UInt32) (isWrite : Bool)
    {data : List UInt8} (hdata : n ≤ data.length) :
    Consistent n rows cols p (final (DRAMBank.transferData col isWrite (b, data))).1 := by
  cases isWrite with
  | false =>
      rw [read_keeps]
      exact h
  | true =>
      by_cases hyes : ∃ r, p = .opened r ∧ col.toNat < cols
      · obtain ⟨row, rfl, hlt⟩ := hyes
        obtain ⟨b', hw, hb', _⟩ := write_accepted h hdata hlt
        rw [hw]
        exact hb'
      · have hno : (∀ r, p ≠ .opened r) ∨ cols ≤ col.toNat := by
          by_cases hlt : col.toNat < cols
          · exact Or.inl (fun r hr => hyes ⟨r, hr, hlt⟩)
          · exact Or.inr (Nat.not_lt.mp hlt)
        obtain ⟨text, hw⟩ := write_refused h hdata hno
        rw [hw]
        exact h

theorem round_arranged {chipBits : UInt8} (h : ∃ p, Consistent chipBits.toNat rows cols p b) (col : UInt32)
    (isWrite : Bool) (i : Nat) (data : List UInt8) :
    ∃ p, Consistent chipBits.toNat rows cols p
      (final (DRAMBankEqClass.transferRound col isWrite chipBits i (b, data))).1 := by
  obtain ⟨p, hb⟩ := h
  unfold DRAMBankEqClass.transferRound
  dsimp only
  split
  · next hle =>
      have hlen : chipBits.toNat ≤ ((data.drop (UInt32.ofNat i * chipBits.toUInt32).toNat).take
          chipBits.toNat).length := by
        rw [List.length_take, List.length_drop]
        omega
      have hfinal := bank_transferData hb col isWrite hlen
      split
      · next t ht =>
          rw [ht] at hfinal
          exact ⟨p, hfinal⟩
      · next e t ht =>
          rw [ht] at hfinal
          exact ⟨p, hfinal⟩
  · exact ⟨p, hb⟩

theorem chips_pos (h : c.Valid) : 0 < chips c := by
  have hmul := chips_mul h
  have hge := ChipStorage.dataBusWidth_ge h
  rcases Nat.eq_zero_or_pos (chips c) with hz | hpos
  · rw [hz, Nat.zero_mul] at hmul
    omega
  · exact hpos

theorem Arranged.ne_nil (h : c.Valid) (hk : Arranged c k) : k.banks ≠ [] := by
  apply List.ne_nil_of_length_pos
  rw [hk.length_eq]
  exact chips_pos h

theorem openRow_arranged (h : c.Valid) (hk : Arranged c k) (row : UInt32) :
    Arranged c (final (perform k (.openRow row))).1 := by
  obtain ⟨hlen, hbs⟩ := sweep_invariant (bankRound row) _ (fun i b _ ⟨p, hb⟩ => by
    rw [final_bankRound]
    exact bank_openRow hb row) 0 k.banks () hk.banks
  have hfinal : (final (perform k (.openRow row))).1 =
      { k with banks := (final (sweep (bankRound row) 0 k.banks ())).1 } := by
    cases hs : sweep (bankRound row) 0 k.banks () with
    | error e s => simp [perform, openRow_of_error hs]
    | ok u s => simp [perform, openRow_of_ok hs (hk.ne_nil h)]
  rw [hfinal]
  exact ⟨hk.config, by rw [← hk.length_eq]; exact hlen, hbs⟩

theorem transferData_arranged (hk : Arranged c k) (col : UInt32) (isWrite : Bool) (data : List UInt8) :
    Arranged c (final (perform k (.transferData col isWrite data))).1 := by
  obtain rfl := hk.config
  obtain ⟨hlen, hbs⟩ := sweep_invariant (DRAMBankEqClass.transferRound col isWrite k.dramConfig.chipWidthBits)
    (fun b => ∃ p, Consistent k.dramConfig.chipWidthBits.toNat (2 ^ k.dramConfig.rowBits.toNat)
      (2 ^ k.dramConfig.colBits.toNat) p b)
    (fun i b data hb => round_arranged hb col isWrite i data) 0 k.banks data hk.banks
  change Arranged k.dramConfig (final (DRAMBankEqClass.transferData col isWrite (k, data))).1
  unfold DRAMBankEqClass.transferData
  dsimp only
  split
  · exact hk
  · split
    · exact hk
    · split
      · exact hk
      · split
        · next t ht =>
            rw [ht] at hlen hbs
            exact ⟨rfl, hlen.trans hk.length_eq, hbs⟩
        · next e t ht =>
            rw [ht] at hlen hbs
            exact ⟨rfl, hlen.trans hk.length_eq, hbs⟩

theorem after_arranged (h : c.Valid) (hk : Arranged c k) (cs : List Command) : Arranged c (after k cs) := by
  induction cs generalizing k with
  | nil => exact hk
  | cons d cs ih =>
      apply ih
      cases d with
      | openRow row => exact openRow_arranged h hk row
      | transferData col isWrite data => exact transferData_arranged hk col isWrite data

theorem new_arranged (hv : c.validate = .ok ()) (hfit : 2 ^ (c.rowBits.toNat + c.colBits.toNat) < 2 ^ 32)
    (hk : DRAMBankEqClass.new c = .ok k) : Arranged c k := by
  have h := DRAMConfig.Valid.of_validate hv
  obtain ⟨n, hn, hval, _⟩ := ChipStorage.numberOfChips_eq h
  obtain ⟨b, hb, _⟩ := Geometry.bank_new_wellFormed h hfit
  rw [DRAMBankEqClass.new, hn, bind_ok, hb, bind_ok] at hk
  obtain rfl := Except.ok.inj hk
  refine ⟨rfl, by rw [List.length_replicate, hval, chips], ?_⟩
  intro b' hb'
  obtain rfl := List.eq_of_mem_replicate hb'
  exact ⟨_, new_consistent hv hfit hb⟩

/-- The loop opens the row in every bank as it should, and then goes on to a
bank that is not there. -/
theorem openRow_overruns (h : c.Valid) (hk : Arranged c k) {row : UInt32}
    (hrow : row.toNat < 2 ^ c.rowBits.toNat) :
    ∃ k', DRAMBankEqClass.openRow row k = .error (.fault .outOfRange) k' ∧ Opens c k row k' := by
  obtain ⟨bs, u, hs, _, hlen, hQ⟩ := sweep_returns (bankRound row)
    (fun _ b => ∃ p, Consistent c.chipWidthBits.toNat (2 ^ c.rowBits.toNat) (2 ^ c.colBits.toNat) p b)
    (fun _ _ => True)
    (fun _ b b' => Consistent c.chipWidthBits.toNat (2 ^ c.rowBits.toNat) (2 ^ c.colBits.toNat) (.opened row) b' ∧
      SameCells (2 ^ c.rowBits.toNat) (2 ^ c.colBits.toNat) b b')
    (by
      rintro i b s ⟨p, hb⟩ _
      obtain ⟨b', ho, hb', hsame⟩ := openRow_of_lt hb hrow
      exact ⟨b', (), bankRound_ok ho, ⟨hb', hsame⟩, trivial⟩)
    0 k.banks () (fun i b hb => hk.banks b (List.mem_of_getElem? hb)) trivial
  refine ⟨{ k with banks := bs }, openRow_of_ok hs (hk.ne_nil h), ⟨hk.config, ?_, ?_⟩, ?_⟩
  · exact hlen.trans hk.length_eq
  · intro b' hb'
    obtain ⟨i, hi, rfl⟩ := List.getElem_of_mem (l := bs) hb'
    exact (hQ i _ bs[i] (List.getElem?_eq_getElem (by omega)) (List.getElem?_eq_getElem hi)).1
  · intro i j r s hi hr hs'
    have hi' : i < k.banks.length := by rw [hk.length_eq]; exact hi
    have hi'' : i < bs.length := by omega
    have hsame := (hQ i k.banks[i] bs[i] (List.getElem?_eq_getElem hi') (List.getElem?_eq_getElem hi'')).2
    simpa [cell, hi', hi''] using hsame j r s hr hs'

end

/-- Whatever has been called before, and whichever row of the bank is named:
the rank has at least one chip, so the loop never ends in peace. -/
theorem openRow_never_returns (c : DRAMConfig) (hv : c.validate = .ok ())
    (hfit : 2 ^ (c.rowBits.toNat + c.colBits.toNat) < 2 ^ 32) (k : DRAMBankEqClass)
    (hk : DRAMBankEqClass.new c = .ok k) (cs : List Command) (row : UInt32)
    (hrow : row.toNat < 2 ^ c.rowBits.toNat) : ¬ OpensRow c (after k cs) row := by
  have h := DRAMConfig.Valid.of_validate hv
  obtain ⟨k', hover, _⟩ := openRow_overruns h (after_arranged h (new_arranged hv hfit hk) cs) hrow
  rintro ⟨k'', hok, _⟩
  rw [hover] at hok
  cases hok

def squareClass : DRAMBankEqClass := ⟨List.replicate 8 squareBank, square⟩

theorem squareClass_new : DRAMBankEqClass.new square = .ok squareClass := by
  rw [DRAMBankEqClass.new, square_new]
  rfl

theorem openRow_never_returns_square : ¬ OpensRow square (after squareClass [.openRow 1]) 0 :=
  openRow_never_returns square (by decide) (by decide) squareClass squareClass_new [.openRow 1] 0 (by decide)

theorem fresh_class_overruns :
    (∃ k', DRAMBankEqClass.openRow 1 squareClass = .error (.fault .outOfRange) k') ∧
      ¬ OpensRow square squareClass 1 := by
  have h := DRAMConfig.Valid.of_validate (c := square) (by decide)
  obtain ⟨k', hover, _⟩ := openRow_overruns h (new_arranged (by decide) (by decide) squareClass_new)
    (by decide : (1 : UInt32).toNat < 2 ^ square.rowBits.toNat)
  refine ⟨⟨k', hover⟩, ?_⟩
  rintro ⟨k'', hok, _⟩
  rw [hover] at hok
  cases hok

end MemSim.RankOpening
