import MemSim.BankRefinement
import MemSim.Runs

namespace MemSim.BankGuarantee

open Machine Sweep DRAMBank BankRefinement Runs

def given : Command → List UInt8
  | .openRow _ => []
  | .transferData _ _ data => data

def after (b : DRAMBank) (cs : List Command) : DRAMBank :=
  cs.foldl (fun b c => (final (perform b c)).1) b

def Defined (b : DRAMBank) (cs : List Command) : Prop :=
  ∀ pre c post, cs = pre ++ c :: post → ¬ Faults (perform (after b pre) c)

/-- A call that throws leaves the bank and the caller's span as they were. -/
def Keeps (b : DRAMBank) (c : Command) : Prop :=
  ∀ text s, perform b c = .error (.raised text) s → s = (b, given c)

def LockStep (b : DRAMBank) : Prop :=
  ∀ x ∈ b.arrays, ∀ y ∈ b.arrays, x.isWordOpen = y.isWordOpen ∧
    (x.isWordOpen = true → x.openRow = y.openRow)

/-- The strong guarantee over a run, and what it is for. -/
structure Guarantee (b : DRAMBank) (cs : List Command) : Prop where
  keeps : ∀ pre c post, cs = pre ++ c :: post → Keeps (after b pre) c
  lockStep : ∀ pre post, cs = pre ++ post → LockStep (after b pre)

/-- Once a row of the bank has been opened, no opening names a row beyond it. -/
def Inside (rows : Nat) (cs : List Command) : Prop :=
  (openings cs).Pairwise fun r q => r.toNat < rows → q.toNat < rows

structure Shaped (rows cols : UInt32) (p : BankRefinement.Phase) (b : DRAMBank) : Prop where
  nonempty : b.arrays ≠ []
  extents : ∀ a ∈ b.arrays, a.rows = rows ∧ a.cols = cols
  phase : InPhase p b.arrays

section

variable {rows cols : UInt32} {p : BankRefinement.Phase} {b : DRAMBank}

theorem Shaped.head (h : Shaped rows cols p b) : ∃ a as, b.arrays = a :: as ∧ a.rows = rows ∧ a.cols = cols := by
  obtain ⟨a, as, hb⟩ := List.exists_cons_of_ne_nil h.nonempty
  exact ⟨a, as, hb, h.extents a (by simp [hb])⟩

theorem Shaped.lockStep (h : Shaped rows cols p b) (hp : ∀ r, p ≠ .broken r) : LockStep b := by
  have hph := h.phase
  intro x hx y hy
  cases p with
  | closed =>
      rw [hph x hx, hph y hy]
      exact ⟨rfl, by simp⟩
  | opened r =>
      obtain ⟨hxo, hxr⟩ := hph x hx
      obtain ⟨hyo, hyr⟩ := hph y hy
      exact ⟨hxo.trans hyo.symm, fun _ => hxr.trans hyr.symm⟩
  | broken r => exact absurd rfl (hp r)

def Settles (rows cols : UInt32) (p : BankRefinement.Phase) (b : DRAMBank) (c : Command) : Prop :=
  ∃ s, perform b c = .ok () s ∧ Shaped rows cols p s.1

def Refuses (b : DRAMBank) (c : Command) : Prop :=
  ∃ text, perform b c = .error (.raised text) (b, given c)

theorem Settles.keeps {c : Command} (h : Settles rows cols p b c) : Keeps b c := by
  obtain ⟨s, hs, _⟩ := h
  intro text t ht
  rw [hs] at ht
  cases ht

theorem Settles.shaped {c : Command} (h : Settles rows cols p b c) :
    Shaped rows cols p (final (perform b c)).1 := by
  obtain ⟨s, hs, hp⟩ := h
  rwa [hs]

theorem Refuses.keeps {c : Command} (h : Refuses b c) : Keeps b c := by
  obtain ⟨text, ht⟩ := h
  intro text' s hs
  rw [ht] at hs
  cases hs
  rfl

theorem Refuses.final_eq {c : Command} (h : Refuses b c) : (final (perform b c)).1 = b := by
  obtain ⟨text, ht⟩ := h
  rw [ht]
  rfl

theorem openRow_head {row : UInt32} {a d : DRAMSubarray} {as : List DRAMSubarray} {e : Stop String}
    (hb : b.arrays = a :: as) (h : openRowRound row 0 (a, ()) = .error e (d, ())) :
    perform b (.openRow row) = .error e (⟨d :: as⟩, []) := by
  have hs := sweep_head_error as h
  rw [← hb] at hs
  simp [perform, openRow, hs]

theorem transfer_head {col : UInt32} {w : Bool} {data : List UInt8} {a : DRAMSubarray}
    {as : List DRAMSubarray} {e : Stop String} (hb : b.arrays = a :: as)
    (h : transferRound col w 0 (a, data) = .error e (a, data)) :
    perform b (.transferData col w data) = .error e (b, data) := by
  have hs := sweep_head_error as h
  rw [← hb] at hs
  simp [perform, transferData, hs]

theorem transfer_short {col : UInt32} {w : Bool} {i : Nat} {a : DRAMSubarray} {data : List UInt8}
    (h : data[i]? = none) : transferRound col w i (a, data) = .error (.fault .outOfRange) (a, data) := by
  change EStateM.run (transferRound col w i) (a, data) = _
  simp [transferRound, element, h]

theorem openRow_settles (h : Shaped rows cols p b) {row : UInt32} (hr : row < rows)
    (hd : ¬ Faults (perform b (.openRow row))) : Settles rows cols (.opened row) b (.openRow row) := by
  have hround : ∀ (i : Nat) (a : DRAMSubarray) (s : Unit), (a.rows = rows ∧ a.cols = cols) →
      Faults (openRowRound row i (a, s)) ∨ ∃ d t, openRowRound row i (a, s) = .ok () (d, t) ∧
        (d.rows = rows ∧ d.cols = cols) ∧ d.isWordOpen = true ∧ d.openRow = row := by
    rintro i a s ⟨hrows, hcols⟩
    rcases a.precharge_ends with ⟨f, hp⟩ | ⟨d, hp, hc, hdr, hdc⟩
    · left
      change Faults (EStateM.run (openRowRound row i) (a, s))
      simp [openRowRound, hp]
    · rcases DRAMSubarray.activate_ends hc (by rw [hdr, hrows]; exact hr) with
        ⟨f, ha⟩ | ⟨e, ha, ho, hrow, her, hec⟩
      · left
        change Faults (EStateM.run (openRowRound row i) (a, s))
        simp [openRowRound, hp, ha]
      · exact Or.inr ⟨e, (), openRowRound_true hp ha,
          ⟨by rw [her, hdr, hrows], by rw [hec, hdc, hcols]⟩, ho, hrow⟩
  rcases sweep_ends (openRowRound row) _ _ hround 0 b.arrays () h.extents with hf | ⟨bs, t, hs, hlen, hbs⟩
  · obtain ⟨f, s, hs⟩ := faults_iff.mp hf
    exact absurd (by simp [perform, openRow, hs]) hd
  · exact ⟨(⟨bs⟩, []), by simp [perform, openRow, hs], List.ne_nil_of_length_pos
      (by rw [hlen]; exact List.length_pos_of_ne_nil h.nonempty), fun d hd => (hbs d hd).1,
      fun d hd => (hbs d hd).2⟩

theorem openRow_refuses (h : Shaped rows cols .closed b) {row : UInt32} (hr : rows ≤ row) :
    Refuses b (.openRow row) := by
  obtain ⟨a, as, hb, hrows, _⟩ := h.head
  have ho := h.phase a (by simp [hb])
  obtain ⟨text, ht⟩ := openRowRound_false (i := 0) (DRAMSubarray.precharge_of_closed ho)
    (DRAMSubarray.activate_of_rows_le ho (hrows ▸ hr))
  refine ⟨text, ?_⟩
  rw [openRow_head hb ht, ← hb]
  rfl

theorem openRow_disturbs {r : UInt32} (h : Shaped rows cols (.opened r) b) {row : UInt32} (hr : rows ≤ row)
    (hd : ¬ Faults (perform b (.openRow row))) : ¬ Keeps b (.openRow row) := by
  obtain ⟨a, as, hb, hrows, _⟩ := h.head
  obtain ⟨ho, _⟩ := h.phase a (by simp [hb])
  rcases a.precharge_ends with ⟨f, hp⟩ | ⟨d, hp, hc, hdr, _⟩
  · have hf : openRowRound row 0 (a, ()) = .error (.fault f) (a, ()) := by
      change EStateM.run (openRowRound row 0) (a, ()) = _
      simp [openRowRound, hp]
    exact absurd (by simp [openRow_head hb hf]) hd
  · obtain ⟨text, ht⟩ := openRowRound_false (i := 0) hp
      (DRAMSubarray.activate_of_rows_le hc (by rw [hdr, hrows]; exact hr))
    intro hk
    have hsame := congrArg (fun s => s.1.arrays) (hk text _ (openRow_head hb ht))
    have hda : d = a := by simpa [hb] using hsame
    rw [hda, ho] at hc
    cases hc

theorem write_settles {r : UInt32} (h : Shaped rows cols (.opened r) b) {col : UInt32} {data : List UInt8}
    (hc : col < cols) (hd : ¬ Faults (perform b (.transferData col true data))) :
    Settles rows cols (.opened r) b (.transferData col true data) := by
  have hround : ∀ (i : Nat) (a : DRAMSubarray) (s : List UInt8),
      ((a.rows = rows ∧ a.cols = cols) ∧ a.isWordOpen = true ∧ a.openRow = r) →
      Faults (transferRound col true i (a, s)) ∨ ∃ d t, transferRound col true i (a, s) = .ok () (d, t) ∧
        (d.rows = rows ∧ d.cols = cols) ∧ d.isWordOpen = true ∧ d.openRow = r := by
    rintro i a s ⟨⟨hrows, hcols⟩, ho, hrow⟩
    cases hv : s[i]? with
    | none => exact Or.inl (by simp [transfer_short hv])
    | some v =>
        rcases DRAMSubarray.write_ends ho (hcols ▸ hc) v with ⟨f, hw⟩ | ⟨d, hw, hdo, hdrow, hdr, hdc⟩
        · left
          change Faults (EStateM.run (transferRound col true i) (a, s))
          simp [transferRound, element, hv, hw]
        · exact Or.inr ⟨d, s, writeRound_true hv hw, ⟨by rw [hdr, hrows], by rw [hdc, hcols]⟩, hdo,
            by rw [hdrow, hrow]⟩
  rcases sweep_ends (transferRound col true) _ _ hround 0 b.arrays data
    (fun a ha => ⟨h.extents a ha, h.phase a ha⟩) with hf | ⟨bs, t, hs, hlen, hbs⟩
  · obtain ⟨f, s, hs⟩ := faults_iff.mp hf
    exact absurd (by simp [perform, transferData, hs]) hd
  · exact ⟨(⟨bs⟩, t), by simp [perform, transferData, hs], List.ne_nil_of_length_pos
      (by rw [hlen]; exact List.length_pos_of_ne_nil h.nonempty), fun d hd => (hbs d hd).1,
      fun d hd => (hbs d hd).2⟩

theorem write_refuses (h : Shaped rows cols p b) {col : UInt32} {data : List UInt8}
    (hno : p = .closed ∨ cols ≤ col) (hd : ¬ Faults (perform b (.transferData col true data))) :
    Refuses b (.transferData col true data) := by
  obtain ⟨a, as, hb, _, hcols⟩ := h.head
  cases hv : data[0]? with
  | none => exact absurd (by simp [transfer_head hb (transfer_short hv)]) hd
  | some v =>
      have hw : a.write col v = .ok (false, a) := by
        rcases hno with rfl | hc
        · exact DRAMSubarray.write_of_closed (h.phase a (by simp [hb])) col v
        · exact DRAMSubarray.write_of_cols_le (hcols ▸ hc) v
      obtain ⟨text, ht⟩ := writeRound_false hv hw
      exact ⟨text, transfer_head hb ht⟩

theorem read_refuses (h : Shaped rows cols p b) {col : UInt32} {data : List UInt8}
    (hno : (∃ r, p = .opened r) ∨ cols ≤ col) (hd : ¬ Faults (perform b (.transferData col false data))) :
    Refuses b (.transferData col false data) := by
  obtain ⟨a, as, hb, _, hcols⟩ := h.head
  cases hv : data[0]? with
  | none => exact absurd (by simp [transfer_head hb (transfer_short hv)]) hd
  | some v =>
      have hr : a.read col = .ok none := by
        rcases hno with ⟨r, rfl⟩ | hc
        · exact DRAMSubarray.read_of_open (h.phase a (by simp [hb])).1 col
        · exact DRAMSubarray.read_of_cols_le (hcols ▸ hc)
      obtain ⟨text, ht⟩ := readRound_none hv hr
      exact ⟨text, transfer_head hb ht⟩

theorem read_settles (h : Shaped rows cols .closed b) {col : UInt32} {data : List UInt8} (hc : col < cols)
    (hd : ¬ Faults (perform b (.transferData col false data))) :
    Settles rows cols .closed b (.transferData col false data) := by
  have hround : ∀ (i : Nat) (a : DRAMSubarray) (s : List UInt8),
      ((a.rows = rows ∧ a.cols = cols) ∧ a.isWordOpen = false) →
      Faults (transferRound col false i (a, s)) ∨
        ∃ d t, transferRound col false i (a, s) = .ok () (d, t) ∧ True := by
    rintro i a s ⟨⟨_, hcols⟩, ho⟩
    cases hv : s[i]? with
    | none => exact Or.inl (by simp [transfer_short hv])
    | some v =>
        rcases DRAMSubarray.read_ends ho (hcols ▸ hc) with ⟨f, hr⟩ | ⟨v', hr⟩
        · left
          change Faults (EStateM.run (transferRound col false i) (a, s))
          simp [transferRound, element, hv, hr]
        · exact Or.inr ⟨a, _, readRound_some hv hr, trivial⟩
  have hkeep := read_keeps b col data
  rcases sweep_ends (transferRound col false) _ _ hround 0 b.arrays data
    (fun a ha => ⟨h.extents a ha, h.phase a ha⟩) with hf | ⟨bs, t, hs, _, _⟩
  · obtain ⟨f, s, hs⟩ := faults_iff.mp hf
    exact absurd (by simp [perform, transferData, hs]) hd
  · have hdo : perform b (.transferData col false data) = .ok () (⟨bs⟩, t) := by
      simp [perform, transferData, hs]
    have hbs : (⟨bs⟩ : DRAMBank) = b := by
      rw [← perform_transferData, hdo] at hkeep
      exact hkeep
    exact ⟨_, hdo, by rw [hbs]; exact h⟩

/-- A call keeps the lock-step unless it names a row beyond the bank while one
is open. -/
theorem call_step (h : Shaped rows cols p b) (hp : ∀ r, p ≠ .broken r) {c : Command}
    (hd : ¬ Faults (perform b c))
    (hin : ∀ row, c = .openRow row → ∀ r, p = .opened r → row < rows) :
    Keeps b c ∧ Shaped rows cols (p.next rows.toNat c) (final (perform b c)).1 ∧
      ∀ r, p.next rows.toNat c ≠ .broken r := by
  cases c with
  | openRow row =>
      by_cases hlt : row < rows
      · have hs := openRow_settles h hlt hd
        have hn : p.next rows.toNat (.openRow row) = .opened row := if_pos (UInt32.lt_iff_toNat_lt.mp hlt)
        rw [hn]
        refine ⟨hs.keeps, hs.shaped, ?_⟩
        intro r hr
        cases hr
      · have hge := UInt32.not_lt.mp hlt
        cases p with
        | closed =>
            have hr := openRow_refuses h hge
            have hn : BankRefinement.Phase.next rows.toNat .closed (.openRow row) = .closed :=
              if_neg (fun hl => hlt (UInt32.lt_iff_toNat_lt.mpr hl))
            rw [hn, hr.final_eq]
            exact ⟨hr.keeps, h, hp⟩
        | opened r => exact absurd (hin row rfl r rfl) hlt
        | broken r => exact absurd rfl (hp r)
  | transferData col isWrite data =>
      have hlast : Settles rows cols p b (.transferData col isWrite data) ∨
          Refuses b (.transferData col isWrite data) := by
        by_cases hc : col < cols
        · cases p with
          | closed =>
              cases isWrite with
              | true => exact Or.inr (write_refuses h (Or.inl rfl) hd)
              | false => exact Or.inl (read_settles h hc hd)
          | opened r =>
              cases isWrite with
              | true => exact Or.inl (write_settles h hc hd)
              | false => exact Or.inr (read_refuses h (Or.inl ⟨r, rfl⟩) hd)
          | broken r => exact absurd rfl (hp r)
        · have hge := UInt32.not_lt.mp hc
          cases isWrite with
          | true => exact Or.inr (write_refuses h (Or.inr hge) hd)
          | false => exact Or.inr (read_refuses h (Or.inr hge) hd)
      rcases hlast with hs | hr
      · exact ⟨hs.keeps, hs.shaped, hp⟩
      · exact ⟨hr.keeps, by rw [hr.final_eq]; exact h, hp⟩

end

section

variable {b : DRAMBank} {cs : List Command} {c : Command}

theorem after_snoc (b : DRAMBank) (cs : List Command) (c : Command) :
    after b (cs ++ [c]) = (final (perform (after b cs) c)).1 := by
  simp [after]

theorem defined_snoc : Defined b (cs ++ [c]) ↔ Defined b cs ∧ ¬ Faults (perform (after b cs) c) := each_snoc

theorem guarantee_snoc : Guarantee b (cs ++ [c]) ↔
    Guarantee b cs ∧ Keeps (after b cs) c ∧ LockStep (after b (cs ++ [c])) := by
  constructor
  · intro h
    obtain ⟨hks, hk⟩ := each_snoc.mp h.keeps
    refine ⟨⟨hks, ?_⟩, hk, h.lockStep _ [] (by simp)⟩
    intro pre post hcs
    exact h.lockStep pre (post ++ [c]) (by rw [hcs]; simp)
  · rintro ⟨h, hk, hl⟩
    refine ⟨each_snoc.mpr ⟨h.keeps, hk⟩, ?_⟩
    intro pre post hcs
    rcases List.eq_nil_or_concat post with rfl | ⟨post', x, rfl⟩
    · obtain rfl : cs ++ [c] = pre := by simpa using hcs
      exact hl
    · rw [List.concat_eq_append, ← List.append_assoc] at hcs
      exact h.lockStep pre post' (List.append_inj' hcs rfl).1

theorem inside_snoc {rows : Nat} : Inside rows (cs ++ [c]) ↔ Inside rows cs ∧
    ∀ row, c = .openRow row → ∀ r ∈ openings cs, r.toNat < rows → row.toNat < rows := by
  cases c with
  | openRow row =>
      have ho : openings (cs ++ [.openRow row]) = openings cs ++ [row] := by simp [openings]
      rw [Inside, ho, List.pairwise_append]
      simp [Inside]
  | transferData col isWrite data =>
      have ho : openings (cs ++ [.transferData col isWrite data]) = openings cs := by simp [openings]
      rw [Inside, ho]
      simp [Inside]

end

section

variable {rows cols : UInt32} {b : DRAMBank}

theorem run_shaped (hb : Shaped rows cols .closed b) (cs : List Command) (hd : Defined b cs)
    (hin : Inside rows.toNat cs) : Shaped rows cols (phase rows.toNat cs) (after b cs) ∧
      (∀ r, phase rows.toNat cs ≠ .broken r) ∧ Guarantee b cs := by
  induction cs using List.reverseRecOn with
  | nil =>
      have hl := hb.lockStep (fun r hr => by cases hr)
      refine ⟨hb, fun r hr => (by cases hr), each_nil, ?_⟩
      intro pre post hcs
      obtain ⟨rfl, _⟩ := List.append_eq_nil_iff.mp hcs.symm
      exact hl
  | append_singleton cs c ih =>
      obtain ⟨hdc, hf⟩ := defined_snoc.mp hd
      obtain ⟨hic, hrow⟩ := inside_snoc.mp hin
      obtain ⟨hs, hp, hg⟩ := ih hdc hic
      have hcases := phase_cases rows.toNat cs
      obtain ⟨hk, hs', hp'⟩ := call_step hs hp hf (by
        intro row hc r hr
        rw [hr] at hcases
        exact UInt32.lt_iff_toNat_lt.mpr (hrow row hc r (List.mem_of_getLast? hcases.1) hcases.2))
      rw [← after_snoc, ← phase_snoc] at hs'
      rw [← phase_snoc] at hp'
      exact ⟨hs', hp', guarantee_snoc.mpr ⟨hg, hk, hs'.lockStep hp'⟩⟩

theorem inside_of_guarantee (hb : Shaped rows cols .closed b) (cs : List Command) (hd : Defined b cs)
    (hg : Guarantee b cs) : Inside rows.toNat cs := by
  induction cs using List.reverseRecOn with
  | nil => exact List.Pairwise.nil
  | append_singleton cs c ih =>
      obtain ⟨hdc, hf⟩ := defined_snoc.mp hd
      obtain ⟨hgc, hk, _⟩ := guarantee_snoc.mp hg
      have hic := ih hdc hgc
      obtain ⟨hs, hp, _⟩ := run_shaped hb cs hdc hic
      refine inside_snoc.mpr ⟨hic, ?_⟩
      rintro row rfl r hr hlt
      by_contra hge
      have hrow : rows ≤ row := by
        rw [UInt32.le_iff_toNat_le]
        exact Nat.not_lt.mp hge
      have hcases := phase_cases rows.toNat cs
      cases hph : phase rows.toNat cs with
      | closed =>
          rw [hph] at hcases
          exact absurd (hcases r hr) (Nat.not_le.mpr hlt)
      | opened q =>
          rw [hph] at hs
          exact openRow_disturbs hs hrow hf hk
      | broken q => exact hp q hph

end

theorem new_shaped {c : DRAMConfig} (hv : c.validate = .ok ()) {b : DRAMBank} (hb : DRAMBank.new c = .ok b) :
    Shaped (UInt32.ofInt (2 ^ c.rowBits.toNat)) (UInt32.ofInt (2 ^ c.colBits.toNat)) .closed b := by
  have hvalid := DRAMConfig.Valid.of_validate hv
  rw [Geometry.bank_new_eq hvalid] at hb
  obtain rfl := Except.ok.inj hb
  have hne := hvalid.chip_ne
  rw [ne_eq, ← UInt8.toNat_inj, UInt8.toNat_zero] at hne
  refine ⟨?_, ?_, ?_⟩
  · intro hnil
    exact hne ((List.replicate_eq_nil_iff _).mp hnil)
  · intro a ha
    obtain rfl := List.eq_of_mem_replicate ha
    exact ⟨rfl, rfl⟩
  · intro a ha
    obtain rfl := List.eq_of_mem_replicate ha
    rfl

/-- Every bank, of whatever geometry; the number of its rows is narrowed to
thirty-two bits. -/
theorem guarantee_iff_inside (c : DRAMConfig) (hv : c.validate = .ok ()) (b : DRAMBank)
    (hb : DRAMBank.new c = .ok b) (cs : List Command) (hd : Defined b cs) :
    Guarantee b cs ↔ Inside (2 ^ c.rowBits.toNat % 2 ^ 32) cs := by
  have hs := new_shaped hv hb
  rw [← Geometry.ofInt_two_pow]
  constructor
  · exact inside_of_guarantee hs cs hd
  · intro hin
    exact (run_shaped hs cs hd hin).2.2

theorem square_defined (row : UInt32) (h : row = 0 ∨ row = 2) :
    Defined squareBank ([.openRow 1] ++ [.openRow row]) := by
  have hone : Defined squareBank ([] ++ [.openRow 1]) := defined_snoc.mpr ⟨each_nil, fun hf => hf⟩
  refine defined_snoc.mpr ⟨hone, ?_⟩
  rcases h with rfl | rfl <;> exact fun hf => hf

theorem guarantee_iff_inside_square :
    Guarantee squareBank ([.openRow 1] ++ [.openRow 0]) ↔
      Inside (2 ^ square.rowBits.toNat % 2 ^ 32) ([.openRow 1] ++ [.openRow 0]) :=
  guarantee_iff_inside square (by decide) squareBank square_new _ (square_defined 0 (by simp))

theorem opening_beyond_open_row :
    Defined squareBank ([.openRow 1] ++ [.openRow 2]) ∧
      ¬ LockStep (after squareBank ([.openRow 1] ++ [.openRow 2])) ∧
      ¬ Guarantee squareBank ([.openRow 1] ++ [.openRow 2]) := by
  have hl : ¬ LockStep (after squareBank ([.openRow 1] ++ [.openRow 2])) := by
    unfold LockStep
    decide
  exact ⟨square_defined 2 (by simp), hl, fun h => hl (h.lockStep _ [] rfl)⟩

end MemSim.BankGuarantee
