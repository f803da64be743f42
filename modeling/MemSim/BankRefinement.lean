import MemSim.Geometry

namespace MemSim.BankRefinement

open Machine Sweep DRAMBank

inductive Command
  | openRow (row : UInt32)
  | transferData (col : UInt32) (isWrite : Bool) (data : List UInt8)
  deriving DecidableEq, Repr

abbrev Outcome := EStateM.Result (Stop String) (DRAMBank × List UInt8) Unit

def perform (b : DRAMBank) : Command → Outcome
  | .openRow row =>
      match openRow row b with
      | .ok () b' => .ok () (b', [])
      | .error e b' => .error e (b', [])
  | .transferData col isWrite data => transferData col isWrite (b, data)

theorem perform_transferData (b : DRAMBank) (col : UInt32) (isWrite : Bool) (data : List UInt8) :
    perform b (.transferData col isWrite data) = transferData col isWrite (b, data) := rfl

def content (b : DRAMBank) (j r k : Nat) : Option UInt8 := b.arrays[j]?.bind (·.content r k)

/-- What an observer of the calls and of their outcomes writes down: the row
of the last opening, if that returned, and the last value written to each
cell. -/
structure Ledger where
  bank : DRAMBank
  row : Option UInt32
  cells : Nat → Nat → Nat → UInt8

def rowAfter (l : Ledger) : Command → Option UInt32
  | .openRow row => if Returns (perform l.bank (.openRow row)) then some row else none
  | .transferData _ _ _ => l.row

def store (cells : Nat → Nat → Nat → UInt8) (row col : UInt32) (data : List UInt8) :
    Nat → Nat → Nat → UInt8 :=
  fun j r k => if r = row.toNat ∧ k = col.toNat then data.getD j 0 else cells j r k

def cellsAfter (l : Ledger) : Command → Nat → Nat → Nat → UInt8
  | .transferData col true data =>
      match l.row with
      | some row => if Returns (perform l.bank (.transferData col true data)) then
          store l.cells row col data else l.cells
      | none => l.cells
  | _ => l.cells

def record (l : Ledger) (c : Command) : Ledger :=
  ⟨(final (perform l.bank c)).1, rowAfter l c, cellsAfter l c⟩

def observe (b : DRAMBank) (cs : List Command) : Ledger :=
  cs.foldl record ⟨b, none, fun _ _ _ => 0⟩

def Supplied (n : Nat) : Command → Prop
  | .openRow _ => True
  | .transferData _ _ data => n ≤ data.length

/-- How the subarrays stand to one another. A failed opening closes the first
of them only. -/
inductive Phase
  | closed
  | opened (row : UInt32)
  | broken (row : UInt32)
  deriving DecidableEq, Repr

def InPhase : Phase → List DRAMSubarray → Prop
  | .closed, as => ∀ a ∈ as, a.isWordOpen = false
  | .opened r, as => ∀ a ∈ as, a.isWordOpen = true ∧ a.openRow = r
  | .broken _, [] => True
  | .broken r, a :: as => a.isWordOpen = false ∧ ∀ b ∈ as, b.isWordOpen = true ∧ b.openRow = r

def Phase.fail : Phase → Phase
  | .closed => .closed
  | .opened r => .broken r
  | .broken r => .broken r

def Phase.next (rows : Nat) (p : Phase) : Command → Phase
  | .openRow r => if r.toNat < rows then .opened r else p.fail
  | .transferData _ _ _ => p

structure Consistent (n rows cols : Nat) (p : Phase) (b : DRAMBank) : Prop where
  length_eq : b.arrays.length = n
  pos : 0 < n
  wellFormed : ∀ a ∈ b.arrays, a.WellFormed rows cols
  phase : InPhase p b.arrays

def SameCells (rows cols : Nat) (b b' : DRAMBank) : Prop :=
  ∀ j r k, r < rows → k < cols → content b' j r k = content b j r k

section

variable {n rows cols : Nat} {p : Phase} {b : DRAMBank}

theorem openRowRound_true {row : UInt32} {i : Nat} {a a' d : DRAMSubarray} (hp : a.precharge = .ok a')
    (ha : a'.activate row = .ok (true, d)) : openRowRound row i (a, ()) = .ok () (d, ()) := by
  change EStateM.run (openRowRound row i) (a, ()) = _
  simp [openRowRound, hp, ha]

theorem openRowRound_false {row : UInt32} {i : Nat} {a a' d : DRAMSubarray} (hp : a.precharge = .ok a')
    (ha : a'.activate row = .ok (false, d)) :
    ∃ text, openRowRound row i (a, ()) = .error (.raised text) (d, ()) := by
  change ∃ text, EStateM.run (openRowRound row i) (a, ()) = _
  simp [openRowRound, hp, ha]

theorem writeRound_true {col : UInt32} {i : Nat} {a a' : DRAMSubarray} {data : List UInt8} {d : UInt8}
    (hd : data[i]? = some d) (hw : a.write col d = .ok (true, a')) :
    transferRound col true i (a, data) = .ok () (a', data) := by
  change EStateM.run (transferRound col true i) (a, data) = _
  simp [transferRound, element, hd, hw]

theorem writeRound_false {col : UInt32} {i : Nat} {a : DRAMSubarray} {data : List UInt8} {d : UInt8}
    (hd : data[i]? = some d) (hw : a.write col d = .ok (false, a)) :
    ∃ text, transferRound col true i (a, data) = .error (.raised text) (a, data) := by
  change ∃ text, EStateM.run (transferRound col true i) (a, data) = _
  simp [transferRound, element, hd, hw]

theorem readRound_some {col : UInt32} {i : Nat} {a : DRAMSubarray} {data : List UInt8} {d v : UInt8}
    (hd : data[i]? = some d) (hr : a.read col = .ok (some v)) :
    transferRound col false i (a, data) = .ok () (a, data.set i v) := by
  change EStateM.run (transferRound col false i) (a, data) = _
  simp [transferRound, element, hd, hr]

theorem readRound_none {col : UInt32} {i : Nat} {a : DRAMSubarray} {data : List UInt8} {d : UInt8}
    (hd : data[i]? = some d) (hr : a.read col = .ok none) :
    ∃ text, transferRound col false i (a, data) = .error (.raised text) (a, data) := by
  change ∃ text, EStateM.run (transferRound col false i) (a, data) = _
  simp [transferRound, element, hd, hr]

theorem readRound_keeps (col : UInt32) (i : Nat) (a : DRAMSubarray) (data : List UInt8) :
    (final (transferRound col false i (a, data))).1 = a := by
  change (final (EStateM.run (transferRound col false i) (a, data))).1 = a
  cases hd : (element data i : Checked String UInt8) with
  | error e => simp [transferRound, hd]
  | ok d =>
      cases hr : a.read col with
      | error e => simp [transferRound, hd, hr]
      | ok out => cases out <;> simp [transferRound, hd, hr]

theorem sameCells_of_rounds {bs : List DRAMSubarray} (hlen : bs.length = b.arrays.length)
    (h : ∀ (j : Nat) a d, b.arrays[j]? = some a → bs[j]? = some d → DRAMSubarray.SameContent rows cols a d) :
    SameCells rows cols b ⟨bs⟩ := by
  intro j r k hr hk
  unfold content
  cases ha : b.arrays[j]? with
  | none =>
      have hd : bs[j]? = none := by
        rw [List.getElem?_eq_none_iff] at ha ⊢
        omega
      simp [hd]
  | some a =>
      obtain ⟨hj, _⟩ := List.getElem?_eq_some_iff.mp ha
      obtain ⟨d, hd⟩ : ∃ d, bs[j]? = some d := ⟨bs[j], List.getElem?_eq_getElem (by omega)⟩
      simpa [hd] using (h j a d ha hd r k hr hk).symm

theorem head_exists (h : Consistent n rows cols p b) : ∃ a as, b.arrays = a :: as := by
  cases hb : b.arrays with
  | nil =>
      have := h.length_eq
      have := h.pos
      simp_all
  | cons a as => exact ⟨a, as, rfl⟩

theorem openRow_of_lt (h : Consistent n rows cols p b) {row : UInt32} (hr : row.toNat < rows) :
    ∃ b', openRow row b = .ok () b' ∧ Consistent n rows cols (.opened row) b' ∧
      SameCells rows cols b b' := by
  obtain ⟨bs, u, hs, _, hlen, hQ⟩ := sweep_returns (openRowRound row)
    (fun _ a => a.WellFormed rows cols) (fun _ _ => True)
    (fun _ a d => d.WellFormed rows cols ∧ d.isWordOpen = true ∧ d.openRow = row ∧
      DRAMSubarray.SameContent rows cols a d)
    (by
      intro i a s ha _
      obtain ⟨a', hp, hw, hc, hsame⟩ := DRAMSubarray.precharge_spec ha
      obtain ⟨d, hd, hw', ho, hrow, hsame'⟩ := DRAMSubarray.activate_spec hw hc hr
      exact ⟨d, (), openRowRound_true hp hd, ⟨hw', ho, hrow,
        fun r k hr hk => (hsame r k hr hk).trans (hsame' r k hr hk)⟩, trivial⟩)
    0 b.arrays () (fun k a ha => h.wellFormed a (List.mem_of_getElem? ha)) trivial
  have hmem : ∀ d ∈ bs, d.WellFormed rows cols ∧ d.isWordOpen = true ∧ d.openRow = row := by
    intro d hd
    obtain ⟨j, hj, hjd⟩ := List.getElem_of_mem hd
    obtain ⟨hw, ho, hrow, _⟩ := hQ j _ d (List.getElem?_eq_getElem (by omega))
      (by rw [List.getElem?_eq_getElem hj, hjd])
    exact ⟨hw, ho, hrow⟩
  refine ⟨⟨bs⟩, by simp [openRow, hs], ⟨by rw [hlen, h.length_eq], h.pos, fun d hd => (hmem d hd).1,
    fun d hd => (hmem d hd).2⟩, sameCells_of_rounds hlen ?_⟩
  intro j a d ha hd
  exact (hQ j a d ha hd).2.2.2

theorem openRow_of_ge (h : Consistent n rows cols p b) {row : UInt32} (hr : rows ≤ row.toNat) :
    ∃ b' text, openRow row b = .error (.raised text) b' ∧ Consistent n rows cols p.fail b' ∧
      SameCells rows cols b b' := by
  obtain ⟨a, as, hb⟩ := head_exists h
  have ha := h.wellFormed a (by simp [hb])
  obtain ⟨d, hp, hw, hc, hsame⟩ := DRAMSubarray.precharge_spec ha
  obtain ⟨text, ht⟩ := openRowRound_false (i := 0) hp (DRAMSubarray.activate_of_ge hw hc hr)
  have hs := sweep_head_error as ht
  refine ⟨⟨d :: as⟩, text, by simp [openRow, hb, hs], ⟨?_, h.pos, ?_, ?_⟩, ?_⟩
  · have hlen := h.length_eq
    rw [hb] at hlen
    simpa using hlen
  · intro x hx
    rcases List.mem_cons.mp hx with rfl | hx
    · exact hw
    · exact h.wellFormed x (by simp [hb, hx])
  · have hph := h.phase
    rw [hb] at hph
    cases p with
    | closed =>
        intro x hx
        rcases List.mem_cons.mp hx with rfl | hx
        · exact hc
        · exact hph x (by simp [hx])
    | opened r => exact ⟨hc, fun x hx => hph x (by simp [hx])⟩
    | broken r => exact ⟨hc, hph.2⟩
  · apply sameCells_of_rounds
    · simp [hb]
    · intro j x y hx hy
      rw [hb] at hx
      cases j with
      | zero =>
          obtain rfl : a = x := by simpa using hx
          obtain rfl : d = y := by simpa using hy
          exact hsame
      | succ j =>
          obtain rfl : x = y := Option.some.inj (hx.symm.trans (by simpa using hy))
          exact fun _ _ _ _ => rfl

theorem getElem?_of_lt (data : List UInt8) {i : Nat} (h : i < data.length) :
    ∃ d, data[i]? = some d := ⟨data[i], List.getElem?_eq_getElem h⟩

theorem write_refused (h : Consistent n rows cols p b) {col : UInt32} {data : List UInt8}
    (hdata : n ≤ data.length) (hno : (∀ r, p ≠ .opened r) ∨ cols ≤ col.toNat) :
    ∃ text, transferData col true (b, data) = .error (.raised text) (b, data) := by
  obtain ⟨a, as, hb⟩ := head_exists h
  obtain ⟨d, hd⟩ := getElem?_of_lt data (i := 0) (Nat.lt_of_lt_of_le h.pos hdata)
  have hw : a.write col d = .ok (false, a) := by
    rcases hno with hp | hc
    · apply DRAMSubarray.write_of_closed
      have hph := h.phase
      rw [hb] at hph
      cases p with
      | closed => exact hph a (by simp)
      | opened r => exact absurd rfl (hp r)
      | broken r => exact hph.1
    · exact DRAMSubarray.write_of_ge (h.wellFormed a (by simp [hb])) hc d
  obtain ⟨text, ht⟩ := writeRound_false hd hw
  have hs := sweep_head_error as ht
  refine ⟨text, ?_⟩
  rw [← hb] at hs
  simp [transferData, hs]

theorem write_accepted {row : UInt32} (h : Consistent n rows cols (.opened row) b) {col : UInt32}
    {data : List UInt8} (hdata : n ≤ data.length) (hc : col.toNat < cols) :
    ∃ b', transferData col true (b, data) = .ok () (b', data) ∧
      Consistent n rows cols (.opened row) b' ∧
      ∀ j r k, j < n → r < rows → k < cols → content b' j r k =
        if r = row.toNat ∧ k = col.toNat then data[j]? else content b j r k := by
  obtain ⟨bs, u, hs, rfl, hlen, hQ⟩ := sweep_returns (transferRound col true)
    (fun i a => a.WellFormed rows cols ∧ a.isWordOpen = true ∧ a.openRow = row ∧ i < data.length)
    (fun _ s => s = data)
    (fun i a d => d.WellFormed rows cols ∧ d.isWordOpen = true ∧ d.openRow = row ∧
      ∀ r k, r < rows → k < cols → d.content r k =
        if r = row.toNat ∧ k = col.toNat then data[i]? else a.content r k)
    (by
      rintro i a s ⟨ha, ho, hrow, hi⟩ rfl
      obtain ⟨v, hv⟩ := getElem?_of_lt s hi
      obtain ⟨d, hd, hw, ho', hrow', hcell⟩ := DRAMSubarray.write_spec ha ho hc v
      rw [hrow] at hcell hrow'
      exact ⟨d, s, writeRound_true hv hd, ⟨hw, ho', hrow', by rw [hv]; exact hcell⟩, rfl⟩)
    0 b.arrays data (by
      intro k a ha
      obtain ⟨ho, hrow⟩ := h.phase a (List.mem_of_getElem? ha)
      obtain ⟨hk, _⟩ := List.getElem?_eq_some_iff.mp ha
      rw [h.length_eq] at hk
      exact ⟨h.wellFormed a (List.mem_of_getElem? ha), ho, hrow, by omega⟩) rfl
  simp only [Nat.zero_add] at hQ
  have hget : ∀ j, j < n → ∃ a d, b.arrays[j]? = some a ∧ bs[j]? = some d := by
    intro j hj
    have ha : j < b.arrays.length := by rw [h.length_eq]; exact hj
    exact ⟨_, _, List.getElem?_eq_getElem ha, List.getElem?_eq_getElem (by rw [hlen]; exact ha)⟩
  have hmem : ∀ d ∈ bs, d.WellFormed rows cols ∧ d.isWordOpen = true ∧ d.openRow = row := by
    intro d hd
    obtain ⟨j, hj, rfl⟩ := List.getElem_of_mem hd
    obtain ⟨hw, ho, hrow, _⟩ := hQ j _ bs[j] (List.getElem?_eq_getElem (by omega))
      (List.getElem?_eq_getElem hj)
    exact ⟨hw, ho, hrow⟩
  refine ⟨⟨bs⟩, by simp [transferData, hs], ⟨by rw [hlen, h.length_eq], h.pos,
    fun d hd => (hmem d hd).1, fun d hd => (hmem d hd).2⟩, ?_⟩
  intro j r k hj hr hk
  obtain ⟨a, d, ha, hd⟩ := hget j hj
  simpa [content, ha, hd] using (hQ j a d ha hd).2.2.2 r k hr hk

theorem read_keeps (b : DRAMBank) (col : UInt32) (data : List UInt8) :
    (final (transferData col false (b, data))).1 = b := by
  have hs := sweep_keeps (transferRound col false) (readRound_keeps col) 0 b.arrays data
  unfold transferData
  split
  · next t ht =>
      have hb : t.1 = b.arrays := by simpa [ht] using hs
      simp [hb]
  · next e t ht =>
      have hb : t.1 = b.arrays := by simpa [ht] using hs
      simp [hb]

theorem read_not_faults (h : Consistent n rows cols p b) (col : UInt32) {data : List UInt8}
    (hdata : n ≤ data.length) : ¬ Faults (transferData col false (b, data)) := by
  have hs := sweep_not_faults (transferRound col false)
    (fun i a => a.WellFormed rows cols ∧ i < data.length) (fun s => s.length = data.length)
    (by
      rintro i a s ⟨ha, hi⟩ hlen
      obtain ⟨d, hd⟩ := getElem?_of_lt s (hlen ▸ hi)
      cases ho : a.isWordOpen with
      | true =>
          obtain ⟨text, ht⟩ := readRound_none hd (DRAMSubarray.read_of_open ho col)
          rw [ht]
          exact ⟨id, hlen⟩
      | false =>
          by_cases hc : col.toNat < cols
          · obtain ⟨v, hv⟩ := DRAMSubarray.read_of_closed ha ho hc
            rw [readRound_some hd hv]
            exact ⟨id, by simpa using hlen⟩
          · obtain ⟨text, ht⟩ := readRound_none hd (DRAMSubarray.read_of_ge (c := col) ha (by omega))
            rw [ht]
            exact ⟨id, hlen⟩)
    0 b.arrays data (by
      intro k a ha
      obtain ⟨hk, _⟩ := List.getElem?_eq_some_iff.mp ha
      rw [h.length_eq] at hk
      exact ⟨h.wellFormed a (List.mem_of_getElem? ha), by omega⟩) rfl
  unfold transferData
  split
  · exact id
  · next e t ht =>
      rw [ht] at hs
      cases e with
      | fault f => simp at hs
      | raised e => simp

theorem read_refused (h : Consistent n rows cols p b) {col : UInt32} {data : List UInt8}
    (hdata : n ≤ data.length) (hno : (∃ r, p = .opened r) ∨ cols ≤ col.toNat) :
    ¬ Returns (transferData col false (b, data)) := by
  obtain ⟨a, as, hb⟩ := head_exists h
  obtain ⟨d, hd⟩ := getElem?_of_lt data (i := 0) (Nat.lt_of_lt_of_le h.pos hdata)
  have hr : a.read col = .ok none := by
    rcases hno with ⟨r, rfl⟩ | hc
    · exact DRAMSubarray.read_of_open (h.phase a (by simp [hb])).1 col
    · exact DRAMSubarray.read_of_ge (h.wellFormed a (by simp [hb])) hc
  obtain ⟨text, ht⟩ := readRound_none hd hr
  have hs := sweep_head_error as ht
  rw [← hb] at hs
  simp [transferData, hs]

theorem read_accepted (h : Consistent n rows cols .closed b) {col : UInt32} {data : List UInt8}
    (hdata : n ≤ data.length) (hc : col.toNat < cols) :
    Returns (transferData col false (b, data)) := by
  obtain ⟨bs, u, hs, _⟩ := sweep_returns (transferRound col false)
    (fun i a => a.WellFormed rows cols ∧ a.isWordOpen = false ∧ i < data.length)
    (fun _ s => s.length = data.length) (fun _ _ _ => True)
    (by
      rintro i a s ⟨ha, ho, hi⟩ hlen
      obtain ⟨d, hd⟩ := getElem?_of_lt s (hlen ▸ hi)
      obtain ⟨v, hv⟩ := DRAMSubarray.read_of_closed ha ho hc
      exact ⟨a, s.set i v, readRound_some hd hv, trivial, by simpa using hlen⟩)
    0 b.arrays data (by
      intro k a ha
      obtain ⟨hk, _⟩ := List.getElem?_eq_some_iff.mp ha
      rw [h.length_eq] at hk
      exact ⟨h.wellFormed a (List.mem_of_getElem? ha), h.phase a (List.mem_of_getElem? ha), by omega⟩)
    rfl
  simp [transferData, hs]

theorem read_broken {row : UInt32} (h : Consistent n rows cols (.broken row) b) (hn : 2 ≤ n)
    {col : UInt32} {data : List UInt8} (hdata : n ≤ data.length) :
    ¬ Returns (transferData col false (b, data)) := by
  by_cases hc : cols ≤ col.toNat
  · exact read_refused h hdata (Or.inr hc)
  · obtain ⟨a, as, hb⟩ := head_exists h
    have hlen := h.length_eq
    have hph := h.phase
    rw [hb] at hlen hph
    cases as with
    | nil => simp at hlen; omega
    | cons a' as =>
        obtain ⟨d, hd⟩ := getElem?_of_lt data (i := 0) (Nat.lt_of_lt_of_le h.pos hdata)
        obtain ⟨v, hv⟩ := DRAMSubarray.read_of_closed (h.wellFormed a (by simp [hb])) hph.1
          (Nat.not_le.mp hc)
        obtain ⟨d', hd'⟩ := getElem?_of_lt (data.set 0 v) (i := 1) (by simp; omega)
        obtain ⟨text, ht⟩ := readRound_none hd'
          (DRAMSubarray.read_of_open (hph.2 a' (by simp)).1 col)
        have hs := sweep_head_error as ht
        simp [transferData, hb, sweep, readRound_some hd hv, ht]

end

/-- What a call may do to the cells: a write that returns stores one byte in
each subarray, in the row opened last, and anything else stores nothing. -/
def Effect (n rows cols : Nat) (l : Ledger) : Command → Prop
  | .transferData col true data =>
      (Returns (perform l.bank (.transferData col true data)) →
        ∃ row, l.row = some row ∧ row.toNat < rows ∧ col.toNat < cols ∧
          ∀ j r k, j < n → r < rows → k < cols →
            content (final (perform l.bank (.transferData col true data))).1 j r k =
              if r = row.toNat ∧ k = col.toNat then data[j]? else content l.bank j r k) ∧
      (¬ Returns (perform l.bank (.transferData col true data)) →
        SameCells rows cols l.bank (final (perform l.bank (.transferData col true data))).1)
  | c => SameCells rows cols l.bank (final (perform l.bank c)).1

def Phase.row : Phase → Option UInt32
  | .opened r => some r
  | _ => none

section

variable {n rows cols : Nat} {p : Phase} {l : Ledger}

/-- One call: it never leaves the model's vectors, has its effect and no
other, and moves the phase. -/
theorem command_step (h : Consistent n rows cols p l.bank) (hp : l.row = p.row)
    (hr : ∀ r, p = .opened r → r.toNat < rows) {c : Command} (hc : Supplied n c) :
    ¬ Faults (perform l.bank c) ∧ Effect n rows cols l c ∧
      Consistent n rows cols (p.next rows c) (record l c).bank ∧
      (record l c).row = (p.next rows c).row := by
  cases c with
  | openRow row =>
      by_cases hlt : row.toNat < rows
      · obtain ⟨b', ho, hb', hsame⟩ := openRow_of_lt h hlt
        have hdo : perform l.bank (.openRow row) = .ok () (b', []) := by simp [perform, ho]
        refine ⟨by simp [hdo], by simpa [Effect, hdo] using hsame, ?_, ?_⟩
        · simpa [record, hdo, Phase.next, hlt] using hb'
        · simp [record, rowAfter, hdo, Phase.next, hlt, Phase.row]
      · obtain ⟨b', text, ho, hb', hsame⟩ := openRow_of_ge h (Nat.not_lt.mp hlt)
        have hdo : perform l.bank (.openRow row) = .error (.raised text) (b', []) := by
          simp [perform, ho]
        refine ⟨by simp [hdo], by simpa [Effect, hdo] using hsame, ?_, ?_⟩
        · simpa [record, hdo, Phase.next, hlt] using hb'
        · cases p <;> simp [record, rowAfter, hdo, Phase.next, hlt, Phase.row, Phase.fail]
  | transferData col isWrite data =>
      cases isWrite with
      | false =>
          have hkeep := read_keeps l.bank col data
          refine ⟨read_not_faults h col hc, ?_, ?_, hp⟩
          · intro j r k _ _
            simp [perform, hkeep]
          · simpa [record, perform, hkeep, Phase.next] using h
      | true =>
          by_cases hyes : ∃ r, p = .opened r ∧ col.toNat < cols
          · obtain ⟨row, rfl, hlt⟩ := hyes
            obtain ⟨b', hw, hb', hcell⟩ := write_accepted h hc hlt
            have hdo : perform l.bank (.transferData col true data) = .ok () (b', data) := hw
            refine ⟨by simp [hdo], ⟨fun _ => ⟨row, hp, hr row rfl, hlt, ?_⟩, ?_⟩, ?_, hp⟩
            · simpa [hdo] using hcell
            · intro hno
              simp [hdo] at hno
            · simpa [record, hdo, Phase.next] using hb'
          · have hno : (∀ r, p ≠ .opened r) ∨ cols ≤ col.toNat := by
              by_cases hlt : col.toNat < cols
              · exact Or.inl (fun r hpr => hyes ⟨r, hpr, hlt⟩)
              · exact Or.inr (Nat.not_lt.mp hlt)
            obtain ⟨text, hw⟩ := write_refused h hc hno
            have hdo : perform l.bank (.transferData col true data) =
                .error (.raised text) (l.bank, data) := hw
            refine ⟨by simp [hdo], ⟨?_, ?_⟩, ?_, hp⟩
            · intro hyes
              simp [hdo] at hyes
            · intro _ j r k _ _
              simp [hdo]
            · simpa [record, hdo, Phase.next] using h

theorem phase_row_lt {rows : Nat} (hr : ∀ r, p = .opened r → r.toNat < rows) (c : Command) (r : UInt32)
    (h : p.next rows c = .opened r) : r.toNat < rows := by
  cases c with
  | openRow row =>
      by_cases hlt : row.toNat < rows
      · obtain rfl : row = r := by simpa [Phase.next, hlt] using h
        exact hlt
      · cases p <;> simp [Phase.next, hlt, Phase.fail] at h
  | transferData col isWrite data => exact hr r h

end

def phase (rows : Nat) (cs : List Command) : Phase := cs.foldl (Phase.next rows) .closed

section

variable {n rows cols : Nat} {b : DRAMBank}

theorem observe_snoc (b : DRAMBank) (cs : List Command) (c : Command) :
    observe b (cs ++ [c]) = record (observe b cs) c := by
  simp [observe]

theorem phase_snoc (rows : Nat) (cs : List Command) (c : Command) :
    phase rows (cs ++ [c]) = (phase rows cs).next rows c := by
  simp [phase]

theorem observe_consistent (hb : Consistent n rows cols .closed b) (cs : List Command)
    (hcs : ∀ c ∈ cs, Supplied n c) :
    Consistent n rows cols (phase rows cs) (observe b cs).bank ∧
      (observe b cs).row = (phase rows cs).row ∧
      ∀ r, phase rows cs = .opened r → r.toNat < rows := by
  induction cs using List.reverseRecOn with
  | nil => exact ⟨hb, rfl, by simp [phase]⟩
  | append_singleton cs c ih =>
      obtain ⟨hi, hrow, hlt⟩ := ih (fun d hd => hcs d (by simp [hd]))
      obtain ⟨_, _, hn, hnrow⟩ := command_step hi hrow hlt (hcs c (by simp))
      rw [observe_snoc, phase_snoc]
      exact ⟨hn, hnrow, phase_row_lt hlt c⟩

end

theorem new_consistent {c : DRAMConfig} (hv : c.validate = .ok ())
    (hfit : 2 ^ (c.rowBits.toNat + c.colBits.toNat) < 2 ^ 32) {b : DRAMBank}
    (hb : DRAMBank.new c = .ok b) :
    Consistent c.chipWidthBits.toNat (2 ^ c.rowBits.toNat) (2 ^ c.colBits.toNat) .closed b := by
  have hvalid := DRAMConfig.Valid.of_validate hv
  obtain ⟨b', hb', hlen, hw⟩ := Geometry.bank_new_wellFormed hvalid hfit
  obtain rfl := Except.ok.inj (hb.symm.trans hb')
  refine ⟨hlen, ?_, fun a ha => (hw a ha).1, fun a ha => (hw a ha).2.1⟩
  have hne := hvalid.chip_ne
  rw [ne_eq, ← UInt8.toNat_inj, UInt8.toNat_zero] at hne
  omega

/-- The bank is a flat array behind its calls: whatever came before, a call
stores what it may store and never indexes outside its vectors. -/
theorem bank_refines_array (c : DRAMConfig) (hv : c.validate = .ok ())
    (hfit : 2 ^ (c.rowBits.toNat + c.colBits.toNat) < 2 ^ 32) (b : DRAMBank)
    (hb : DRAMBank.new c = .ok b) (cs : List Command)
    (hcs : ∀ k ∈ cs, Supplied c.chipWidthBits.toNat k) (k : Command)
    (hk : Supplied c.chipWidthBits.toNat k) :
    ¬ Faults (perform (observe b cs).bank k) ∧
      Effect c.chipWidthBits.toNat (2 ^ c.rowBits.toNat) (2 ^ c.colBits.toNat) (observe b cs) k := by
  obtain ⟨hi, hrow, hlt⟩ := observe_consistent (new_consistent hv hfit hb) cs hcs
  obtain ⟨hf, he, _⟩ := command_step hi hrow hlt hk
  exact ⟨hf, he⟩

def square : DRAMConfig := Geometry.stackedConfig 1 1 1

def squareBank : DRAMBank := ⟨List.replicate 8 (DRAMSubarray.new 2 2)⟩

theorem square_new : DRAMBank.new square = .ok squareBank := by
  rw [Geometry.bank_new_eq (DRAMConfig.Valid.of_validate (by decide))]
  rfl

theorem square_supplied (c : Command) (hc : c = .openRow 1 ∨ c = .openRow 2 ∨
    c = .transferData 0 true (List.replicate 8 7)) : Supplied square.chipWidthBits.toNat c := by
  rcases hc with rfl | rfl | rfl
  · trivial
  · trivial
  · exact Nat.le_refl 8

theorem bank_refines_array_square :
    ¬ Faults (perform (observe squareBank [.openRow 1]).bank
        (.transferData 0 true (List.replicate 8 7))) ∧
      Effect square.chipWidthBits.toNat (2 ^ square.rowBits.toNat) (2 ^ square.colBits.toNat)
        (observe squareBank [.openRow 1]) (.transferData 0 true (List.replicate 8 7)) :=
  bank_refines_array square (by decide) (by decide) squareBank square_new [.openRow 1]
    (by simpa using square_supplied (.openRow 1) (by simp)) _ (square_supplied _ (by simp))

/-- The law of a memory: an open row is read back as it was last written,
and without one a read is refused. -/
structure ReadLaw (n cols : Nat) (l : Ledger) (col : UInt32) (data : List UInt8) : Prop where
  reads : ∀ row, l.row = some row → col.toNat < cols →
    ∃ b out, perform l.bank (.transferData col false data) = .ok () (b, out) ∧
      ∀ j, j < n → out[j]? = some (l.cells j row.toNat col.toNat)
  refuses : l.row = none → ¬ Returns (perform l.bank (.transferData col false data))

def openings (cs : List Command) : List UInt32 :=
  cs.filterMap fun
    | .openRow row => some row
    | .transferData _ _ _ => none

/-- Some opening named a row of the bank, but the last one did not. -/
def LeftBroken (rows : Nat) (cs : List Command) : Prop :=
  (∃ r ∈ openings cs, r.toNat < rows) ∧ ∃ r, (openings cs).getLast? = some r ∧ rows ≤ r.toNat

theorem phase_cases (rows : Nat) (cs : List Command) :
    match phase rows cs with
    | .closed => ∀ r ∈ openings cs, rows ≤ r.toNat
    | .opened r => (openings cs).getLast? = some r ∧ r.toNat < rows
    | .broken _ => LeftBroken rows cs := by
  induction cs using List.reverseRecOn with
  | nil => simp [phase, openings]
  | append_singleton cs c ih =>
      rw [phase_snoc]
      cases c with
      | transferData col isWrite data =>
          have ho : openings (cs ++ [.transferData col isWrite data]) = openings cs := by
            simp [openings]
          simpa only [Phase.next, ho, LeftBroken] using ih
      | openRow row =>
          have ho : openings (cs ++ [.openRow row]) = openings cs ++ [row] := by
            simp [openings]
          by_cases hlt : row.toNat < rows
          · simp [Phase.next, hlt, ho]
          · have hge := Nat.not_lt.mp hlt
            cases hp : phase rows cs with
            | closed =>
                rw [hp] at ih
                simp only [Phase.next, hlt, if_false, Phase.fail, ho]
                intro r hr
                rcases List.mem_append.mp hr with hr | hr
                · exact ih r hr
                · obtain rfl := List.mem_singleton.mp hr
                  exact hge
            | opened r =>
                rw [hp] at ih
                simp only [Phase.next, hlt, if_false, Phase.fail, LeftBroken, ho]
                exact ⟨⟨r, List.mem_append_left _ (List.mem_of_getLast? ih.1), ih.2⟩, row, by simp, hge⟩
            | broken r =>
                rw [hp] at ih
                simp only [Phase.next, hlt, if_false, Phase.fail, LeftBroken, ho]
                obtain ⟨⟨q, hq, hq'⟩, _⟩ := ih
                exact ⟨⟨q, List.mem_append_left _ hq, hq'⟩, row, by simp, hge⟩

theorem not_leftBroken_of_closed {rows : Nat} {cs : List Command}
    (h : ∀ r ∈ openings cs, rows ≤ r.toNat) : ¬ LeftBroken rows cs := by
  rintro ⟨⟨r, hr, hlt⟩, _⟩
  have := h r hr
  omega

theorem not_leftBroken_of_opened {rows : Nat} {cs : List Command} {r : UInt32}
    (h : (openings cs).getLast? = some r) (hlt : r.toNat < rows) : ¬ LeftBroken rows cs := by
  rintro ⟨_, q, hq, hge⟩
  obtain rfl := Option.some.inj (h.symm.trans hq)
  omega

/-- The guard of a read is the wrong way round, so the law holds only where it
asks for nothing or where a failed opening has left other subarrays open. -/
theorem readLaw_iff (c : DRAMConfig) (hv : c.validate = .ok ())
    (hfit : 2 ^ (c.rowBits.toNat + c.colBits.toNat) < 2 ^ 32) (b : DRAMBank)
    (hb : DRAMBank.new c = .ok b) (cs : List Command)
    (hcs : ∀ k ∈ cs, Supplied c.chipWidthBits.toNat k) (col : UInt32) (data : List UInt8)
    (hdata : data.length = c.chipWidthBits.toNat) :
    ReadLaw c.chipWidthBits.toNat (2 ^ c.colBits.toNat) (observe b cs) col data ↔
      2 ^ c.colBits.toNat ≤ col.toNat ∨
        (2 ≤ c.chipWidthBits.toNat ∧ LeftBroken (2 ^ c.rowBits.toNat) cs) := by
  obtain ⟨hi, hrow, _⟩ := observe_consistent (new_consistent hv hfit hb) cs hcs
  have hlen : c.chipWidthBits.toNat ≤ data.length := hdata.ge
  have hcases := phase_cases (2 ^ c.rowBits.toNat) cs
  cases hp : phase (2 ^ c.rowBits.toNat) cs with
  | closed =>
      rw [hp] at hi hrow hcases
      constructor
      · intro h
        by_contra hno
        have hlt : col.toNat < 2 ^ c.colBits.toNat := by omega
        exact h.refuses hrow (read_accepted hi hlen hlt)
      · rintro (hge | ⟨_, hbroken⟩)
        · exact ⟨by simp [hrow, Phase.row], fun _ => read_refused hi hlen (Or.inr hge)⟩
        · exact absurd hbroken (not_leftBroken_of_closed hcases)
  | opened r =>
      rw [hp] at hi hrow hcases
      constructor
      · intro h
        by_contra hno
        obtain ⟨b', out, ho, _⟩ := h.reads r hrow (by omega)
        have hret : Returns (perform (observe b cs).bank (.transferData col false data)) := by
          rw [ho]
          trivial
        exact read_refused hi hlen (Or.inl ⟨r, rfl⟩) hret
      · rintro (hge | ⟨_, hbroken⟩)
        · exact ⟨fun _ _ hlt => absurd hge (by omega), by simp [hrow, Phase.row]⟩
        · exact absurd hbroken (not_leftBroken_of_opened hcases.1 hcases.2)
  | broken r =>
      rw [hp] at hi hrow hcases
      constructor
      · intro h
        by_contra hno
        have hlone : Consistent c.chipWidthBits.toNat (2 ^ c.rowBits.toNat) (2 ^ c.colBits.toNat)
            .closed (observe b cs).bank := by
          obtain ⟨a, as, ha⟩ := head_exists hi
          have hone := hi.length_eq
          have hph := hi.phase
          rw [ha] at hone hph
          obtain rfl : as = [] := by
            rw [← List.length_eq_zero_iff]
            by_contra hne
            exact hno (Or.inr ⟨by rw [← hone, List.length_cons]; omega, hcases⟩)
          refine ⟨hi.length_eq, hi.pos, hi.wellFormed, ?_⟩
          rw [ha]
          intro x hx
          obtain rfl := List.mem_singleton.mp hx
          exact hph.1
        exact h.refuses hrow (read_accepted hlone hlen (by omega))
      · intro h
        refine ⟨by simp [hrow, Phase.row], fun _ => ?_⟩
        rcases h with hge | ⟨hn, _⟩
        · exact read_refused hi hlen (Or.inr hge)
        · exact read_broken hi hn hlen

theorem readLaw_iff_square :
    ReadLaw square.chipWidthBits.toNat (2 ^ square.colBits.toNat)
        (observe squareBank [.openRow 1, .openRow 2]) 0 (List.replicate 8 0) ↔
      2 ^ square.colBits.toNat ≤ (0 : UInt32).toNat ∨
        (2 ≤ square.chipWidthBits.toNat ∧
          LeftBroken (2 ^ square.rowBits.toNat) [.openRow 1, .openRow 2]) :=
  readLaw_iff square (by decide) (by decide) squareBank square_new [.openRow 1, .openRow 2]
    (by simp [Supplied]) 0 (List.replicate 8 0) (by decide)

theorem opened_row_unreadable :
    (observe squareBank [.openRow 1]).row = some 1 ∧
      ¬ ReadLaw 8 2 (observe squareBank [.openRow 1]) 0 (List.replicate 8 0) := by
  obtain ⟨hi, hrow, _⟩ := observe_consistent (new_consistent (by decide) (by decide) square_new)
    [.openRow 1] (by simp [Supplied])
  have hphase : phase (2 ^ square.rowBits.toNat) [.openRow 1] = .opened 1 := by decide
  rw [hphase] at hi hrow
  refine ⟨hrow, fun h => ?_⟩
  obtain ⟨b, out, ho, _⟩ := h.reads 1 hrow (by decide)
  have hno : ¬ Returns (perform (observe squareBank [.openRow 1]).bank
      (.transferData 0 false (List.replicate 8 0))) := by
    rw [perform_transferData]
    exact read_refused hi (by decide) (Or.inl ⟨1, rfl⟩)
  rw [ho] at hno
  exact hno trivial

end MemSim.BankRefinement
