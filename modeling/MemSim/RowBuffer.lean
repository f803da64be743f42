import MemSim.BankGuarantee
import MemSim.Simulation

namespace MemSim.RowBuffer

open Machine Sweep DRAMBank BankRefinement Simulation

/-- A bank seen from its calls: which row is open, and one value for each
cell, wherever it is kept. -/
structure Grid where
  phase : BankRefinement.Phase
  cells : Nat → Nat → Nat → UInt8

def activateText (i : Nat) (row : UInt32) : String :=
  "Failed to activate DRAM subarray " ++ toString (i + 1) ++ " at row " ++ toString row

def writeText (i : Nat) (col : UInt32) : String :=
  "Failed to write to DRAM subarray " ++ toString (i + 1) ++ " at column " ++ toString col

def readText (i : Nat) (col : UInt32) : String :=
  "Failed to read from DRAM subarray " ++ toString (i + 1) ++ " at column " ++ toString col

namespace Grid

def opening (rows : Nat) (m : Grid) (row : UInt32) : EStateM.Result (Stop String) (Grid × List UInt8) Unit :=
  if row.toNat < rows then .ok () ({ m with phase := .opened row }, [])
  else .error (.raised (activateText 0 row)) ({ m with phase := m.phase.fail }, [])

def writing (cols : Nat) (m : Grid) (col : UInt32) (data : List UInt8) :
    EStateM.Result (Stop String) (Grid × List UInt8) Unit :=
  match m.phase with
  | .opened row =>
      if col.toNat < cols then .ok () ({ m with cells := store m.cells row col data }, data)
      else .error (.raised (writeText 0 col)) (m, data)
  | _ => .error (.raised (writeText 0 col)) (m, data)

/-- A read goes through only where the row is closed: before the first opening
it finds zeros, and after a failed one the first subarray gives the row that
was open, before the second, which is still open, refuses. -/
def reading (n cols : Nat) (m : Grid) (col : UInt32) (data : List UInt8) :
    EStateM.Result (Stop String) (Grid × List UInt8) Unit :=
  if col.toNat < cols then
    match m.phase with
    | .closed => .ok () (m, List.replicate n 0 ++ data.drop n)
    | .opened _ => .error (.raised (readText 0 col)) (m, data)
    | .broken row =>
        if n = 1 then .ok () (m, data.set 0 (m.cells 0 row.toNat col.toNat))
        else .error (.raised (readText 1 col)) (m, data.set 0 (m.cells 0 row.toNat col.toNat))
  else .error (.raised (readText 0 col)) (m, data)

def perform (n rows cols : Nat) (m : Grid) : Command → EStateM.Result (Stop String) (Grid × List UInt8) Unit
  | .openRow row => m.opening rows row
  | .transferData col true data => m.writing cols col data
  | .transferData col false data => m.reading n cols col data

end Grid

def Buffers (rows cols : Nat) (m : Grid) (b : DRAMBank) : Prop :=
  match m.phase with
  | .closed => ∀ a ∈ b.arrays, a.rowBuffer = List.replicate cols 0
  | .opened row => row.toNat < rows
  | .broken row => row.toNat < rows ∧ ∀ a as, b.arrays = a :: as → ∀ k, k < cols →
      a.rowBuffer[k]? = some (m.cells 0 row.toNat k)

structure Holds (n rows cols : Nat) (b : DRAMBank) (m : Grid) : Prop where
  consistent : Consistent n rows cols m.phase b
  cells : ∀ j r k, j < n → r < rows → k < cols → content b j r k = some (m.cells j r k)
  buffers : Buffers rows cols m b

def Alike (n rows cols : Nat) (s : DRAMBank × List UInt8) (t : Grid × List UInt8) : Prop :=
  Holds n rows cols s.1 t.1 ∧ s.2 = t.2

section

variable {n rows cols : Nat} {b : DRAMBank} {m : Grid}

theorem activate_refused {row : UInt32} {i : Nat} {a a' d : DRAMSubarray} (hp : a.precharge = .ok a')
    (ha : a'.activate row = .ok (false, d)) :
    openRowRound row i (a, ()) = .error (.raised (activateText i row)) (d, ()) := by
  have htext : activateText i row = "Failed to activate DRAM subarray " ++ toString (i + 1) ++
      " at row " ++ toString row := rfl
  generalize activateText i row = text at htext
  change EStateM.run (openRowRound row i) (a, ()) = _
  unfold openRowRound
  rw [← htext]
  simp [hp, ha]

theorem write_round_refused {col : UInt32} {i : Nat} {a a' : DRAMSubarray} {data : List UInt8} {d : UInt8}
    (hd : data[i]? = some d) (hw : a.write col d = .ok (false, a')) :
    transferRound col true i (a, data) = .error (.raised (writeText i col)) (a', data) := by
  have htext : writeText i col = "Failed to write to DRAM subarray " ++ toString (i + 1) ++
      " at column " ++ toString col := rfl
  generalize writeText i col = text at htext
  change EStateM.run (transferRound col true i) (a, data) = _
  unfold transferRound
  rw [← htext]
  simp [element, hd, hw]

theorem read_round_refused {col : UInt32} {i : Nat} {a : DRAMSubarray} {data : List UInt8} {d : UInt8}
    (hd : data[i]? = some d) (hr : a.read col = .ok none) :
    transferRound col false i (a, data) = .error (.raised (readText i col)) (a, data) := by
  have htext : readText i col = "Failed to read from DRAM subarray " ++ toString (i + 1) ++
      " at column " ++ toString col := rfl
  generalize readText i col = text at htext
  change EStateM.run (transferRound col false i) (a, data) = _
  unfold transferRound
  rw [← htext]
  simp [element, hd, hr]

theorem precharge_buffer {a d : DRAMSubarray} (h : a.precharge = .ok d) : d.rowBuffer = a.rowBuffer := by
  cases ho : a.isWordOpen with
  | false =>
      rw [DRAMSubarray.precharge_of_closed ho] at h
      rw [← Except.ok.inj h]
  | true =>
      rw [DRAMSubarray.precharge, if_pos ho] at h
      obtain ⟨w, _, h⟩ := bind_eq_ok.mp h
      obtain ⟨storage, _, h⟩ := bind_eq_ok.mp h
      rw [← Except.ok.inj h]

theorem read_of_buffer {a : DRAMSubarray} {col : UInt32} {v : UInt8} (ho : a.isWordOpen = false)
    (hc : col.toNat < a.cols.toNat) (hv : a.rowBuffer[col.toNat]? = some v) : a.read col = .ok (some v) := by
  have hlt : ¬ col ≥ a.cols := by
    rw [ge_iff_le, UInt32.le_iff_toNat_le]
    omega
  rw [DRAMSubarray.read, if_neg (by simp [ho]), if_neg hlt, element_eq_ok.mpr hv]
  rfl

theorem buffers_failed {a d : DRAMSubarray} {as : List DRAMSubarray} (h : Holds n rows cols b m)
    (hb : b.arrays = a :: as) (hp : a.precharge = .ok d) :
    Buffers rows cols { m with phase := m.phase.fail } ⟨d :: as⟩ := by
  have hbuffer := precharge_buffer hp
  have hbuffers := h.buffers
  have hcells := h.cells 0
  have hphase := h.consistent.phase
  obtain ⟨p, cells⟩ := m
  rw [hb] at hphase
  cases p with
  | closed =>
      intro x hx
      rcases List.mem_cons.mp hx with rfl | hx
      · rw [hbuffer]
        exact hbuffers a (by simp [hb])
      · exact hbuffers x (by simp [hb, hx])
  | opened row =>
      obtain ⟨ho, hrow⟩ := hphase a (by simp)
      refine ⟨hbuffers, fun x xs hx k hk => ?_⟩
      obtain ⟨rfl, _⟩ := List.cons.inj hx
      have hcell := hcells row.toNat k h.consistent.pos hbuffers hk
      simp only [content, hb, List.getElem?_cons_zero, Option.bind_some, DRAMSubarray.content, ho, hrow,
        and_self, if_true] at hcell
      rw [hbuffer, hcell]
  | broken row =>
      refine ⟨hbuffers.1, fun x xs hx k hk => ?_⟩
      obtain ⟨rfl, _⟩ := List.cons.inj hx
      rw [hbuffer]
      exact hbuffers.2 a as hb k hk

theorem opening_matches (h : Holds n rows cols b m) (row : UInt32) :
    Matches (Alike n rows cols) (BankRefinement.perform b (.openRow row)) (m.opening rows row) := by
  by_cases hlt : row.toNat < rows
  · obtain ⟨b', ho, hb', hsame⟩ := openRow_of_lt h.consistent hlt
    have hdo : BankRefinement.perform b (.openRow row) = .ok () (b', []) := by
      simp [BankRefinement.perform, ho]
    rw [hdo, Grid.opening, if_pos hlt]
    refine ⟨rfl, ⟨hb', ?_, hlt⟩, rfl⟩
    intro j r k hj hr hk
    rw [hsame j r k hr hk]
    exact h.cells j r k hj hr hk
  · have hge := Nat.not_lt.mp hlt
    obtain ⟨b', text, ho, hb', hsame⟩ := openRow_of_ge h.consistent hge
    obtain ⟨a, as, hb⟩ := head_exists h.consistent
    have ha := h.consistent.wellFormed a (by simp [hb])
    obtain ⟨d, hp, hw, hc, _⟩ := DRAMSubarray.precharge_spec ha
    have hdo := BankGuarantee.openRow_head hb
      (activate_refused hp (DRAMSubarray.activate_of_ge hw hc hge))
    have hb'' : b' = ⟨d :: as⟩ := by
      have hother : BankRefinement.perform b (.openRow row) = .error (.raised text) (b', []) := by
        simp [BankRefinement.perform, ho]
      rw [hdo] at hother
      injection hother with _ hstate
      exact (congrArg Prod.fst hstate).symm
    subst hb''
    rw [hdo, Grid.opening, if_neg hlt]
    refine ⟨rfl, ⟨hb', ?_, ?_⟩, rfl⟩
    · intro j r k hj hr hk
      rw [hsame j r k hr hk]
      exact h.cells j r k hj hr hk
    · exact buffers_failed h hb hp

theorem getElem?_supplied {data : List UInt8} (h : Holds n rows cols b m) (hdata : n ≤ data.length) :
    ∃ d, data[0]? = some d := getElem?_of_lt data (Nat.lt_of_lt_of_le h.consistent.pos hdata)

theorem writing_refused (h : Holds n rows cols b m) {col : UInt32} {data : List UInt8} (hdata : n ≤ data.length)
    (hno : (∀ r, m.phase ≠ .opened r) ∨ cols ≤ col.toNat) :
    transferData col true (b, data) = .error (.raised (writeText 0 col)) (b, data) := by
  obtain ⟨a, as, hb⟩ := head_exists h.consistent
  obtain ⟨d, hd⟩ := getElem?_supplied h hdata
  have hphase := h.consistent.phase
  rw [hb] at hphase
  have hw : a.write col d = .ok (false, a) := by
    rcases hno with hp | hc
    · apply DRAMSubarray.write_of_closed
      cases hm : m.phase with
      | closed =>
          rw [hm] at hphase
          exact hphase a (by simp)
      | opened r => exact absurd hm (hp r)
      | broken r =>
          rw [hm] at hphase
          exact hphase.1
    · exact DRAMSubarray.write_of_ge (h.consistent.wellFormed a (by simp [hb])) hc d
  exact BankGuarantee.transfer_head hb (write_round_refused hd hw)

theorem writing_matches (h : Holds n rows cols b m) (col : UInt32) {data : List UInt8} (hdata : n ≤ data.length) :
    Matches (Alike n rows cols) (transferData col true (b, data)) (m.writing cols col data) := by
  have hrefused := fun hno : (∀ r, m.phase ≠ .opened r) ∨ cols ≤ col.toNat => writing_refused h hdata hno
  obtain ⟨p, cells⟩ := m
  cases p with
  | opened row =>
      by_cases hc : col.toNat < cols
      · obtain ⟨b', hw, hb', hcell⟩ := write_accepted h.consistent hdata hc
        rw [hw, Grid.writing]
        dsimp only
        rw [if_pos hc]
        refine ⟨rfl, ⟨hb', ?_, h.buffers⟩, rfl⟩
        intro j r k hj hr hk
        rw [hcell j r k hj hr hk]
        dsimp only [store]
        split
        · rw [List.getD_eq_getElem?_getD, List.getElem?_eq_getElem (Nat.lt_of_lt_of_le hj hdata)]
          rfl
        · exact h.cells j r k hj hr hk
      · rw [hrefused (Or.inr (Nat.not_lt.mp hc)), Grid.writing]
        dsimp only
        rw [if_neg hc]
        exact ⟨rfl, h, rfl⟩
  | closed =>
      rw [hrefused (Or.inl (by simp))]
      exact ⟨rfl, h, rfl⟩
  | broken row =>
      rw [hrefused (Or.inl (by simp))]
      exact ⟨rfl, h, rfl⟩

theorem set_zero_prefix {data : List UInt8} {i : Nat} (hi : i < data.length) :
    (List.replicate i 0 ++ data.drop i).set i 0 = List.replicate (i + 1) 0 ++ data.drop (i + 1) := by
  rw [List.drop_eq_getElem_cons hi, List.set_append_right _ _ (by simp), List.length_replicate, Nat.sub_self,
    List.set_cons_zero, List.replicate_succ', List.append_assoc, List.singleton_append]

theorem reading_closed (h : Consistent n rows cols .closed b)
    (hzero : ∀ a ∈ b.arrays, a.rowBuffer = List.replicate cols 0) {col : UInt32} (hc : col.toNat < cols)
    {data : List UInt8} (hdata : n ≤ data.length) :
    transferData col false (b, data) = .ok () (b, List.replicate n 0 ++ data.drop n) := by
  obtain ⟨bs, u, hs, hu, _⟩ := sweep_returns (transferRound col false)
    (fun i a => a.cols.toNat = cols ∧ a.isWordOpen = false ∧ a.rowBuffer = List.replicate cols 0 ∧ i < data.length)
    (fun i s => s = List.replicate i 0 ++ data.drop i) (fun _ _ _ => True)
    (by
      rintro i a s ⟨hcols, ho, hbuffer, hi⟩ rfl
      have hread := read_of_buffer (v := 0) ho (hcols ▸ hc) (by rw [hbuffer, List.getElem?_replicate, if_pos hc])
      obtain ⟨d, hd⟩ := getElem?_of_lt (List.replicate i 0 ++ data.drop i) (i := i) (by
        rw [List.length_append, List.length_replicate, List.length_drop]
        omega)
      exact ⟨a, _, readRound_some hd hread, trivial, set_zero_prefix hi⟩)
    0 b.arrays data (by
      intro k a ha
      obtain ⟨hk, _⟩ := List.getElem?_eq_some_iff.mp ha
      rw [h.length_eq] at hk
      have hmem := List.mem_of_getElem? ha
      exact ⟨(h.wellFormed a hmem).cols_eq, h.phase a hmem, hzero a hmem, by omega⟩) (by simp)
  rw [Nat.zero_add, h.length_eq] at hu
  have hkeep := read_keeps b col data
  have hdo : transferData col false (b, data) = .ok () (⟨bs⟩, u) := by simp [transferData, hs]
  rw [hdo, final_ok] at hkeep
  dsimp only at hkeep
  rw [hdo, hu, hkeep]

theorem reading_refused (h : Holds n rows cols b m) {col : UInt32} {data : List UInt8} (hdata : n ≤ data.length)
    (hno : (∃ r, m.phase = .opened r) ∨ cols ≤ col.toNat) :
    transferData col false (b, data) = .error (.raised (readText 0 col)) (b, data) := by
  obtain ⟨a, as, hb⟩ := head_exists h.consistent
  obtain ⟨d, hd⟩ := getElem?_supplied h hdata
  have hr : a.read col = .ok none := by
    rcases hno with ⟨r, hm⟩ | hc
    · have hphase := h.consistent.phase
      rw [hb, hm] at hphase
      exact DRAMSubarray.read_of_open (hphase a (by simp)).1 col
    · exact DRAMSubarray.read_of_ge (h.consistent.wellFormed a (by simp [hb])) hc
  exact BankGuarantee.transfer_head hb (read_round_refused hd hr)

theorem reading_broken {row : UInt32} (h : Holds n rows cols b m) (hm : m.phase = .broken row) {col : UInt32}
    (hc : col.toNat < cols) {data : List UInt8} (hdata : n ≤ data.length) :
    transferData col false (b, data) =
      if n = 1 then .ok () (b, data.set 0 (m.cells 0 row.toNat col.toNat))
      else .error (.raised (readText 1 col)) (b, data.set 0 (m.cells 0 row.toNat col.toNat)) := by
  obtain ⟨a, as, hb⟩ := head_exists h.consistent
  obtain ⟨d, hd⟩ := getElem?_supplied h hdata
  have hphase := h.consistent.phase
  have hlen := h.consistent.length_eq
  have hbuffers := h.buffers
  rw [Buffers, hm] at hbuffers
  rw [hm, hb] at hphase
  rw [hb] at hlen
  have hwf := h.consistent.wellFormed a (by simp [hb])
  have hread := read_of_buffer hphase.1 (by rwa [hwf.cols_eq]) (hbuffers.2 a as hb col.toNat hc)
  have hround := readRound_some hd hread
  cases as with
  | nil =>
      have hn : n = 1 := by simpa using hlen.symm
      rw [if_pos hn, transferData, hb]
      simp only [sweep, hround]
      rw [← hb]
  | cons a' as =>
      have hn : ¬ n = 1 := by
        simp only [List.length_cons] at hlen
        omega
      obtain ⟨d', hd'⟩ := getElem?_of_lt (data.set 0 (m.cells 0 row.toNat col.toNat)) (i := 1) (by
        simp only [List.length_cons] at hlen
        rw [List.length_set]
        omega)
      have hround' := read_round_refused hd' (DRAMSubarray.read_of_open (hphase.2 a' (by simp)).1 col)
      rw [if_neg hn, transferData, hb]
      simp only [sweep, hround, Nat.zero_add, hround']
      rw [← hb]

theorem reading_matches (h : Holds n rows cols b m) (col : UInt32) {data : List UInt8} (hdata : n ≤ data.length) :
    Matches (Alike n rows cols) (transferData col false (b, data)) (m.reading n cols col data) := by
  by_cases hc : col.toNat < cols
  · rw [Grid.reading, if_pos hc]
    cases hm : m.phase with
    | closed =>
        have hconsistent := h.consistent
        have hbuffers := h.buffers
        rw [hm] at hconsistent
        rw [Buffers, hm] at hbuffers
        rw [reading_closed hconsistent hbuffers hc hdata]
        exact ⟨rfl, h, rfl⟩
    | opened row =>
        rw [reading_refused h hdata (Or.inl ⟨row, hm⟩)]
        exact ⟨rfl, h, rfl⟩
    | broken row =>
        rw [reading_broken h hm hc hdata]
        dsimp only
        split
        · exact ⟨rfl, h, rfl⟩
        · exact ⟨rfl, h, rfl⟩
  · rw [reading_refused h hdata (Or.inr (Nat.not_lt.mp hc)), Grid.reading, if_neg hc]
    exact ⟨rfl, h, rfl⟩

theorem perform_matches (h : Holds n rows cols b m) {c : Command} (hc : Supplied n c) :
    Matches (Alike n rows cols) (BankRefinement.perform b c) (m.perform n rows cols c) := by
  cases c with
  | openRow row => exact opening_matches h row
  | transferData col isWrite data =>
      cases isWrite with
      | false => exact reading_matches h col hc
      | true => exact writing_matches h col hc

end

def blank : Grid := ⟨.closed, fun _ _ _ => 0⟩

theorem new_holds {c : DRAMConfig} (hv : c.validate = .ok ())
    (hfit : 2 ^ (c.rowBits.toNat + c.colBits.toNat) < 2 ^ 32) {b : DRAMBank} (hb : DRAMBank.new c = .ok b) :
    Holds c.chipWidthBits.toNat (2 ^ c.rowBits.toNat) (2 ^ c.colBits.toNat) b blank := by
  have hconsistent := new_consistent hv hfit hb
  have hbank := hb
  rw [Geometry.bank_new_eq (DRAMConfig.Valid.of_validate hv)] at hbank
  have hb' := Except.ok.inj hbank
  refine ⟨hconsistent, ?_, ?_⟩
  · intro j r k hj hr hk
    have hj' : j < b.arrays.length := by rwa [hconsistent.length_eq]
    have hwf := hconsistent.wellFormed b.arrays[j] (List.getElem_mem hj')
    have hnew : b.arrays[j] =
        DRAMSubarray.new (UInt32.ofInt (2 ^ c.rowBits.toNat)) (UInt32.ofInt (2 ^ c.colBits.toNat)) := by
      subst hb'
      exact List.getElem_replicate ..
    have hcell : r * (2 ^ c.colBits.toNat) + k < b.arrays[j].storage.length := by
      rw [hwf.storage_length]
      have hwindow := DRAMSubarray.window_le (2 ^ c.colBits.toNat) hr
      omega
    rw [content, List.getElem?_eq_getElem hj', Option.bind_some, DRAMSubarray.content,
      if_neg (by simp [hnew, DRAMSubarray.new]), hwf.cols_eq, List.getElem?_eq_getElem hcell]
    simp only [hnew, DRAMSubarray.new, List.getElem_replicate, blank]
  · intro a ha
    have hwf := hconsistent.wellFormed a ha
    subst hb'
    obtain rfl := List.eq_of_mem_replicate ha
    rw [← hwf.cols_eq]
    rfl

/-- Every run of calls on a bank gives each of its callers the answer of the
grid: the same outcome, the same text where it throws and the same bytes. -/
theorem run_matches (c : DRAMConfig) (hv : c.validate = .ok ())
    (hfit : 2 ^ (c.rowBits.toNat + c.colBits.toNat) < 2 ^ 32) (b : DRAMBank) (hb : DRAMBank.new c = .ok b)
    (cs : List Command) (hcs : ∀ k ∈ cs, Supplied c.chipWidthBits.toNat k) (k : Command)
    (hk : Supplied c.chipWidthBits.toNat k) :
    let rows := 2 ^ c.rowBits.toNat
    let cols := 2 ^ c.colBits.toNat
    let s := runAll (fun k s => BankRefinement.perform s.1 k) cs (b, [])
    let t := runAll (fun k t => t.1.perform c.chipWidthBits.toNat rows cols k) cs (blank, [])
    Matches (Alike c.chipWidthBits.toNat rows cols) (BankRefinement.perform s.1 k)
      (t.1.perform c.chipWidthBits.toNat rows cols k) := by
  intro rows cols s t
  have hrun : Alike c.chipWidthBits.toNat rows cols s t := by
    apply runAll_matches
    · intro k hk s t hst
      exact perform_matches hst.1 (hcs k hk)
    · exact ⟨new_holds hv hfit hb, rfl⟩
  exact perform_matches hrun.1 hk

theorem run_matches_square :
    let s := runAll (fun k s => BankRefinement.perform s.1 k) [.openRow 1, .openRow 2] (squareBank, [])
    let t := runAll (fun k (t : Grid × List UInt8) => t.1.perform 8 2 2 k) [.openRow 1, .openRow 2] (blank, [])
    Matches (Alike 8 2 2) (BankRefinement.perform s.1 (.transferData 0 false (List.replicate 8 5)))
      (t.1.perform 8 2 2 (.transferData 0 false (List.replicate 8 5))) :=
  run_matches square (by decide) (by decide) squareBank square_new [.openRow 1, .openRow 2] (by simp [Supplied])
    (.transferData 0 false (List.replicate 8 5)) (by simp [Supplied, square, Geometry.stackedConfig])

end MemSim.RowBuffer
