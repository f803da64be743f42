import MemSim.Machine

namespace MemSim

open Machine

structure DRAMSubarray where
  rows : UInt32
  cols : UInt32
  openRow : UInt32
  isWordOpen : Bool
  rowBuffer : List UInt8
  storage : List UInt8
  deriving DecidableEq, Repr

structure Span where
  start : Nat
  size : Nat
  deriving DecidableEq, Repr

namespace DRAMSubarray

/-- The size of the storage is the product taken in thirty-two bits. -/
def new (rows cols : UInt32) : DRAMSubarray where
  rows := rows
  cols := cols
  openRow := 0
  isWordOpen := false
  rowBuffer := List.replicate cols.toNat 0
  storage := List.replicate (rows * cols).toNat 0

def getRow (a : DRAMSubarray) (r : UInt32) : Checked String Span :=
  if (r * a.cols).toNat + a.cols.toNat ≤ a.storage.length then
    .ok ⟨(r * a.cols).toNat, a.cols.toNat⟩
  else .error (.fault .outOfRange)

def precharge (a : DRAMSubarray) : Checked String DRAMSubarray :=
  if a.isWordOpen then do
    let dst ← a.getRow a.openRow
    let storage ← copyAt a.storage dst.start a.rowBuffer
    return { a with storage, isWordOpen := false }
  else .ok a

def activate (a : DRAMSubarray) (rowAddr : UInt32) : Checked String (Bool × DRAMSubarray) :=
  if a.isWordOpen then .ok (false, a)
  else if rowAddr ≥ a.rows then .ok (false, a)
  else do
    let src ← a.getRow rowAddr
    let rowBuffer ← copyAt a.rowBuffer 0 ((a.storage.drop src.start).take src.size)
    return (true, { a with rowBuffer, openRow := rowAddr, isWordOpen := true })

/-- No value stands for the answer false, which leaves the output alone. The
guard is the source's own: it refuses an open row. -/
def read (a : DRAMSubarray) (colAddr : UInt32) : Checked String (Option UInt8) :=
  if a.isWordOpen then .ok none
  else if colAddr ≥ a.cols then .ok none
  else do
    let out ← element a.rowBuffer colAddr.toNat
    return some out

def write (a : DRAMSubarray) (colAddr : UInt32) (data : UInt8) : Checked String (Bool × DRAMSubarray) :=
  if !a.isWordOpen then .ok (false, a)
  else if colAddr ≥ a.cols then .ok (false, a)
  else do
    let rowBuffer ← assign a.rowBuffer colAddr.toNat data
    return (true, { a with rowBuffer })

def content (a : DRAMSubarray) (r c : Nat) : Option UInt8 :=
  if a.isWordOpen = true ∧ a.openRow.toNat = r then a.rowBuffer[c]?
  else a.storage[r * a.cols.toNat + c]?

structure WellFormed (a : DRAMSubarray) (rows cols : Nat) : Prop where
  rows_eq : a.rows.toNat = rows
  cols_eq : a.cols.toNat = cols
  fits : rows * cols < 2 ^ 32
  storage_length : a.storage.length = rows * cols
  buffer_length : a.rowBuffer.length = cols
  open_lt : a.isWordOpen = true → a.openRow.toNat < rows

def SameContent (rows cols : Nat) (a b : DRAMSubarray) : Prop :=
  ∀ r c, r < rows → c < cols → a.content r c = b.content r c

variable {a : DRAMSubarray} {rows cols : Nat}

theorem new_wellFormed {m n : UInt32} (h : m.toNat * n.toNat < 2 ^ 32) :
    (new m n).WellFormed m.toNat n.toNat where
  rows_eq := rfl
  cols_eq := rfl
  fits := h
  storage_length := by
    rw [new, List.length_replicate, UInt32.toNat_mul, Nat.mod_eq_of_lt h]
  buffer_length := List.length_replicate
  open_lt := by simp [new]

theorem window_le (cols : Nat) {r : Nat} (hr : r < rows) : r * cols + cols ≤ rows * cols := by
  have h := Nat.mul_le_mul_right cols (Nat.succ_le_of_lt hr)
  rwa [Nat.succ_mul] at h

theorem getRow_eq (h : a.WellFormed rows cols) {r : UInt32} (hr : r.toNat < rows) :
    a.getRow r = .ok ⟨r.toNat * cols, cols⟩ := by
  have hw := window_le cols hr
  have hstart : (r * a.cols).toNat = r.toNat * cols := by
    rw [UInt32.toNat_mul, h.cols_eq, Nat.mod_eq_of_lt]
    have := h.fits
    omega
  rw [getRow, hstart, h.cols_eq, h.storage_length, if_pos hw]

theorem window_disjoint {r s c : Nat} (hc : c < cols) (hlo : s * cols ≤ r * cols + c)
    (hhi : r * cols + c < s * cols + cols) : r = s := by
  rcases Nat.lt_trichotomy r s with hlt | heq | hgt
  · have := window_le cols hlt
    omega
  · exact heq
  · have := window_le cols hgt
    omega

theorem precharge_spec (h : a.WellFormed rows cols) :
    ∃ b, a.precharge = .ok b ∧ b.WellFormed rows cols ∧
      b.isWordOpen = false ∧ SameContent rows cols a b := by
  cases ho : a.isWordOpen with
  | false => exact ⟨a, by simp [precharge, ho], h, ho, fun _ _ _ _ => rfl⟩
  | true =>
      have hr := h.open_lt ho
      have hfit : a.openRow.toNat * cols + a.rowBuffer.length ≤ a.storage.length := by
        rw [h.storage_length, h.buffer_length]
        exact window_le cols hr
      refine ⟨{ a with storage := splice a.storage (a.openRow.toNat * cols) a.rowBuffer,
                       isWordOpen := false }, ?_, ?_, rfl, ?_⟩
      · rw [precharge, if_pos ho, getRow_eq h hr, bind_ok, copyAt_of_le hfit]
        rfl
      · exact ⟨h.rows_eq, h.cols_eq, h.fits, by rw [splice_length hfit, h.storage_length],
          h.buffer_length, by simp⟩
      · intro r c _ hc
        simp only [content, ho, h.cols_eq, true_and, Bool.false_eq_true, false_and, if_false,
          getElem?_splice hfit, h.buffer_length]
        by_cases he : a.openRow.toNat = r
        · subst he
          rw [if_pos rfl, if_pos ⟨by omega, by omega⟩, Nat.add_sub_cancel_left]
        · rw [if_neg he, if_neg]
          intro hin
          exact he (window_disjoint hc hin.1 hin.2).symm

theorem getRow_ends (a : DRAMSubarray) (r : UInt32) :
    a.getRow r = .error (.fault .outOfRange) ∨ ∃ w, a.getRow r = .ok w := by
  unfold getRow
  split
  · exact Or.inr ⟨_, rfl⟩
  · exact Or.inl rfl

theorem precharge_of_closed (ho : a.isWordOpen = false) : a.precharge = .ok a := by
  simp [precharge, ho]

theorem precharge_ends (a : DRAMSubarray) : (∃ f, a.precharge = .error (.fault f)) ∨
    ∃ d, a.precharge = .ok d ∧ d.isWordOpen = false ∧ d.rows = a.rows ∧ d.cols = a.cols := by
  cases ho : a.isWordOpen with
  | false => exact Or.inr ⟨a, precharge_of_closed ho, ho, rfl, rfl⟩
  | true =>
      rw [precharge, if_pos ho]
      rcases a.getRow_ends a.openRow with hg | ⟨w, hg⟩
      · exact Or.inl ⟨_, by rw [hg, bind_error]⟩
      · rw [hg, bind_ok, copyAt]
        split
        · exact Or.inr ⟨_, rfl, rfl, rfl, rfl⟩
        · exact Or.inl ⟨_, rfl⟩

theorem activate_of_rows_le (ho : a.isWordOpen = false) {r : UInt32} (hr : a.rows ≤ r) :
    a.activate r = .ok (false, a) := by
  simp [activate, ho, hr]

theorem activate_ends (ho : a.isWordOpen = false) {r : UInt32} (hr : r < a.rows) :
    (∃ f, a.activate r = .error (.fault f)) ∨
      ∃ d, a.activate r = .ok (true, d) ∧ d.isWordOpen = true ∧ d.openRow = r ∧
        d.rows = a.rows ∧ d.cols = a.cols := by
  rw [activate, if_neg (by simp [ho]), if_neg (UInt32.not_le.mpr hr)]
  rcases a.getRow_ends r with hg | ⟨w, hg⟩
  · exact Or.inl ⟨_, by rw [hg, bind_error]⟩
  · rw [hg, bind_ok, copyAt]
    split
    · exact Or.inr ⟨_, rfl, rfl, rfl, rfl, rfl⟩
    · exact Or.inl ⟨_, rfl⟩

theorem activate_of_ge (h : a.WellFormed rows cols) (ho : a.isWordOpen = false) {r : UInt32}
    (hr : rows ≤ r.toNat) : a.activate r = .ok (false, a) := by
  have hge : r ≥ a.rows := by
    rw [ge_iff_le, UInt32.le_iff_toNat_le, h.rows_eq]
    exact hr
  simp [activate, ho, hge]

theorem activate_spec (h : a.WellFormed rows cols) (ho : a.isWordOpen = false) {r : UInt32}
    (hr : r.toNat < rows) :
    ∃ b, a.activate r = .ok (true, b) ∧ b.WellFormed rows cols ∧
      b.isWordOpen = true ∧ b.openRow = r ∧ SameContent rows cols a b := by
  have hw := window_le cols hr
  have hlt : ¬ r ≥ a.rows := by
    rw [ge_iff_le, UInt32.le_iff_toNat_le, h.rows_eq]
    omega
  have hlen : ((a.storage.drop (r.toNat * cols)).take cols).length = cols := by
    rw [List.length_take, List.length_drop, h.storage_length]
    omega
  refine ⟨{ a with rowBuffer := (a.storage.drop (r.toNat * cols)).take cols,
                   openRow := r, isWordOpen := true }, ?_, ?_, rfl, rfl, ?_⟩
  · rw [activate, if_neg (by simp [ho]), if_neg hlt, getRow_eq h hr, bind_ok,
      copyAt_zero (by rw [hlen, h.buffer_length])]
    rfl
  · exact ⟨h.rows_eq, h.cols_eq, h.fits, h.storage_length, hlen, fun _ => hr⟩
  · intro r' c _ hc
    simp only [content, ho, Bool.false_eq_true, false_and, if_false, true_and, h.cols_eq]
    by_cases he : r.toNat = r'
    · subst he
      rw [if_pos rfl, List.getElem?_take_of_lt hc, List.getElem?_drop]
    · rw [if_neg he]

theorem read_of_cols_le {c : UInt32} (hc : a.cols ≤ c) : a.read c = .ok none := by
  simp [read, hc]

theorem read_ends (ho : a.isWordOpen = false) {c : UInt32} (hc : c < a.cols) :
    (∃ f, a.read c = .error (.fault f)) ∨ ∃ v, a.read c = .ok (some v) := by
  rw [read, if_neg (by simp [ho]), if_neg (UInt32.not_le.mpr hc), element]
  split
  · exact Or.inr ⟨_, rfl⟩
  · exact Or.inl ⟨_, rfl⟩

theorem write_of_cols_le {c : UInt32} (hc : a.cols ≤ c) (d : UInt8) : a.write c d = .ok (false, a) := by
  simp [write, hc]

theorem write_ends (ho : a.isWordOpen = true) {c : UInt32} (hc : c < a.cols) (v : UInt8) :
    (∃ f, a.write c v = .error (.fault f)) ∨
      ∃ d, a.write c v = .ok (true, d) ∧ d.isWordOpen = true ∧ d.openRow = a.openRow ∧
        d.rows = a.rows ∧ d.cols = a.cols := by
  rw [write, if_neg (by simp [ho]), if_neg (UInt32.not_le.mpr hc), assign]
  split
  · exact Or.inr ⟨_, rfl, ho, rfl, rfl, rfl⟩
  · exact Or.inl ⟨_, rfl⟩

theorem read_of_open (ho : a.isWordOpen = true) (c : UInt32) :
    a.read c = .ok none := if_pos ho

theorem read_of_ge (h : a.WellFormed rows cols) {c : UInt32} (hc : cols ≤ c.toNat) :
    a.read c = .ok none := by
  have hge : c ≥ a.cols := by
    rw [ge_iff_le, UInt32.le_iff_toNat_le, h.cols_eq]
    exact hc
  simp [read, hge]

theorem read_of_closed (h : a.WellFormed rows cols) (ho : a.isWordOpen = false) {c : UInt32}
    (hc : c.toNat < cols) : ∃ v, a.read c = .ok (some v) := by
  have hlt : ¬ c ≥ a.cols := by
    rw [ge_iff_le, UInt32.le_iff_toNat_le, h.cols_eq]
    omega
  rw [read, if_neg (by simp [ho]), if_neg hlt, element_of_lt (by rw [h.buffer_length]; exact hc)]
  exact ⟨_, rfl⟩

theorem write_of_closed (ho : a.isWordOpen = false) (c : UInt32) (d : UInt8) :
    a.write c d = .ok (false, a) := by
  simp [write, ho]

theorem write_of_ge (h : a.WellFormed rows cols) {c : UInt32} (hc : cols ≤ c.toNat) (d : UInt8) :
    a.write c d = .ok (false, a) := by
  have hge : c ≥ a.cols := by
    rw [ge_iff_le, UInt32.le_iff_toNat_le, h.cols_eq]
    exact hc
  simp [write, hge]

theorem write_spec (h : a.WellFormed rows cols) (ho : a.isWordOpen = true) {c : UInt32}
    (hc : c.toNat < cols) (d : UInt8) :
    ∃ b, a.write c d = .ok (true, b) ∧ b.WellFormed rows cols ∧
      b.isWordOpen = true ∧ b.openRow = a.openRow ∧
      ∀ r k, r < rows → k < cols → b.content r k =
        if r = a.openRow.toNat ∧ k = c.toNat then some d else a.content r k := by
  have hlt : ¬ c ≥ a.cols := by
    rw [ge_iff_le, UInt32.le_iff_toNat_le, h.cols_eq]
    omega
  have hb : c.toNat < a.rowBuffer.length := by rw [h.buffer_length]; exact hc
  refine ⟨{ a with rowBuffer := a.rowBuffer.set c.toNat d }, ?_, ?_, ho, rfl, ?_⟩
  · rw [write, if_neg (by simp [ho]), if_neg hlt, assign_of_lt hb]
    rfl
  · exact ⟨h.rows_eq, h.cols_eq, h.fits, h.storage_length,
      by rw [List.length_set, h.buffer_length], h.open_lt⟩
  · intro r k _ _
    simp only [content, ho, true_and, List.getElem?_set]
    by_cases hr : a.openRow.toNat = r
    · by_cases hk : c.toNat = k
      · subst hk
        simp [hr, hb]
      · simp [hr, hk, Ne.symm hk]
    · simp [hr, Ne.symm hr]

end DRAMSubarray

end MemSim
