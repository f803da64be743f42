import MemSim.ReplacementPolicy
import Mathlib.Data.List.Induction
import Mathlib.Data.Nat.Init
import Mathlib.Order.Nat

namespace MemSim.VictimOrder

open Machine FIFOPolicy

inductive PolicyCall
  | onInsert (blockInd : Nat)
  | onAccess (blockInd : Nat)
  | reset
  deriving DecidableEq, Repr

namespace PolicyCall

def InRange (numBlocks : UInt32) : PolicyCall → Prop
  | .onInsert blockInd | .onAccess blockInd => blockInd < numBlocks.toNat
  | .reset => True

instance decidableInRange (numBlocks : UInt32) : (call : PolicyCall) → Decidable (call.InRange numBlocks)
  | .onInsert blockInd | .onAccess blockInd => Nat.decLt blockInd numBlocks.toNat
  | .reset => isTrue trivial

def isAccess : PolicyCall → Bool
  | .onAccess _ => true
  | _ => false

@[simp] theorem isAccess_onInsert (blockInd : Nat) : (PolicyCall.onInsert blockInd).isAccess = false := rfl

@[simp] theorem isAccess_onAccess (blockInd : Nat) : (PolicyCall.onAccess blockInd).isAccess = true := rfl

@[simp] theorem isAccess_reset : PolicyCall.reset.isAccess = false := rfl

end PolicyCall

def perform (p : FIFOPolicy) : PolicyCall → Checked String FIFOPolicy
  | .onInsert blockInd => p.onInsert blockInd
  | .onAccess blockInd => .ok (p.onAccess blockInd)
  | .reset => .ok p.reset

def after (numBlocks : UInt32) (calls : List PolicyCall) : Checked String FIFOPolicy :=
  calls.foldlM perform (FIFOPolicy.new numBlocks)

def insertions (calls : List PolicyCall) : List Nat :=
  calls.foldl (fun l call => match call with
    | .onInsert blockInd => l ++ [blockInd]
    | .onAccess _ => l
    | .reset => []) []

def lastInsertion (l : List Nat) (i : Nat) : Nat := l.length - l.reverse.idxOf i

/-- A valid block no other valid one is older than, the first of equals. -/
def Oldest (age : Nat → Nat) (valid : List Bool) (i : Nat) : Prop :=
  valid[i]? = some true ∧
    ∀ j, valid[j]? = some true → age i ≤ age j ∧ (age j = age i → i ≤ j)

/-- Whatever blocks are valid, the victim is the oldest by the true order of
insertions, and the accesses have no part in it. -/
def VictimLaw (numBlocks : UInt32) (calls : List PolicyCall) : Prop :=
  ∀ valid : List Bool, valid.length = numBlocks.toNat → true ∈ valid →
    ∃ p q i, after numBlocks calls = .ok p ∧
      after numBlocks (calls.filter (!·.isAccess)) = .ok q ∧
      p.getVictim valid = .ok i ∧ q.getVictim valid = .ok i ∧
      Oldest (lastInsertion (insertions calls)) valid i

def stamped (numBlocks : UInt32) (l : List Nat) : FIFOPolicy :=
  ⟨(List.range numBlocks.toNat).map fun i => UInt32.ofNat (lastInsertion l i), UInt32.ofNat l.length⟩

theorem lastInsertion_nil (i : Nat) : lastInsertion [] i = 0 := rfl

theorem lastInsertion_snoc (l : List Nat) (b i : Nat) :
    lastInsertion (l ++ [b]) i = if i = b then l.length + 1 else lastInsertion l i := by
  unfold lastInsertion
  rw [List.reverse_append, List.length_append, List.length_singleton, List.reverse_singleton,
    List.singleton_append]
  by_cases h : i = b
  · subst h
    rw [List.idxOf_cons_self, if_pos rfl, Nat.sub_zero]
  · rw [List.idxOf_cons, beq_false_of_ne (Ne.symm h), if_neg h, cond_false, Nat.add_sub_add_right]

theorem lastInsertion_le (l : List Nat) (i : Nat) : lastInsertion l i ≤ l.length := Nat.sub_le _ _

theorem stamped_nil (numBlocks : UInt32) : stamped numBlocks [] = FIFOPolicy.new numBlocks := by
  simp [stamped, lastInsertion_nil, FIFOPolicy.new, reset, List.map_const']

theorem stamped_onInsert {numBlocks : UInt32} {b : Nat} (hb : b < numBlocks.toNat) (l : List Nat) :
    (stamped numBlocks l).onInsert b = .ok (stamped numBlocks (l ++ [b])) := by
  rw [onInsert_eq (by simpa [stamped] using hb)]
  congr 2
  · apply List.ext_getElem
    · simp [stamped]
    · intro i h1 h2
      rw [List.getElem_set]
      by_cases h : b = i
      · subst h
        simp [stamped, lastInsertion_snoc, UInt32.ofNat_add]
      · simp [stamped, lastInsertion_snoc, h, Ne.symm h]
  · simp [stamped, UInt32.ofNat_add]

theorem insertions_snoc (calls : List PolicyCall) (call : PolicyCall) :
    insertions (calls ++ [call]) = match call with
      | .onInsert blockInd => insertions calls ++ [blockInd]
      | .onAccess _ => insertions calls
      | .reset => [] := by
  rw [insertions, List.foldl_append]
  rfl

theorem after_eq {numBlocks : UInt32} {calls : List PolicyCall}
    (h : ∀ call ∈ calls, call.InRange numBlocks) :
    after numBlocks calls = .ok (stamped numBlocks (insertions calls)) := by
  induction calls using List.reverseRecOn with
  | nil =>
      rw [insertions, List.foldl_nil, stamped_nil]
      rfl
  | append_singleton calls call ih =>
      have hcall := h call (by simp)
      rw [after, List.foldlM_append, ← after, ih fun c hc => h c (by simp [hc]), insertions_snoc]
      cases call with
      | onInsert b =>
          simp only [List.foldlM_cons, List.foldlM_nil, bind_ok, perform, stamped_onInsert hcall]
          rfl
      | onAccess b => rfl
      | reset =>
          rw [stamped_nil]
          simp [perform, stamped, reset, FIFOPolicy.new]

theorem Oldest.cons {age : Nat → Nat} {v : Bool} {rest : List Bool} {j : Nat}
    (h : Oldest (fun k => age (k + 1)) rest j) (hv : v = true → age (j + 1) < age 0) :
    Oldest age (v :: rest) (j + 1) := by
  refine ⟨h.1, ?_⟩
  intro k hk
  cases k with
  | zero =>
      have hlt := hv (Option.some.inj hk)
      exact ⟨hlt.le, fun he => absurd he hlt.ne'⟩
  | succ k =>
      obtain ⟨hle, heq⟩ := h.2 k hk
      exact ⟨hle, fun he => Nat.succ_le_succ (heq he)⟩

/-- What a scan from place `i` on has found: its victim so far where no stamp
is below the sentinel, else the first of the smallest stamps. -/
def Scanned (age : Nat → Nat) (valid : List Bool) (i : Nat) (top : UInt32) (victim r : Option Nat) : Prop :=
  (r = victim ∧ ∀ j, valid[j]? = some true → top.toNat ≤ age j) ∨
    ∃ j, r = some (i + j) ∧ age j < top.toNat ∧ Oldest age valid j

theorem Scanned.skip {age : Nat → Nat} {v : Bool} {rest : List Bool} {i : Nat} {top : UInt32} {victim r : Option Nat}
    (h : Scanned (fun k => age (k + 1)) rest (i + 1) top victim r) (hv : v = true → top.toNat ≤ age 0) :
    Scanned age (v :: rest) i top victim r := by
  rcases h with ⟨hkept, hle⟩ | ⟨j, hj, hlt, hold⟩
  · refine .inl ⟨hkept, ?_⟩
    intro j hj
    cases j with
    | zero => exact hv (Option.some.inj hj)
    | succ j => exact hle j hj
  · refine .inr ⟨j + 1, ?_, hlt, hold.cons fun h => hlt.trans_le (hv h)⟩
    rw [hj, Nat.add_right_comm, Nat.add_assoc]

theorem Scanned.take {age : Nat → Nat} {rest : List Bool} {i : Nat} {top stamp : UInt32} {victim r : Option Nat}
    (h : Scanned (fun k => age (k + 1)) rest (i + 1) stamp (some i) r) (hstamp : stamp.toNat = age 0)
    (hless : age 0 < top.toNat) : Scanned age (true :: rest) i top victim r := by
  rw [Scanned, hstamp] at h
  rcases h with ⟨hkept, hle⟩ | ⟨j, hj, hlt, hold⟩
  · refine .inr ⟨0, hkept, hless, rfl, ?_⟩
    intro j hj
    refine ⟨?_, fun _ => Nat.zero_le j⟩
    cases j with
    | zero => exact le_rfl
    | succ j => exact hle j hj
  · refine .inr ⟨j + 1, ?_, hlt.trans hless, hold.cons fun _ => hlt⟩
    rw [hj, Nat.add_right_comm, Nat.add_assoc]

theorem victimScan_spec {order : List UInt32} (valid : List Bool) (i : Nat) (age : Nat → Nat)
    (top : UInt32) (victim : Option Nat) (hlen : i + valid.length ≤ order.length)
    (hage : ∀ j x, order[i + j]? = some x → x.toNat = age j) :
    ∃ r, victimScan order i valid top victim = .ok r ∧ Scanned age valid i top victim r := by
  induction valid generalizing i age top victim with
  | nil => exact ⟨victim, rfl, .inl ⟨rfl, by simp⟩⟩
  | cons v rest ih =>
      rw [List.length_cons] at hlen
      have hnext : ∀ j x, order[i + 1 + j]? = some x → x.toNat = age (j + 1) := by
        intro j x hx
        apply hage (j + 1) x
        rwa [Nat.add_right_comm, Nat.add_assoc] at hx
      cases v with
      | false =>
          obtain ⟨r, hr, hfound⟩ := ih (i + 1) (fun k => age (k + 1)) top victim (by omega) hnext
          exact ⟨r, hr, hfound.skip (by simp)⟩
      | true =>
          have hi : i < order.length := by omega
          have hstamp : order[i].toNat = age 0 := hage 0 _ (List.getElem?_eq_getElem hi)
          rw [victimScan, element_of_lt hi, bind_ok]
          split
          · next hless =>
              rw [UInt32.lt_iff_toNat_lt, hstamp] at hless
              obtain ⟨r, hr, hfound⟩ := ih (i + 1) (fun k => age (k + 1)) order[i] (some i) (by omega) hnext
              exact ⟨r, hr, hfound.take hstamp hless⟩
          · next hless =>
              rw [UInt32.lt_iff_toNat_lt, hstamp, Nat.not_lt] at hless
              obtain ⟨r, hr, hfound⟩ := ih (i + 1) (fun k => age (k + 1)) top victim (by omega) hnext
              exact ⟨r, hr, hfound.skip fun _ => hless⟩

theorem getVictim_stamped {numBlocks : UInt32} (l : List Nat) {valid : List Bool}
    (hlen : valid.length = numBlocks.toNat) :
    ∃ i, (stamped numBlocks l).getVictim valid = .ok i ∧
      ((lastInsertion l i % 2 ^ 32 < 2 ^ 32 - 1 ∧ Oldest (fun j => lastInsertion l j % 2 ^ 32) valid i) ∨
        (i = 0 ∧ ∀ j, valid[j]? = some true → 2 ^ 32 - 1 ≤ lastInsertion l j % 2 ^ 32)) := by
  have hage : ∀ j x, (stamped numBlocks l).order[0 + j]? = some x → x.toNat = lastInsertion l j % 2 ^ 32 := by
    intro j x hx
    rw [Nat.zero_add] at hx
    obtain ⟨hj, rfl⟩ := List.getElem?_eq_some_iff.mp hx
    simp [stamped]
  obtain ⟨r, hr, ⟨rfl, hle⟩ | ⟨j, rfl, hlt, hold⟩⟩ :=
    victimScan_spec valid 0 (fun j => lastInsertion l j % 2 ^ 32) 0xffffffff none
      (by simp [stamped, hlen]) hage
  · exact ⟨0, by rw [getVictim, hr]; rfl, .inr ⟨rfl, hle⟩⟩
  · rw [Nat.zero_add] at hr
    exact ⟨j, by rw [getVictim, hr]; rfl, .inl ⟨hlt, hold⟩⟩

theorem insertions_filter (calls : List PolicyCall) :
    insertions (calls.filter (!·.isAccess)) = insertions calls := by
  induction calls using List.reverseRecOn with
  | nil => rfl
  | append_singleton calls call ih =>
      rw [List.filter_append, insertions_snoc]
      cases call with
      | onInsert b => simp [insertions_snoc, ih]
      | onAccess b => simp [ih]
      | reset => simp [insertions_snoc]

theorem victimLaw_iff {numBlocks : UInt32} {calls : List PolicyCall}
    (h : ∀ call ∈ calls, call.InRange numBlocks) :
    VictimLaw numBlocks calls ↔
      ∀ valid : List Bool, valid.length = numBlocks.toNat → true ∈ valid →
        ∃ i, (stamped numBlocks (insertions calls)).getVictim valid = .ok i ∧
          Oldest (lastInsertion (insertions calls)) valid i := by
  have hp := after_eq h
  have hq : after numBlocks (calls.filter (!·.isAccess)) = .ok (stamped numBlocks (insertions calls)) := by
    rw [after_eq fun call hcall => h call (List.mem_filter.mp hcall).1, insertions_filter]
  constructor
  · intro hlaw valid hlen hmem
    obtain ⟨p, q, i, hp', _, hvictim, _, hold⟩ := hlaw valid hlen hmem
    rw [hp] at hp'
    cases hp'
    exact ⟨i, hvictim, hold⟩
  · intro hlaw valid hlen hmem
    obtain ⟨i, hvictim, hold⟩ := hlaw valid hlen hmem
    exact ⟨_, _, i, hp, hq, hvictim, hvictim, hold⟩

/-- No stamp has wrapped yet, and only the first block may have the sentinel's. -/
def Unwrapped (l : List Nat) : Prop :=
  l.length < 2 ^ 32 - 1 ∨ (l.length = 2 ^ 32 - 1 ∧ l.getLast? = some 0)

theorem Unwrapped.lastInsertion_lt {l : List Nat} (h : Unwrapped l) (j : Nat) :
    lastInsertion l j < 2 ^ 32 ∧ (2 ^ 32 - 1 ≤ lastInsertion l j → j = 0) := by
  have hle := lastInsertion_le l j
  rcases h with h | ⟨hlen, hlast⟩
  · omega
  · refine ⟨by omega, ?_⟩
    intro hj
    obtain ⟨l, rfl⟩ := List.getLast?_eq_some_iff.mp hlast
    rw [lastInsertion_snoc] at hj
    by_contra hne
    have hle' := lastInsertion_le l j
    rw [if_neg hne] at hj
    rw [List.length_append, List.length_singleton] at hlen
    omega

theorem exists_valid {valid : List Bool} (h : true ∈ valid) : ∃ j : Nat, valid[j]? = some true := by
  obtain ⟨j, hj, hv⟩ := List.mem_iff_getElem.mp h
  exact ⟨j, by rw [List.getElem?_eq_getElem hj, hv]⟩

theorem oldest_of_unwrapped {numBlocks : UInt32} {l : List Nat} (h : Unwrapped l) {valid : List Bool}
    (hlen : valid.length = numBlocks.toNat) (hmem : true ∈ valid) :
    ∃ i, (stamped numBlocks l).getVictim valid = .ok i ∧ Oldest (lastInsertion l) valid i := by
  obtain ⟨i, hi, hcase⟩ := getVictim_stamped l hlen
  have hmod : ∀ j, lastInsertion l j % 2 ^ 32 = lastInsertion l j :=
    fun j => Nat.mod_eq_of_lt (h.lastInsertion_lt j).1
  simp only [hmod] at hcase
  refine ⟨i, hi, ?_⟩
  rcases hcase with ⟨_, hold⟩ | ⟨rfl, hall⟩
  · exact hold
  · have hzero : ∀ j, valid[j]? = some true → j = 0 := fun j hj => (h.lastInsertion_lt j).2 (hall j hj)
    obtain ⟨j, hj⟩ := exists_valid hmem
    refine ⟨hzero j hj ▸ hj, ?_⟩
    intro k hk
    rw [hzero k hk]
    exact ⟨le_rfl, fun _ => le_rfl⟩

theorem oldest_of_single {numBlocks : UInt32} (l : List Nat) (hone : numBlocks.toNat ≤ 1) {valid : List Bool}
    (hlen : valid.length = numBlocks.toNat) (hmem : true ∈ valid) :
    ∃ i, (stamped numBlocks l).getVictim valid = .ok i ∧ Oldest (lastInsertion l) valid i := by
  have hzero : ∀ j, valid[j]? = some true → j = 0 := by
    intro j hj
    have hlt := (List.getElem?_eq_some_iff.mp hj).1
    omega
  obtain ⟨j, hj⟩ := exists_valid hmem
  obtain ⟨i, hi, hcase⟩ := getVictim_stamped l hlen
  have hi0 : i = 0 := by
    rcases hcase with ⟨_, hold⟩ | ⟨rfl, _⟩
    · exact hzero i hold.1
    · rfl
  subst hi0
  refine ⟨0, hi, hzero j hj ▸ hj, ?_⟩
  intro k hk
  rw [hzero k hk]
  exact ⟨le_rfl, fun _ => le_rfl⟩

def only (numBlocks : UInt32) (blocks : List Nat) : List Bool :=
  (List.range numBlocks.toNat).map (decide <| · ∈ blocks)

theorem only_eq_true {numBlocks : UInt32} {blocks : List Nat} {j : Nat} :
    (only numBlocks blocks)[j]? = some true ↔ j < numBlocks.toNat ∧ j ∈ blocks := by
  unfold only
  rw [List.getElem?_map]
  by_cases hj : j < numBlocks.toNat <;> simp [hj]

section

variable {numBlocks : UInt32} {l : List Nat}
  (hlaw : ∀ valid : List Bool, valid.length = numBlocks.toNat → true ∈ valid →
    ∃ i, (stamped numBlocks l).getVictim valid = .ok i ∧ Oldest (lastInsertion l) valid i)

include hlaw

theorem oldest_only (blocks : List Nat) {b : Nat} (hb : b < numBlocks.toNat) (hmem : b ∈ blocks) :
    ∃ i, Oldest (lastInsertion l) (only numBlocks blocks) i ∧
      ((lastInsertion l i % 2 ^ 32 < 2 ^ 32 - 1 ∧
          Oldest (fun j => lastInsertion l j % 2 ^ 32) (only numBlocks blocks) i) ∨
        (i = 0 ∧ ∀ j, j < numBlocks.toNat → j ∈ blocks → 2 ^ 32 - 1 ≤ lastInsertion l j % 2 ^ 32)) := by
  have hlen : (only numBlocks blocks).length = numBlocks.toNat := by simp [only]
  have htrue : true ∈ only numBlocks blocks := List.mem_of_getElem? (only_eq_true.mpr ⟨hb, hmem⟩)
  obtain ⟨i, hi, hold⟩ := hlaw _ hlen htrue
  obtain ⟨k, hk, hcase⟩ := getVictim_stamped l hlen
  rw [hi] at hk
  cases hk
  refine ⟨i, hold, ?_⟩
  simpa only [only_eq_true, and_imp] using hcase

end

theorem sentinel_of_law {numBlocks : UInt32} {l : List Nat} {b : Nat} (hb : b < numBlocks.toNat)
    (hlen : l.length = 2 ^ 32 - 2)
    (hlaw : ∀ valid : List Bool, valid.length = numBlocks.toNat → true ∈ valid →
      ∃ i, (stamped numBlocks (l ++ [b])).getVictim valid = .ok i ∧
        Oldest (lastInsertion (l ++ [b])) valid i) : b = 0 := by
  obtain ⟨i, hold, hcase⟩ := oldest_only hlaw [b] hb (List.mem_singleton_self b)
  obtain rfl := List.mem_singleton.mp (only_eq_true.mp hold.1).2
  rcases hcase with ⟨hlt, _⟩ | ⟨rfl, _⟩
  · rw [lastInsertion_snoc, if_pos rfl, hlen] at hlt
    exact absurd hlt (by decide)
  · rfl

/-- After the sentinel the next stamp is zero again, which looks older than
every other block's. -/
theorem not_law_of_wrap {numBlocks : UInt32} {l : List Nat} {b : Nat} (hb : b < numBlocks.toNat)
    (htwo : 2 ≤ numBlocks.toNat) (hlen : l.length = 2 ^ 32 - 1) (hlast : l.getLast? = some 0)
    (hlaw : ∀ valid : List Bool, valid.length = numBlocks.toNat → true ∈ valid →
      ∃ i, (stamped numBlocks (l ++ [b])).getVictim valid = .ok i ∧
        Oldest (lastInsertion (l ++ [b])) valid i) : False := by
  have hnew : lastInsertion (l ++ [b]) b = 2 ^ 32 := by
    rw [lastInsertion_snoc, if_pos rfl, hlen]
    rfl
  have hother : ∀ {j}, j ≠ b → lastInsertion (l ++ [b]) j = lastInsertion l j := by
    intro j hj
    rw [lastInsertion_snoc, if_neg hj]
  have hle := lastInsertion_le l
  by_cases hzero : b = 0
  · subst hzero
    obtain ⟨i, hold, hcase⟩ := oldest_only hlaw [0, 1] hb (by simp)
    have hone := hold.2 1 (only_eq_true.mpr ⟨htwo, by simp⟩)
    have hi : i = 1 := by
      rcases List.mem_cons.mp (only_eq_true.mp hold.1).2 with rfl | hi
      · have := hle 1
        rw [hnew, hother Nat.one_ne_zero] at hone
        omega
      · exact List.mem_singleton.mp hi
    subst hi
    rcases hcase with ⟨_, hstamp⟩ | ⟨habs, _⟩
    · have hz := hstamp.2 0 (only_eq_true.mpr ⟨hb, by simp⟩)
      simp only [hnew] at hz
      omega
    · exact absurd habs Nat.one_ne_zero
  · obtain ⟨l, rfl⟩ := List.getLast?_eq_some_iff.mp hlast
    have hfirst : lastInsertion (l ++ [0] ++ [b]) 0 = 2 ^ 32 - 1 := by
      rw [hother (Ne.symm hzero), lastInsertion_snoc, if_pos rfl]
      simpa using hlen
    obtain ⟨i, hold, hcase⟩ := oldest_only hlaw [0, b] hb (by simp)
    have hz := hold.2 0 (only_eq_true.mpr ⟨by omega, by simp⟩)
    have hi : i = 0 := by
      rcases List.mem_cons.mp (only_eq_true.mp hold.1).2 with rfl | hi
      · rfl
      · obtain rfl := List.mem_singleton.mp hi
        rw [hnew, hfirst] at hz
        omega
    subst hi
    rcases hcase with ⟨hlt, _⟩ | ⟨_, hall⟩
    · rw [hfirst] at hlt
      exact absurd hlt (by decide)
    · have hb' := hall b hb (by simp)
      rw [hnew] at hb'
      exact absurd hb' (by decide)

/-- The victims are right for every validity vector all along the calls, of a
policy of several blocks, exactly while no stamp has wrapped. -/
theorem victims_iff {numBlocks : UInt32} {calls : List PolicyCall}
    (h : ∀ call ∈ calls, call.InRange numBlocks) :
    (∀ before rest, calls = before ++ rest → VictimLaw numBlocks before) ↔
      numBlocks.toNat ≤ 1 ∨ ∀ before rest, calls = before ++ rest → Unwrapped (insertions before) := by
  have hrange : ∀ {before rest}, calls = before ++ rest → ∀ call ∈ before, call.InRange numBlocks :=
    fun hsplit call hcall => h call (by rw [hsplit]; exact List.mem_append_left _ hcall)
  constructor
  · intro hlaw
    rcases Nat.lt_or_ge 1 numBlocks.toNat with htwo | hone
    · refine .inr ?_
      intro before
      induction before using List.reverseRecOn with
      | nil => exact fun _ _ => .inl (by decide)
      | append_singleton before call ih =>
          intro rest hsplit
          have hprev : calls = before ++ (call :: rest) := by rw [hsplit]; simp
          have hbefore := ih _ hprev
          have hnow := (victimLaw_iff (hrange hsplit)).mp (hlaw _ _ hsplit)
          rw [insertions_snoc] at hnow ⊢
          cases call with
          | onInsert b =>
              have hb : b < numBlocks.toNat := hrange hsplit (.onInsert b) (by simp)
              rcases hbefore with hlt | ⟨hlen, hlast⟩
              · rcases Nat.lt_or_ge ((insertions before).length + 1) (2 ^ 32 - 1) with hnext | hnext
                · exact .inl (by simpa using hnext)
                · have hlen : (insertions before).length = 2 ^ 32 - 2 := by omega
                  obtain rfl := sentinel_of_law hb hlen hnow
                  exact .inr ⟨by simp [hlen], by simp⟩
              · exact (not_law_of_wrap hb htwo hlen hlast hnow).elim
          | onAccess b => exact hbefore
          | reset => exact .inl (by simp)
    · exact .inl hone
  · rintro hcond before rest hsplit
    rw [victimLaw_iff (hrange hsplit)]
    intro valid hlen hmem
    rcases hcond with hone | hun
    · exact oldest_of_single _ hone hlen hmem
    · exact oldest_of_unwrapped (hun before rest hsplit) hlen hmem

theorem victims_iff_reinserted :
    (∀ before rest, [PolicyCall.onInsert 1, .onInsert 0, .onAccess 1, .onInsert 1] = before ++ rest →
        VictimLaw 2 before) ↔
      UInt32.toNat 2 ≤ 1 ∨
        ∀ before rest, [PolicyCall.onInsert 1, .onInsert 0, .onAccess 1, .onInsert 1] = before ++ rest →
          Unwrapped (insertions before) :=
  victims_iff (by decide)

theorem insertions_replicate (n b : Nat) :
    insertions (List.replicate n (.onInsert b)) = List.replicate n b := by
  induction n with
  | zero => rfl
  | succ n ih => rw [List.replicate_succ', insertions_snoc, ih, List.replicate_succ']

theorem not_law_of_sentinel {n : Nat} (hn : n = 2 ^ 32 - 1) :
    ¬ VictimLaw 2 (List.replicate n (.onInsert 1)) := by
  have hrange : ∀ call ∈ List.replicate n (PolicyCall.onInsert 1), call.InRange 2 := by
    intro call hcall
    rw [List.eq_of_mem_replicate hcall]
    decide
  obtain ⟨m, rfl⟩ := Nat.exists_eq_succ_of_ne_zero (by omega : n ≠ 0)
  rw [victimLaw_iff hrange, insertions_replicate, List.replicate_succ']
  intro hlaw
  have hlen : (List.replicate m 1).length = 2 ^ 32 - 2 := by
    rw [List.length_replicate]
    omega
  exact absurd (sentinel_of_law (by decide) hlen hlaw) Nat.one_ne_zero

theorem sentinel_not_found : ¬ VictimLaw 2 (List.replicate (2 ^ 32 - 1) (.onInsert 1)) :=
  not_law_of_sentinel rfl

end MemSim.VictimOrder
