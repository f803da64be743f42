import Mathlib.Data.Nat.BitIndices
import Mathlib.Data.Finset.Card
import Mathlib.Data.Finset.Union
import Mathlib.Tactic.Ring

namespace MemSim.BitFields

def bits (m : Nat) : Finset Nat := m.bitIndices.toFinset

@[simp] theorem mem_bits {m i : Nat} : i ∈ bits m ↔ m.testBit i = true := by
  simp [bits]

def count (m : Nat) : Nat := (bits m).card

theorem count_eq_length (m : Nat) : count m = m.bitIndices.length :=
  List.toFinset_card_of_nodup Nat.bitIndices_nodup

@[simp] theorem count_zero : count 0 = 0 := by simp [count_eq_length]

@[simp] theorem count_two_mul (m : Nat) : count (2 * m) = count m := by
  simp [count_eq_length]

@[simp] theorem count_two_mul_add_one (m : Nat) : count (2 * m + 1) = count m + 1 := by
  simp [count_eq_length]

theorem count_pos {m : Nat} (h : m ≠ 0) : 0 < count m := by
  obtain ⟨i, hi⟩ := Nat.exists_testBit_of_ne_zero h
  exact Finset.card_pos.mpr ⟨i, mem_bits.mpr hi⟩

theorem bits_or (a b : Nat) : bits (a ||| b) = bits a ∪ bits b := by
  ext i
  simp

theorem bits_and (a b : Nat) : bits (a &&& b) = bits a ∩ bits b := by
  ext i
  simp

theorem bits_two_pow_sub_one (w : Nat) : bits (2 ^ w - 1) = Finset.range w := by
  ext i
  simp

theorem count_two_pow_sub_one (w : Nat) : count (2 ^ w - 1) = w := by
  rw [count, bits_two_pow_sub_one, Finset.card_range]

theorem count_two_pow_mul (k m : Nat) : count (2 ^ k * m) = count m := by
  induction k with
  | zero => rw [Nat.pow_zero, Nat.one_mul]
  | succ k ih => rw [Nat.pow_succ', Nat.mul_assoc, count_two_mul, ih]

theorem bits_subset_range {m w : Nat} (h : m < 2 ^ w) : bits m ⊆ Finset.range w := by
  intro i hi
  rw [Finset.mem_range]
  by_contra hw
  have hlt : m < 2 ^ i := h.trans_le (Nat.pow_le_pow_right (by omega) (by omega))
  simp [Nat.testBit_lt_two_pow hlt] at hi

theorem count_le {m w : Nat} (h : m < 2 ^ w) : count m ≤ w := by
  simpa [count] using Finset.card_le_card (bits_subset_range h)

theorem eq_zero_of_bits_eq_empty {m : Nat} (h : bits m = ∅) : m = 0 := by
  by_contra hm
  simpa [count, h] using count_pos hm

theorem count_and_pred {m : Nat} (h : m ≠ 0) : count (m &&& (m - 1)) + 1 = count m := by
  induction m using Nat.strong_induction_on with
  | _ m ih =>
      obtain ⟨k, rfl | rfl⟩ := Nat.even_or_odd' m
      · have hk : k ≠ 0 := by omega
        have hland : 2 * k &&& (2 * k - 1) = 2 * (k &&& (k - 1)) := by
          apply Nat.eq_of_testBit_eq
          intro i
          cases i with
          | zero => simp
          | succ i =>
              rw [Nat.testBit_and]
              simp only [Nat.testBit_succ]
              rw [show (2 * k - 1) / 2 = k - 1 by omega, show 2 * k / 2 = k by omega,
                show 2 * (k &&& (k - 1)) / 2 = k &&& (k - 1) by omega, Nat.testBit_and]
        rw [hland, count_two_mul, count_two_mul, ih k (by omega) hk]
      · have hland : (2 * k + 1) &&& (2 * k + 1 - 1) = 2 * k := by
          apply Nat.eq_of_testBit_eq
          intro i
          cases i with
          | zero => simp
          | succ i =>
              rw [Nat.testBit_and]
              simp only [Nat.testBit_succ]
              rw [show (2 * k + 1 - 1) / 2 = k by omega, show (2 * k + 1) / 2 = k by omega,
                show 2 * k / 2 = k by omega, Bool.and_self]
        rw [hland, count_two_mul, count_two_mul_add_one]

def Contiguous (m : Nat) : Prop := ∃ place size, m = (2 ^ size - 1) * 2 ^ place

theorem Contiguous.eq_of_lowest {m p : Nat} (h : Contiguous m) (hne : m ≠ 0) (hdvd : 2 ^ p ∣ m)
    (hsharp : ¬ 2 ^ (p + 1) ∣ m) : m = (2 ^ count m - 1) * 2 ^ p := by
  obtain ⟨place, size, rfl⟩ := h
  rw [Nat.mul_comm, count_two_pow_mul, count_two_pow_sub_one, Nat.mul_comm]
  have hodd : ¬ 2 ∣ 2 ^ size - 1 := by
    intro htwo
    have hsize : size ≠ 0 := by
      rintro rfl
      exact hne (Nat.zero_mul _)
    have hpow : 2 ∣ 2 ^ size := dvd_pow_self 2 hsize
    have hpos := Nat.two_pow_pos size
    omega
  have hplace : place = p := by
    rcases Nat.lt_trichotomy place p with hlt | heq | hgt
    · refine absurd ?_ hodd
      have hbig : 2 ^ (place + 1) ∣ (2 ^ size - 1) * 2 ^ place :=
        (Nat.pow_dvd_pow 2 (Nat.succ_le_of_lt hlt)).trans hdvd
      rw [Nat.pow_succ, Nat.mul_comm (2 ^ size - 1)] at hbig
      exact Nat.dvd_of_mul_dvd_mul_left (Nat.two_pow_pos place) hbig
    · exact heq
    · exact absurd (Dvd.dvd.mul_left (Nat.pow_dvd_pow 2 (Nat.succ_le_of_lt hgt)) _) hsharp
  rw [hplace]

/-- Three fields that share out the low bits of a word among them. -/
structure Partition (a b c w : Nat) : Prop where
  disjoint_ab : a &&& b = 0
  disjoint_ac : a &&& c = 0
  disjoint_bc : b &&& c = 0
  contiguous_a : Contiguous a
  contiguous_b : Contiguous b
  contiguous_c : Contiguous c
  covers : a ||| b ||| c = 2 ^ w - 1

section

variable {a b c w : Nat}

theorem Partition.unique (h : Partition a b c w) {i : Nat} (hi : i < w) :
    (a.testBit i ∧ ¬ b.testBit i ∧ ¬ c.testBit i) ∨
      (¬ a.testBit i ∧ b.testBit i ∧ ¬ c.testBit i) ∨
      (¬ a.testBit i ∧ ¬ b.testBit i ∧ c.testBit i) := by
  have hab := congrArg (Nat.testBit · i) h.disjoint_ab
  have hac := congrArg (Nat.testBit · i) h.disjoint_ac
  have hbc := congrArg (Nat.testBit · i) h.disjoint_bc
  have hor := congrArg (Nat.testBit · i) h.covers
  simp only [Nat.testBit_and, Nat.zero_testBit, Nat.testBit_or, Nat.testBit_two_pow_sub_one, hi,
    decide_true] at hab hac hbc hor
  revert hab hac hbc hor
  cases a.testBit i <;> cases b.testBit i <;> cases c.testBit i <;> simp

/-- Fields that cover a word and have no more ones together than the word
has places cannot overlap. -/
theorem disjoint_of_covers (hcovers : a ||| b ||| c = 2 ^ w - 1)
    (hcount : count a + count b + count c = w) : a &&& b = 0 ∧ a &&& c = 0 ∧ b &&& c = 0 := by
  have hunion : (bits a ∪ bits b ∪ bits c).card = w := by
    rw [← bits_or, ← bits_or, hcovers, bits_two_pow_sub_one, Finset.card_range]
  have hab := Finset.card_union_add_card_inter (bits a) (bits b)
  have habc := Finset.card_union_add_card_inter (bits a ∪ bits b) (bits c)
  unfold count at hcount
  have hi : (bits a ∩ bits b).card = 0 := by omega
  have hj : ((bits a ∪ bits b) ∩ bits c).card = 0 := by omega
  rw [Finset.card_eq_zero] at hi hj
  rw [Finset.union_inter_distrib_right, Finset.union_eq_empty] at hj
  refine ⟨?_, ?_, ?_⟩ <;> apply eq_zero_of_bits_eq_empty
  · rw [bits_and, hi]
  · rw [bits_and, hj.1]
  · rw [bits_and, hj.2]

end

end MemSim.BitFields
