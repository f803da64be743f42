import MemSim.DRAMConfig
import Mathlib.Data.Nat.Factorization.Basic

namespace MemSim.MaskLoops

open Machine BitFields DRAMConfig

structure Counts (mask : UInt64) (k : UInt8) : Prop where
  returns : popcount mask = .ok k
  number : k.toNat = ((Finset.range 64).filter fun i => mask.toNat.testBit i = true).card
  rounds : ∀ n, While.loop (fun s => s.1 != 0) popcountRound n (mask, 0) =
    if k.toNat ≤ n then some (0, k) else none

structure FindsLowest (mask : UInt64) (k p : UInt8) : Prop where
  returns : firstOnePosition mask = .ok p
  divides : 2 ^ p.toNat ∣ mask.toNat
  sharp : ¬ 2 ^ (p.toNat + 1) ∣ mask.toNat
  odd : ∃ m, m % 2 = 1 ∧ mask.toNat = 2 ^ p.toNat * m
  contiguous : Contiguous mask.toNat → mask.toNat = (2 ^ k.toNat - 1) * 2 ^ p.toNat

theorem bits_eq_filter (mask : UInt64) :
    bits mask.toNat = (Finset.range 64).filter fun i => mask.toNat.testBit i = true := by
  ext i
  rw [mem_bits, Finset.mem_filter]
  constructor
  · intro h
    exact ⟨bits_subset_range (by simpa using mask.toNat_lt) (mem_bits.mpr h), h⟩
  · intro h
    exact h.2

theorem counts (mask : UInt64) : Counts mask (UInt8.ofNat (count mask.toNat)) where
  returns := popcount_eq mask
  number := by rw [popcount_toNat (popcount_eq mask), count, bits_eq_filter]
  rounds n := by rw [popcount_toNat (popcount_eq mask), popcount_loop]

theorem halving_loop {q : Nat} (hq : q % 2 = 1) (t n : Nat) (s : UInt64 × UInt8)
    (hs : s.1.toNat = 2 ^ t * q) (ht : t ≤ n) :
    ∃ r, While.loop (fun s : UInt64 × UInt8 => s.1 % 2 == 0) (fun s => (s.1 / 2, s.2 + 1)) n s = some r ∧
      r.2 = s.2 + UInt8.ofNat t := by
  induction t generalizing n s with
  | zero =>
      have hodd : (s.1 % 2 == 0) = false := by
        rw [beq_eq_false_iff_ne, ne_eq, ← UInt64.toNat_inj, UInt64.toNat_mod, hs]
        simp [hq]
      refine ⟨s, ?_, by simp⟩
      cases n <;> simp [While.loop, hodd]
  | succ t ih =>
      have heven : (s.1 % 2 == 0) = true := by
        rw [beq_iff_eq, ← UInt64.toNat_inj, UInt64.toNat_mod, hs, Nat.pow_succ', Nat.mul_assoc]
        simp
      have hhalf : (s.1 / 2).toNat = 2 ^ t * q := by
        rw [UInt64.toNat_div, hs, Nat.pow_succ', Nat.mul_assoc]
        exact Nat.mul_div_cancel_left _ (by decide)
      cases n with
      | zero => omega
      | succ n =>
          obtain ⟨r, hr, hr'⟩ := ih n (s.1 / 2, s.2 + 1) hhalf (by omega)
          refine ⟨r, by rw [While.loop, if_pos heven, hr], ?_⟩
          rw [hr', UInt8.ofNat_add, UInt8.add_assoc, UInt8.add_comm 1]
          rfl

theorem findsLowest {mask : UInt64} (h : mask ≠ 0) :
    ∃ p, FindsLowest mask (UInt8.ofNat (count mask.toNat)) p := by
  have hne : mask.toNat ≠ 0 := by rwa [ne_eq, ← UInt64.toNat_inj, UInt64.toNat_zero] at h
  obtain ⟨t, q, hodd, hmask⟩ := Nat.exists_eq_two_pow_mul_odd hne
  have hq := Nat.odd_iff.mp hodd
  have ht : t < 64 := by
    have hle : 2 ^ t ≤ mask.toNat := by
      rw [hmask]
      exact Nat.le_mul_of_pos_right _ (by omega)
    exact (Nat.pow_lt_pow_iff_right Nat.one_lt_two).mp (lt_of_le_of_lt hle mask.toNat_lt)
  obtain ⟨r, hr, hr'⟩ := halving_loop hq t 64 (mask, 0) hmask (by omega)
  have hp : r.2.toNat = t := by
    rw [hr', UInt8.zero_add, UInt8.toNat_ofNat', Nat.mod_eq_of_lt (by omega)]
  have hpos : mask > 0 := by
    rw [gt_iff_lt, UInt64.lt_iff_toNat_lt, UInt64.toNat_zero]
    omega
  have hdvd : 2 ^ t ∣ mask.toNat := ⟨q, hmask⟩
  have hsharp : ¬ 2 ^ (t + 1) ∣ mask.toNat := by
    rw [hmask, Nat.pow_succ]
    intro hd
    have htwo := Nat.dvd_of_mul_dvd_mul_left (Nat.two_pow_pos t) hd
    omega
  refine ⟨r.2, ?_, by rwa [hp], by rwa [hp], ⟨q, hq, by rwa [hp]⟩, ?_⟩
  · simp [firstOnePosition, assert, hpos, hr]
  · intro hc
    rw [hp, popcount_toNat (popcount_eq mask)]
    exact hc.eq_of_lowest hne hdvd hsharp

theorem mask_loops (mask : UInt64) :
    ∃ k, Counts mask k ∧ (mask ≠ 0 → ∃ p, FindsLowest mask k p) :=
  ⟨_, counts mask, findsLowest⟩

end MemSim.MaskLoops
