import MemSim.SystemConfig
import MemSim.Utility
import Mathlib.Tactic.ByContra

namespace MemSim.PowerOfTwo

open Machine

theorem isPowerOf2_iff (v : UInt32) : isPowerOf2 v = true ↔ ∃ k, v.toNat = 2 ^ k := by
  have hz : v > 0 ↔ v.toNat ≠ 0 := by
    rw [gt_iff_lt, UInt32.lt_iff_toNat_lt, UInt32.toNat_zero]
    omega
  have hand : v.toNat ≠ 0 → ((v &&& (v - 1)) = 0 ↔ v.toNat &&& (v.toNat - 1) = 0) := by
    intro hv
    have hsub : (v - 1).toNat = v.toNat - 1 := by
      rw [UInt32.toNat_sub_of_le _ _ (by rw [UInt32.le_iff_toNat_le]; exact Nat.pos_iff_ne_zero.mpr hv)]
      rfl
    rw [← UInt32.toNat_inj, UInt32.toNat_and, hsub, UInt32.toNat_zero]
  rw [isPowerOf2, Bool.and_eq_true, decide_eq_true_iff, beq_iff_eq, hz]
  rw [and_congr_right hand]
  exact Nat.ne_zero_and_sub_one_eq_zero_iff_isPowerOfTwo

def log2Rank (s : UInt32 × UInt8) : Nat := Nat.log2 (2 * s.1.toNat + 1)

theorem log2_two_mul_add_one {x : Nat} (h : 0 < x) : Nat.log2 (2 * x + 1) = Nat.log2 x + 1 := by
  rw [Nat.log2_def, if_pos (by omega), show (2 * x + 1) / 2 = x by omega]

theorem log2_half (x : Nat) : Nat.log2 (2 * (x / 2) + 1) = Nat.log2 x := by
  rw [Nat.log2_def x]
  by_cases hx : 2 ≤ x
  · rw [if_pos hx, log2_two_mul_add_one (by omega)]
  · rw [if_neg hx, show x / 2 = 0 by omega]
    rfl

theorem log2Rank_shift (v : UInt32) (n : UInt8) : log2Rank (v >>> 1, n) = Nat.log2 v.toNat := by
  have hshift : (v >>> 1).toNat = v.toNat / 2 := by
    rw [UInt32.toNat_shiftRight, Nat.shiftRight_eq_div_pow]
    rfl
  rw [log2Rank, hshift, log2_half]

theorem log2Rank_round (s : UInt32 × UInt8) (h : 0 < log2Rank s) :
    log2Rank (log2Round s) + 1 = log2Rank s := by
  have hx : 0 < s.1.toNat := by
    by_contra hz
    rw [log2Rank, Nat.eq_zero_of_not_pos hz] at h
    exact absurd h (by decide)
  rw [log2Round, log2Rank_shift, log2Rank, log2_two_mul_add_one hx]

theorem log2Rank_pos (s : UInt32 × UInt8) : (s.1 != 0) = true ↔ 0 < log2Rank s := by
  rw [bne_iff_ne, ne_eq, ← UInt32.toNat_inj, UInt32.toNat_zero]
  constructor
  · intro h
    rw [log2Rank, log2_two_mul_add_one (Nat.pos_of_ne_zero h)]
    omega
  · intro h hz
    rw [log2Rank, hz] at h
    exact absurd h (by decide)

theorem log2_lt_32 (v : UInt32) : Nat.log2 v.toNat < 32 := by
  by_cases hz : v.toNat = 0
  · rw [hz]
    decide
  · exact (Nat.log2_lt hz).mpr v.toNat_lt

theorem log2Of_eq (v : UInt32) : log2Of v = .ok (UInt8.ofNat (Nat.log2 v.toNat)) := by
  have hrun := While.loop_of_rank _ log2Round (fun _ => True) log2Rank
    (fun s _ => log2Rank_pos s) (fun s _ hr => ⟨trivial, log2Rank_round s hr⟩) 32 (v >>> 1, 0) trivial
  have hlt := log2_lt_32 v
  rw [log2Rank_shift, if_pos (by omega)] at hrun
  obtain ⟨hq, _, hend⟩ := While.loop_conserves _ log2Round (fun _ => True)
    (fun s : UInt32 × UInt8 => UInt8.ofNat (log2Rank s) + s.2)
    (by
      intro s _ hg
      change UInt8.ofNat (log2Rank (log2Round s)) + (s.2 + 1) = _
      rw [← log2Rank_round s ((log2Rank_pos s).mp hg), UInt8.ofNat_add, UInt8.add_assoc,
        UInt8.add_comm s.2]
      rfl)
    (fun _ _ _ => trivial) 32 (v >>> 1, 0) _ trivial hrun
  have hzero := bne_eq_false_iff_eq.mp hend
  rw [log2Rank_shift, log2Rank, hzero] at hq
  have hone : UInt8.ofNat (Nat.log2 (2 * (0 : UInt32).toNat + 1)) = 0 := by decide
  rw [hone, UInt8.zero_add] at hq
  rw [log2Of, hrun]
  exact congrArg Except.ok (hq.trans (UInt8.add_zero _))

theorem log2Of_toNat {v : UInt32} {n : UInt8} (h : log2Of v = .ok n) : n.toNat = Nat.log2 v.toNat := by
  rw [log2Of_eq] at h
  have hlt := log2_lt_32 v
  rw [← Except.ok.inj h, UInt8.toNat_ofNat', Nat.mod_eq_of_lt (by omega)]

theorem isPowerOf2_iff_log2 (v : UInt32) :
    isPowerOf2 v = true ↔ 0 < v.toNat ∧ 2 ^ Nat.log2 v.toNat = v.toNat := by
  rw [isPowerOf2_iff]
  constructor
  · rintro ⟨k, hk⟩
    rw [hk, Nat.log2_two_pow]
    exact ⟨Nat.two_pow_pos k, rfl⟩
  · rintro ⟨_, hk⟩
    exact ⟨_, hk.symm⟩

def CutsAt (v : UInt32) (place : Nat) (address : UInt32) : Prop :=
  ∃ line rest, lineAddress address v = .ok line ∧ offset address v = .ok rest ∧
    (∀ i, line.toNat.testBit i = address.toNat.testBit (place + i)) ∧
    ∀ i, rest.toNat.testBit i = (decide (i < place) && address.toNat.testBit i)

theorem cutsAt_of_two_pow {v : UInt32} {k : Nat} (h : v.toNat = 2 ^ k) (address : UInt32) :
    CutsAt v k address := by
  have hne : v ≠ 0 := by
    rw [ne_eq, ← UInt32.toNat_inj, UInt32.toNat_zero, h]
    exact Nat.pos_iff_ne_zero.mp (Nat.two_pow_pos k)
  refine ⟨address / v, address % v, divide_of_ne hne, modulo_of_ne hne, ?_, ?_⟩
  · intro i
    rw [UInt32.toNat_div, h, Nat.testBit_div_two_pow, Nat.add_comm]
  · intro i
    rw [UInt32.toNat_mod, h, Nat.testBit_mod_two_pow]

structure LogAgrees (v : UInt32) (n : UInt8) : Prop where
  log : log2Of v = .ok n
  power : isPowerOf2 v = true ↔ ∃ k, v.toNat = 2 ^ k
  bounds : 0 < v.toNat → 2 ^ n.toNat ≤ v.toNat ∧ v.toNat < 2 ^ (n.toNat + 1)
  exact : isPowerOf2 v = true ↔ 0 < v.toNat ∧ 2 ^ n.toNat = v.toNat
  cuts : isPowerOf2 v = true → ∀ address, CutsAt v n.toNat address

theorem log2_agrees (v : UInt32) : ∃ n, LogAgrees v n := by
  have hlog := log2Of_eq v
  have hn := log2Of_toNat hlog
  refine ⟨_, hlog, isPowerOf2_iff v, ?_, ?_, ?_⟩
  · intro hpos
    rw [hn]
    exact ⟨Nat.log2_self_le (Nat.pos_iff_ne_zero.mp hpos), Nat.lt_log2_self⟩
  · rw [hn]
    exact isPowerOf2_iff_log2 v
  · intro hp address
    rw [hn]
    exact cutsAt_of_two_pow ((isPowerOf2_iff_log2 v).mp hp).2.symm address

end MemSim.PowerOfTwo
