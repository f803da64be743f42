import MemSim.CacheConfig
import MemSim.PowerOfTwo

namespace MemSim.CacheChecks

open Machine CacheConfig PowerOfTwo

def ways (args : CacheConfig) : Nat := min args.associativity.toNat (args.size.toNat / args.blockSize.toNat)

def clamped (args : CacheConfig) : CacheConfig := { args with associativity := UInt32.ofNat (ways args) }

/-- All that the assertions ask for, without machine arithmetic: the cache is
made up of sets of equal ways, of equal blocks. -/
structure Fits (args : CacheConfig) : Prop where
  size : 0 < args.size.toNat
  associativity : 0 < args.associativity.toNat
  access : 0 < args.accessLatency.toNat
  update : 0 < args.updateLatency.toNat
  upstream : 0 < args.upstreamLinkLatency.toNat
  downstream : 0 < args.downstreamLinkLatency.toNat
  block : ∃ k, args.blockSize.toNat = 2 ^ k
  sets : ∃ k, args.size.toNat = 2 ^ k * ways args * args.blockSize.toNat

variable {args c : CacheConfig}

theorem pos_iff {v : UInt32} : v > 0 ↔ 0 < v.toNat := UInt32.lt_iff_toNat_lt

theorem and_pred_iff {v : UInt32} (h : v > 0) : v &&& (v - 1) = 0 ↔ ∃ k, v.toNat = 2 ^ k := by
  rw [← isPowerOf2_iff, isPowerOf2, decide_eq_true h, Bool.true_and, beq_iff_eq]

theorem toNat_if (a b : UInt32) : (if a > b then b else a).toNat = min a.toNat b.toNat := by
  split
  · next h => rw [Nat.min_eq_right (Nat.le_of_lt (UInt32.lt_iff_toNat_lt.mp h))]
  · next h => rw [Nat.min_eq_left (UInt32.le_iff_toNat_le.mp (UInt32.not_lt.mp h))]

theorem ways_toNat (args : CacheConfig) : (UInt32.ofNat (ways args)).toNat = ways args := by
  have hlt : ways args < 2 ^ 32 := Nat.lt_of_le_of_lt (Nat.min_le_left _ _) args.associativity.toNat_lt
  rw [UInt32.toNat_ofNat', Nat.mod_eq_of_lt hlt]

theorem ofNat_ways (args : CacheConfig) : UInt32.ofNat (ways args) =
    if args.associativity > args.size / args.blockSize then args.size / args.blockSize else args.associativity := by
  apply UInt32.toNat_inj.mp
  rw [toNat_if, UInt32.toNat_div, ways_toNat, ways]

theorem sets_iff {size assoc block : Nat} (hsize : 0 < size) (hblock : 0 < block) :
    (size % block = 0 ∧ size / block % min assoc (size / block) = 0 ∧
        ∃ k, size / block / min assoc (size / block) = 2 ^ k) ↔
      ∃ k, size = 2 ^ k * min assoc (size / block) * block := by
  constructor
  · rintro ⟨hrest, hways, k, hk⟩
    refine ⟨k, ?_⟩
    have hblocks := Nat.div_mul_cancel (Nat.dvd_of_mod_eq_zero hrest)
    have hsets := Nat.div_mul_cancel (Nat.dvd_of_mod_eq_zero hways)
    rw [← hk, hsets, hblocks]
  · rintro ⟨k, hk⟩
    have hblocks : size / block = 2 ^ k * min assoc (size / block) :=
      Nat.div_eq_of_eq_mul_left hblock hk
    have hpos : 0 < min assoc (size / block) := by
      by_contra hzero
      rw [Nat.eq_zero_of_not_pos hzero, Nat.mul_zero, Nat.zero_mul] at hk
      omega
    refine ⟨?_, ?_, k, ?_⟩
    · rw [hk]
      exact Nat.mul_mod_left _ _
    · exact Nat.mod_eq_zero_of_dvd ⟨2 ^ k, by rw [Nat.mul_comm]; exact hblocks⟩
    · exact Nat.div_eq_of_eq_mul_left hpos hblocks

theorem ways_pos (hsize : 0 < args.size.toNat) (hassoc : 0 < args.associativity.toNat)
    (hrest : args.size.toNat % args.blockSize.toNat = 0) : 0 < ways args := by
  have hblocks := Nat.div_mul_cancel (Nat.dvd_of_mod_eq_zero hrest)
  refine Nat.lt_min.mpr ⟨hassoc, ?_⟩
  by_contra hzero
  rw [Nat.eq_zero_of_not_pos hzero, Nat.zero_mul] at hblocks
  omega

theorem toNat_eq_zero {v : UInt32} : v = 0 ↔ v.toNat = 0 := by rw [← UInt32.toNat_inj]; rfl

theorem checks_iff (hsize : 0 < args.size.toNat) (hassoc : 0 < args.associativity.toNat)
    (hblock : 0 < args.blockSize.toNat) {w : UInt32} (hw : w = UInt32.ofNat (ways args)) :
    (args.size % args.blockSize = 0 ∧ w ≠ 0 ∧ args.size / args.blockSize % w = 0 ∧
        args.size / args.blockSize / w &&& (args.size / args.blockSize / w - 1) = 0) ↔
      ∃ k, args.size.toNat = 2 ^ k * ways args * args.blockSize.toNat := by
  have hwNat : w.toNat = ways args := by rw [hw, ways_toNat]
  have hsets : (args.size / args.blockSize / w).toNat =
      args.size.toNat / args.blockSize.toNat / ways args := by
    rw [UInt32.toNat_div, UInt32.toNat_div, hwNat]
  rw [ne_eq, toNat_eq_zero, toNat_eq_zero, toNat_eq_zero, UInt32.toNat_mod, UInt32.toNat_mod, UInt32.toNat_div,
    hwNat, ways, ← sets_iff hsize hblock, ← ways]
  constructor
  · rintro ⟨hrest, hne, hways, hpow⟩
    refine ⟨hrest, hways, ?_⟩
    have hle : ways args ≤ args.size.toNat / args.blockSize.toNat := Nat.min_le_right _ _
    have hpos : args.size / args.blockSize / w > 0 := by
      rw [pos_iff, hsets]
      exact Nat.div_pos hle (Nat.pos_of_ne_zero hne)
    rw [and_pred_iff hpos, hsets] at hpow
    exact hpow
  · rintro ⟨hrest, hways, k, hk⟩
    refine ⟨hrest, Nat.ne_of_gt (ways_pos hsize hassoc hrest), hways, ?_⟩
    have hpos : args.size / args.blockSize / w > 0 := by
      rw [pos_iff, hsets, hk]
      exact Nat.two_pow_pos k
    rw [and_pred_iff hpos, hsets]
    exact ⟨k, hk⟩

theorem construct_eq_ok_iff : construct args = .ok c ↔ Fits args ∧ c = clamped args := by
  simp only [construct, assert_bind_eq_ok, modulo_bind_eq_ok, numberOfBlocks, numberOfSets, divide_bind_eq_ok]
  constructor
  · rintro ⟨hsize, hassoc, hblock, ha, hu, hup, hdown, hpow, _, hrest, _, hways, hdvd, _, hsets, hret⟩
    refine ⟨⟨pos_iff.mp hsize, pos_iff.mp hassoc, pos_iff.mp ha, pos_iff.mp hu, pos_iff.mp hup, pos_iff.mp hdown,
      (and_pred_iff hblock).mp hpow, ?_⟩, ?_⟩
    · exact (checks_iff (pos_iff.mp hsize) (pos_iff.mp hassoc) (pos_iff.mp hblock) (ofNat_ways args).symm).mp
        ⟨hrest, hways, hdvd, hsets⟩
    · rw [clamped, ofNat_ways]
      exact (Except.ok.inj hret).symm
  · rintro ⟨h, rfl⟩
    have hblock : 0 < args.blockSize.toNat := by
      obtain ⟨k, hk⟩ := h.block
      rw [hk]
      exact Nat.two_pow_pos k
    have hne : args.blockSize ≠ 0 := fun hzero => by simp [hzero] at hblock
    obtain ⟨hrest, hways, hdvd, hsets⟩ :=
      (checks_iff h.size h.associativity hblock (ofNat_ways args).symm).mpr h.sets
    refine ⟨pos_iff.mpr h.size, pos_iff.mpr h.associativity, pos_iff.mpr hblock, pos_iff.mpr h.access,
      pos_iff.mpr h.update, pos_iff.mpr h.upstream, pos_iff.mpr h.downstream,
      (and_pred_iff (pos_iff.mpr hblock)).mpr h.block, hne, hrest, hne, hways, hdvd, hways, hsets, ?_⟩
    rw [clamped, ofNat_ways]
    rfl

/-- A check that ends with a result, or with an assertion that fails. -/
def Asserted (x : Checked String CacheConfig) : Prop :=
  (∃ c, x = .ok c) ∨ ∃ text, x = .error (.fault (.assertion text))

theorem asserted_bind {p : Prop} [Decidable p] {text : String} {f : Unit → Checked String CacheConfig}
    (h : p → Asserted (f ())) : Asserted (assert p text >>= f) := by
  by_cases hp : p
  · rw [assert, if_pos hp, bind_ok]
    exact h hp
  · rw [assert, if_neg hp, bind_error]
    exact .inr ⟨text, rfl⟩

theorem construct_asserted (args : CacheConfig) : Asserted (construct args) := by
  unfold construct
  refine asserted_bind fun hsize => asserted_bind fun hassoc => asserted_bind fun hblock => ?_
  refine asserted_bind fun _ => asserted_bind fun _ => asserted_bind fun _ => asserted_bind fun _ => ?_
  refine asserted_bind fun _ => ?_
  have hne : args.blockSize ≠ 0 := fun hzero => by simp [hzero] at hblock
  rw [modulo_of_ne hne, bind_ok]
  refine asserted_bind fun hrest => ?_
  have hways : UInt32.ofNat (ways args) ≠ 0 := by
    rw [ne_eq, toNat_eq_zero, ways_toNat]
    rw [toNat_eq_zero, UInt32.toNat_mod] at hrest
    exact Nat.ne_of_gt (ways_pos (pos_iff.mp hsize) (pos_iff.mp hassoc) hrest)
  rw [ofNat_ways] at hways
  rw [numberOfBlocks, divide_of_ne hne, bind_ok]
  dsimp only
  rw [modulo_of_ne hways, bind_ok]
  refine asserted_bind fun _ => ?_
  rw [numberOfSets, divide_of_ne hways, bind_ok]
  exact asserted_bind fun _ => .inl ⟨_, rfl⟩

theorem ways_clamped (args : CacheConfig) : ways (clamped args) = ways args := by
  rw [ways, clamped, ways_toNat, ways]
  exact Nat.min_eq_left (Nat.min_le_right _ _)

theorem clamped_clamped (args : CacheConfig) : clamped (clamped args) = clamped args := by
  change { clamped args with associativity := UInt32.ofNat (ways (clamped args)) } = clamped args
  rw [ways_clamped]
  rfl

theorem fits_clamped (h : Fits args) : Fits (clamped args) := by
  have hpos : 0 < ways args := by
    obtain ⟨k, hk⟩ := h.sets
    by_contra hzero
    rw [Nat.eq_zero_of_not_pos hzero, Nat.mul_zero, Nat.zero_mul] at hk
    exact absurd h.size (by omega)
  refine ⟨h.size, ?_, h.access, h.update, h.upstream, h.downstream, h.block, ?_⟩
  · rw [clamped, ways_toNat]
    exact hpos
  · rw [ways_clamped]
    exact h.sets

/-- The constructor accepts exactly the caches that are made up of `2 ^ k` sets,
whatever else it is given it fails an assertion, and it takes what it has made
as it is. -/
theorem construct_iff (args : CacheConfig) :
    (∀ c, construct args = .ok c ↔ Fits args ∧ c = clamped args) ∧
      (¬ Fits args → ∃ text, construct args = .error (.fault (.assertion text))) ∧
      ∀ c, construct args = .ok c → construct c = .ok c := by
  refine ⟨fun c => construct_eq_ok_iff, ?_, ?_⟩
  · intro hnot
    rcases construct_asserted args with ⟨c, hc⟩ | htext
    · exact absurd (construct_eq_ok_iff.mp hc).1 hnot
    · exact htext
  · intro c hc
    obtain ⟨hfits, rfl⟩ := construct_eq_ok_iff.mp hc
    exact construct_eq_ok_iff.mpr ⟨fits_clamped hfits, (clamped_clamped args).symm⟩

end MemSim.CacheChecks
