import MemSim.ReplacementPolicy
import MemSim.Utility

namespace MemSim

open Machine

inductive WritePolicyType
  | WriteThrough
  | WriteBack
  deriving DecidableEq, Repr

structure CacheConfig where
  size : UInt32
  associativity : UInt32
  blockSize : UInt32
  policy : ReplacementPolicyType
  writePolicy : WritePolicyType
  accessLatency : UInt32
  updateLatency : UInt32
  upstreamLinkLatency : UInt32
  downstreamLinkLatency : UInt32
  deriving DecidableEq, Repr

namespace CacheConfig

/-- The constructor on a record of its arguments: it clamps the associativity
and asserts the rest. -/
def construct (args : CacheConfig) : Checked String CacheConfig := do
  assert (args.size > 0) "size of cache must be a positive number"
  assert (args.associativity > 0) "cache associativity should be atleast 1"
  assert (args.blockSize > 0) "block size of the cache must be a positive integer"
  assert (args.accessLatency > 0) "access latency must be a positive number"
  assert (args.updateLatency > 0) "update latency must be a positive number"
  assert (args.upstreamLinkLatency > 0) "upstream latency must be a positive number"
  assert (args.downstreamLinkLatency > 0) "downstream latency must be a positive number"
  assert (args.blockSize &&& (args.blockSize - 1) = 0) "block size must be power of 2"
  let sizeRest ← modulo args.size args.blockSize
  assert (sizeRest = 0) "cache size must be multiple of block size"
  let numOfBlocks ← numberOfBlocks args.size args.blockSize
  let associativity := if args.associativity > numOfBlocks then numOfBlocks else args.associativity
  let blocksRest ← modulo numOfBlocks associativity
  assert (blocksRest = 0) "number of blocks must be divisible by associativity"
  let numSets ← numberOfSets numOfBlocks associativity
  assert (numSets &&& (numSets - 1) = 0) "number of sets must be a power of 2"
  return { args with associativity }

structure Accepted (c : CacheConfig) : Prop where
  size_pos : 0 < c.size.toNat
  associativity_pos : 0 < c.associativity.toNat
  blockSize_pos : 0 < c.blockSize.toNat
  block_pow : c.blockSize &&& (c.blockSize - 1) = 0
  blockSize_dvd : c.blockSize.toNat ∣ c.size.toNat
  associativity_dvd : c.associativity.toNat ∣ c.size.toNat / c.blockSize.toNat
  sets_pow : (c.size / c.blockSize / c.associativity) &&&
    (c.size / c.blockSize / c.associativity - 1) = 0

theorem accepted_of_construct {args c : CacheConfig} (h : construct args = .ok c) : Accepted c := by
  simp only [construct, assert_bind_eq_ok, modulo_bind_eq_ok, numberOfBlocks, numberOfSets,
    divide_bind_eq_ok] at h
  obtain ⟨hsize, hassoc, hblock, _, _, _, _, hpow, hbz, hrest, _, haz, hdvd, _, hsets, hret⟩ := h
  obtain rfl := Except.ok.inj hret
  have hpos : ∀ {v : UInt32}, v > 0 → 0 < v.toNat := fun hv => UInt32.lt_iff_toNat_lt.mp hv
  have hmod : ∀ {v w : UInt32}, v % w = 0 → w.toNat ∣ v.toNat := by
    intro v w hv
    apply Nat.dvd_of_mod_eq_zero
    rw [← UInt32.toNat_mod, hv]
    rfl
  refine ⟨hpos hsize, ?_, hpos hblock, hpow, hmod hrest, ?_, hsets⟩
  · have hz : (if args.associativity > args.size / args.blockSize then args.size / args.blockSize
        else args.associativity).toNat ≠ (0 : UInt32).toNat := fun he => haz (UInt32.toNat_inj.mp he)
    exact Nat.pos_of_ne_zero hz
  · have hd := hmod hdvd
    rwa [UInt32.toNat_div] at hd

end CacheConfig

end MemSim
