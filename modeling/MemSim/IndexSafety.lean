import MemSim.CacheRun

namespace MemSim.IndexSafety

open Machine Outcome Cache

variable {μ : Type}

structure InRange (s : Frame μ) : Prop where
  geometry : s.cache.numOfSets.toNat * s.cache.associativity.toNat * s.cache.blockSize.toNat =
    s.cache.size.toNat
  positive : 1 ≤ s.cache.numOfSets.toNat ∧ 1 ≤ s.cache.associativity.toNat ∧ 1 ≤ s.cache.blockSize.toNat
  sets_length : s.cache.sets.length = s.cache.replacementPolicySet.length
  lines : ∀ set ∈ s.cache.sets, ∀ block ∈ set.blocks, block.data.length = s.cache.blockSize.toNat
  indices : ∀ address, ∃ tag setId set policy,
    s.cache.resolveAddress address = .ok (tag, setId) ∧
    0 ≤ setId.toInt ∧ setId.toInt < s.cache.sets.length ∧
    atSet s.cache.sets setId = .ok set ∧
    atSet s.cache.replacementPolicySet setId = .ok policy ∧
    set.blocks.length = policy.order.length ∧
    (∃ found, s.cache.findBlock tag setId = .ok found ∧ ∀ w ∈ found, w < set.blocks.length) ∧
    (∃ w t, (createEmptyBlock setId).run s = .ok w t ∧ w < set.blocks.length) ∧
    ∃ v, policy.getVictim (List.replicate s.cache.associativity.toNat true) = .ok v ∧ v < set.blocks.length

theorem inRange_of_shape {s : Frame μ} (h : Shape s.cache) : InRange s := by
  refine ⟨h.size_eq, ⟨h.numOfSets_pos, h.associativity_pos, h.blockSize_pos⟩,
    h.sets_length.trans h.policies_length.symm, h.lines, ?_⟩
  intro address
  obtain ⟨setId, hresolve, hi, hlt⟩ := resolveAddress_eq h address
  have hset : (address / s.cache.blockSize % s.cache.numOfSets).toNat < s.cache.sets.length := by
    rwa [h.sets_length]
  have hpolicy : (address / s.cache.blockSize % s.cache.numOfSets).toNat <
      s.cache.replacementPolicySet.length := by rwa [h.policies_length]
  have hways := h.ways _ (List.getElem_mem hset)
  have horder := h.orders _ (List.getElem_mem hpolicy)
  refine ⟨_, setId, _, _, hresolve, by omega, by omega, atSet_of_lt hi hset, atSet_of_lt hi hpolicy,
    hways.trans horder.symm, ⟨_, findBlock_eq _ hi hset, ?_⟩, ?_, ?_⟩
  · intro w hw
    obtain ⟨hlt', _⟩ := List.findIdx?_eq_some_iff_getElem.mp hw
    exact hlt'
  · obtain ⟨w, t, hw, hlt', _⟩ := (createEmptyBlock_ends h hi hlt).returns
    exact ⟨w, t, hw, by rwa [hways]⟩
  · obtain ⟨v, hv, hlt'⟩ := FIFOPolicy.getVictim_lt _
      (List.replicate s.cache.associativity.toNat true) (by rw [List.length_replicate, horder])
      (by rw [horder]; exact h.associativity_pos)
    exact ⟨v, hv, by rwa [hways, ← horder]⟩

/-- Every index is in range in every state of every run, and no access in any
of them divides by zero or fails an assertion. -/
theorem run_in_range {args conf : CacheConfig} (h : CacheConfig.construct args = .ok conf)
    (g : Indeterminate) (next : Option (Memory μ)) (hnext : ∀ level ∈ next, KeepsSize level)
    (globalCounter : UInt64) (memory : μ) :
    ∃ c, Cache.new conf g = .ok c ∧ ∀ trace : List (Access conf.blockSize.toNat),
      InRange (after next trace (start c globalCounter memory)) ∧
      ∀ a : Access conf.blockSize.toNat,
        ¬ Faults (perform next a (after next trace (start c globalCounter memory))) := by
  obtain ⟨c, hc, hfresh, hshape⟩ := new_eq (CacheConfig.accepted_of_construct h) g
  refine ⟨c, hc, ?_⟩
  intro trace
  have hsame := after_sameLines (s := start c globalCounter memory) hnext hshape
    (congrArg UInt32.toNat hfresh.blockSize) trace
  have hreached := hsame.shape hshape
  refine ⟨inRange_of_shape hreached, ?_⟩
  intro a
  apply (perform_ends hnext hreached _ a).not_faults
  rw [hsame.blockSize]
  exact congrArg UInt32.toNat hfresh.blockSize

theorem run_in_range_two_sets :
    ∃ c, Cache.new ⟨16, 2, 4, .FIFO, .WriteThrough, 4, 4, 8, 8⟩ zeroFilled = .ok c ∧
      ∀ trace : List (Access (UInt32.toNat 4)),
        InRange (after (some (flatMemory 4)) trace (start c 0 fun _ => ⟨[0, 0, 0, 0], rfl⟩)) ∧
        ∀ a : Access (UInt32.toNat 4),
          ¬ Faults (perform (some (flatMemory 4)) a
            (after (some (flatMemory 4)) trace (start c 0 fun _ => ⟨[0, 0, 0, 0], rfl⟩))) :=
  run_in_range (by decide : CacheConfig.construct ⟨16, 2, 4, .FIFO, .WriteThrough, 4, 4, 8, 8⟩ =
    .ok ⟨16, 2, 4, .FIFO, .WriteThrough, 4, 4, 8, 8⟩) zeroFilled (some (flatMemory 4)) (flatMemory_keeps 4) 0 _

end MemSim.IndexSafety
