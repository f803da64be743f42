import MemSim.CacheSteps

namespace MemSim.WriteThrough

open Machine Cache

/-- The write returns with its data in its block of the next level and still
in the caller's hands, and no other block has changed. -/
def Propagated (blockSize : UInt32) (a : Access blockSize.toNat)
    (s : Frame (UInt32 → Block blockSize.toNat)) : Prop :=
  ∃ t, perform (some (flatMemory blockSize)) a s = .ok () t ∧
    (t.memory (a.address / blockSize)).1 = a.data ∧ t.data = a.data ∧
      ∀ b, b ≠ a.address / blockSize → t.memory b = s.memory b

variable {blockSize : UInt32} {s : Frame (UInt32 → Block blockSize.toNat)}

theorem fetch_flat (address : UInt32) (hdata : s.data.length = blockSize.toNat) :
    (nextAccess (some (flatMemory blockSize)) address false).run s =
      .ok () { s with data := (s.memory (address / blockSize)).1 } := by
  rw [nextAccess_answered]
  simp [flatMemory, hdata, answered]

theorem store_flat (address : UInt32) (hdata : s.data = (s.memory (address / blockSize)).1) :
    (nextAccess (some (flatMemory blockSize)) address true).run s = .ok () s := by
  have hlen : s.data.length = blockSize.toNat := by
    rw [hdata]
    exact (s.memory _).2
  have hsame : (⟨s.data, hlen⟩ : Block blockSize.toNat) = s.memory (address / blockSize) := Subtype.ext hdata
  rw [nextAccess_answered]
  simp [flatMemory, hlen, answered, hsame]

/-- On a cold cache the fetch replaces the data to be written before the store
sends them, so the next level stays as it is. -/
theorem perform_flat (hs : Shape s.cache) (hcold : Cold s.cache) (hsize : s.cache.blockSize = blockSize)
    (hpolicy : s.cache.config.writePolicy = .WriteThrough) (a : Access blockSize.toNat) :
    ∃ t, perform (some (flatMemory blockSize)) a s = .ok () t ∧ t.memory = s.memory ∧
      (a.isWrite = true → t.data = (s.memory (a.address / blockSize)).1) := by
  have hs' : Shape ({ s with data := a.data } : Frame _).cache := hs
  obtain ⟨victim, hvictim, heq⟩ := access_of_miss (some (flatMemory blockSize)) a.isWrite hs'
    (hcold.hitWay_eq_none a.address)
  have hlen : victim.data.length = (s.memory (a.address / blockSize)).1.length := by
    obtain ⟨set, hset, hmem⟩ := mem_of_lineAt hvictim
    rw [hs.lines set hset victim hmem, hsize]
    exact (s.memory _).2.symm
  rw [EStateM.run_bind, writeBack_eq, hcold.invalid hvictim] at heq
  simp only [Bool.false_and, Bool.false_eq_true, if_false] at heq
  rw [refill_eq, fetch_flat] at heq
  case hdata => exact a.data_length
  dsimp only at heq
  cases hwrite : a.isWrite with
  | false =>
      have hcopy : copyData (s.memory (a.address / blockSize)).1 victim.data = .ok victim.data :=
        copyData_eq hlen.symm
      rw [hwrite, accessFinish_read] at heq
      simp only [refilled, hcopy, copied] at heq
      rw [perform, hwrite, heq]
      refine ⟨_, rfl, rfl, ?_⟩
      intro h
      cases h
  | true =>
      have hcopy : copyData victim.data (s.memory (a.address / blockSize)).1 =
          .ok (s.memory (a.address / blockSize)).1 := copyData_eq hlen
      rw [hwrite, accessFinish_writeThrough] at heq
      case hpolicy => exact hpolicy
      rw [store_flat] at heq
      case hdata => rfl
      simp only [refilled, hcopy, copied] at heq
      rw [perform, hwrite, heq]
      exact ⟨_, rfl, rfl, fun _ => rfl⟩

theorem after_flat (hs : Shape s.cache) (hcold : Cold s.cache) (hsize : s.cache.blockSize = blockSize)
    (hpolicy : s.cache.config.writePolicy = .WriteThrough) (trace : List (Access blockSize.toNat)) :
    (after (some (flatMemory blockSize)) trace s).memory = s.memory := by
  induction trace using List.reverseRecOn with
  | nil => rfl
  | append_singleton trace a ih =>
      have hsame := after_sameLines (flatMemory_keeps _) hs (congrArg UInt32.toNat hsize) trace
      obtain ⟨t, ht, hmemory, _⟩ := perform_flat (hsame.shape hs) (hsame.cold hcold)
        (hsame.blockSize.trans hsize) (by rw [hsame.config, hpolicy]) a
      rw [after_snoc, ht, final_ok, hmemory, ih]

/-- A write through the cache arrives exactly when there is nothing to change. -/
theorem propagated_iff {args conf : CacheConfig} (h : CacheConfig.construct args = .ok conf)
    (hpolicy : conf.writePolicy = .WriteThrough) (g : Indeterminate) (globalCounter : UInt64)
    (init : UInt32 → Block conf.blockSize.toNat) (trace : List (Access conf.blockSize.toNat))
    (a : Access conf.blockSize.toNat) (ha : a.isWrite = true) :
    ∃ c, Cache.new conf g = .ok c ∧
      (Propagated conf.blockSize a
          (after (some (flatMemory conf.blockSize)) trace (start c globalCounter init)) ↔
        (init (a.address / conf.blockSize)).1 = a.data) := by
  obtain ⟨c, hc, hfresh, hshape⟩ := new_eq (CacheConfig.accepted_of_construct h) g
  refine ⟨c, hc, ?_⟩
  have hconfig : (start c globalCounter init).cache.config.writePolicy = .WriteThrough := by
    rw [start, hfresh.config, hpolicy]
  have hmemory := after_flat (s := start c globalCounter init) hshape hfresh.cold hfresh.blockSize hconfig trace
  have hsame := after_sameLines (s := start c globalCounter init) (flatMemory_keeps _) hshape
    (congrArg UInt32.toNat hfresh.blockSize) trace
  obtain ⟨t, ht, htm, htd⟩ := perform_flat (hsame.shape hshape) (hsame.cold hfresh.cold)
    (hsame.blockSize.trans hfresh.blockSize) (by rw [hsame.config, hconfig]) a
  have hblock : t.memory (a.address / conf.blockSize) = init (a.address / conf.blockSize) := by
    rw [htm, hmemory]
    rfl
  constructor
  · rintro ⟨u, hu, hdata, _⟩
    rw [ht] at hu
    cases hu
    rw [← hblock, hdata]
  · intro hinit
    refine ⟨t, ht, by rw [hblock, hinit], ?_, fun b _ => by rw [htm]⟩
    rw [htd ha, ← htm, hblock, hinit]

theorem propagated_iff_second_write :
    ∃ c, Cache.new ⟨16, 2, 4, .FIFO, .WriteThrough, 4, 4, 8, 8⟩ zeroFilled = .ok c ∧
      (Propagated 4 ⟨0, true, [1, 2, 3, 4], rfl⟩
          (after (some (flatMemory 4)) [⟨8, false, [0, 0, 0, 0], rfl⟩] (start c 0 fun _ => ⟨[1, 2, 3, 4], rfl⟩)) ↔
        ([1, 2, 3, 4] : List UInt8) = [1, 2, 3, 4]) :=
  propagated_iff (by decide : CacheConfig.construct ⟨16, 2, 4, .FIFO, .WriteThrough, 4, 4, 8, 8⟩ =
    .ok ⟨16, 2, 4, .FIFO, .WriteThrough, 4, 4, 8, 8⟩) rfl zeroFilled 0 (fun _ => ⟨[1, 2, 3, 4], rfl⟩)
    [⟨8, false, [0, 0, 0, 0], rfl⟩] ⟨0, true, [1, 2, 3, 4], rfl⟩ rfl

theorem write_overwritten :
    ∃ c, Cache.new ⟨16, 2, 4, .FIFO, .WriteThrough, 4, 4, 8, 8⟩ zeroFilled = .ok c ∧
      ¬ Propagated 4 ⟨0, true, [1, 2, 3, 4], rfl⟩ (start c 0 fun _ => ⟨[0, 0, 0, 0], rfl⟩) := by
  refine ⟨_, rfl, ?_⟩
  rintro ⟨t, ht, _, hdata, _⟩
  have hread : t.data = [0, 0, 0, 0] := by
    injection ht with _ ht
    rw [← ht]
    rfl
  rw [hread] at hdata
  exact absurd hdata (by decide)

end MemSim.WriteThrough
