import MemSim.CacheRun

namespace MemSim.Transparency

open Machine Cache

/-- Each block's last written data, or what the flat memory held at first. -/
def latest (blockSize : UInt32) (init : UInt32 → Block blockSize.toNat)
    (trace : List (Access blockSize.toNat)) : UInt32 → Block blockSize.toNat :=
  trace.foldl (fun m a =>
    if a.isWrite then Function.update m (a.address / blockSize) ⟨a.data, a.data_length⟩ else m) init

/-- Every read of the run over a flat memory returns with the latest data of its block. -/
def Transparent (blockSize : UInt32) (c : Cache) (globalCounter : UInt64)
    (init : UInt32 → Block blockSize.toNat) (trace : List (Access blockSize.toNat)) : Prop :=
  ∀ before a rest, trace = before ++ a :: rest → a.isWrite = false →
    ∃ t, perform (some (flatMemory blockSize)) a
        (after (some (flatMemory blockSize)) before (start c globalCounter init)) = .ok () t ∧
      t.data = (latest blockSize init before (a.address / blockSize)).1

theorem read_zeros {conf : CacheConfig} {c : Cache} {g : Indeterminate} (hfresh : Fresh conf g c)
    (hshape : Shape c) (globalCounter : UInt64) (init : UInt32 → Block conf.blockSize.toNat)
    (before : List (Access conf.blockSize.toNat)) (a : Access conf.blockSize.toNat)
    (ha : a.isWrite = false) :
    ∃ t, perform (some (flatMemory conf.blockSize)) a
        (after (some (flatMemory conf.blockSize)) before (start c globalCounter init)) = .ok () t ∧
      t.data = List.replicate conf.blockSize.toNat 0 := by
  obtain ⟨t, ht, _, hread⟩ := perform_cold (s := start c globalCounter init) (flatMemory_keeps _)
    (flatMemory_not_throwing _) hshape hfresh.cold (congrArg UInt32.toNat hfresh.blockSize) before a
  exact ⟨t, ht, hread ha⟩

/-- The cache answers every read with zeros, so it is transparent exactly
where zeros are the right answer. -/
theorem transparent_iff {args conf : CacheConfig} (h : CacheConfig.construct args = .ok conf)
    (g : Indeterminate) (globalCounter : UInt64) (init : UInt32 → Block conf.blockSize.toNat)
    (trace : List (Access conf.blockSize.toNat)) :
    ∃ c, Cache.new conf g = .ok c ∧
      (Transparent conf.blockSize c globalCounter init trace ↔
        ∀ before a rest, trace = before ++ a :: rest → a.isWrite = false →
          (latest conf.blockSize init before (a.address / conf.blockSize)).1 =
            List.replicate conf.blockSize.toNat 0) := by
  obtain ⟨c, hc, hfresh, hshape⟩ := new_eq (CacheConfig.accepted_of_construct h) g
  refine ⟨c, hc, ?_, ?_⟩
  · intro htransparent before a rest htrace ha
    obtain ⟨t, ht, hdata⟩ := htransparent before a rest htrace ha
    obtain ⟨u, hu, hzero⟩ := read_zeros hfresh hshape globalCounter init before a ha
    rw [ht] at hu
    cases hu
    rw [← hdata, hzero]
  · intro hlatest before a rest htrace ha
    obtain ⟨t, ht, hzero⟩ := read_zeros hfresh hshape globalCounter init before a ha
    exact ⟨t, ht, by rw [hzero, hlatest before a rest htrace ha]⟩

theorem transparent_iff_write_through :
    ∃ c, Cache.new ⟨16, 2, 4, .FIFO, .WriteThrough, 4, 4, 8, 8⟩ zeroFilled = .ok c ∧
      (Transparent 4 c 0 (fun _ => ⟨[9, 9, 9, 9], rfl⟩) [⟨8, false, [0, 0, 0, 0], rfl⟩] ↔
        ∀ before a rest, [⟨8, false, [0, 0, 0, 0], rfl⟩] = before ++ a :: rest → a.isWrite = false →
          (latest 4 (fun _ => ⟨[9, 9, 9, 9], rfl⟩) before (a.address / 4)).1 =
            List.replicate (UInt32.toNat 4) 0) :=
  transparent_iff (by decide : CacheConfig.construct ⟨16, 2, 4, .FIFO, .WriteThrough, 4, 4, 8, 8⟩ =
    .ok ⟨16, 2, 4, .FIFO, .WriteThrough, 4, 4, 8, 8⟩) zeroFilled 0 _ _

theorem written_block_lost :
    CacheConfig.construct ⟨16, 2, 4, .FIFO, .WriteBack, 4, 4, 8, 8⟩ =
      .ok ⟨16, 2, 4, .FIFO, .WriteBack, 4, 4, 8, 8⟩ ∧
    ∃ c, Cache.new ⟨16, 2, 4, .FIFO, .WriteBack, 4, 4, 8, 8⟩ zeroFilled = .ok c ∧
      ¬ Transparent 4 c 0 (fun _ => ⟨[0, 0, 0, 0], rfl⟩)
        [⟨0, true, [1, 2, 3, 4], rfl⟩, ⟨0, false, [0, 0, 0, 0], rfl⟩] := by
  refine ⟨by decide, _, rfl, ?_⟩
  intro h
  obtain ⟨t, ht, hdata⟩ := h [⟨0, true, [1, 2, 3, 4], rfl⟩] ⟨0, false, [0, 0, 0, 0], rfl⟩ [] rfl rfl
  have hread : t.data = [0, 0, 0, 0] := by
    injection ht with _ ht
    rw [← ht]
    rfl
  rw [hread] at hdata
  exact absurd hdata (by decide)

end MemSim.Transparency
