import MemSim.CacheRun
import MemSim.FifoSets

namespace MemSim.HitCounts

open Machine Cache

variable {μ : Type} {n : Nat}

def place (c : Cache) (address : UInt32) : UInt32 × UInt32 :=
  (address / c.blockSize % c.numOfSets, address / c.blockSize / c.numOfSets)

def places (c : Cache) (trace : List (Access n)) : List (UInt32 × UInt32) :=
  trace.map fun a => place c a.address

def reference (c : Cache) (trace : List (Access n)) : FifoSets.State UInt32 UInt32 :=
  FifoSets.run c.associativity.toNat (places c trace)

/-- The statistics follow the reference model, access by access and in the end. -/
structure Agrees (next : Option (Memory μ)) (s : Frame μ) (trace : List (Access n)) : Prop where
  each : ∀ before a rest, trace = before ++ a :: rest →
    ∃ t, perform next a (after next before s) = .ok () t ∧
      (t.cache.hits, t.cache.misses) =
        if (place s.cache a.address).2 ∈ (reference s.cache before).queue (place s.cache a.address).1 then
          ((after next before s).cache.hits + 1, (after next before s).cache.misses)
        else ((after next before s).cache.hits, (after next before s).cache.misses + 1)
  hits : (after next trace s).cache.hits.toInt = (reference s.cache trace).hits
  misses : (after next trace s).cache.misses.toInt = (reference s.cache trace).misses
  reads : (after next trace s).cache.reads.toInt = trace.countP (!·.isWrite)
  writes : (after next trace s).cache.writes.toInt = trace.countP (·.isWrite)
  total : (after next trace s).cache.hits.toInt + (after next trace s).cache.misses.toInt =
    (after next trace s).cache.reads.toInt + (after next trace s).cache.writes.toInt

theorem toInt_add_eq_iff (x : Int32) (k : Nat) :
    (x + Int32.ofNat k).toInt = k ↔ x = 0 ∧ k < 2 ^ 31 := by
  constructor
  · intro h
    have hlt : k < 2 ^ 31 := by
      have := (x + Int32.ofNat k).toInt_lt
      omega
    refine ⟨?_, hlt⟩
    rw [← Int32.toInt_ofNat_of_lt hlt, Int32.toInt_inj] at h
    rwa [← Int32.add_left_inj (Int32.ofNat k), Int32.zero_add]
  · rintro ⟨rfl, hlt⟩
    rw [Int32.zero_add, Int32.toInt_ofNat_of_lt hlt]

section

variable {next : Option (Memory μ)} (hnext : ∀ level ∈ next, KeepsSize level) (hthrow : ¬ Throwing next)
  {s : Frame μ} (hs : Shape s.cache) (hcold : Cold s.cache) (hn : s.cache.blockSize.toNat = n)

include hnext hthrow hs hcold hn

theorem counts_after (trace : List (Access n)) :
    (after next trace s).cache.counts =
      ⟨s.cache.hits, s.cache.misses + Int32.ofNat trace.length,
        s.cache.reads + Int32.ofNat (trace.countP (!·.isWrite)),
        s.cache.writes + Int32.ofNat (trace.countP (·.isWrite))⟩ := by
  induction trace using List.reverseRecOn with
  | nil => simp [counts]
  | append_singleton trace a ih =>
      obtain ⟨t, ht, hcounts, _⟩ := perform_cold hnext hthrow hs hcold hn trace a
      rw [after_snoc, ht, final_ok, hcounts, ih]
      cases h : a.isWrite <;>
        simp [Counts.looked, Counts.served, h, Int32.ofNat_add, Int32.add_assoc]

theorem perform_misses (before : List (Access n)) (a : Access n) :
    ∃ t, perform next a (after next before s) = .ok () t ∧
      t.cache.hits = (after next before s).cache.hits ∧
      t.cache.misses = (after next before s).cache.misses + 1 := by
  obtain ⟨t, ht, hcounts, _⟩ := perform_cold hnext hthrow hs hcold hn before a
  refine ⟨t, ht, (congrArg Counts.hits hcounts).trans ?_, (congrArg Counts.misses hcounts).trans ?_⟩
  · cases a.isWrite <;> rfl
  · cases a.isWrite <;> rfl

theorem allMiss_of_each {trace : List (Access n)}
    (heach : ∀ before a rest, trace = before ++ a :: rest →
      ∃ t, perform next a (after next before s) = .ok () t ∧
        (t.cache.hits, t.cache.misses) =
          if (place s.cache a.address).2 ∈ (reference s.cache before).queue (place s.cache a.address).1 then
            ((after next before s).cache.hits + 1, (after next before s).cache.misses)
          else ((after next before s).cache.hits, (after next before s).cache.misses + 1)) :
    FifoSets.AllMiss s.cache.associativity.toNat (places s.cache trace) := by
  intro before' b rest' hsplit hmem
  obtain ⟨before, rest, rfl, rfl, hrest⟩ := List.map_eq_append_iff.mp hsplit
  obtain ⟨a, rest, rfl, rfl, rfl⟩ := List.map_eq_cons_iff.mp hrest
  obtain ⟨t, ht, hcount⟩ := heach before a rest rfl
  obtain ⟨u, hu, hhits, _⟩ := perform_misses hnext hthrow hs hcold hn before a
  rw [ht] at hu
  cases hu
  have hmem' : (place s.cache a.address).2 ∈
      (reference s.cache before).queue (place s.cache a.address).1 := hmem
  rw [if_pos hmem', hhits] at hcount
  have hself := (Prod.mk.inj hcount).1
  rw [← Int32.add_zero (after next before s).cache.hits, Int32.add_assoc, Int32.add_right_inj] at hself
  exact absurd hself (by decide)

theorem agrees_iff_distant (trace : List (Access n)) :
    Agrees next s trace ↔
      s.cache.counts = ⟨0, 0, 0, 0⟩ ∧ trace.length < 2 ^ 31 ∧
        FifoSets.Distant s.cache.associativity.toNat (places s.cache trace) := by
  obtain ⟨hhits, hmisses, hreads, hwrites⟩ :=
    Counts.mk.inj (counts_after hnext hthrow hs hcold hn trace)
  rw [← FifoSets.allMiss_iff_distant hs.associativity_pos]
  constructor
  · intro h
    have hmiss := allMiss_of_each hnext hthrow hs hcold hn h.each
    obtain ⟨_, hzero, hall⟩ := FifoSets.run_of_allMiss hs.associativity_pos hmiss
    have h1 := h.hits
    have h2 := h.misses
    have h3 := h.reads
    have h4 := h.writes
    rw [reference, hzero, hhits] at h1
    rw [reference, hall, places, List.length_map, hmisses, toInt_add_eq_iff] at h2
    rw [hreads, toInt_add_eq_iff] at h3
    rw [hwrites, toInt_add_eq_iff] at h4
    have h5 : s.cache.hits = 0 := Int32.toInt_inj.mp h1
    exact ⟨by rw [counts, h5, h2.1, h3.1, h4.1], h2.2, hmiss⟩
  · rintro ⟨hzero, hlt, hmiss⟩
    obtain ⟨h1, h2, h3, h4⟩ := Counts.mk.inj hzero
    obtain ⟨_, hnone, hall⟩ := FifoSets.run_of_allMiss hs.associativity_pos hmiss
    have hreads_le : trace.countP (!·.isWrite) < 2 ^ 31 := lt_of_le_of_lt List.countP_le_length hlt
    have hwrites_le : trace.countP (·.isWrite) < 2 ^ 31 := lt_of_le_of_lt List.countP_le_length hlt
    have e1 : (after next trace s).cache.hits.toInt = 0 := by rw [hhits, h1]; rfl
    have e2 : (after next trace s).cache.misses.toInt = trace.length := by
      rw [hmisses, toInt_add_eq_iff]
      exact ⟨h2, hlt⟩
    have e3 : (after next trace s).cache.reads.toInt = trace.countP (!·.isWrite) := by
      rw [hreads, toInt_add_eq_iff]
      exact ⟨h3, hreads_le⟩
    have e4 : (after next trace s).cache.writes.toInt = trace.countP (·.isWrite) := by
      rw [hwrites, toInt_add_eq_iff]
      exact ⟨h4, hwrites_le⟩
    refine ⟨?_, ?_, ?_, e3, e4, ?_⟩
    · intro before a rest htrace
      obtain ⟨t, ht, hh, hm⟩ := perform_misses hnext hthrow hs hcold hn before a
      have hout : (place s.cache a.address).2 ∉
          (reference s.cache before).queue (place s.cache a.address).1 :=
        hmiss (places s.cache before) (place s.cache a.address) (places s.cache rest)
          (by simp [htrace, places])
      exact ⟨t, ht, by rw [if_neg hout, hh, hm]⟩
    · rw [e1, reference, hnone]
      rfl
    · rw [e2, reference, hall, places, List.length_map]
    · have hsplit : trace.length = trace.countP (·.isWrite) + trace.countP (!·.isWrite) := by
        simpa using List.length_eq_countP_add_countP (fun a : Access n => a.isWrite) (l := trace)
      rw [e1, e2, e3, e4, hsplit]
      omega

end

/-- Every access is counted as a miss, from counters that nothing initialises. -/
theorem agrees_iff {args conf : CacheConfig} (h : CacheConfig.construct args = .ok conf)
    (g : Indeterminate) {next : Option (Memory μ)} (hnext : ∀ level ∈ next, KeepsSize level)
    (hthrow : ¬ Throwing next) (globalCounter : UInt64) (memory : μ)
    (trace : List (Access conf.blockSize.toNat)) :
    ∃ c, Cache.new conf g = .ok c ∧
      (Agrees next (start c globalCounter memory) trace ↔
        (g.hits = 0 ∧ g.misses = 0 ∧ g.reads = 0 ∧ g.writes = 0) ∧ trace.length < 2 ^ 31 ∧
          FifoSets.Distant conf.associativity.toNat (places c trace)) := by
  obtain ⟨c, hc, hfresh, hshape⟩ := new_eq (CacheConfig.accepted_of_construct h) g
  refine ⟨c, hc, ?_⟩
  rw [agrees_iff_distant hnext hthrow (s := start c globalCounter memory) hshape hfresh.cold
    (congrArg UInt32.toNat hfresh.blockSize)]
  have hcounts : c.counts = ⟨g.hits, g.misses, g.reads, g.writes⟩ := by
    rw [counts, hfresh.hits, hfresh.misses, hfresh.reads, hfresh.writes]
  change c.counts = _ ∧ _ ∧ FifoSets.Distant c.associativity.toNat _ ↔ _
  rw [hcounts, hfresh.associativity, Counts.mk.injEq]
  exact Iff.rfl

theorem agrees_iff_direct_mapped :
    ∃ c, Cache.new ⟨16, 1, 4, .FIFO, .WriteBack, 4, 4, 8, 8⟩ zeroFilled = .ok c ∧
      (Agrees (none : Option (Memory Unit)) (start c 0 ())
          [(⟨0, false, [0, 0, 0, 0], rfl⟩ : Access (UInt32.toNat 4)), ⟨16, true, [1, 2, 3, 4], rfl⟩] ↔
        (zeroFilled.hits = 0 ∧ zeroFilled.misses = 0 ∧ zeroFilled.reads = 0 ∧ zeroFilled.writes = 0) ∧
          [(⟨0, false, [0, 0, 0, 0], rfl⟩ : Access (UInt32.toNat 4)),
            ⟨16, true, [1, 2, 3, 4], rfl⟩].length < 2 ^ 31 ∧
          FifoSets.Distant (UInt32.toNat 1) (places c
            [(⟨0, false, [0, 0, 0, 0], rfl⟩ : Access (UInt32.toNat 4)), ⟨16, true, [1, 2, 3, 4], rfl⟩])) :=
  agrees_iff (by decide : CacheConfig.construct ⟨16, 1, 4, .FIFO, .WriteBack, 4, 4, 8, 8⟩ =
    .ok ⟨16, 1, 4, .FIFO, .WriteBack, 4, 4, 8, 8⟩) zeroFilled nofun (by rintro ⟨_, ⟨⟩, _⟩) 0 () _

theorem second_read_missed :
    CacheConfig.construct ⟨16, 2, 4, .FIFO, .WriteBack, 4, 4, 8, 8⟩ =
      .ok ⟨16, 2, 4, .FIFO, .WriteBack, 4, 4, 8, 8⟩ ∧
    ∃ c, Cache.new ⟨16, 2, 4, .FIFO, .WriteBack, 4, 4, 8, 8⟩ zeroFilled = .ok c ∧
      ¬ Agrees (none : Option (Memory Unit)) (start c 0 ())
        [(⟨0, false, [0, 0, 0, 0], rfl⟩ : Access (UInt32.toNat 4)), ⟨0, false, [0, 0, 0, 0], rfl⟩] := by
  refine ⟨by decide, _, rfl, ?_⟩
  intro h
  exact absurd h.misses (by decide)

end MemSim.HitCounts
