import MemSim.Cache
import MemSim.Outcome
import Mathlib.Algebra.Group.Nat.Even
import Mathlib.Data.Nat.Bitwise

namespace MemSim

open Machine Outcome

namespace Cache

structure Shape (c : Cache) : Prop where
  blockSize_pos : 0 < c.blockSize.toNat
  associativity_pos : 0 < c.associativity.toNat
  numOfSets_pos : 0 < c.numOfSets.toNat
  numOfSets_le : c.numOfSets.toNat ≤ 2 ^ 31
  size_eq : c.numOfSets.toNat * c.associativity.toNat * c.blockSize.toNat = c.size.toNat
  sets_length : c.sets.length = c.numOfSets.toNat
  policies_length : c.replacementPolicySet.length = c.numOfSets.toNat
  ways : ∀ set ∈ c.sets, set.blocks.length = c.associativity.toNat
  lines : ∀ set ∈ c.sets, ∀ block ∈ set.blocks, block.data.length = c.blockSize.toNat
  orders : ∀ policy ∈ c.replacementPolicySet, policy.order.length = c.associativity.toNat

theorem ne_zero_of_toNat_pos {v : UInt32} (h : 0 < v.toNat) : v ≠ 0 := by
  rintro rfl
  exact absurd h (Nat.lt_irrefl 0)

theorem le_of_and_pred_eq_zero {v : UInt32} (h : v &&& (v - 1) = 0) : v.toNat ≤ 2 ^ 31 := by
  rcases Nat.eq_zero_or_pos v.toNat with hz | hpos
  · omega
  · have hsub : (v - 1).toNat = v.toNat - 1 := by
      rw [UInt32.toNat_sub_of_le _ _ (by rw [UInt32.le_iff_toNat_le]; exact hpos)]
      rfl
    have hand := congrArg UInt32.toNat h
    rw [UInt32.toNat_and, hsub] at hand
    obtain ⟨k, hk⟩ := (Nat.and_sub_one_eq_zero_iff_isPowerOfTwo hpos.ne').mp hand
    have hlt := v.toNat_lt
    rw [hk] at hlt ⊢
    have hk32 : k < 32 := (Nat.pow_lt_pow_iff_right (by decide)).mp hlt
    exact Nat.pow_le_pow_right (by decide) (by omega)

structure Fresh (conf : CacheConfig) (g : Indeterminate) (c : Cache) : Prop where
  config : c.config = conf
  blockSize : c.blockSize = conf.blockSize
  associativity : c.associativity = conf.associativity
  numOfSets : c.numOfSets = conf.size / conf.blockSize / conf.associativity
  sets : c.sets = (List.range c.numOfSets.toNat).map (newSet g conf.associativity conf.blockSize)
  policies : c.replacementPolicySet = List.replicate c.numOfSets.toNat (FIFOPolicy.new conf.associativity)
  hits : c.hits = g.hits
  misses : c.misses = g.misses
  reads : c.reads = g.reads
  writes : c.writes = g.writes

theorem new_eq {conf : CacheConfig} (h : conf.Accepted) (g : Indeterminate) :
    ∃ c, Cache.new conf g = .ok c ∧ Fresh conf g c ∧ Shape c := by
  refine ⟨_, by
    simp only [Cache.new, numberOfBlocks, numberOfSets, divide, if_neg (ne_zero_of_toNat_pos h.blockSize_pos),
      if_neg (ne_zero_of_toNat_pos h.associativity_pos), bind_ok]
    rfl, ⟨rfl, rfl, rfl, rfl, rfl, rfl, rfl, rfl, rfl, rfl⟩, ?_⟩
  have hpos : 0 < (conf.size / conf.blockSize / conf.associativity).toNat := by
    rw [UInt32.toNat_div, UInt32.toNat_div]
    apply Nat.div_pos _ h.associativity_pos
    apply Nat.le_of_dvd _ h.associativity_dvd
    exact Nat.div_pos (Nat.le_of_dvd h.size_pos h.blockSize_dvd) h.blockSize_pos
  refine ⟨h.blockSize_pos, h.associativity_pos, hpos, le_of_and_pred_eq_zero h.sets_pow, ?_, ?_, ?_,
    ?_, ?_, ?_⟩
  · simp only [UInt32.toNat_div]
    rw [Nat.div_mul_cancel h.associativity_dvd, Nat.div_mul_cancel h.blockSize_dvd]
  · simp
  · simp
  · intro set hset
    obtain ⟨i, _, rfl⟩ := List.mem_map.mp hset
    simp [newSet]
  · intro set hset block hblock
    obtain ⟨i, _, rfl⟩ := List.mem_map.mp hset
    obtain ⟨j, _, rfl⟩ := List.mem_map.mp hblock
    simp [newBlock]
  · intro policy hp
    obtain ⟨_, rfl⟩ := List.mem_replicate.mp hp
    exact FIFOPolicy.new_length _

theorem atSet_of_lt {α : Type} {l : List α} {setId : Int32} {i : Nat} (hi : setId.toInt = i)
    (h : i < l.length) : atSet l setId = .ok l[i] := by
  rw [atSet, hi, if_pos (Int.natCast_nonneg i), Int.toNat_natCast, element_of_lt h]

theorem resolveAddress_ok {c : Cache} (h : Shape c) (address : UInt32) :
    c.resolveAddress address =
      .ok (address / c.blockSize / c.numOfSets, (address / c.blockSize % c.numOfSets).toInt32) := by
  simp [resolveAddress, lineAddress, divide, modulo, ne_zero_of_toNat_pos h.blockSize_pos,
    ne_zero_of_toNat_pos h.numOfSets_pos]

theorem setIndex_lt {c : Cache} (h : Shape c) (address : UInt32) :
    (address / c.blockSize % c.numOfSets).toNat < c.numOfSets.toNat := by
  rw [UInt32.toNat_mod]
  exact Nat.mod_lt _ h.numOfSets_pos

theorem setId_toInt {c : Cache} (h : Shape c) (address : UInt32) :
    (address / c.blockSize % c.numOfSets).toInt32.toInt = (address / c.blockSize % c.numOfSets).toNat := by
  have hle := h.numOfSets_le
  have hlt := setIndex_lt h address
  apply BitVec.toInt_eq_toNat_of_lt
  change 2 * (address / c.blockSize % c.numOfSets).toNat < 2 ^ 32
  omega

theorem resolveAddress_eq {c : Cache} (h : Shape c) (address : UInt32) :
    ∃ setId, c.resolveAddress address = .ok (address / c.blockSize / c.numOfSets, setId) ∧
      setId.toInt = (address / c.blockSize % c.numOfSets).toNat ∧
      (address / c.blockSize % c.numOfSets).toNat < c.numOfSets.toNat :=
  ⟨_, resolveAddress_ok h address, setId_toInt h address, setIndex_lt h address⟩

/-- What no access changes, whether it returns or throws: every line and
every extent. -/
structure SameLines (c d : Cache) : Prop where
  sets : d.sets = c.sets
  config : d.config = c.config
  size : d.size = c.size
  associativity : d.associativity = c.associativity
  blockSize : d.blockSize = c.blockSize
  numOfSets : d.numOfSets = c.numOfSets
  orders : d.replacementPolicySet.map (·.order.length) = c.replacementPolicySet.map (·.order.length)

theorem SameLines.refl (c : Cache) : SameLines c c := ⟨rfl, rfl, rfl, rfl, rfl, rfl, rfl⟩

theorem SameLines.symm {c d : Cache} (h : SameLines c d) : SameLines d c :=
  ⟨h.sets.symm, h.config.symm, h.size.symm, h.associativity.symm, h.blockSize.symm, h.numOfSets.symm,
    h.orders.symm⟩

theorem SameLines.trans {c d e : Cache} (h : SameLines c d) (h' : SameLines d e) : SameLines c e :=
  ⟨h'.sets.trans h.sets, h'.config.trans h.config, h'.size.trans h.size,
    h'.associativity.trans h.associativity, h'.blockSize.trans h.blockSize,
    h'.numOfSets.trans h.numOfSets, h'.orders.trans h.orders⟩

theorem SameLines.shape {c d : Cache} (h : SameLines c d) (hc : Shape c) : Shape d := by
  have hlength : d.replacementPolicySet.length = c.replacementPolicySet.length := by
    simpa using congrArg List.length h.orders
  refine ⟨?_, ?_, ?_, ?_, ?_, ?_, ?_, ?_, ?_, ?_⟩
  · rw [h.blockSize]
    exact hc.blockSize_pos
  · rw [h.associativity]
    exact hc.associativity_pos
  · rw [h.numOfSets]
    exact hc.numOfSets_pos
  · rw [h.numOfSets]
    exact hc.numOfSets_le
  · rw [h.numOfSets, h.associativity, h.blockSize, h.size]
    exact hc.size_eq
  · rw [h.sets, h.numOfSets]
    exact hc.sets_length
  · rw [hlength, h.numOfSets]
    exact hc.policies_length
  · rw [h.sets, h.associativity]
    exact hc.ways
  · rw [h.sets, h.blockSize]
    exact hc.lines
  · intro policy hp
    have hmem := List.mem_map_of_mem (f := fun p : FIFOPolicy => p.order.length) hp
    rw [h.orders] at hmem
    obtain ⟨old, hold, he⟩ := List.mem_map.mp hmem
    rw [← he, h.associativity]
    exact hc.orders old hold

structure Keeps {μ : Type} (s t : Frame μ) : Prop extends SameLines s.cache t.cache where
  data_length : t.data.length = s.data.length

section

variable {μ : Type} {s t u : Frame μ}

theorem Keeps.refl (s : Frame μ) : Keeps s s := ⟨SameLines.refl _, rfl⟩

theorem Keeps.trans (h : Keeps s t) (h' : Keeps t u) : Keeps s u :=
  ⟨h.toSameLines.trans h'.toSameLines, h'.data_length.trans h.data_length⟩

/-- The next level never resizes the caller's data, not even when it throws. -/
def KeepsSize (level : Memory μ) : Prop :=
  ∀ address isWrite data memory,
    (final (level.access address isWrite (data, memory))).1.length = data.length

def Throwing (next : Option (Memory μ)) : Prop :=
  ∃ level ∈ next, ∃ address isWrite s e t, level.access address isWrite s = .error e t

/-- The state in which an exception of the next level leaves the cache. -/
def Thrown (next : Option (Memory μ)) (s t : Frame μ) : Prop := Keeps s t ∧ Throwing next

theorem Keeps.thrown {next : Option (Memory μ)} (h : Keeps s t) (h' : Thrown next t u) : Thrown next s u :=
  ⟨h.trans h'.1, h'.2⟩

structure Counts where
  hits : Int32
  misses : Int32
  reads : Int32
  writes : Int32
  deriving DecidableEq, Repr

namespace Counts

def looked (n : Counts) (found : Bool) : Counts :=
  if found then { n with hits := n.hits + 1 } else { n with misses := n.misses + 1 }

def served (n : Counts) (isWrite : Bool) : Counts :=
  if isWrite then { n with writes := n.writes + 1 } else { n with reads := n.reads + 1 }

end Counts

def counts (c : Cache) : Counts := ⟨c.hits, c.misses, c.reads, c.writes⟩

def resident (c : Cache) (address : UInt32) : Bool :=
  match c.sets[(address / c.blockSize % c.numOfSets).toNat]? with
  | none => false
  | some set => set.blocks.any fun block =>
      block.valid && block.tag == address / c.blockSize / c.numOfSets

structure Loaded (found : Option Bool) (s : Frame μ) (block : CacheBlock) (t : Frame μ) : Prop extends
    Keeps s t where
  line : ∃ set ∈ s.cache.sets, ∃ line ∈ set.blocks, block.data = line.data
  counts : t.cache.counts = found.elim s.cache.counts s.cache.counts.looked

structure Accessed (s : Frame μ) (address : UInt32) (isWrite : Bool) (t : Frame μ) : Prop extends
    Keeps s t where
  counts : t.cache.counts = (s.cache.counts.looked (s.cache.resident address)).served isWrite
  line : isWrite = false → ∃ set ∈ s.cache.sets, ∃ line ∈ set.blocks, t.data = line.data

theorem nextAccess_ends {next : Option (Memory μ)} (hnext : ∀ level ∈ next, KeepsSize level)
    (address : UInt32) (isWrite : Bool) (s : Frame μ) :
    Ends (fun _ t => Keeps s t ∧ t.cache = s.cache) (Thrown next s)
      ((nextAccess next address isWrite).run s) := by
  change Ends _ _ (nextAccess next address isWrite s)
  cases next with
  | none => exact ⟨Keeps.refl s, rfl⟩
  | some level =>
      have hlen := hnext level rfl address isWrite s.data s.memory
      unfold nextAccess
      cases h : level.access address isWrite (s.data, s.memory) with
      | ok a t =>
          rw [h] at hlen
          simp only [h]
          exact ⟨⟨SameLines.refl _, hlen⟩, rfl⟩
      | error e t =>
          rw [h] at hlen
          simp only [h]
          exact ⟨⟨SameLines.refl _, hlen⟩, level, rfl, address, isWrite, _, e, t, h⟩

theorem orders_set {policies : List FIFOPolicy} {i : Nat} (hi : i < policies.length) {p : FIFOPolicy}
    (h : p.order.length = policies[i].order.length) :
    (policies.set i p).map (·.order.length) = policies.map (·.order.length) := by
  rw [List.map_set, h]
  apply List.ext_getElem
  · simp
  · intro j h1 h2
    rw [List.getElem_set]
    split
    · next he => subst he; simp
    · rfl

theorem createEmptyBlock_ends {setId : Int32} {i : Nat} (hs : Shape s.cache)
    (hi : setId.toInt = i) (hlt : i < s.cache.numOfSets.toNat) :
    Ends (fun w t => w < s.cache.associativity.toNat ∧ Keeps s t ∧ t.cache.counts = s.cache.counts)
      (fun _ => False) ((createEmptyBlock setId).run s) := by
  have hset : i < s.cache.sets.length := by rwa [hs.sets_length]
  have hpolicy : i < s.cache.replacementPolicySet.length := by rwa [hs.policies_length]
  have horder := hs.orders _ (List.getElem_mem hpolicy)
  simp only [createEmptyBlock, ends_bind, ends_get, atSet_of_lt hi hset, ends_lift_ok]
  cases hfind : s.cache.sets[i].blocks.findIdx? fun block => !block.valid with
  | some w =>
      rw [List.findIdx?_eq_some_iff_getElem] at hfind
      obtain ⟨hw, _⟩ := hfind
      rw [hs.ways _ (List.getElem_mem hset)] at hw
      exact ⟨hw, Keeps.refl s, rfl⟩
  | none =>
      obtain ⟨w, hw, hlt'⟩ := FIFOPolicy.getVictim_lt s.cache.replacementPolicySet[i]
        (List.replicate s.cache.associativity.toNat true) (by rw [List.length_replicate, horder])
        (by rw [horder]; exact hs.associativity_pos)
      simp only [ends_bind, ends_modify, atSet_of_lt hi hpolicy, ends_lift_ok, hw]
      rw [horder] at hlt'
      exact ⟨hlt', ⟨⟨rfl, rfl, rfl, rfl, rfl, rfl, rfl⟩, rfl⟩, rfl⟩

theorem accessHit_ends {setId : Int32} {i w : Nat} (hs : Shape s.cache) (hi : setId.toInt = i)
    (hlt : i < s.cache.numOfSets.toNat) (hw : w < s.cache.associativity.toNat) :
    Ends (Loaded (some true) s) (fun _ => False) ((accessHit setId w).run s) := by
  have hset : i < s.cache.sets.length := by rwa [hs.sets_length]
  have hpolicy : i < s.cache.replacementPolicySet.length := by rwa [hs.policies_length]
  have hway : w < s.cache.sets[i].blocks.length := by rwa [hs.ways _ (List.getElem_mem hset)]
  simp only [accessHit, fetchAdd, ends_bind, ends_get, ends_modify, ends_modifyGet, ends_pure,
    atSet_of_lt hi hset, atSet_of_lt hi hpolicy, element_of_lt hway, ends_lift_ok]
  refine ⟨⟨⟨rfl, rfl, rfl, rfl, rfl, rfl, ?_⟩, rfl⟩,
    ⟨_, List.getElem_mem hset, _, List.getElem_mem hway, rfl⟩, rfl⟩
  apply orders_set (by simpa [hi] using hpolicy)
  simp [hi, FIFOPolicy.onAccess]

theorem writeBack_ends {next : Option (Memory μ)} (hnext : ∀ level ∈ next, KeepsSize level)
    (victim : CacheBlock) (setId : Int32) (s : Frame μ) :
    Ends (fun _ t => Keeps s t ∧ t.cache = s.cache) (Thrown next s)
      ((writeBack next victim setId).run s) := by
  simp only [writeBack, ends_bind, ends_get]
  split
  · exact nextAccess_ends hnext _ true s
  · exact ⟨Keeps.refl s, rfl⟩

theorem insertBlock_ends {next : Option (Memory μ)} (hnext : ∀ level ∈ next, KeepsSize level)
    (address tag : UInt32) {setId : Int32} {i w : Nat} (hs : Shape s.cache) (hi : setId.toInt = i)
    (hlt : i < s.cache.numOfSets.toNat) (hw : w < s.cache.associativity.toNat) :
    Ends (Loaded none s) (Thrown next s) ((insertBlock next address tag setId w).run s) := by
  apply ends_bind_of (nextAccess_ends hnext address false s) _ (fun _ h => h)
  rintro _ t ⟨ht, hc⟩
  have hcounts : t.cache.counts = s.cache.counts := by rw [hc]
  have hset : i < t.cache.sets.length := by rwa [hc, hs.sets_length]
  have hpolicy : i < t.cache.replacementPolicySet.length := by rwa [hc, hs.policies_length]
  have hmem : t.cache.sets[i] ∈ s.cache.sets := by rw [← hc]; exact List.getElem_mem hset
  have hway : w < t.cache.sets[i].blocks.length := by rwa [hs.ways _ hmem]
  have horder : w < t.cache.replacementPolicySet[i].order.length := by
    rwa [hs.orders _ (by rw [← hc]; exact List.getElem_mem hpolicy)]
  simp only [fetchAdd, ends_bind, ends_get, ends_modify, ends_modifyGet, ends_pure,
    atSet_of_lt hi hset, atSet_of_lt hi hpolicy, element_of_lt hway,
    FIFOPolicy.onInsert_eq horder, ends_lift_ok]
  refine ⟨ht.trans ⟨⟨rfl, rfl, rfl, rfl, rfl, rfl, ?_⟩, rfl⟩,
    ⟨_, hmem, _, List.getElem_mem hway, rfl⟩, hcounts⟩
  apply orders_set (by simpa [hi] using hpolicy)
  simp [hi]

theorem accessMiss_ends {next : Option (Memory μ)} (hnext : ∀ level ∈ next, KeepsSize level)
    (address tag : UInt32) {setId : Int32} {i : Nat} (hs : Shape s.cache) (hi : setId.toInt = i)
    (hlt : i < s.cache.numOfSets.toNat) :
    Ends (Loaded (some false) s) (Thrown next s) ((accessMiss next address tag setId).run s) := by
  have hmissed : Keeps s { s with cache := { s.cache with misses := s.cache.misses + 1 } } :=
    ⟨⟨rfl, rfl, rfl, rfl, rfl, rfl, rfl⟩, rfl⟩
  simp only [accessMiss, ends_bind, ends_modify]
  apply (createEmptyBlock_ends (hmissed.toSameLines.shape hs) hi hlt).imp _ (fun _ => False.elim)
  rintro w t ⟨hw, ht, hcounts⟩
  have hkept := hmissed.trans ht
  have hset : i < t.cache.sets.length := by rwa [hkept.sets, hs.sets_length]
  have hmem : t.cache.sets[i] ∈ s.cache.sets := by rw [← hkept.sets]; exact List.getElem_mem hset
  have hway : w < t.cache.sets[i].blocks.length := by rwa [hs.ways _ hmem]
  simp only [ends_get, atSet_of_lt hi hset, element_of_lt hway, ends_lift_ok]
  apply (writeBack_ends hnext _ setId t).imp _ (fun _ => hkept.thrown)
  rintro _ u ⟨hu, hcache⟩
  have hmoved := hkept.trans hu
  apply (insertBlock_ends hnext address tag (hmoved.toSameLines.shape hs) hi
    (by rwa [hmoved.numOfSets]) (by rwa [hmoved.associativity])).imp _ (fun _ => hmoved.thrown)
  rintro block v hv
  refine ⟨hmoved.trans hv.toKeeps, ?_, ?_⟩
  · rw [← hmoved.sets]
    exact hv.line
  · calc v.cache.counts = u.cache.counts := hv.counts
      _ = t.cache.counts := congrArg Cache.counts hcache
      _ = _ := hcounts

theorem copyData_eq {dst src : List UInt8} (h : dst.length = src.length) :
    copyData dst src = .ok src := by
  rw [copyData, assert, if_pos h, bind_ok, copyAt_zero h.symm]

theorem accessFinish_ends {next : Option (Memory μ)} (hnext : ∀ level ∈ next, KeepsSize level)
    (address : UInt32) (isWrite : Bool) {block : CacheBlock} (s : Frame μ)
    (hblock : block.data.length = s.data.length) :
    Ends (fun _ t => Keeps s t ∧ t.cache.counts = s.cache.counts.served isWrite ∧
        (isWrite = false → t.data = block.data))
      (Thrown next s) ((accessFinish next address isWrite block).run s) := by
  cases isWrite with
  | false =>
      simp only [accessFinish, Bool.false_eq_true, if_false, ends_bind, ends_modify, ends_get,
        copyData_eq hblock.symm, ends_lift_ok]
      exact ⟨⟨⟨rfl, rfl, rfl, rfl, rfl, rfl, rfl⟩, hblock⟩, rfl, fun _ => trivial⟩
  | true =>
      simp only [accessFinish, if_true, ends_bind, ends_modify, ends_get]
      have hcounted : Keeps s { s with cache := { s.cache with writes := s.cache.writes + 1 } } :=
        ⟨⟨rfl, rfl, rfl, rfl, rfl, rfl, rfl⟩, rfl⟩
      cases s.cache.config.writePolicy with
      | WriteBack =>
          simp only [ends_bind, ends_pure, ends_get, copyData_eq hblock, ends_lift_ok]
          exact ⟨hcounted, rfl, by simp⟩
      | WriteThrough =>
          simp only [ends_bind, ends_pure, ends_get]
          apply (nextAccess_ends hnext address true _).imp _ (fun _ => hcounted.thrown)
          rintro _ t ⟨ht, hcache⟩
          simp only [copyData_eq (hblock.trans ht.data_length.symm), ends_lift_ok]
          exact ⟨hcounted.trans ht, congrArg Cache.counts hcache, by simp⟩

theorem findBlock_eq {c : Cache} (tag : UInt32) {setId : Int32} {i : Nat} (hi : setId.toInt = i)
    (h : i < c.sets.length) : c.findBlock tag setId =
      .ok (c.sets[i].blocks.findIdx? fun block => block.valid && block.tag == tag) := by
  rw [findBlock, atSet_of_lt hi h]
  rfl

/-- The counts wrap here; otherwise no access of a cache of the constructor's
shape runs into a fault. None changes a line. -/
theorem access_ends {next : Option (Memory μ)} (hnext : ∀ level ∈ next, KeepsSize level)
    (address : UInt32) (isWrite : Bool) (hs : Shape s.cache)
    (hdata : s.data.length = s.cache.blockSize.toNat) :
    Ends (fun _ => Accessed s address isWrite) (Thrown next s) ((access next address isWrite).run s) := by
  obtain ⟨setId, hresolve, hi, hlt⟩ := resolveAddress_eq hs address
  have hset : (address / s.cache.blockSize % s.cache.numOfSets).toNat < s.cache.sets.length := by
    rwa [hs.sets_length]
  have hfinish : ∀ (found : Bool), s.cache.resident address = found → ∀ (block : CacheBlock) (t : Frame μ),
      Loaded (some found) s block t → Ends (fun _ => Accessed s address isWrite) (Thrown next s)
        ((accessFinish next address isWrite block).run t) := by
    rintro found rfl block t ⟨ht, ⟨set, hset, line, hline, hdataline⟩, hcounts⟩
    have hlen : block.data.length = t.data.length := by
      rw [hdataline, hs.lines set hset line hline, ht.data_length, hdata]
    apply (accessFinish_ends hnext address isWrite t hlen).imp _ (fun _ => ht.thrown)
    rintro _ u ⟨hu, hserved, hread⟩
    refine ⟨ht.trans hu, by rw [hserved, hcounts]; rfl, fun h => ?_⟩
    exact ⟨set, hset, line, hline, (hread h).trans hdataline⟩
  simp only [access, ends_bind, ends_get, hresolve, ends_lift_ok, atSet_of_lt hi hset,
    findBlock_eq _ hi hset]
  cases hfind : s.cache.sets[(address / s.cache.blockSize % s.cache.numOfSets).toNat].blocks.findIdx?
      fun block => block.valid && block.tag == address / s.cache.blockSize / s.cache.numOfSets with
  | some w =>
      have hresident : s.cache.resident address = true := by
        rw [resident, List.getElem?_eq_getElem hset]
        simp only [← List.findIdx?_isSome, hfind, Option.isSome_some]
      rw [List.findIdx?_eq_some_iff_getElem] at hfind
      obtain ⟨hw, _⟩ := hfind
      rw [hs.ways _ (List.getElem_mem hset)] at hw
      simp only [ends_bind]
      exact (accessHit_ends hs hi hlt hw).imp (hfinish true hresident) (fun _ => False.elim)
  | none =>
      have hresident : s.cache.resident address = false := by
        rw [resident, List.getElem?_eq_getElem hset]
        simp only [← List.findIdx?_isSome, hfind, Option.isSome_none]
      simp only [ends_bind]
      exact (accessMiss_ends hnext address _ hs hi hlt).imp (hfinish false hresident) (fun _ => id)

end

end Cache

end MemSim
