import MemSim.CacheSteps
import MemSim.Runs

namespace MemSim.MissTypes

open Machine Cache Runs

variable {μ : Type} {n : Nat}

def Seen (blockSize : UInt32) (before : List (Access n)) (a : Access n) : Prop :=
  ∃ b ∈ before, b.address / blockSize = a.address / blockSize

/-- Right after every miss of the trace, its type is compulsory just when its
block is new. -/
def Classifies (next : Option (Memory μ)) (s : Frame μ) (trace : List (Access n)) : Prop :=
  ∀ before a rest, trace = before ++ a :: rest →
    (after next before s).cache.hitWay a.address = none →
    ((final (perform next a (after next before s))).cache.missType = .CompulsoryMiss ↔
      ¬ Seen s.cache.blockSize before a)

section

variable (next : Option (Memory μ)) {s : Frame μ}

theorem missed_sameLines (c : Cache) (i : Nat) : SameLines c (c.missed i) :=
  ⟨rfl, rfl, rfl, rfl, rfl, rfl, rfl⟩

theorem served_sameLines (c : Cache) (isWrite : Bool) : SameLines c (c.served isWrite) := by
  cases isWrite <;> exact ⟨rfl, rfl, rfl, rfl, rfl, rfl, rfl⟩

theorem inserted_sameLines (c : Cache) (i w : Nat) : SameLines c (c.inserted i w) := by
  refine ⟨rfl, rfl, rfl, rfl, rfl, rfl, ?_⟩
  apply List.ext_getElem?
  intro j
  rw [inserted, List.getElem?_map, List.getElem?_map, List.getElem?_modify]
  cases c.replacementPolicySet[j]? with
  | none => rfl
  | some p =>
      by_cases hij : i = j
      · simp [hij]
      · simp [hij]

theorem miss_cache {address : UInt32} (isWrite : Bool) (hs : Shape s.cache) (hmiss : s.cache.hitWay address = none) :
    (final ((access next address isWrite).run s)).cache = s.cache.missed (s.cache.setOf address) ∨
      (final ((access next address isWrite).run s)).cache =
        ((s.cache.missed (s.cache.setOf address)).inserted (s.cache.setOf address)
          (s.cache.missWay (s.cache.setOf address))).served isWrite := by
  obtain ⟨line, _, hrun⟩ := access_of_miss next isWrite hs hmiss
  rw [hrun, EStateM.run_bind]
  have hback := writeBack_cache next line (s.cache.setIdOf address)
    { s with cache := s.cache.missed (s.cache.setOf address) }
  cases h : (writeBack next line (s.cache.setIdOf address)).run
      { s with cache := s.cache.missed (s.cache.setOf address) } with
  | error e t =>
      rw [h] at hback
      exact Or.inl hback
  | ok u t =>
      have ht : t.cache = s.cache.missed (s.cache.setOf address) := by
        rw [h] at hback
        exact hback
      rw [← ht]
      exact refill_cache next address isWrite line _ _ _ t

theorem miss_sameLines {address : UInt32} (isWrite : Bool) (hs : Shape s.cache)
    (hmiss : s.cache.hitWay address = none) :
    SameLines s.cache (final ((access next address isWrite).run s)).cache := by
  rcases miss_cache next isWrite hs hmiss with h | h
  · rw [h]
    exact missed_sameLines _ _
  · rw [h]
    exact ((missed_sameLines _ _).trans (inserted_sameLines _ _ _)).trans (served_sameLines _ isWrite)

theorem miss_missType {address : UInt32} (isWrite : Bool) (hs : Shape s.cache)
    (hmiss : s.cache.hitWay address = none) :
    (final ((access next address isWrite).run s)).cache.missType =
      (s.cache.missed (s.cache.setOf address)).missType := by
  rcases miss_cache next isWrite hs hmiss with h | h
  · rw [h]
  · rw [h]
    cases isWrite <;> rfl

theorem Cold.invalidWay_isSome {c : Cache} (hs : Shape c) (h : Cold c) {i : Nat} (hi : i < c.numOfSets.toNat) :
    (c.invalidWay i).isSome = true := by
  obtain ⟨line, hline⟩ := lineAt_of_lt hs hi hs.associativity_pos
  rw [Option.isSome_iff_ne_none]
  intro hnone
  have hvalid := List.findIdx?_eq_none_iff.mp hnone line (List.mem_of_getElem? hline)
  rw [h.invalid hline] at hvalid
  cases hvalid

theorem Cold.miss_missType {address : UInt32} (isWrite : Bool) (hs : Shape s.cache) (hcold : Cold s.cache) :
    (final ((access next address isWrite).run s)).cache.missType = s.cache.missType := by
  rw [MissTypes.miss_missType next isWrite hs (hcold.hitWay_eq_none address), missed,
    if_pos (Cold.invalidWay_isSome hs hcold (setOf_lt hs address))]

theorem after_missType (hs : Shape s.cache) (hcold : Cold s.cache) (trace : List (Access n)) :
    SameLines s.cache (after next trace s).cache ∧ (after next trace s).cache.missType = s.cache.missType := by
  refine after_induction (fun _ t => SameLines s.cache t.cache ∧ t.cache.missType = s.cache.missType)
    ⟨SameLines.refl _, rfl⟩ ?_ trace
  rintro _ a t ⟨hsame, htype⟩
  have hs' : Shape ({ t with data := a.data } : Frame μ).cache := hsame.shape hs
  have hcold' : Cold ({ t with data := a.data } : Frame μ).cache := hsame.cold hcold
  exact ⟨hsame.trans (miss_sameLines next a.isWrite hs' (hcold'.hitWay_eq_none a.address)),
    (Cold.miss_missType next a.isWrite hs' hcold').trans htype⟩

theorem classifies_iff_each (hs : Shape s.cache) (hcold : Cold s.cache) (trace : List (Access n)) :
    Classifies next s trace ↔ ∀ before a rest, trace = before ++ a :: rest →
      (s.cache.missType = .CompulsoryMiss ↔ ¬ Seen s.cache.blockSize before a) := by
  have hmiss : ∀ (before : List (Access n)) (a : Access n),
      (after next before s).cache.hitWay a.address = none ∧
        (final (perform next a (after next before s))).cache.missType = s.cache.missType := by
    intro before a
    obtain ⟨hsame, _⟩ := after_missType next hs hcold before
    refine ⟨(hsame.cold hcold).hitWay_eq_none a.address, ?_⟩
    rw [← after_snoc]
    exact (after_missType next hs hcold (before ++ [a])).2
  constructor
  · intro h before a rest htrace
    obtain ⟨hnone, htype⟩ := hmiss before a
    rw [← htype]
    exact h before a rest htrace hnone
  · intro h before a rest htrace _
    rw [(hmiss before a).2]
    exact h before a rest htrace

end

theorem unseen_iff_nodup (blockSize : UInt32) (trace : List (Access n)) :
    (∀ before a rest, trace = before ++ a :: rest → ¬ Seen blockSize before a) ↔
      (trace.map fun a => a.address / blockSize).Nodup := by
  induction trace using List.reverseRecOn with
  | nil => exact ⟨fun _ => List.nodup_nil, fun _ => each_nil⟩
  | append_singleton trace a ih =>
      rw [each_snoc, ih, List.map_append, List.nodup_append]
      simp [Seen]

theorem classifies_iff_nodup {next : Option (Memory μ)} {s : Frame μ} (hs : Shape s.cache) (hcold : Cold s.cache)
    (trace : List (Access n)) : Classifies next s trace ↔
      trace = [] ∨ (s.cache.missType = .CompulsoryMiss ∧
        (trace.map fun a => a.address / s.cache.blockSize).Nodup) := by
  rw [classifies_iff_each next hs hcold, ← unseen_iff_nodup]
  constructor
  · intro h
    cases trace with
    | nil => exact Or.inl rfl
    | cons a rest =>
        have hfirst : s.cache.missType = .CompulsoryMiss :=
          (h [] a rest rfl).mpr (by rintro ⟨b, hb, _⟩; cases hb)
        exact Or.inr ⟨hfirst, fun before b rest' htrace => (h before b rest' htrace).mp hfirst⟩
  · rintro (rfl | ⟨htype, hnew⟩)
    · exact each_nil
    · intro before a rest htrace
      exact ⟨fun _ => hnew before a rest htrace, fun _ => htype⟩

theorem new_missType {conf : CacheConfig} {g : Indeterminate} {c : Cache} (h : Cache.new conf g = .ok c) :
    c.missType = g.missType := by
  simp only [Cache.new, bind_eq_ok] at h
  obtain ⟨_, _, _, _, h⟩ := h
  cases h
  rfl

/-- What nothing initialises decides, since nothing assigns it either. -/
theorem classifies_iff {args conf : CacheConfig} (h : CacheConfig.construct args = .ok conf) (g : Indeterminate)
    (next : Option (Memory μ)) (globalCounter : UInt64) (memory : μ) (trace : List (Access n)) :
    ∃ c, Cache.new conf g = .ok c ∧
      (Classifies next (start c globalCounter memory) trace ↔ trace = [] ∨
        (g.missType = .CompulsoryMiss ∧ (trace.map fun a => a.address / conf.blockSize).Nodup)) := by
  obtain ⟨c, hc, hfresh, hshape⟩ := new_eq (CacheConfig.accepted_of_construct h) g
  refine ⟨c, hc, ?_⟩
  rw [classifies_iff_nodup (s := start c globalCounter memory) hshape hfresh.cold]
  change _ ∨ (c.missType = _ ∧ (trace.map fun a => a.address / c.blockSize).Nodup) ↔ _
  rw [new_missType hc, hfresh.blockSize]

theorem classifies_iff_two_by_two :
    ∃ c, Cache.new ⟨16, 2, 4, .FIFO, .WriteBack, 4, 4, 8, 8⟩ zeroFilled = .ok c ∧
      (Classifies (none : Option (Memory Unit)) (start c 0 ())
          [(⟨0, false, [0, 0, 0, 0], rfl⟩ : Access 4), ⟨16, true, [1, 2, 3, 4], rfl⟩] ↔
        [(⟨0, false, [0, 0, 0, 0], rfl⟩ : Access 4), ⟨16, true, [1, 2, 3, 4], rfl⟩] = [] ∨
          (zeroFilled.missType = .CompulsoryMiss ∧
            ([(⟨0, false, [0, 0, 0, 0], rfl⟩ : Access 4), ⟨16, true, [1, 2, 3, 4], rfl⟩].map
              fun a => a.address / 4).Nodup)) :=
  classifies_iff (by decide : CacheConfig.construct ⟨16, 2, 4, .FIFO, .WriteBack, 4, 4, 8, 8⟩ =
    .ok ⟨16, 2, 4, .FIFO, .WriteBack, 4, 4, 8, 8⟩) zeroFilled none 0 () _

theorem second_miss_compulsory :
    CacheConfig.construct ⟨16, 2, 4, .FIFO, .WriteBack, 4, 4, 8, 8⟩ =
      .ok ⟨16, 2, 4, .FIFO, .WriteBack, 4, 4, 8, 8⟩ ∧
    ∃ c, Cache.new ⟨16, 2, 4, .FIFO, .WriteBack, 4, 4, 8, 8⟩ zeroFilled = .ok c ∧
      ¬ Classifies (none : Option (Memory Unit)) (start c 0 ())
        [(⟨0, false, [0, 0, 0, 0], rfl⟩ : Access 4), ⟨0, false, [0, 0, 0, 0], rfl⟩] := by
  obtain ⟨c, hc, hshape, hcold, hblock⟩ := two_by_two .WriteBack
  refine ⟨by decide, c, hc, ?_⟩
  rw [classifies_iff_nodup (s := start c 0 ()) hshape hcold]
  rintro (hnil | ⟨_, hnodup⟩)
  · cases hnil
  · simp at hnodup

end MemSim.MissTypes
