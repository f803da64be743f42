import MemSim.CacheShape
import Mathlib.Data.List.Induction

namespace MemSim

open Machine Outcome

structure Access (n : Nat) where
  address : UInt32
  isWrite : Bool
  data : List UInt8
  data_length : data.length = n
  deriving DecidableEq, Repr

abbrev Block (n : Nat) := { d : List UInt8 // d.length = n }

/-- A flat memory of whole blocks, by block number. Data of another length is
no block, and is left alone. -/
def flatMemory (blockSize : UInt32) : Memory (UInt32 → Block blockSize.toNat) where
  access address isWrite := fun s => .ok () <|
    if h : s.1.length = blockSize.toNat then
      if isWrite then (s.1, Function.update s.2 (address / blockSize) ⟨s.1, h⟩)
      else ((s.2 (address / blockSize)).1, s.2)
    else s

theorem flatMemory_keepsSize (blockSize : UInt32) : Cache.KeepsSize (flatMemory blockSize) := by
  intro address isWrite data memory
  by_cases h : data.length = blockSize.toNat
  · cases isWrite with
    | false => simp [flatMemory, h, (memory (address / blockSize)).2]
    | true => simp [flatMemory, h]
  · simp [flatMemory, h]

theorem flatMemory_keeps (blockSize : UInt32) : ∀ level ∈ some (flatMemory blockSize), Cache.KeepsSize level := by
  intro level hlevel
  obtain rfl := Option.some.inj hlevel
  exact flatMemory_keepsSize blockSize

theorem flatMemory_not_throwing (blockSize : UInt32) : ¬ Cache.Throwing (some (flatMemory blockSize)) := by
  rintro ⟨level, hlevel, address, isWrite, s, e, t, h⟩
  obtain rfl := Option.some.inj hlevel
  cases h

namespace Cache

variable {μ : Type} {n : Nat}

theorem none_keeps : ∀ level ∈ (none : Option (Memory μ)), KeepsSize level := by
  intro level hlevel
  cases hlevel

def zeroFilled : Indeterminate :=
  ⟨0, 0, 0, 0, .CompulsoryMiss, fun _ _ => 0, fun _ _ => 0, fun _ _ => 0⟩

def start (c : Cache) (globalCounter : UInt64) (memory : μ) : Frame μ := ⟨c, globalCounter, memory, []⟩

def perform (next : Option (Memory μ)) (a : Access n) (s : Frame μ) :
    EStateM.Result (Stop String) (Frame μ) Unit :=
  (access next a.address a.isWrite).run { s with data := a.data }

/-- A run goes on after an access that throws, from the state it leaves. -/
def after (next : Option (Memory μ)) (trace : List (Access n)) (s : Frame μ) : Frame μ :=
  trace.foldl (fun t a => final (perform next a t)) s

@[simp] theorem after_nil (next : Option (Memory μ)) (s : Frame μ) :
    after next ([] : List (Access n)) s = s := rfl

@[simp] theorem after_snoc (next : Option (Memory μ)) (trace : List (Access n)) (a : Access n)
    (s : Frame μ) : after next (trace ++ [a]) s = final (perform next a (after next trace s)) := by
  simp [after]

theorem after_induction {next : Option (Memory μ)} (I : List (Access n) → Frame μ → Prop) {s : Frame μ}
    (hstart : I [] s)
    (hstep : ∀ trace a t, I trace t → I (trace ++ [a]) (final (perform next a t)))
    (trace : List (Access n)) : I trace (after next trace s) := by
  induction trace using List.reverseRecOn with
  | nil => exact hstart
  | append_singleton trace a ih =>
      rw [after_snoc]
      exact hstep trace a _ ih

theorem perform_ends {next : Option (Memory μ)} (hnext : ∀ level ∈ next, KeepsSize level) {s : Frame μ}
    (hs : Shape s.cache) (hn : s.cache.blockSize.toNat = n) (a : Access n) :
    Ends (fun _ => Accessed { s with data := a.data } a.address a.isWrite)
      (Thrown next { s with data := a.data }) (perform next a s) :=
  access_ends (s := { s with data := a.data }) hnext a.address a.isWrite hs
    (by rw [hn]; exact a.data_length)

theorem after_sameLines {next : Option (Memory μ)} (hnext : ∀ level ∈ next, KeepsSize level) {s : Frame μ}
    (hs : Shape s.cache) (hn : s.cache.blockSize.toNat = n) (trace : List (Access n)) :
    SameLines s.cache (after next trace s).cache := by
  refine after_induction (fun _ t => SameLines s.cache t.cache) (SameLines.refl _) ?_ trace
  intro _ a t ht
  have hk := ((perform_ends hnext (ht.shape hs) (by rw [ht.blockSize, hn]) a).imp
    (fun _ _ => Accessed.toKeeps) (fun _ => And.left)).final
  exact ht.trans hk.toSameLines

def Cold (c : Cache) : Prop :=
  ∀ set ∈ c.sets, ∀ block ∈ set.blocks,
    block.valid = false ∧ block.data = List.replicate c.blockSize.toNat 0

theorem Fresh.cold {conf : CacheConfig} {g : Indeterminate} {c : Cache} (h : Fresh conf g c) : Cold c := by
  intro set hset block hblock
  rw [h.sets] at hset
  obtain ⟨i, _, rfl⟩ := List.mem_map.mp hset
  obtain ⟨j, _, rfl⟩ := List.mem_map.mp hblock
  exact ⟨rfl, by rw [h.blockSize]; rfl⟩

theorem two_by_two (writePolicy : WritePolicyType) :
    ∃ c, Cache.new ⟨16, 2, 4, .FIFO, writePolicy, 4, 4, 8, 8⟩ zeroFilled = .ok c ∧ Shape c ∧ Cold c ∧
      c.blockSize = 4 := by
  have haccepted : CacheConfig.construct ⟨16, 2, 4, .FIFO, writePolicy, 4, 4, 8, 8⟩ =
      .ok ⟨16, 2, 4, .FIFO, writePolicy, 4, 4, 8, 8⟩ := by cases writePolicy <;> decide
  obtain ⟨c, hc, hfresh, hshape⟩ := new_eq (CacheConfig.accepted_of_construct haccepted) zeroFilled
  exact ⟨c, hc, hshape, hfresh.cold, hfresh.blockSize⟩

theorem SameLines.cold {c d : Cache} (h : SameLines c d) (hc : Cold c) : Cold d := by
  unfold Cold
  rw [h.sets, h.blockSize]
  exact hc

theorem Cold.resident_eq_false {c : Cache} (h : Cold c) (address : UInt32) : c.resident address = false := by
  unfold resident
  split
  · rfl
  · next set hset =>
      rw [List.any_eq_false]
      intro block hblock
      simp [(h set (List.mem_of_getElem? hset) block hblock).1]

/-- Since nothing is stored, every access of every run meets a cold cache. -/
theorem perform_cold {next : Option (Memory μ)} (hnext : ∀ level ∈ next, KeepsSize level)
    (hthrow : ¬ Throwing next) {s : Frame μ} (hs : Shape s.cache) (hcold : Cold s.cache)
    (hn : s.cache.blockSize.toNat = n) (trace : List (Access n)) (a : Access n) :
    ∃ t, perform next a (after next trace s) = .ok () t ∧
      t.cache.counts = ((after next trace s).cache.counts.looked false).served a.isWrite ∧
      (a.isWrite = false → t.data = List.replicate n 0) := by
  have hsame := after_sameLines hnext hs hn trace
  have hends := perform_ends hnext (hsame.shape hs) (by rw [hsame.blockSize, hn]) a
  obtain ⟨_, t, ht, hdone⟩ := (hends.imp (fun _ _ h => h) (fun _ h => hthrow h.2)).returns
  have hcold' := hsame.cold hcold
  refine ⟨t, ht, ?_, ?_⟩
  · rw [hdone.counts, hcold'.resident_eq_false]
  · intro h
    obtain ⟨set, hset, line, hline, hdata⟩ := hdone.line h
    rw [hdata, (hcold' set hset line hline).2]
    simp only [hsame.blockSize, hn]

end Cache

end MemSim
