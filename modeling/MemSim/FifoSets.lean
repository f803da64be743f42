import Mathlib.Data.List.DropRight
import Mathlib.Data.List.Induction
import Mathlib.Logic.Function.Basic

namespace MemSim.FifoSets

variable {σ τ : Type} [DecidableEq σ] [DecidableEq τ]

def enqueue (capacity : Nat) (q : List τ) (t : τ) : List τ :=
  (if q.length < capacity then q else q.tail) ++ [t]

/-- One queue for each set, and the number of lookups of either kind. -/
structure State (σ τ : Type) where
  queue : σ → List τ
  hits : Nat
  misses : Nat

def empty : State σ τ := ⟨fun _ => [], 0, 0⟩

def look (capacity : Nat) (s : State σ τ) (a : σ × τ) : State σ τ :=
  if a.2 ∈ s.queue a.1 then { s with hits := s.hits + 1 }
  else
    { queue := Function.update s.queue a.1 (enqueue capacity (s.queue a.1) a.2)
      hits := s.hits
      misses := s.misses + 1 }

def run (capacity : Nat) (trace : List (σ × τ)) : State σ τ := trace.foldl (look capacity) empty

def history (s : σ) (trace : List (σ × τ)) : List τ := (trace.filter (·.1 = s)).map (·.2)

/-- No lookup repeats one of the last lookups of its set. -/
def Distant (capacity : Nat) (trace : List (σ × τ)) : Prop :=
  ∀ before a rest, trace = before ++ a :: rest → a.2 ∉ (history a.1 before).rtake capacity

def AllMiss (capacity : Nat) (trace : List (σ × τ)) : Prop :=
  ∀ before a rest, trace = before ++ a :: rest → a.2 ∉ (run capacity before).queue a.1

@[simp] theorem run_snoc (capacity : Nat) (trace : List (σ × τ)) (a : σ × τ) :
    run capacity (trace ++ [a]) = look capacity (run capacity trace) a := by
  simp [run]

omit [DecidableEq τ] in
theorem history_snoc (s : σ) (trace : List (σ × τ)) (a : σ × τ) :
    history s (trace ++ [a]) = if a.1 = s then history s trace ++ [a.2] else history s trace := by
  unfold history
  by_cases h : a.1 = s <;> simp [h]

omit [DecidableEq σ] [DecidableEq τ] in
theorem enqueue_rtake {capacity : Nat} (h : 0 < capacity) (l : List τ) (t : τ) :
    enqueue capacity (l.rtake capacity) t = (l ++ [t]).rtake capacity := by
  obtain ⟨n, rfl⟩ := Nat.exists_eq_succ_of_ne_zero h.ne'
  rw [enqueue, List.rtake_concat_succ, List.rtake, List.rtake]
  congr 1
  split
  · next hlt =>
      rw [List.length_drop] at hlt
      have hle : l.length ≤ n := by omega
      rw [Nat.sub_eq_zero_of_le hle, Nat.sub_eq_zero_of_le (Nat.le_succ_of_le hle)]
  · next hge =>
      rw [List.length_drop] at hge
      rw [List.tail_drop]
      congr 1
      omega

/-- While every lookup misses, each queue is the end of its set's history. -/
theorem run_of_allMiss {capacity : Nat} (h : 0 < capacity) {trace : List (σ × τ)}
    (hmiss : AllMiss capacity trace) :
    (run capacity trace).queue = (fun s => (history s trace).rtake capacity) ∧
      (run capacity trace).hits = 0 ∧ (run capacity trace).misses = trace.length := by
  induction trace using List.reverseRecOn with
  | nil =>
      refine ⟨?_, rfl, rfl⟩
      funext s
      simp [run, empty, history]
  | append_singleton trace a ih =>
      have hprefix : AllMiss capacity trace := by
        intro before b rest htrace
        exact hmiss before b (rest ++ [a]) (by simp [htrace])
      obtain ⟨hqueue, hhits, hmisses⟩ := ih hprefix
      have hlast := hmiss trace a [] rfl
      rw [run_snoc, look, if_neg hlast]
      refine ⟨?_, hhits, by simp [hmisses]⟩
      funext s
      change Function.update _ a.1 _ s = _
      rw [history_snoc]
      by_cases hs : s = a.1
      · subst hs
        rw [if_pos rfl, Function.update_self, hqueue, enqueue_rtake h]
      · rw [if_neg (Ne.symm hs), Function.update_of_ne hs, hqueue]

theorem allMiss_iff_distant {capacity : Nat} (h : 0 < capacity) (trace : List (σ × τ)) :
    AllMiss capacity trace ↔ Distant capacity trace := by
  constructor
  · intro hmiss before a rest htrace
    have hprefix : AllMiss capacity before := by
      intro before' b rest' hb
      exact hmiss before' b (rest' ++ a :: rest) (by simp [htrace, hb])
    rw [← congrFun (run_of_allMiss h hprefix).1 a.1]
    exact hmiss before a rest htrace
  · intro hdistant
    induction trace using List.reverseRecOn with
    | nil =>
        intro before a rest htrace
        simp at htrace
    | append_singleton trace b ih =>
        have hprefix : AllMiss capacity trace := by
          apply ih
          intro before a rest htrace
          exact hdistant before a (rest ++ [b]) (by simp [htrace])
        intro before a rest htrace
        rcases List.eq_nil_or_concat rest with rfl | ⟨rest, c, rfl⟩
        · obtain ⟨rfl, hb⟩ := List.append_inj' htrace rfl
          obtain rfl := (List.cons.inj hb).1
          rw [congrFun (run_of_allMiss h hprefix).1 b.1]
          exact hdistant trace b [] rfl
        · have hsplit : trace ++ [b] = (before ++ a :: rest) ++ [c] := by
            rw [htrace]
            simp
          exact hprefix before a rest (List.append_inj' hsplit rfl).1

end MemSim.FifoSets
