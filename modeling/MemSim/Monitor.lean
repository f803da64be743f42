import MemSim.Runs
import Mathlib.Data.List.Basic
import Mathlib.Data.List.Perm.Basic

namespace MemSim.Monitor

open Runs

/-- A system behind a lock and a condition variable that one thread waits on:
what the waiter does when its predicate holds, whether it comes to the lock at
all, what others do under the lock before they notify, and what needs no lock. -/
structure Parts (σ ι : Type) where
  step : σ → ι → Option σ
  take : σ → Option ι
  wants : σ → Bool
  isCall : ι → Bool
  isFree : ι → Bool

inductive Owner
  | waiter
  | caller (i : Nat)
  deriving DecidableEq, Repr

/-- Asleep, the waiter has given the lock back and waits to be notified; woken,
by a notification or for no reason, it has to take the lock again. -/
inductive Waiter
  | away
  | testing
  | asleep
  | woken
  deriving DecidableEq, Repr

inductive CallerPhase
  | arrived
  | locked
  | changed
  | unlocked
  | done
  deriving DecidableEq, Repr

structure State (σ ι : Type) where
  shared : σ
  owner : Option Owner
  waiter : Waiter
  callers : List (ι × CallerPhase)

inductive Label (ι : Type)
  | call (l : ι)
  | lock (i : Nat)
  | change (i : Nat)
  | unlock (i : Nat)
  | notify (i : Nat)
  | waiterLock
  | test
  | wake
  | free (l : ι)
  deriving DecidableEq, Repr

variable {σ ι : Type} (p : Parts σ ι)

def start (s : σ) : State σ ι := ⟨s, none, .away, []⟩

def step (m : State σ ι) : Label ι → Option (State σ ι)
  | .call l => if p.isCall l then some { m with callers := m.callers ++ [(l, .arrived)] } else none
  | .lock i =>
      match m.callers[i]?, m.owner with
      | some (l, .arrived), none =>
          some { m with owner := some (.caller i), callers := m.callers.set i (l, .locked) }
      | _, _ => none
  | .change i =>
      match m.callers[i]? with
      | some (l, .locked) =>
          (p.step m.shared l).map fun t => { m with shared := t, callers := m.callers.set i (l, .changed) }
      | _ => none
  | .unlock i =>
      match m.callers[i]? with
      | some (l, .changed) => some { m with owner := none, callers := m.callers.set i (l, .unlocked) }
      | _ => none
  | .notify i =>
      match m.callers[i]? with
      | some (l, .unlocked) =>
          some { m with
            waiter := if m.waiter = .asleep then .woken else m.waiter
            callers := m.callers.set i (l, .done) }
      | _ => none
  | .waiterLock =>
      if m.owner = none ∧ (m.waiter = .woken ∨ m.waiter = .away ∧ p.wants m.shared = true) then
        some { m with owner := some .waiter, waiter := .testing }
      else none
  | .test =>
      if m.waiter = .testing then
        match p.take m.shared with
        | none => some { m with owner := none, waiter := .asleep }
        | some l => (p.step m.shared l).map fun t => { m with shared := t, owner := none, waiter := .away }
      else none
  | .wake => if m.waiter = .asleep then some { m with waiter := .woken } else none
  | .free l => if p.isFree l then (p.step m.shared l).map fun t => { m with shared := t } else none

inductive Steps (m : State σ ι) : Label ι → State σ ι → Prop
  | call (l : ι) (hcall : p.isCall l = true) :
      Steps m (.call l) { m with callers := m.callers ++ [(l, .arrived)] }
  | lock (i : Nat) (l : ι) (hi : m.callers[i]? = some (l, .arrived)) (howner : m.owner = none) :
      Steps m (.lock i) { m with owner := some (.caller i), callers := m.callers.set i (l, .locked) }
  | change (i : Nat) (l : ι) (t : σ) (hi : m.callers[i]? = some (l, .locked)) (ht : p.step m.shared l = some t) :
      Steps m (.change i) { m with shared := t, callers := m.callers.set i (l, .changed) }
  | unlock (i : Nat) (l : ι) (hi : m.callers[i]? = some (l, .changed)) :
      Steps m (.unlock i) { m with owner := none, callers := m.callers.set i (l, .unlocked) }
  | notify (i : Nat) (l : ι) (hi : m.callers[i]? = some (l, .unlocked)) :
      Steps m (.notify i) { m with
        waiter := if m.waiter = .asleep then .woken else m.waiter
        callers := m.callers.set i (l, .done) }
  | waiterLock (howner : m.owner = none)
      (hwaiter : m.waiter = .woken ∨ m.waiter = .away ∧ p.wants m.shared = true) :
      Steps m .waiterLock { m with owner := some .waiter, waiter := .testing }
  | sleep (hwaiter : m.waiter = .testing) (htake : p.take m.shared = none) :
      Steps m .test { m with owner := none, waiter := .asleep }
  | take (l : ι) (t : σ) (hwaiter : m.waiter = .testing) (htake : p.take m.shared = some l)
      (ht : p.step m.shared l = some t) : Steps m .test { m with shared := t, owner := none, waiter := .away }
  | wake (hwaiter : m.waiter = .asleep) : Steps m .wake { m with waiter := .woken }
  | free (l : ι) (t : σ) (hfree : p.isFree l = true) (ht : p.step m.shared l = some t) :
      Steps m (.free l) { m with shared := t }

/-- What the parts have to keep to. A waiter that has come to the lock stays
until it has taken, what needs no lock does not make its predicate true, and
what it takes can be taken. -/
structure Lawful : Prop where
  keeps : ∀ {s l t}, p.wants s = true → p.isCall l = true ∨ p.isFree l = true → p.step s l = some t →
    p.wants t = true
  quiet : ∀ {s l t}, p.wants s = true → p.take s = none → p.isFree l = true → p.step s l = some t →
    p.take t = none
  ready : ∀ {s l}, p.wants s = true → p.take s = some l → ∃ t, p.step s l = some t
  takes : ∀ {s l}, p.take s = some l → p.isCall l = false
  frees : ∀ {l}, p.isFree l = true → p.isCall l = false

def At (m : State σ ι) (i : Nat) (phase : CallerPhase) : Prop := ∃ l, m.callers[i]? = some (l, phase)

/-- One thread at most is inside the lock, and a waiter asleep while its
predicate holds has a notification on its way. -/
structure Safe (m : State σ ι) : Prop where
  waiter : m.owner = some .waiter ↔ m.waiter = .testing
  caller : ∀ i, m.owner = some (.caller i) ↔ At m i .locked ∨ At m i .changed
  wants : m.waiter ≠ .away → p.wants m.shared = true
  notified : m.waiter = .asleep → p.take m.shared ≠ none → ∃ i, At m i .changed ∨ At m i .unlocked
  calls : ∀ c ∈ m.callers, p.isCall c.1 = true

variable {p} {m n : State σ ι} {l : Label ι}

theorem steps_of_step (h : step p m l = some n) : Steps p m l n := by
  cases l with
  | call l =>
      obtain ⟨hcall, h⟩ := Option.ite_none_right_eq_some.mp h
      obtain rfl := Option.some.inj h
      exact .call l hcall
  | lock i =>
      simp only [step] at h
      split at h
      · next l hi howner =>
          obtain rfl := Option.some.inj h
          exact .lock i l hi howner
      · cases h
  | change i =>
      simp only [step] at h
      split at h
      · next l hi =>
          obtain ⟨t, ht, rfl⟩ := Option.map_eq_some_iff.mp h
          exact .change i l t hi ht
      · cases h
  | unlock i =>
      simp only [step] at h
      split at h
      · next l hi =>
          obtain rfl := Option.some.inj h
          exact .unlock i l hi
      · cases h
  | notify i =>
      simp only [step] at h
      split at h
      · next l hi =>
          obtain rfl := Option.some.inj h
          exact .notify i l hi
      · cases h
  | waiterLock =>
      obtain ⟨hguard, h⟩ := Option.ite_none_right_eq_some.mp h
      obtain rfl := Option.some.inj h
      exact .waiterLock hguard.1 hguard.2
  | test =>
      obtain ⟨hwaiter, h⟩ := Option.ite_none_right_eq_some.mp h
      split at h
      · next htake =>
          obtain rfl := Option.some.inj h
          exact .sleep hwaiter htake
      · next l htake =>
          obtain ⟨t, ht, rfl⟩ := Option.map_eq_some_iff.mp h
          exact .take l t hwaiter htake ht
  | wake =>
      obtain ⟨hwaiter, h⟩ := Option.ite_none_right_eq_some.mp h
      obtain rfl := Option.some.inj h
      exact .wake hwaiter
  | free l =>
      obtain ⟨hfree, h⟩ := Option.ite_none_right_eq_some.mp h
      obtain ⟨t, ht, rfl⟩ := Option.map_eq_some_iff.mp h
      exact .free l t hfree ht

theorem safe_start (s : σ) : Safe p (start s : State σ ι) where
  waiter := by simp [start]
  caller i := by simp [start, At]
  wants h := absurd rfl h
  notified := by simp [start]
  calls := by simp [start]

theorem at_set {i : Nat} {a : ι} {old new : CallerPhase} (hi : m.callers[i]? = some (a, old))
    (hcallers : n.callers = m.callers.set i (a, new)) (j : Nat) (phase : CallerPhase) :
    At n j phase ↔ j = i ∧ phase = new ∨ j ≠ i ∧ At m j phase := by
  obtain ⟨hlt, _⟩ := List.getElem?_eq_some_iff.mp hi
  rw [At, hcallers]
  by_cases hj : j = i
  · subst hj
    rw [List.getElem?_set_self hlt]
    simp [eq_comm]
  · rw [List.getElem?_set_ne (Ne.symm hj)]
    simp [hj, At]

theorem at_call {a : ι} (hcallers : n.callers = m.callers ++ [(a, .arrived)]) (j : Nat) {phase : CallerPhase}
    (hphase : phase ≠ .arrived) : At n j phase ↔ At m j phase := by
  rw [At, At, hcallers]
  constructor
  · rintro ⟨l, hl⟩
    rcases Nat.lt_or_ge j m.callers.length with hj | hj
    · rw [List.getElem?_append_left hj] at hl
      exact ⟨l, hl⟩
    · rw [List.getElem?_append_right hj] at hl
      have hmem := List.mem_of_getElem? hl
      rw [List.mem_singleton] at hmem
      exact absurd (Prod.mk.inj hmem).2 hphase
  · rintro ⟨l, hl⟩
    exact ⟨l, by rw [List.getElem?_append_left (List.getElem?_eq_some_iff.mp hl).1, hl]⟩

theorem at_unique {i : Nat} {a : ι} {phase other : CallerPhase} (hi : m.callers[i]? = some (a, phase))
    (h : At m i other) : other = phase := by
  obtain ⟨l, hl⟩ := h
  rw [hi] at hl
  exact (Prod.mk.inj (Option.some.inj hl)).2.symm

theorem Safe.move {i : Nat} {a : ι} {old new : CallerPhase} (h : Safe p m)
    (hi : m.callers[i]? = some (a, old)) (hcallers : n.callers = m.callers.set i (a, new))
    (hwaiter : n.owner = some .waiter ↔ n.waiter = .testing)
    (hself : n.owner = some (.caller i) ↔ new = .locked ∨ new = .changed)
    (hother : ∀ j ≠ i, n.owner = some (.caller j) ↔ m.owner = some (.caller j))
    (hwants : n.waiter ≠ .away → p.wants n.shared = true)
    (hnotified : n.waiter = .asleep → p.take n.shared ≠ none → new = .changed ∨ new = .unlocked ∨
      m.waiter = .asleep ∧ p.take m.shared ≠ none ∧ old ≠ .changed ∧ old ≠ .unlocked) : Safe p n := by
  have hset := at_set hi hcallers
  refine ⟨hwaiter, ?_, hwants, ?_, ?_⟩
  · intro j
    by_cases hj : j = i
    · subst hj
      rw [hself, hset, hset]
      simp [eq_comm]
    · rw [hother j hj, h.caller j, hset, hset]
      simp [hj]
  · intro hasleep htake
    rcases hnotified hasleep htake with rfl | rfl | ⟨hasleep', htake', hchanged, hunlocked⟩
    · exact ⟨i, .inl ((hset i _).mpr (.inl ⟨rfl, rfl⟩))⟩
    · exact ⟨i, .inr ((hset i _).mpr (.inl ⟨rfl, rfl⟩))⟩
    · obtain ⟨j, hj⟩ := h.notified hasleep' htake'
      have hne : j ≠ i := by
        rintro rfl
        rcases hj with hj | hj
        · exact hchanged (at_unique hi hj).symm
        · exact hunlocked (at_unique hi hj).symm
      exact ⟨j, hj.imp (fun hj => (hset j _).mpr (.inr ⟨hne, hj⟩)) (fun hj => (hset j _).mpr (.inr ⟨hne, hj⟩))⟩
  · intro c hc
    rw [hcallers] at hc
    rcases List.mem_or_eq_of_mem_set hc with hc | rfl
    · exact h.calls c hc
    · exact h.calls (a, old) (List.mem_of_getElem? hi)

theorem Safe.frame (h : Safe p m) (hat : ∀ j phase, phase ≠ .arrived → (At n j phase ↔ At m j phase))
    (hcalls : ∀ c ∈ n.callers, p.isCall c.1 = true) (hwaiter : n.owner = some .waiter ↔ n.waiter = .testing)
    (howner : ∀ j, n.owner = some (.caller j) ↔ m.owner = some (.caller j))
    (hwants : n.waiter ≠ .away → p.wants n.shared = true)
    (hnotified : n.waiter = .asleep → p.take n.shared ≠ none → m.waiter = .asleep ∧ p.take m.shared ≠ none) :
    Safe p n := by
  refine ⟨hwaiter, ?_, hwants, ?_, hcalls⟩
  · intro j
    rw [howner, h.caller, hat j .locked nofun, hat j .changed nofun]
  · intro hasleep htake
    obtain ⟨hasleep', htake'⟩ := hnotified hasleep htake
    obtain ⟨j, hj⟩ := h.notified hasleep' htake'
    exact ⟨j, hj.imp (hat j .changed nofun).mpr (hat j .unlocked nofun).mpr⟩

theorem safe_step (hp : Lawful p) (h : Safe p m) (hstep : Steps p m l n) : Safe p n := by
  have hinside : ∀ {i a phase}, m.callers[i]? = some (a, phase) →
      (m.owner = some (.caller i) ↔ phase = .locked ∨ phase = .changed) := by
    intro i a phase hi
    rw [h.caller i]
    constructor
    · rintro (hat | hat)
      · exact .inl (at_unique hi hat).symm
      · exact .inr (at_unique hi hat).symm
    · rintro (rfl | rfl)
      · exact .inl ⟨a, hi⟩
      · exact .inr ⟨a, hi⟩
  cases hstep with
  | call a hcall =>
      refine h.frame (fun j _ => at_call rfl j) ?_ h.waiter (fun _ => .rfl) h.wants (fun ha ht => ⟨ha, ht⟩)
      intro c hc
      rcases List.mem_append.mp hc with hc | hc
      · exact h.calls c hc
      · rw [List.mem_singleton.mp hc]
        exact hcall
  | lock i a hi howner =>
      have hnot : m.waiter ≠ .testing := by
        rw [ne_eq, ← h.waiter, howner]
        nofun
      refine h.move hi rfl ?_ ?_ ?_ h.wants ?_
      · simpa using hnot
      · simp
      · intro j hj
        simp [howner, Ne.symm hj]
      · exact fun ha ht => .inr (.inr ⟨ha, ht, nofun, nofun⟩)
  | change i a t hi ht =>
      have howner := (hinside hi).mpr (.inl rfl)
      have hcall := h.calls _ (List.mem_of_getElem? hi)
      refine h.move hi rfl h.waiter ?_ (fun _ _ => .rfl) ?_ (fun _ _ => .inl rfl)
      · simp [howner]
      · exact fun haway => hp.keeps (h.wants haway) (.inl hcall) ht
  | unlock i a hi =>
      have howner := (hinside hi).mpr (.inr rfl)
      have hnot : m.waiter ≠ .testing := by
        rw [ne_eq, ← h.waiter, howner]
        nofun
      refine h.move hi rfl ?_ ?_ ?_ h.wants (fun _ _ => .inr (.inl rfl))
      · simpa using hnot
      · simp
      · intro j hj
        simp [howner, Ne.symm hj]
  | notify i a hi =>
      have hnot : m.owner ≠ some (.caller i) := by
        rw [ne_eq, hinside hi]
        simp
      have htesting : (if m.waiter = .asleep then .woken else m.waiter) = Waiter.testing ↔ m.waiter = .testing := by
        cases m.waiter <;> simp
      refine h.move hi rfl ?_ ?_ (fun _ _ => .rfl) ?_ ?_
      · exact h.waiter.trans htesting.symm
      · simpa using hnot
      · intro haway
        apply h.wants
        intro haway'
        exact haway (by simp [haway'])
      · intro hasleep
        dsimp only at hasleep
        split at hasleep
        · cases hasleep
        · contradiction
  | waiterLock howner hwaiter =>
      refine h.frame (fun _ _ _ => .rfl) h.calls (by simp) ?_ ?_ nofun
      · intro j
        simp [howner]
      · intro _
        rcases hwaiter with hwoken | ⟨_, hwants⟩
        · exact h.wants (by rw [hwoken]; nofun)
        · exact hwants
  | sleep hwaiter htake =>
      have howner := h.waiter.mpr hwaiter
      refine h.frame (fun _ _ _ => .rfl) h.calls (by simp) ?_ ?_ (fun _ ht => absurd htake ht)
      · intro j
        simp [howner]
      · exact fun _ => h.wants (by rw [hwaiter]; nofun)
  | take a t hwaiter htake ht =>
      have howner := h.waiter.mpr hwaiter
      refine h.frame (fun _ _ _ => .rfl) h.calls (by simp) ?_ (fun haway => absurd rfl haway) nofun
      intro j
      simp [howner]
  | wake hwaiter =>
      have hnot : m.owner ≠ some .waiter := by
        rw [ne_eq, h.waiter, hwaiter]
        nofun
      refine h.frame (fun _ _ _ => .rfl) h.calls (by simpa using hnot) (fun _ => .rfl) ?_ nofun
      exact fun _ => h.wants (by rw [hwaiter]; nofun)
  | free a t hfree ht =>
      refine h.frame (fun _ _ _ => .rfl) h.calls h.waiter (fun _ => .rfl) ?_ ?_
      · exact fun haway => hp.keeps (h.wants haway) (.inr hfree) ht
      · intro hasleep htake
        have hwants := h.wants (by rw [hasleep]; nofun)
        exact ⟨hasleep, fun hnone => htake (hp.quiet hwants hnone hfree ht)⟩

theorem safe_of_run (hp : Lawful p) {s : σ} {ls : List (Label ι)} (h : run (step p) (start s) ls = some m) :
    Safe p m :=
  run_induction (fun _ m => Safe p m) (safe_start s)
    (fun _ _ _ _ hu hstep => safe_step hp hu (steps_of_step hstep)) ls h

/-- The steps that only wait for the lock and for each other: all but new
callers and wake-ups for no reason. -/
def isOwn : Label ι → Bool
  | .call _ | .wake => false
  | _ => true

def Stuck (p : Parts σ ι) (m : State σ ι) : Prop := ∀ l, isOwn l = true → step p m l = none

/-- No wake-up is lost: where nobody can move every caller has done its work,
and the waiter does not sleep, or stay away, while there is something to take. -/
theorem rest_of_stuck (hp : Lawful p) (h : Safe p m) (hstuck : Stuck p m)
    (hcallable : ∀ c ∈ m.callers, ∃ t, p.step m.shared c.1 = some t) :
    (∀ c ∈ m.callers, c.2 = .done) ∧ (p.wants m.shared = true → p.take m.shared = none) ∧
      ∀ l, p.isFree l = true → p.step m.shared l = none := by
  have hcaller : ∀ i, m.owner ≠ some (.caller i) := by
    intro i howner
    rcases (h.caller i).mp howner with ⟨a, hi⟩ | ⟨a, hi⟩
    · obtain ⟨t, ht⟩ := hcallable _ (List.mem_of_getElem? hi)
      have hchange := hstuck (.change i) rfl
      simp [step, hi, ht] at hchange
    · have hunlock := hstuck (.unlock i) rfl
      simp [step, hi] at hunlock
  have htesting : m.waiter ≠ .testing := by
    intro hwaiter
    have htest := hstuck .test rfl
    rw [step, if_pos hwaiter] at htest
    cases htake : p.take m.shared with
    | none => simp [htake] at htest
    | some l =>
        obtain ⟨t, ht⟩ := hp.ready (h.wants (by rw [hwaiter]; nofun)) htake
        simp [htake, ht] at htest
  have howner : m.owner = none := by
    cases ho : m.owner with
    | none => rfl
    | some o =>
        cases o with
        | waiter => exact absurd (h.waiter.mp ho) htesting
        | caller i => exact absurd ho (hcaller i)
  have hdone : ∀ (i : Nat) (a : ι) (phase : CallerPhase), m.callers[i]? = some (a, phase) → phase = .done := by
    intro i a phase hi
    cases phase with
    | done => rfl
    | arrived =>
        have hlock := hstuck (.lock i) rfl
        simp [step, hi, howner] at hlock
    | locked => exact absurd ((h.caller i).mpr (.inl ⟨a, hi⟩)) (hcaller i)
    | changed => exact absurd ((h.caller i).mpr (.inr ⟨a, hi⟩)) (hcaller i)
    | unlocked =>
        have hnotify := hstuck (.notify i) rfl
        simp [step, hi] at hnotify
  have hlocked : ¬ (m.waiter = .woken ∨ m.waiter = .away ∧ p.wants m.shared = true) := by
    intro hwaiter
    have hlock := hstuck .waiterLock rfl
    rw [step, if_pos ⟨howner, hwaiter⟩] at hlock
    cases hlock
  refine ⟨?_, ?_, ?_⟩
  · intro c hc
    obtain ⟨i, hi⟩ := List.mem_iff_getElem?.mp hc
    exact hdone i c.1 c.2 hi
  · intro hwants
    by_contra htake
    cases hwaiter : m.waiter with
    | away => exact hlocked (.inr ⟨hwaiter, hwants⟩)
    | testing => exact htesting hwaiter
    | woken => exact hlocked (.inl hwaiter)
    | asleep =>
        obtain ⟨i, ⟨a, hi⟩ | ⟨a, hi⟩⟩ := h.notified hwaiter htake
        · cases hdone i a _ hi
        · cases hdone i a _ hi
  · intro l hl
    have hfree := hstuck (.free l) rfl
    rw [step, if_pos hl] at hfree
    exact Option.map_eq_none_iff.mp hfree

variable (p) in
def acted (m : State σ ι) : Label ι → Option ι
  | .change i => (m.callers[i]?).map (·.1)
  | .test => p.take m.shared
  | .free l => some l
  | _ => none

/-- A run of the threads is a run of the system behind the lock. -/
theorem run_acted {s : σ} {ls : List (Label ι)} (h : run (step p) (start s) ls = some m) :
    run p.step s (emitted (step p) (acted p) (start s) ls) = some m.shared := by
  refine emitted_induction (fun os m => run p.step s os = some m.shared) rfl ?_ h
  intro os u l t hu hstep
  have hone : ∀ {a v}, p.step u.shared a = some v → run p.step s (os ++ [a]) = some v :=
    fun ha => run_snoc.mpr ⟨_, hu, ha⟩
  cases steps_of_step hstep with
  | change i a v hi hv =>
      rw [acted, hi]
      exact hone hv
  | take a v hwaiter htake hv =>
      rw [acted, htake]
      exact hone hv
  | sleep hwaiter htake =>
      rw [acted, htake, Option.toList_none, List.append_nil]
      exact hu
  | free a v hfree hv => exact hone hv
  | call | lock | unlock | notify | waiterLock | wake =>
      simpa only [acted, Option.toList_none, List.append_nil] using hu

def hasChanged : CallerPhase → Bool
  | .arrived | .locked => false
  | .changed | .unlocked | .done => true

def changes (callers : List (ι × CallerPhase)) : List ι := (callers.filter fun c => hasChanged c.2).map (·.1)

theorem changes_set {callers : List (ι × CallerPhase)} {i : Nat} {a : ι} {old : CallerPhase}
    (hi : callers[i]? = some (a, old)) (new : CallerPhase) :
    (changes (callers.set i (a, new)) ++ if hasChanged old then [a] else []).Perm
      (changes callers ++ if hasChanged new then [a] else []) := by
  induction callers generalizing i with
  | nil => simp at hi
  | cons c callers ih =>
      cases i with
      | zero =>
          obtain rfl := Option.some.inj hi
          rw [List.set_cons_zero, changes, changes, List.filter_cons, List.filter_cons]
          cases hasChanged old <;> cases hasChanged new <;>
            simp [List.perm_append_singleton, (List.perm_append_singleton _ _).symm]
      | succ i =>
          have hrest := ih (i := i) hi
          rw [List.set_cons_succ, changes, changes, List.filter_cons, List.filter_cons]
          cases hasChanged c.2 with
          | false => exact hrest
          | true => exact hrest.cons c.1

theorem changes_set_of_eq {callers : List (ι × CallerPhase)} {i : Nat} {a : ι} {old new : CallerPhase}
    (hi : callers[i]? = some (a, old)) (hsame : hasChanged old = hasChanged new) :
    (changes (callers.set i (a, new))).Perm (changes callers) := by
  have hset := changes_set hi new
  rw [hsame] at hset
  exact (List.perm_append_right_iff _).mp hset

theorem calls_acted (hp : Lawful p) {s : σ} {ls : List (Label ι)} (h : run (step p) (start s) ls = some m) :
    ((emitted (step p) (acted p) (start s) ls).filter p.isCall).Perm (changes m.callers) := by
  refine (emitted_induction (fun os m => Safe p m ∧ (os.filter p.isCall).Perm (changes m.callers))
    ⟨safe_start s, .nil⟩ ?_ h).2
  rintro os u l t ⟨hsafe, hperm⟩ hstep
  have hsteps := steps_of_step hstep
  refine ⟨safe_step hp hsafe hsteps, ?_⟩
  have hquiet : ∀ {a}, p.isCall a = false → ((os ++ [a]).filter p.isCall).Perm (changes u.callers) := by
    intro a ha
    rw [List.filter_append, List.filter_singleton, ha]
    simpa using hperm
  cases hsteps with
  | change i a v hi hv =>
      have hcall := hsafe.calls _ (List.mem_of_getElem? hi)
      have hset := changes_set hi .changed
      simp only [hasChanged, Bool.false_eq_true, if_false, if_true, List.append_nil] at hset
      rw [acted, hi, Option.map_some, Option.toList_some, List.filter_append, List.filter_singleton, hcall]
      exact (hperm.append_right [a]).trans hset.symm
  | take a v hwaiter htake hv =>
      rw [acted, htake]
      exact hquiet (hp.takes htake)
  | sleep hwaiter htake =>
      rw [acted, htake, Option.toList_none, List.append_nil]
      exact hperm
  | free a v hfree hv => exact hquiet (hp.frees hfree)
  | call a hcall =>
      simpa only [acted, Option.toList_none, List.append_nil, changes, List.filter_append, List.filter_singleton,
        hasChanged, cond_false] using hperm
  | lock i a hi | unlock i a hi | notify i a hi =>
      simp only [acted, Option.toList_none, List.append_nil]
      refine hperm.trans (changes_set_of_eq hi ?_).symm
      rfl
  | waiterLock | wake => simpa only [acted, Option.toList_none, List.append_nil] using hperm

end MemSim.Monitor
