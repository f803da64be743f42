import Mathlib.Logic.Basic
import Mathlib.Algebra.BigOperators.Group.List.Basic
import Mathlib.Algebra.GroupWithZero.Nat

namespace MemSim.Runs

variable {σ ι : Type}

/-- The state after a list of labels, if each in turn is enabled. -/
def run (step : σ → ι → Option σ) (s : σ) : List ι → Option σ
  | [] => some s
  | l :: ls => match step s l with
    | some t => run step t ls
    | none => none

def Visits (step : σ → ι → Option σ) (s : σ) (ls : List ι) (t : σ) : Prop :=
  ∃ before rest, ls = before ++ rest ∧ run step s before = some t

variable {step : σ → ι → Option σ}

theorem run_append {s : σ} {ls ms : List ι} :
    run step s (ls ++ ms) = (run step s ls).bind fun t => run step t ms := by
  induction ls generalizing s with
  | nil => rfl
  | cons l ls ih =>
      rw [List.cons_append, run, run]
      cases step s l with
      | none => rfl
      | some t => exact ih

theorem run_snoc {s t : σ} {ls : List ι} {l : ι} :
    run step s (ls ++ [l]) = some t ↔ ∃ u, run step s ls = some u ∧ step u l = some t := by
  rw [run_append]
  cases run step s ls with
  | none => simp
  | some u =>
      simp only [Option.bind_some, run, Option.some.injEq, exists_eq_left']
      cases step u l <;> simp

/-- What holds at the start and is kept by every step holds after every run;
the labels taken so far are part of it. -/
theorem run_induction (I : List ι → σ → Prop) {s : σ} (hstart : I [] s)
    (hstep : ∀ ls u l t, I ls u → step u l = some t → I (ls ++ [l]) t) (ls : List ι) {t : σ}
    (h : run step s ls = some t) : I ls t := by
  have hsplit : ∀ (ms ns : List ι) (u : σ), I ms u → run step u ns = some t → I (ms ++ ns) t := by
    intro ms ns
    induction ns generalizing ms with
    | nil =>
        intro u hu hrun
        obtain rfl := Option.some.inj hrun
        rwa [List.append_nil]
    | cons l ns ih =>
        intro u hu hrun
        rw [run] at hrun
        cases hl : step u l with
        | none => simp [hl] at hrun
        | some v =>
            rw [hl] at hrun
            have hrest := ih (ms ++ [l]) v (hstep ms u l v hu hl) hrun
            rwa [List.append_assoc] at hrest
  exact hsplit [] ls s hstart h

/-- A step need only keep it under a condition, in a run whose steps meet that. -/
theorem run_induction_of (I : List ι → σ → Prop) (C : List ι → ι → σ → Prop) {s : σ} (hstart : I [] s)
    (hstep : ∀ ls u l t, I ls u → C ls l u → step u l = some t → I (ls ++ [l]) t) {ls : List ι} {t : σ}
    (hall : ∀ before l u, before ++ [l] <+: ls → run step s before = some u → C before l u)
    (h : run step s ls = some t) : I ls t := by
  have hkept : run step s ls = some t ∧
      ((∀ before l u, before ++ [l] <+: ls → run step s before = some u → C before l u) → I ls t) := by
    refine run_induction (fun ls t => run step s ls = some t ∧
      ((∀ before l u, before ++ [l] <+: ls → run step s before = some u → C before l u) → I ls t))
      ⟨rfl, fun _ => hstart⟩ ?_ ls h
    rintro ms u l v ⟨hu, ih⟩ hl
    refine ⟨run_snoc.mpr ⟨u, hu, hl⟩, ?_⟩
    intro hms
    have hbefore := ih fun before m w hpre => hms before m w (hpre.trans (List.prefix_append ms [l]))
    exact hstep ms u l v hbefore (hms ms l u (List.prefix_refl _) hu) hl
  exact hkept.2 hall

theorem step_of_prefix {s t u : σ} {before ls : List ι} {l : ι} (h : run step s ls = some t)
    (hpre : before ++ [l] <+: ls) (hu : run step s before = some u) :
    ∃ v, step u l = some v ∧ run step s (before ++ [l]) = some v := by
  obtain ⟨rest, rfl⟩ := hpre
  rw [run_append] at h
  obtain ⟨v, hv, _⟩ := Option.bind_eq_some_iff.mp h
  obtain ⟨u', hu', hstep⟩ := run_snoc.mp hv
  rw [hu] at hu'
  obtain rfl := Option.some.inj hu'
  exact ⟨v, hstep, hv⟩

def eachStep (step : σ → ι → Option σ) (c : σ → ι → Bool) (s : σ) : List ι → Bool
  | [] => true
  | l :: ls => c s l && match step s l with
    | some t => eachStep step c t ls
    | none => true

theorem of_eachStep {c : σ → ι → Bool} {s : σ} {ls : List ι} (h : eachStep step c s ls = true) :
    ∀ before l u, before ++ [l] <+: ls → run step s before = some u → c u l = true := by
  intro before
  induction before generalizing s ls with
  | nil =>
      rintro l u ⟨rest, rfl⟩ hu
      obtain rfl := Option.some.inj hu
      exact (Bool.and_eq_true_iff.mp h).1
  | cons m before ih =>
      rintro l u ⟨rest, rfl⟩ hu
      have hrest := (Bool.and_eq_true_iff.mp h).2
      rw [run] at hu
      cases hm : step s m with
      | none => simp [hm] at hu
      | some t =>
          simp only [hm] at hu hrest
          exact ih hrest l u (List.prefix_append _ _) hu

/-- When each step pays for its work from a potential, all the work of a run
is paid for by what the potential begins with and what the run adds to it. -/
theorem work_le_of_potential (potential : σ → Nat) (work gain : ι → Nat)
    (hstep : ∀ u l t, step u l = some t → potential t + work l ≤ potential u + gain l) {s t : σ} {ls : List ι}
    (h : run step s ls = some t) :
    potential t + (ls.map work).sum ≤ potential s + (ls.map gain).sum := by
  refine run_induction (fun ls t => potential t + (ls.map work).sum ≤ potential s + (ls.map gain).sum)
    (Nat.le_refl _) ?_ ls h
  intro ms u l v hu hl
  have hpaid := hstep u l v hl
  simp only [List.map_append, List.sum_append, List.map_singleton, List.sum_singleton]
  omega

def emitted {ω : Type} (step : σ → ι → Option σ) (out : σ → ι → Option ω) (s : σ) : List ι → List ω
  | [] => []
  | l :: ls => (out s l).toList ++ match step s l with
    | some t => emitted step out t ls
    | none => []

theorem emitted_snoc {ω : Type} {out : σ → ι → Option ω} {s u : σ} {ls : List ι}
    (h : run step s ls = some u) (l : ι) :
    emitted step out s (ls ++ [l]) = emitted step out s ls ++ (out u l).toList := by
  induction ls generalizing s with
  | nil =>
      obtain rfl := Option.some.inj h
      rw [List.nil_append, emitted, emitted, List.nil_append]
      cases step s l <;> simp [emitted]
  | cons m ls ih =>
      rw [run] at h
      rw [List.cons_append, emitted, emitted]
      cases hm : step s m with
      | none => simp [hm] at h
      | some v =>
          rw [hm] at h
          simp only [ih h, List.append_assoc]

theorem emitted_induction {ω : Type} {out : σ → ι → Option ω} (P : List ω → σ → Prop) {s : σ} (hstart : P [] s)
    (hstep : ∀ os u l t, P os u → step u l = some t → P (os ++ (out u l).toList) t) {ls : List ι} {t : σ}
    (h : run step s ls = some t) : P (emitted step out s ls) t := by
  have hboth : run step s ls = some t ∧ P (emitted step out s ls) t := by
    refine run_induction (fun ls t => run step s ls = some t ∧ P (emitted step out s ls) t) ⟨rfl, hstart⟩ ?_ ls h
    rintro ms u l v ⟨hu, hP⟩ hl
    refine ⟨run_snoc.mpr ⟨u, hu, hl⟩, ?_⟩
    rw [emitted_snoc hu]
    exact hstep _ u l v hP hl
  exact hboth.2

section

variable {l before rest : List ι} {a b : ι}

theorem snoc_eq_append (h : l ++ [a] = before ++ b :: rest) :
    (before = l ∧ b = a) ∨ ∃ rest', l = before ++ b :: rest' := by
  rcases List.eq_nil_or_concat rest with rfl | ⟨rest', x, rfl⟩
  · obtain ⟨hbefore, hb⟩ := List.append_inj' h rfl
    exact Or.inl ⟨hbefore.symm, (List.singleton_inj.mp hb).symm⟩
  · rw [List.concat_eq_append, ← List.cons_append, ← List.append_assoc] at h
    exact Or.inr ⟨rest', (List.append_inj' h rfl).1⟩

theorem each_snoc {P : List ι → ι → Prop} :
    (∀ before b rest, l ++ [a] = before ++ b :: rest → P before b) ↔
      (∀ before b rest, l = before ++ b :: rest → P before b) ∧ P l a := by
  constructor
  · intro h
    refine ⟨?_, h l a [] rfl⟩
    intro before b rest hl
    exact h before b (rest ++ [a]) (by rw [hl]; simp)
  · rintro ⟨h, ha⟩ before b rest hl
    rcases snoc_eq_append hl with ⟨rfl, rfl⟩ | ⟨rest', hl'⟩
    · exact ha
    · exact h before b rest' hl'

theorem each_nil {P : List ι → ι → Prop} : ∀ before b rest, [] = before ++ b :: rest → P before b := by
  intro before b rest h
  simp at h

end

end MemSim.Runs
