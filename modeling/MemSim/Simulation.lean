import MemSim.Machine
import Mathlib.Logic.Relation

namespace MemSim.Simulation

open Machine

variable {ε σ τ υ α β κ : Type} {R : σ → τ → Prop} {S : τ → υ → Prop}

/-- Two computations end alike, in one value or one error and in related states. -/
def Matches (R : σ → τ → Prop) : EStateM.Result ε σ α → EStateM.Result ε τ α → Prop
  | .ok a s, .ok b t => a = b ∧ R s t
  | .error e s, .error f t => e = f ∧ R s t
  | _, _ => False

def Simulates (R : σ → τ → Prop) (m : EStateM ε σ α) (n : EStateM ε τ α) : Prop :=
  ∀ s t, R s t → Matches R (m.run s) (n.run t)

theorem Matches.final {r : EStateM.Result ε σ α} {q : EStateM.Result ε τ α} (h : Matches R r q) :
    R (final r) (final q) := by
  cases r with
  | ok a s =>
      cases q with
      | ok b t => exact h.2
      | error f t => exact False.elim h
  | error e s =>
      cases q with
      | ok b t => exact False.elim h
      | error f t => exact h.2

theorem Matches.comp {r : EStateM.Result ε σ α} {q : EStateM.Result ε τ α} {p : EStateM.Result ε υ α}
    (h : Matches R r q) (h' : Matches S q p) : Matches (Relation.Comp R S) r p := by
  cases q with
  | ok b t =>
      cases r with
      | error e s => exact False.elim h
      | ok a s =>
          cases p with
          | error f u => exact False.elim h'
          | ok c u => exact ⟨h.1.trans h'.1, t, h.2, h'.2⟩
  | error f t =>
      cases r with
      | ok a s => exact False.elim h
      | error e s =>
          cases p with
          | ok c u => exact False.elim h'
          | error g u => exact ⟨h.1.trans h'.1, t, h.2, h'.2⟩

theorem Matches.imp {Q : σ → τ → Prop} {r : EStateM.Result ε σ α} {q : EStateM.Result ε τ α} (h : Matches R r q)
    (hQ : R (Machine.final r) (Machine.final q) → Q (Machine.final r) (Machine.final q)) : Matches Q r q := by
  cases r with
  | ok a s =>
      cases q with
      | ok b t => exact ⟨h.1, hQ h.2⟩
      | error f t => exact False.elim h
  | error e s =>
      cases q with
      | ok b t => exact False.elim h
      | error f t => exact ⟨h.1, hQ h.2⟩

theorem Simulates.comp {m : EStateM ε σ α} {n : EStateM ε τ α} {l : EStateM ε υ α} (h : Simulates R m n)
    (h' : Simulates S n l) : Simulates (Relation.Comp R S) m l := by
  rintro s u ⟨t, hst, htu⟩
  exact (h s t hst).comp (h' t u htu)

theorem Simulates.pure (a : α) : Simulates R (pure a : EStateM ε σ α) (pure a) := fun _ _ h => ⟨rfl, h⟩

theorem Simulates.modify {f : σ → σ} {g : τ → τ} (h : ∀ s t, R s t → R (f s) (g t)) :
    Simulates R (modify f : EStateM ε σ Unit) (modify g) := fun s t hst => ⟨rfl, h s t hst⟩

theorem Simulates.bind {m : EStateM ε σ α} {n : EStateM ε τ α} {f : α → EStateM ε σ β} {g : α → EStateM ε τ β}
    (h : Simulates R m n) (hf : ∀ a, Simulates R (f a) (g a)) : Simulates R (m >>= f) (n >>= g) := by
  intro s t hst
  have hfirst := h s t hst
  rw [EStateM.run_bind, EStateM.run_bind]
  cases hm : m.run s with
  | ok a s' =>
      cases hn : n.run t with
      | ok b t' =>
          rw [hm, hn] at hfirst
          obtain ⟨rfl, hst'⟩ := hfirst
          exact hf a s' t' hst'
      | error f t' =>
          rw [hm, hn] at hfirst
          exact False.elim hfirst
  | error e s' =>
      cases hn : n.run t with
      | ok b t' =>
          rw [hm, hn] at hfirst
          exact False.elim hfirst
      | error f t' =>
          rw [hm, hn] at hfirst
          exact hfirst

/-- Requests served one after the other, each from the state that the one
before it leaves, whether that one returned or threw. -/
def runAll (f : κ → σ → EStateM.Result ε σ α) (l : List κ) (s : σ) : σ :=
  l.foldl (fun s k => final (f k s)) s

theorem runAll_matches {f : κ → σ → EStateM.Result ε σ α} {g : κ → τ → EStateM.Result ε τ α} {l : List κ}
    (h : ∀ k ∈ l, ∀ s t, R s t → Matches R (f k s) (g k t)) {s : σ} {t : τ} (hst : R s t) :
    R (runAll f l s) (runAll g l t) := by
  induction l generalizing s t with
  | nil => exact hst
  | cons k l ih =>
      exact ih (fun j hj => h j (List.mem_cons_of_mem k hj)) (h k List.mem_cons_self s t hst).final

end MemSim.Simulation
