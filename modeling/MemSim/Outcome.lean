import MemSim.Machine

namespace MemSim.Outcome

open Machine

variable {ε σ α β : Type}

/-- The weakest condition under which a computation ends without a fault, in
the first condition when it returns and in the second when it throws. -/
def Ends (Q : α → σ → Prop) (E : σ → Prop) : EStateM.Result (Stop ε) σ α → Prop
  | .ok a s => Q a s
  | .error (.raised _) s => E s
  | .error (.fault _) _ => False

variable {Q R : α → σ → Prop} {E F : σ → Prop}

theorem Ends.imp {r : EStateM.Result (Stop ε) σ α} (h : Ends Q E r) (hQ : ∀ a s, Q a s → R a s)
    (hE : ∀ s, E s → F s) : Ends R F r := by
  cases r with
  | ok a s => exact hQ a s h
  | error e s =>
      cases e with
      | fault f => exact h
      | raised e => exact hE s h

theorem Ends.not_faults {r : EStateM.Result (Stop ε) σ α} (h : Ends Q E r) : ¬ Faults r := by
  cases r with
  | ok a s => exact id
  | error e s =>
      cases e with
      | fault f => exact False.elim h
      | raised e => exact id

theorem Ends.final {r : EStateM.Result (Stop ε) σ α} (h : Ends (fun _ => E) E r) :
    E (final r) := by
  cases r with
  | ok a s => exact h
  | error e s =>
      cases e with
      | fault f => exact False.elim h
      | raised e => exact h

theorem Ends.returns {r : EStateM.Result (Stop ε) σ α} (h : Ends Q (fun _ => False) r) :
    ∃ a s, r = .ok a s ∧ Q a s := by
  cases r with
  | ok a s => exact ⟨a, s, rfl, h⟩
  | error e s =>
      cases e with
      | fault f => exact False.elim h
      | raised e => exact False.elim h

/-- The rule of sequence. -/
@[simp] theorem ends_bind {E : σ → Prop} (m : EStateM (Stop ε) σ α) (f : α → EStateM (Stop ε) σ β)
    {Q : β → σ → Prop} (s : σ) :
    Ends Q E (EStateM.run (m >>= f) s) ↔
      Ends (fun a t => Ends Q E (EStateM.run (f a) t)) E (EStateM.run m s) := by
  change Ends Q E (EStateM.bind m f s) ↔ Ends _ E (m s)
  unfold EStateM.bind
  cases h : m s with
  | ok a t => exact Iff.rfl
  | error e t =>
      cases e with
      | fault e => exact Iff.rfl
      | raised e => exact Iff.rfl

@[simp] theorem ends_pure (a : α) (s : σ) :
    Ends Q E (EStateM.run (pure a : EStateM (Stop ε) σ α) s) ↔ Q a s := Iff.rfl

@[simp] theorem ends_get {Q : σ → σ → Prop} (s : σ) :
    Ends Q E (EStateM.run (get : EStateM (Stop ε) σ σ) s) ↔ Q s s := Iff.rfl

@[simp] theorem ends_modify {Q : Unit → σ → Prop} (f : σ → σ) (s : σ) :
    Ends Q E (EStateM.run (modify f : EStateM (Stop ε) σ Unit) s) ↔ Q () (f s) := Iff.rfl

@[simp] theorem ends_modifyGet (f : σ → α × σ) (s : σ) :
    Ends Q E (EStateM.run (modifyGet f : EStateM (Stop ε) σ α) s) ↔ Q (f s).1 (f s).2 := Iff.rfl

@[simp] theorem ends_lift_ok (a : α) (s : σ) :
    Ends Q E (EStateM.run (liftM (.ok a : Checked ε α) : EStateM (Stop ε) σ α) s) ↔ Q a s := Iff.rfl

theorem ends_bind_of {E : σ → Prop} {m : EStateM (Stop ε) σ α} {f : α → EStateM (Stop ε) σ β}
    {Q : β → σ → Prop} {s : σ} (h : Ends R F (EStateM.run m s))
    (hf : ∀ a t, R a t → Ends Q E (EStateM.run (f a) t)) (hE : ∀ t, F t → E t) :
    Ends Q E (EStateM.run (m >>= f) s) := by
  rw [ends_bind]
  exact h.imp hf hE

end MemSim.Outcome
