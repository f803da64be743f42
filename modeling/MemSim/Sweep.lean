import MemSim.Machine

namespace MemSim.Sweep

open Machine

variable {ε α σ : Type}

/-- A loop over a vector whose body changes the element in place and a state
shared by all rounds. An error keeps what the rounds before it have done. -/
def sweep (body : Nat → EStateM ε (α × σ) Unit) :
    Nat → List α → σ → EStateM.Result ε (List α × σ) Unit
  | _, [], s => .ok () ([], s)
  | i, a :: as, s =>
      match body i (a, s) with
      | .error e (b, t) => .error e (b :: as, t)
      | .ok () (b, t) =>
          match sweep body (i + 1) as t with
          | .error e (bs, u) => .error e (b :: bs, u)
          | .ok () (bs, u) => .ok () (b :: bs, u)

theorem sweep_head_error {body : Nat → EStateM ε (α × σ) Unit} {i : Nat} {a b : α} (as : List α) {s t : σ}
    {e : ε} (h : body i (a, s) = .error e (b, t)) :
    sweep body i (a :: as) s = .error e (b :: as, t) := by
  simp [sweep, h]

theorem sweep_returns (body : Nat → EStateM ε (α × σ) Unit) (P : Nat → α → Prop) (J : Nat → σ → Prop)
    (Q : Nat → α → α → Prop)
    (hbody : ∀ i a s, P i a → J i s →
      ∃ b t, body i (a, s) = .ok () (b, t) ∧ Q i a b ∧ J (i + 1) t)
    (i : Nat) (as : List α) (s : σ) (hP : ∀ k a, as[k]? = some a → P (i + k) a) (hJ : J i s) :
    ∃ bs t, sweep body i as s = .ok () (bs, t) ∧ J (i + as.length) t ∧ bs.length = as.length ∧
      ∀ k a b, as[k]? = some a → bs[k]? = some b → Q (i + k) a b := by
  induction as generalizing i s with
  | nil => exact ⟨[], s, rfl, hJ, rfl, by simp⟩
  | cons a as ih =>
      obtain ⟨b, t, hb, hQ, ht⟩ := hbody i a s (hP 0 a rfl) hJ
      obtain ⟨bs, u, hs, hu, hlen, hQs⟩ := ih (i + 1) t
        (fun k c hc => by
          have hk := hP (k + 1) c (by simpa using hc)
          rwa [Nat.add_right_comm]) ht
      refine ⟨b :: bs, u, ?_, ?_, by simp [hlen], ?_⟩
      · simp [sweep, hb, hs]
      · rwa [List.length_cons, ← Nat.add_assoc, Nat.add_right_comm]
      · intro k c d hc hd
        cases k with
        | zero =>
            obtain rfl : a = c := by simpa using hc
            obtain rfl : b = d := by simpa using hd
            exact hQ
        | succ k =>
            have hk := hQs k c d (by simpa using hc) (by simpa using hd)
            rwa [Nat.add_right_comm] at hk

theorem sweep_keeps (body : Nat → EStateM ε (α × σ) Unit)
    (hbody : ∀ i a s, (final (body i (a, s))).1 = a) (i : Nat) (as : List α) (s : σ) :
    (final (sweep body i as s)).1 = as := by
  induction as generalizing i s with
  | nil => rfl
  | cons a as ih =>
      have ha := hbody i a s
      unfold sweep
      split
      · next e b t hb => simpa [hb] using ha
      · next b t hb =>
          obtain rfl : b = a := by simpa [hb] using ha
          have hs := ih (i + 1) t
          split
          · next e bs u hr => simpa [hr] using hs
          · next bs u hr => simpa [hr] using hs

/-- What every round keeps of its element holds of the vector afterwards,
whether the loop returns or breaks off. -/
theorem sweep_invariant (body : Nat → EStateM ε (α × σ) Unit) (P : α → Prop)
    (hbody : ∀ i a s, P a → P (final (body i (a, s))).1) (i : Nat) (as : List α) (s : σ)
    (hP : ∀ a ∈ as, P a) : (final (sweep body i as s)).1.length = as.length ∧
      ∀ b ∈ (final (sweep body i as s)).1, P b := by
  induction as generalizing i s with
  | nil => exact ⟨rfl, hP⟩
  | cons a as ih =>
      have ha := hbody i a s (hP a (by simp))
      have has : ∀ c ∈ as, P c := fun c hc => hP c (by simp [hc])
      unfold sweep
      split
      · next e b t hb =>
          rw [hb] at ha
          exact ⟨by simp, List.forall_mem_cons.mpr ⟨ha, has⟩⟩
      · next b t hb =>
          rw [hb] at ha
          obtain ⟨hlen, hbs⟩ := ih (i + 1) t has
          split
          · next e bs u hr =>
              rw [hr] at hlen hbs
              exact ⟨by simpa using hlen, List.forall_mem_cons.mpr ⟨ha, hbs⟩⟩
          · next bs u hr =>
              rw [hr] at hlen hbs
              exact ⟨by simpa using hlen, List.forall_mem_cons.mpr ⟨ha, hbs⟩⟩

theorem sweep_not_faults (body : Nat → EStateM (Stop ε) (α × σ) Unit) (P : Nat → α → Prop)
    (J : σ → Prop) (hbody : ∀ i a s, P i a → J s →
      ¬ Faults (body i (a, s)) ∧ J (final (body i (a, s))).2)
    (i : Nat) (as : List α) (s : σ) (hP : ∀ k a, as[k]? = some a → P (i + k) a) (hJ : J s) :
    ¬ Faults (sweep body i as s) := by
  induction as generalizing i s with
  | nil => exact id
  | cons a as ih =>
      obtain ⟨hf, ht⟩ := hbody i a s (hP 0 a rfl) hJ
      unfold sweep
      split
      · next e b t hb =>
          rw [hb] at hf
          cases e with
          | fault f => simp at hf
          | raised e => simp
      · next b t hb =>
          rw [hb] at ht
          have hs := ih (i + 1) t (fun k c hc => by
            have hk := hP (k + 1) c (by simpa using hc)
            rwa [Nat.add_right_comm]) ht
          split
          · next e bs u hr =>
              rw [hr] at hs
              cases e with
              | fault f => simp at hs
              | raised e => simp
          · simp

theorem sweep_ends (body : Nat → EStateM (Stop ε) (α × σ) Unit) (P Q : α → Prop)
    (hbody : ∀ i a s, P a → Faults (body i (a, s)) ∨ ∃ b t, body i (a, s) = .ok () (b, t) ∧ Q b)
    (i : Nat) (as : List α) (s : σ) (hP : ∀ a ∈ as, P a) : Faults (sweep body i as s) ∨
      ∃ bs t, sweep body i as s = .ok () (bs, t) ∧ bs.length = as.length ∧ ∀ b ∈ bs, Q b := by
  induction as generalizing i s with
  | nil => exact Or.inr ⟨[], s, rfl, rfl, by simp⟩
  | cons a as ih =>
      rcases hbody i a s (hP a (by simp)) with hf | ⟨b, t, hb, hQ⟩
      · obtain ⟨f, ⟨b, t⟩, hb⟩ := faults_iff.mp hf
        exact Or.inl (by simp [sweep, hb])
      · rcases ih (i + 1) t (fun c hc => hP c (by simp [hc])) with hf | ⟨bs, u, hs, hlen, hQs⟩
        · obtain ⟨f, ⟨bs, u⟩, hs⟩ := faults_iff.mp hf
          exact Or.inl (by simp [sweep, hb, hs])
        · refine Or.inr ⟨b :: bs, u, by simp [sweep, hb, hs], by simp [hlen], ?_⟩
          intro c hc
          rcases List.mem_cons.mp hc with rfl | hc
          · exact hQ
          · exact hQs c hc

end MemSim.Sweep
