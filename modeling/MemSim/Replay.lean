import Mathlib.Data.List.Basic
import Mathlib.Logic.Function.Basic

namespace MemSim.Replay

variable {κ α β ρ : Type} [DecidableEq κ]

def onKey {γ : Type} (k : κ) (l : List (κ × γ)) : List γ :=
  l.filterMap fun p => if p.1 = k then some p.2 else none

variable (effect : α → β → Option (β × ρ))

/-- Actions on one value, one after the other, with their results; where one of
them is undefined there is none. -/
def replayOne : β → List α → Option (β × List ρ)
  | b, [] => some (b, [])
  | b, a :: as => (effect a b).bind fun p => (replayOne p.1 as).map fun q => (q.1, p.2 :: q.2)

def replay : (κ → β) → List (κ × α) → Option ((κ → β) × List (κ × ρ))
  | m, [] => some (m, [])
  | m, a :: as => (effect a.2 (m a.1)).bind fun p =>
      (replay (Function.update m a.1 p.1) as).map fun q => (q.1, (a.1, p.2) :: q.2)

@[simp] theorem onKey_nil {γ : Type} (k : κ) : onKey k ([] : List (κ × γ)) = [] := rfl

theorem onKey_cons_self {γ : Type} (k : κ) (c : γ) (l : List (κ × γ)) : onKey k ((k, c) :: l) = c :: onKey k l := by
  simp [onKey]

theorem onKey_cons_of_ne {γ : Type} {j k : κ} (h : j ≠ k) (c : γ) (l : List (κ × γ)) :
    onKey k ((j, c) :: l) = onKey k l := by
  simp [onKey, h]

@[simp] theorem onKey_append {γ : Type} (k : κ) (l m : List (κ × γ)) :
    onKey k (l ++ m) = onKey k l ++ onKey k m := List.filterMap_append

variable {effect}

theorem replayOne_of_replay {m m' : κ → β} {as : List (κ × α)} {rs : List (κ × ρ)}
    (h : replay effect m as = some (m', rs)) (k : κ) :
    replayOne effect (m k) (onKey k as) = some (m' k, onKey k rs) := by
  induction as generalizing m rs with
  | nil =>
      obtain ⟨rfl, rfl⟩ := Prod.mk.inj (Option.some.inj h)
      rfl
  | cons a as ih =>
      obtain ⟨j, c⟩ := a
      obtain ⟨p, hp, h⟩ := Option.bind_eq_some_iff.mp h
      obtain ⟨q, hq, h⟩ := Option.map_eq_some_iff.mp h
      obtain ⟨rfl, rfl⟩ := Prod.mk.inj h
      have hrest := ih hq
      by_cases hj : j = k
      · subst hj
        rw [Function.update_self] at hrest
        rw [onKey_cons_self, onKey_cons_self, replayOne, hp, Option.bind_some, hrest]
        rfl
      · rw [Function.update_of_ne (Ne.symm hj)] at hrest
        rw [onKey_cons_of_ne hj, onKey_cons_of_ne hj, hrest]

theorem replay_of_replayOne {m : κ → β} {as : List (κ × α)}
    (h : ∀ k, ∃ p, replayOne effect (m k) (onKey k as) = some p) : ∃ q, replay effect m as = some q := by
  induction as generalizing m with
  | nil => exact ⟨_, rfl⟩
  | cons a as ih =>
      obtain ⟨j, c⟩ := a
      obtain ⟨p, hp⟩ := h j
      rw [onKey_cons_self] at hp
      obtain ⟨r, hr, hp⟩ := Option.bind_eq_some_iff.mp hp
      obtain ⟨q, hq, _⟩ := Option.map_eq_some_iff.mp hp
      have hrest : ∀ k, ∃ p, replayOne effect (Function.update m j r.1 k) (onKey k as) = some p := by
        intro k
        by_cases hk : j = k
        · subst hk
          exact ⟨q, by rw [Function.update_self, hq]⟩
        · obtain ⟨p', hp'⟩ := h k
          rw [onKey_cons_of_ne hk] at hp'
          exact ⟨p', by rw [Function.update_of_ne (Ne.symm hk), hp']⟩
      obtain ⟨q', hq'⟩ := ih hrest
      refine ⟨(q'.1, (j, r.2) :: q'.2), ?_⟩
      rw [replay, hr, Option.bind_some, hq', Option.map_some]

/-- Two orders of the actions that agree on every key do the same to the store,
and every key sees the same results. -/
theorem replay_of_onKey_eq {m m' : κ → β} {as bs : List (κ × α)} {rs : List (κ × ρ)}
    (hkeys : ∀ k, onKey k as = onKey k bs) (h : replay effect m as = some (m', rs)) :
    ∃ rs', replay effect m bs = some (m', rs') ∧ ∀ k, onKey k rs' = onKey k rs := by
  have hone : ∀ k, replayOne effect (m k) (onKey k bs) = some (m' k, onKey k rs) := by
    intro k
    rw [← hkeys k]
    exact replayOne_of_replay h k
  obtain ⟨⟨n, rs'⟩, hn⟩ := replay_of_replayOne fun k => ⟨_, hone k⟩
  have hsame : ∀ k, n k = m' k ∧ onKey k rs' = onKey k rs := by
    intro k
    have hk := (replayOne_of_replay hn k).symm.trans (hone k)
    exact Prod.mk.inj (Option.some.inj hk)
  have hstore : n = m' := by
    funext k
    exact (hsame k).1
  subst hstore
  exact ⟨rs', hn, fun k => (hsame k).2⟩

end MemSim.Replay
