import Mathlib.Logic.Function.Iterate

namespace MemSim.While

variable {σ β : Type}

/-- A guarded loop allowed at most the given number of rounds; no result
while the guard still holds after them. -/
def loop (guard : σ → Bool) (body : σ → σ) : Nat → σ → Option σ
  | 0, s => if guard s then none else some s
  | n + 1, s => if guard s then loop guard body n (body s) else some s

section

variable (guard : σ → Bool) (body : σ → σ) (I : σ → Prop)

/-- A rank that falls by one in every round is the exact number of rounds:
fewer do not suffice, and more change nothing. -/
theorem loop_of_rank (rank : σ → Nat) (hguard : ∀ s, I s → (guard s = true ↔ 0 < rank s))
    (hbody : ∀ s, I s → 0 < rank s → I (body s) ∧ rank (body s) + 1 = rank s)
    (n : Nat) (s : σ) (hs : I s) :
    loop guard body n s = if rank s ≤ n then some (body^[rank s] s) else none := by
  induction n generalizing s with
  | zero =>
      rcases Nat.eq_zero_or_pos (rank s) with hr | hr
      · have hg : guard s = false := by simpa [hr] using hguard s hs
        simp [loop, hg, hr]
      · simp [loop, (hguard s hs).mpr hr, Nat.pos_iff_ne_zero.mp hr]
  | succ n ih =>
      rcases Nat.eq_zero_or_pos (rank s) with hr | hr
      · have hg : guard s = false := by simpa [hr] using hguard s hs
        simp [loop, hg, hr]
      · obtain ⟨hI, hd⟩ := hbody s hs hr
        rw [loop, if_pos ((hguard s hs).mpr hr), ih _ hI, ← hd, Function.iterate_succ_apply]
        simp only [Nat.add_le_add_iff_right]

theorem loop_conserves (q : σ → β) (hq : ∀ s, I s → guard s = true → q (body s) = q s)
    (hI : ∀ s, I s → guard s = true → I (body s)) (n : Nat) (s t : σ) (hs : I s)
    (h : loop guard body n s = some t) : q t = q s ∧ I t ∧ guard t = false := by
  induction n generalizing s with
  | zero =>
      cases hg : guard s with
      | true => simp [loop, hg] at h
      | false =>
          obtain rfl : s = t := by simpa [loop, hg] using h
          exact ⟨rfl, hs, hg⟩
  | succ n ih =>
      cases hg : guard s with
      | true =>
          rw [loop, if_pos hg] at h
          obtain ⟨hc, hr⟩ := ih (body s) (hI s hs hg) h
          exact ⟨hc.trans (hq s hs hg), hr⟩
      | false =>
          obtain rfl : s = t := by simpa [loop, hg] using h
          exact ⟨rfl, hs, hg⟩

end

end MemSim.While
