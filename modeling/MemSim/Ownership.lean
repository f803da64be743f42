import Mathlib.Data.List.Nodup
import Mathlib.Logic.Function.Basic

namespace MemSim.Ownership

variable {ι D : Type}

/-- What someone holds is open, and nobody else holds it. What is open need
not be held. -/
structure Held (holder : ι → Option D) (opened : List D) : Prop where
  nodup : opened.Nodup
  opened : ∀ i d, holder i = some d → d ∈ opened
  once : ∀ i j d, holder i = some d → holder j = some d → i = j

theorem held_nobody : Held (fun _ : ι => (none : Option D)) [] := ⟨List.nodup_nil, by simp, by simp⟩

variable [DecidableEq ι] {holder : ι → Option D} {opened : List D} {i : ι} {d : D}

theorem Held.acquire (h : Held holder opened) (i : ι) (hfresh : d ∉ opened) :
    Held (Function.update holder i (some d)) (d :: opened) := by
  have hother : ∀ j e, j ≠ i → Function.update holder i (some d) j = some e → e ∈ opened ∧ holder j = some e := by
    intro j e hj he
    rw [Function.update_of_ne hj] at he
    exact ⟨h.opened j e he, he⟩
  refine ⟨List.nodup_cons.mpr ⟨hfresh, h.nodup⟩, ?_, ?_⟩
  · intro j e he
    by_cases hj : j = i
    · subst hj
      rw [Function.update_self, Option.some.injEq] at he
      rw [he]
      exact List.mem_cons_self
    · exact List.mem_cons_of_mem d (hother j e hj he).1
  · intro j k e hje hke
    by_cases hj : j = i
    · by_cases hk : k = i
      · rw [hj, hk]
      · rw [hj, Function.update_self, Option.some.injEq] at hje
        exact absurd (hje ▸ (hother k e hk hke).1) hfresh
    · by_cases hk : k = i
      · rw [hk, Function.update_self, Option.some.injEq] at hke
        exact absurd (hke ▸ (hother j e hj hje).1) hfresh
      · exact h.once j k e (hother j e hj hje).2 (hother k e hk hke).2

theorem Held.abandon (h : Held holder opened) (i : ι) : Held (Function.update holder i none) opened := by
  have hother : ∀ j e, Function.update holder i none j = some e → holder j = some e := by
    intro j e he
    by_cases hj : j = i
    · rw [hj, Function.update_self] at he
      cases he
    · rwa [Function.update_of_ne hj] at he
  exact ⟨h.nodup, fun j e he => h.opened j e (hother j e he),
    fun j k e hj hk => h.once j k e (hother j e hj) (hother k e hk)⟩

theorem Held.release [DecidableEq D] (h : Held holder opened) (hd : holder i = some d) :
    Held (Function.update holder i none) (opened.erase d) := by
  have habandon := h.abandon i
  refine ⟨h.nodup.erase d, ?_, habandon.once⟩
  intro j e he
  have hj : j ≠ i := by
    rintro rfl
    rw [Function.update_self] at he
    cases he
  have hne : e ≠ d := by
    rintro rfl
    rw [Function.update_of_ne hj] at he
    exact hj (h.once j i e he hd)
  exact (List.mem_erase_of_ne hne).mpr (habandon.opened j e he)

end MemSim.Ownership
