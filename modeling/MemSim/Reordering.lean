import Mathlib.Data.List.Sort

namespace MemSim

/-- A list in another order that keeps the order of elements with one key. -/
structure Reordering {α κ : Type} (key : α → κ) (l m : List α) where
  place : Fin l.length ≃ Fin m.length
  same : ∀ i, m.get (place i) = l.get i
  order : ∀ i j, i < j → key (l.get i) = key (l.get j) → place i < place j

namespace Reordering

variable {α κ : Type} {key : α → κ} {l m : List α}

theorem lt_iff (r : Reordering key l m) {i j : Fin l.length} (h : key (l.get i) = key (l.get j)) :
    r.place i < r.place j ↔ i < j := by
  constructor
  · intro hlt
    rcases lt_trichotomy i j with hij | rfl | hji
    · exact hij
    · exact absurd hlt (lt_irrefl _)
    · exact absurd (r.order j i hji h.symm) (lt_asymm hlt)
  · exact fun hij => r.order i j hij h

theorem map_place (r : Reordering key l m) {P : Fin l.length → Bool} {Q : Fin m.length → Bool}
    (hkey : ∀ i j, P i = true → P j = true → key (l.get i) = key (l.get j))
    (hplace : ∀ i, Q (r.place i) = P i) :
    ((List.finRange l.length).filter P).map r.place = (List.finRange m.length).filter Q := by
  apply List.Pairwise.eq_of_mem_iff (r := (· < ·))
  · rw [List.pairwise_map, List.pairwise_filter]
    refine (List.pairwise_lt_finRange _).imp ?_
    intro i j hlt hi hj
    exact r.order i j hlt (hkey i j hi hj)
  · exact (List.pairwise_lt_finRange _).filter _
  · intro p
    simp only [List.mem_map, List.mem_filter, List.mem_finRange, true_and]
    constructor
    · rintro ⟨i, hi, rfl⟩
      rw [hplace, hi]
    · intro hp
      refine ⟨r.place.symm p, ?_, r.place.apply_symm_apply p⟩
      rw [← hplace, r.place.apply_symm_apply, hp]

theorem filter_take (p : α → Bool) (l : List α) (n : Nat) :
    (l.take n).filter p =
      ((List.finRange l.length).filter fun i => decide (i.val < n) && p (l.get i)).map l.get := by
  induction l generalizing n with
  | nil => simp
  | cons a l ih =>
      cases n with
      | zero => simp
      | succ n =>
          have hrange : List.finRange (a :: l).length = 0 :: (List.finRange l.length).map Fin.succ :=
            List.finRange_succ
          have htail : (List.finRange l.length).filter
              ((fun i => decide (i.val < n + 1) && p ((a :: l).get i)) ∘ Fin.succ) =
                (List.finRange l.length).filter fun i => decide (i.val < n) && p (l.get i) := by
            apply List.filter_congr
            intro i _
            simp
          rw [List.take_succ_cons, hrange, List.filter_cons, List.filter_cons, List.filter_map, htail, ih n]
          cases hp : p a with
          | false => simp [hp, Function.comp_def]
          | true => simp [hp, Function.comp_def]

def swap {a b : α} (h : key a ≠ key b) : Reordering key [a, b] [b, a] where
  place := Equiv.swap (0 : Fin 2) 1
  same i := by
    match i with
    | 0 => rfl
    | 1 => rfl
  order i j hij hkey := by
    match i, j with
    | 0, 0 => exact absurd hij (lt_irrefl _)
    | 0, 1 => exact absurd hkey h
    | 1, 0 => exact absurd hkey.symm h
    | 1, 1 => exact absurd hij (lt_irrefl _)

variable [DecidableEq κ]

theorem filter_take_place (r : Reordering key l m) (i : Fin l.length) :
    (l.take i).filter (fun a => key a = key (l.get i)) =
      (m.take (r.place i)).filter (fun a => key a = key (l.get i)) := by
  have hmap := r.map_place
    (P := fun j => decide (j.val < i.val) && decide (key (l.get j) = key (l.get i)))
    (Q := fun j => decide (j.val < (r.place i).val) && decide (key (m.get j) = key (l.get i)))
    (by
      intro j k hj hk
      simp only [Bool.and_eq_true, decide_eq_true_eq] at hj hk
      rw [hj.2, hk.2])
    (by
      intro j
      rw [r.same, Bool.eq_iff_iff, Bool.and_eq_true, Bool.and_eq_true, decide_eq_true_eq, decide_eq_true_eq,
        decide_eq_true_eq]
      exact and_congr_left fun h => r.lt_iff h)
  rw [filter_take, filter_take, ← hmap, List.map_map]
  exact List.map_congr_left fun j _ => (r.same j).symm

theorem filter_eq (r : Reordering key l m) (k : κ) :
    l.filter (fun a => key a = k) = m.filter (fun a => key a = k) := by
  have hmap := r.map_place (P := fun j => decide (key (l.get j) = k))
    (Q := fun j => decide (key (m.get j) = k))
    (by
      intro i j hi hj
      rw [of_decide_eq_true hi, of_decide_eq_true hj])
    (by
      intro j
      rw [r.same])
  have hall : ∀ l : List α, l.filter (fun a => key a = k) =
      ((List.finRange l.length).filter fun j => decide (key (l.get j) = k)).map l.get := by
    intro l
    have htake := filter_take (fun a => decide (key a = k)) l l.length
    rw [List.take_length] at htake
    simpa only [Fin.is_lt, decide_true, Bool.true_and] using htake
  rw [hall, hall, ← hmap, List.map_map]
  exact List.map_congr_left fun j _ => (r.same j).symm

omit [DecidableEq κ] in
theorem perm (r : Reordering key l m) : l.Perm m := by
  have hplaces : ((List.finRange l.length).map r.place).Perm (List.finRange m.length) := by
    rw [List.perm_ext_iff_of_nodup ((List.nodup_finRange _).map r.place.injective) (List.nodup_finRange _)]
    intro p
    simp only [List.mem_map, List.mem_finRange, true_and, iff_true]
    exact r.place.surjective p
  have hget := hplaces.map m.get
  rw [List.map_map, List.map_get_finRange] at hget
  rwa [show m.get ∘ r.place = l.get from funext r.same, List.map_get_finRange] at hget

end Reordering

section

variable {α κ σ υ : Type} {step : σ → α → σ} {key : α → κ} {I : σ → Prop}

theorem foldl_keeps (hI : ∀ s a, I s → I (step s a)) {s : σ} (hs : I s) (l : List α) : I (l.foldl step s) := by
  induction l generalizing s with
  | nil => exact hs
  | cons a l ih => exact ih (hI s a hs)

/-- What steps of the other keys leave alone, and a step of the key changes by
what it was, depends on the steps of the key only. -/
theorem foldl_view [DecidableEq κ] (view : σ → υ) (k : κ) (hI : ∀ s a, I s → I (step s a))
    (hother : ∀ s a, I s → key a ≠ k → view (step s a) = view s)
    (hown : ∀ s t a, I s → I t → key a = k → view s = view t → view (step s a) = view (step t a))
    {s t : σ} (hs : I s) (ht : I t) (hst : view s = view t) {l m : List α}
    (h : l.filter (fun a => key a = k) = m.filter (fun a => key a = k)) :
    view (l.foldl step s) = view (m.foldl step t) := by
  have hagree : ∀ (l : List α) {s t : σ}, I s → I t → view s = view t →
      view (l.foldl step s) = view ((l.filter fun a => key a = k).foldl step t) := by
    intro l
    induction l with
    | nil => exact fun _ _ hst => hst
    | cons a l ih =>
        intro s t hs ht hst
        by_cases ha : key a = k
        · rw [List.filter_cons_of_pos (by simpa using ha)]
          exact ih (hI s a hs) (hI t a ht) (hown s t a hs ht ha hst)
        · rw [List.filter_cons_of_neg (by simpa using ha)]
          exact ih (hI s a hs) ht ((hother s a hs ha).trans hst)
  rw [hagree l hs hs rfl, h]
  exact (hagree m ht hs hst.symm).symm

theorem foldl_count (view : σ → υ) {count : υ → α → υ} (hI : ∀ s a, I s → I (step s a))
    (hcount : ∀ s a, I s → view (step s a) = count (view s) a)
    (hcomm : ∀ v a b, count (count v a) b = count (count v b) a) {s : σ} (hs : I s) {l m : List α}
    (h : l.Perm m) : view (l.foldl step s) = view (m.foldl step s) := by
  have hfold : ∀ (l : List α) {s : σ}, I s → view (l.foldl step s) = l.foldl count (view s) := by
    intro l
    induction l with
    | nil => exact fun _ => rfl
    | cons a l ih =>
        intro s hs
        rw [List.foldl_cons, List.foldl_cons, ih (hI s a hs), hcount s a hs]
  rw [hfold l hs, hfold m hs]
  exact h.foldl_eq' (fun a _ b _ v => hcomm v a b) _

end

end MemSim
