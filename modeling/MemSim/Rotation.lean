import MemSim.VictimOrder

namespace MemSim.Rotation

open Machine FIFOPolicy VictimOrder

/-- What a cache asks of the policy of a set whose ways are all valid: a
victim for each miss, which is then inserted, and a word about each hit. -/
inductive Step
  | evict
  | touch (blockInd : Nat)
  deriving DecidableEq, Repr

def step (numBlocks : UInt32) (s : FIFOPolicy × List Nat) : Step → Checked String (FIFOPolicy × List Nat)
  | .evict => do
      let w ← s.1.getVictim (List.replicate numBlocks.toNat true)
      let p ← s.1.onInsert w
      return (p, s.2 ++ [w])
  | .touch blockInd => .ok (s.1.onAccess blockInd, s.2)

def drive (numBlocks : UInt32) (steps : List Step) : Checked String (FIFOPolicy × List Nat) :=
  steps.foldlM (step numBlocks) (FIFOPolicy.new numBlocks, [])

def evictions (steps : List Step) : Nat := steps.count .evict

/-- The ways in turn until the stamps wrap, and from then on the way that was
stamped zero. -/
def victim (n k : Nat) : Nat := if k < 2 ^ 32 then k % n else (2 ^ 32 - 1) % n

def history (n k : Nat) : List Nat := (List.range k).map (victim n)

def age (n k i : Nat) : Nat := if i < k then k - (k - 1 - i) % n else 0

section

variable {n k i : Nat}

theorem history_succ (n k : Nat) : history n (k + 1) = history n k ++ [victim n k] := by
  simp [history, List.range_succ]

theorem history_length (n k : Nat) : (history n k).length = k := by simp [history]

theorem succ_mod {m : Nat} (h : (m + 1) % n ≠ 0) : (m + 1) % n = m % n + 1 := by
  rcases Nat.eq_zero_or_pos n with rfl | hn
  · simp
  · have hlt := Nat.mod_lt m hn
    have hm := Nat.div_add_mod m n
    by_cases hlast : m % n + 1 = n
    · have hdvd : (m + 1) % n = 0 := by
        rw [← hm, Nat.add_assoc, hlast, Nat.mul_add_mod, Nat.mod_self]
      exact absurd hdvd h
    · rw [← hm, Nat.add_assoc, Nat.mul_add_mod, Nat.mul_add_mod, Nat.mod_eq_of_lt (a := m % n) hlt]
      exact Nat.mod_eq_of_lt (by omega)

theorem mod_eq_iff (hi : i < n) (hik : i ≤ k) : k % n = i ↔ (k - i) % n = 0 := by
  constructor
  · rintro rfl
    have hk := Nat.div_add_mod k n
    have hsub : k - k % n = n * (k / n) := by omega
    rw [hsub, Nat.mul_mod_right]
  · intro h
    obtain ⟨q, hq⟩ := Nat.dvd_of_mod_eq_zero h
    have hk : k = n * q + i := by omega
    rw [hk, Nat.mul_add_mod, Nat.mod_eq_of_lt hi]

theorem age_succ (hi : i < n) (k : Nat) : age n (k + 1) i = if i = k % n then k + 1 else age n k i := by
  unfold age
  by_cases hturn : i = k % n
  · have hle : i ≤ k := hturn ▸ Nat.mod_le k n
    have hzero := (mod_eq_iff hi hle).mp hturn.symm
    rw [if_pos hturn, if_pos (by omega), Nat.add_sub_cancel, hzero, Nat.sub_zero]
  · rw [if_neg hturn]
    by_cases hlt : i < k
    · have hne : (k - 1 - i + 1) % n ≠ 0 := by
        intro h
        apply hturn
        refine ((mod_eq_iff hi hlt.le).mpr ?_).symm
        have he : k - i = k - 1 - i + 1 := by omega
        rw [he, h]
      have hmod := succ_mod hne
      have he : k - 1 - i + 1 = k - i := by omega
      have hsmall := Nat.mod_le (k - i) n
      rw [he] at hmod
      rw [if_pos (by omega), if_pos hlt, Nat.add_sub_cancel, hmod]
      omega
    · have hk : k ≤ i := Nat.not_lt.mp hlt
      have hne : i ≠ k := by
        rintro rfl
        exact hturn (Nat.mod_eq_of_lt hi).symm
      rw [if_neg (by omega), if_neg hlt]

theorem victim_of_lt (n : Nat) (hk : k < 2 ^ 32) : victim n k = k % n := if_pos hk

theorem victim_of_ge (n : Nat) (hk : 2 ^ 32 ≤ k) : victim n k = (2 ^ 32 - 1) % n := if_neg (Nat.not_lt.mpr hk)

theorem lastInsertion_turns (hi : i < n) (hk : k ≤ 2 ^ 32) : lastInsertion (history n k) i = age n k i := by
  induction k with
  | zero => rfl
  | succ k ih =>
      rw [history_succ, lastInsertion_snoc, history_length, ih (by omega), age_succ hi,
        victim_of_lt n (by omega)]

theorem age_le (n k i : Nat) : age n k i ≤ k := by
  unfold age
  split <;> omega

theorem age_ge (hi : i < n) (hk : i < k) : k - (n - 1) ≤ age n k i := by
  have hlt := Nat.mod_lt (k - 1 - i) (Nat.zero_lt_of_lt hi)
  rw [age, if_pos hk]
  omega

theorem age_turn (hn : 0 < n) (hk : n ≤ k) : age n k (k % n) = k - (n - 1) := by
  have hlt := Nat.mod_lt k hn
  have hdiv := Nat.div_add_mod k n
  have hpos : 0 < k / n := Nat.div_pos hk hn
  have hround : k - 1 - k % n = n * (k / n - 1) + (n - 1) := by
    rw [Nat.mul_sub_one]
    have hle : n ≤ n * (k / n) := Nat.le_mul_of_pos_right n hpos
    omega
  rw [age, if_pos (by omega), hround, Nat.mul_add_mod, Nat.mod_eq_of_lt (by omega)]

theorem oldest_turn (hn : 0 < n) (hi : i < n) : age n k (k % n) ≤ age n k i ∧
    (age n k i = age n k (k % n) → k % n ≤ i) := by
  rcases Nat.lt_or_ge k n with hlt | hge
  · rw [Nat.mod_eq_of_lt hlt]
    have hzero : age n k k = 0 := if_neg (Nat.lt_irrefl k)
    rw [hzero]
    refine ⟨Nat.zero_le _, fun heq => ?_⟩
    by_contra hik
    have hge := age_ge hi (Nat.not_le.mp hik)
    rw [age, if_pos (Nat.not_le.mp hik)] at heq
    have hsmall := Nat.mod_le (k - 1 - i) n
    omega
  · rw [age_turn hn hge]
    refine ⟨age_ge hi (by omega), fun heq => ?_⟩
    have hmod := Nat.mod_lt (k - 1 - i) hn
    rw [age, if_pos (by omega)] at heq
    have hlast : (k - 1 - i) % n = n - 1 := by omega
    have hzero : (k - i) % n = 0 := by
      have hdiv := Nat.div_add_mod (k - 1 - i) n
      have hsum : k - i = n * ((k - 1 - i) / n) + n := by omega
      rw [hsum, Nat.mul_add_mod, Nat.mod_self]
    exact ((mod_eq_iff hi (by omega)).mpr hzero).le

theorem Oldest.unique {a : Nat → Nat} {valid : List Bool} {i j : Nat} (h : Oldest a valid i) (h' : Oldest a valid j) :
    i = j := by
  have hle := (h.2 j h'.1).1
  have hle' := (h'.2 i h.1).1
  exact Nat.le_antisymm ((h.2 j h'.1).2 (by omega)) ((h'.2 i h.1).2 (by omega))

end

section

variable {numBlocks : UInt32} {k : Nat}

theorem all_valid {n j : Nat} : (List.replicate n true)[j]? = some true ↔ j < n := by
  rw [List.getElem?_replicate]
  split <;> simp_all

theorem getVictim_of_oldest {l : List Nat} {w : Nat} (hlt : lastInsertion l w % 2 ^ 32 < 2 ^ 32 - 1)
    (hold : Oldest (fun j => lastInsertion l j % 2 ^ 32) (List.replicate numBlocks.toNat true) w) :
    (stamped numBlocks l).getVictim (List.replicate numBlocks.toNat true) = .ok w := by
  obtain ⟨i, hi, ⟨_, hold'⟩ | ⟨_, hall⟩⟩ := @getVictim_stamped numBlocks l _ List.length_replicate
  · rw [hi, Oldest.unique hold hold']
  · exact absurd (hall w hold.1) (Nat.not_le.mpr hlt)

theorem getVictim_turn (htwo : 2 ≤ numBlocks.toNat) (hk : k < 2 ^ 32) :
    (stamped numBlocks (history numBlocks.toNat k)).getVictim (List.replicate numBlocks.toNat true) =
      .ok (k % numBlocks.toNat) := by
  have hn : 0 < numBlocks.toNat := by omega
  have hage : ∀ j, j < numBlocks.toNat →
      lastInsertion (history numBlocks.toNat k) j % 2 ^ 32 = age numBlocks.toNat k j := by
    intro j hj
    rw [lastInsertion_turns hj hk.le, Nat.mod_eq_of_lt ((age_le _ _ _).trans_lt hk)]
  have hturn := Nat.mod_lt k hn
  apply getVictim_of_oldest
  · rw [hage _ hturn]
    rcases Nat.lt_or_ge k numBlocks.toNat with hlt | hge
    · rw [Nat.mod_eq_of_lt hlt, age, if_neg (Nat.lt_irrefl k)]
      decide
    · rw [age_turn hn hge]
      omega
  · refine ⟨all_valid.mpr hturn, fun j hj => ?_⟩
    have hj' := all_valid.mp hj
    simp only [hage _ hturn, hage _ hj']
    exact oldest_turn hn hj'

theorem lastInsertion_stuck {n i : Nat} (hi : i < n) (hk : 2 ^ 32 ≤ k) :
    lastInsertion (history n k) i = if i = (2 ^ 32 - 1) % n then k else age n (2 ^ 32) i := by
  induction k, hk using Nat.le_induction with
  | base =>
      rw [lastInsertion_turns hi le_rfl]
      have hsucc := age_succ hi (2 ^ 32 - 1)
      split
      · next h =>
          rw [if_pos h] at hsucc
          exact hsucc
      · rfl
  | succ k hk ih =>
      rw [history_succ, lastInsertion_snoc, history_length, ih, victim_of_ge n hk]
      split <;> rfl

theorem age_wrapped {n i : Nat} (hi : i < n) (hn : n < 2 ^ 32) (hne : i ≠ (2 ^ 32 - 1) % n) :
    2 ^ 32 - (n - 1) ≤ age n (2 ^ 32) i ∧ age n (2 ^ 32) i < 2 ^ 32 := by
  refine ⟨age_ge hi (hi.trans hn), ?_⟩
  have hsucc := age_succ hi (2 ^ 32 - 1)
  rw [if_neg hne] at hsucc
  have hle := age_le n (2 ^ 32 - 1) i
  have heq : age n (2 ^ 32) i = age n (2 ^ 32 - 1) i := hsucc
  omega

/-- The way that was stamped zero looks older than all others until its stamps
have caught up with theirs. -/
theorem getVictim_stuck (htwo : 2 ≤ numBlocks.toNat) (hk : 2 ^ 32 ≤ k) (hle : k ≤ 2 ^ 33 - numBlocks.toNat) :
    (stamped numBlocks (history numBlocks.toNat k)).getVictim (List.replicate numBlocks.toNat true) =
      .ok ((2 ^ 32 - 1) % numBlocks.toNat) := by
  have hn := numBlocks.toNat_lt
  have hturn := Nat.mod_lt (2 ^ 32 - 1) (Nat.zero_lt_of_lt htwo)
  have hwrap : k % 2 ^ 32 = k - 2 ^ 32 := by omega
  apply getVictim_of_oldest
  · rw [lastInsertion_stuck hturn hk, if_pos rfl, hwrap]
    omega
  · refine ⟨all_valid.mpr hturn, fun j hj => ?_⟩
    simp only [lastInsertion_stuck hturn hk, lastInsertion_stuck (all_valid.mp hj) hk, if_true, hwrap]
    split
    · next h => exact ⟨hwrap.ge, fun _ => h.ge⟩
    · next h =>
        obtain ⟨hlow, hhigh⟩ := age_wrapped (all_valid.mp hj) hn h
        rw [Nat.mod_eq_of_lt hhigh]
        exact ⟨by omega, fun heq => by omega⟩

theorem getVictim_history (htwo : 2 ≤ numBlocks.toNat) (hk : k ≤ 2 ^ 33 - numBlocks.toNat) :
    (stamped numBlocks (history numBlocks.toNat k)).getVictim (List.replicate numBlocks.toNat true) =
      .ok (victim numBlocks.toNat k) := by
  rcases Nat.lt_or_ge k (2 ^ 32) with hlt | hge
  · rw [getVictim_turn htwo hlt, victim_of_lt _ hlt]
  · rw [getVictim_stuck htwo hge hk, victim_of_ge _ hge]

theorem victim_lt {n : Nat} (hn : 0 < n) (k : Nat) : victim n k < n := by
  unfold victim
  split <;> exact Nat.mod_lt _ hn

theorem step_evict (htwo : 2 ≤ numBlocks.toNat) (hk : k ≤ 2 ^ 33 - numBlocks.toNat) :
    step numBlocks (stamped numBlocks (history numBlocks.toNat k), history numBlocks.toNat k) .evict =
      .ok (stamped numBlocks (history numBlocks.toNat (k + 1)), history numBlocks.toNat (k + 1)) := by
  have hlt := victim_lt (Nat.zero_lt_of_lt htwo) k
  rw [step]
  simp only [getVictim_history htwo hk, bind_ok, stamped_onInsert hlt, history_succ]
  rfl

end

/-- With any hits in between, the misses of a set of valid ways evict these in
turn for as long as the stamps last, and then one way alone for almost as many
times again. -/
theorem run_victims {numBlocks : UInt32} (htwo : 2 ≤ numBlocks.toNat) {steps : List Step}
    (hle : evictions steps ≤ 2 ^ 33 - numBlocks.toNat + 1) :
    ∃ p, drive numBlocks steps =
      .ok (p, (List.range (evictions steps)).map (victim numBlocks.toNat)) := by
  refine ⟨stamped numBlocks (history numBlocks.toNat (evictions steps)), ?_⟩
  change _ = Except.ok (_, history numBlocks.toNat (evictions steps))
  induction steps using List.reverseRecOn with
  | nil =>
      rw [evictions, List.count_nil, history, List.range_zero, List.map_nil, stamped_nil]
      rfl
  | append_singleton steps c ih =>
      cases c with
      | evict =>
          have hcount : evictions (steps ++ [.evict]) = evictions steps + 1 := by simp [evictions]
          rw [hcount] at hle ⊢
          rw [drive, List.foldlM_append, ← drive, ih (by omega), bind_ok, List.foldlM_cons,
            step_evict htwo (by omega)]
          rfl
      | touch blockInd =>
          have hcount : evictions (steps ++ [.touch blockInd]) = evictions steps := by simp [evictions]
          rw [hcount] at hle ⊢
          rw [drive, List.foldlM_append, ← drive, ih hle]
          rfl

theorem run_victims_two : ∃ p, drive 2 [.evict, .touch 0, .evict, .evict] =
    .ok (p, (List.range (evictions [.evict, .touch 0, .evict, .evict])).map (victim (UInt32.toNat 2))) :=
  run_victims (by decide) (by decide)

end MemSim.Rotation
