import MemSim.Quiescence

namespace MemSim.SimulatedTime

open Machine Runs Dispatcher DispatchOrder Quiescence

def startOf : Phase → Option (UInt32 × UInt64)
  | .started _ bank openRowStart | .opened _ bank openRowStart | .stored _ bank openRowStart _ =>
      some (bank, openRowStart)
  | _ => none

def transferEnd (timings : DRAMTiming) (t : Transfer) : UInt64 := t.openRowEnd + timings.transfer.toUInt64

def returned (i : Nat) : Label := .transfer i (.transferData true)

variable (timings : DRAMTiming)

/-- The busy intervals of requests on one bank are disjoint: a later one, be
it launched or still in the dispatcher's hands, starts no earlier than the
other's end. -/
structure Apart (ls : List Label) (s : Dispatcher) : Prop where
  launched : ∀ (i j : Nat) (t u : Transfer), i < j → s.transfers[i]? = some t → s.transfers[j]? = some u →
    t.bank = u.bank → returned i ∈ ls → transferEnd timings t ≤ u.openRowStart
  current : ∀ bank openRowStart, startOf s.phase = some (bank, openRowStart) → ∀ (i : Nat) (t : Transfer),
    s.transfers[i]? = some t → t.bank = bank → returned i ∈ ls → transferEnd timings t ≤ openRowStart

/-- All along a run the clock does not go back, and busy intervals stay
disjoint. -/
structure KeepsTime (config : DRAMConfig) (currentCycle : UInt64) (ls : List Label) : Prop where
  forward : ∀ before l u v, before ++ [l] <+: ls →
    run (Dispatcher.step config timings) (initial currentCycle) before = some u →
    u.step config timings l = some v → u.currentCycle ≤ v.currentCycle
  apart : ∀ before u, before <+: ls →
    run (Dispatcher.step config timings) (initial currentCycle) before = some u → Apart timings before u

/-- A store does not come too late. The others have not moved the clock since
the dispatcher read it by more than the row takes to open; none has stored,
since a transfer read it, what exceeds both that value and the transfer's end. -/
def Timely (s : Dispatcher) : Label → Prop
  | .dispatch .storeCycle => ∀ req bank openRowStart, s.phase = .opened req bank openRowStart →
      s.currentCycle.toNat ≤ openRowStart.toNat + timings.precharge.toNat + timings.activate.toNat ∧
        openRowStart.toNat + timings.precharge.toNat + timings.activate.toNat < 2 ^ 64
  | .transfer i .storeCycle => ∀ t cycle, s.transfers[i]? = some t → t.status = .loaded cycle →
      s.currentCycle ≤ cycle ∨ s.currentCycle ≤ transferEnd timings t
  | _ => True

/-- What a run of timely steps keeps. A transfer that is not the last of its
bank is ready, and one that has returned has, when it is ready, moved the
clock to its end. -/
structure Sound (ls : List Label) (s : Dispatcher) : Prop extends Apart timings ls s where
  known : ∀ i, returned i ∈ ls → i < s.transfers.length
  kept : ∀ (i : Nat) (t : Transfer), s.transfers[i]? = some t → returned i ∈ ls →
    t.status ≠ .launched ∧ (t.status = .stored ∨ t.status = .ready → transferEnd timings t ≤ s.currentCycle)
  settled : ∀ (i j : Nat) (t u : Transfer), i < j → s.transfers[i]? = some t → s.transfers[j]? = some u →
    t.bank = u.bank → t.status = .ready

variable {timings} {config : DRAMConfig} {s t : Dispatcher} {ls : List Label} {l : Label}

theorem sound_initial (currentCycle : UInt64) : Sound timings [] (initial currentCycle) where
  launched _ _ _ _ _ _ _ _ h := absurd h List.not_mem_nil
  current _ _ _ _ _ _ _ h := absurd h List.not_mem_nil
  known _ h := absurd h List.not_mem_nil
  kept _ _ _ h := absurd h List.not_mem_nil
  settled _ _ _ _ _ h := by simp [initial] at h

theorem returned_of_snoc {i : Nat} (h : returned i ∈ ls ++ [l]) (hl : l ≠ returned i) : returned i ∈ ls := by
  rcases List.mem_append.mp h with h | h
  · exact h
  · exact absurd (List.mem_singleton.mp h).symm hl

theorem Sound.frame (h : Sound timings ls s) (htransfers : t.transfers = s.transfers)
    (hstart : ∀ p, startOf t.phase = some p → startOf s.phase = some p)
    (hclock : s.currentCycle ≤ t.currentCycle) (hl : ∀ i, l ≠ returned i) : Sound timings (ls ++ [l]) t := by
  refine ⟨⟨?_, ?_⟩, ?_, ?_, ?_⟩
  · intro i j t u hij ht hu hbank hi
    rw [htransfers] at ht hu
    exact h.launched i j t u hij ht hu hbank (returned_of_snoc hi (hl i))
  · intro bank openRowStart hphase i t ht hbank hi
    rw [htransfers] at ht
    exact h.current bank openRowStart (hstart _ hphase) i t ht hbank (returned_of_snoc hi (hl i))
  · intro i hi
    rw [htransfers]
    exact h.known i (returned_of_snoc hi (hl i))
  · intro i t ht hi
    rw [htransfers] at ht
    obtain ⟨hne, hend⟩ := h.kept i t ht (returned_of_snoc hi (hl i))
    exact ⟨hne, fun hdone => UInt64.le_trans (hend hdone) hclock⟩
  · intro i j t u hij ht hu hbank
    rw [htransfers] at ht hu
    exact h.settled i j t u hij ht hu hbank

theorem Sound.load (h : Sound timings ls s) (hserial : Serial config s) {req : DRAMRequest} {bank : UInt32}
    (hphase : s.phase = .awaited req bank) :
    Sound timings (ls ++ [.dispatch .loadCycle]) { s with phase := .started req bank s.currentCycle } := by
  have hold : ∀ {i}, returned i ∈ ls ++ [.dispatch .loadCycle] → returned i ∈ ls :=
    fun hi => returned_of_snoc hi nofun
  refine ⟨⟨?_, ?_⟩, fun i hi => h.known i (hold hi), fun i t ht hi => h.kept i t ht (hold hi), h.settled⟩
  · exact fun i j t u hij ht hu hbank hi => h.launched i j t u hij ht hu hbank (hold hi)
  · intro b openRowStart hb i t ht hbank hi
    obtain ⟨rfl, rfl⟩ := Prod.mk.inj (Option.some.inj hb)
    have hready := ready_of_held hserial (by rw [hphase]; rfl) ht hbank
    exact (h.kept i t ht (hold hi)).2 (.inr hready)

theorem Sound.launch (h : Sound timings ls s) (hserial : Serial config s) {req : DRAMRequest} {bank : UInt32}
    {openRowStart openRowEnd : UInt64} (hphase : s.phase = .stored req bank openRowStart openRowEnd)
    {new : Transfer} (hbank : new.bank = bank) (hstart : new.openRowStart = openRowStart)
    {lastTransfer : UInt32 → Option Nat} {data : List UInt8} :
    Sound timings (ls ++ [.dispatch (.launch data)])
      { s with phase := .waiting, lastTransfer, transfers := s.transfers ++ [new] } := by
  have hold : ∀ {i}, returned i ∈ ls ++ [.dispatch (.launch data)] → returned i ∈ ls :=
    fun hi => returned_of_snoc hi nofun
  have hlt : ∀ {i t}, s.transfers[i]? = some t → i < s.transfers.length := by
    intro i t ht
    exact (List.getElem?_eq_some_iff.mp ht).1
  refine ⟨⟨?_, nofun⟩, ?_, ?_, ?_⟩
  · intro i j t u hij ht hu hsame hi
    rcases append_cases hu with hu | ⟨rfl, rfl⟩
    · rcases append_cases ht with ht | ⟨rfl, _⟩
      · exact h.launched i j t u hij ht hu hsame (hold hi)
      · exact absurd (hlt hu) (by omega)
    · rcases append_cases ht with ht | ⟨rfl, _⟩
      · rw [hstart]
        exact h.current bank openRowStart (by rw [hphase]; rfl) i t ht (by rw [hsame, hbank]) (hold hi)
      · exact absurd hij (Nat.lt_irrefl _)
  · intro i hi
    have := h.known i (hold hi)
    simp only [List.length_append, List.length_singleton]
    omega
  · intro i t ht hi
    rcases append_cases ht with ht | ⟨rfl, _⟩
    · exact h.kept i t ht (hold hi)
    · exact absurd (h.known _ (hold hi)) (Nat.lt_irrefl _)
  · intro i j t u hij ht hu hsame
    rcases append_cases hu with hu | ⟨rfl, rfl⟩
    · rcases append_cases ht with ht | ⟨rfl, _⟩
      · exact h.settled i j t u hij ht hu hsame
      · exact absurd (hlt hu) (by omega)
    · rcases append_cases ht with ht | ⟨rfl, _⟩
      · exact ready_of_held hserial (by rw [hphase]; rfl) ht (by rw [hsame, hbank])
      · exact absurd hij (Nat.lt_irrefl _)

theorem held_of_startOf {phase : Phase} {bank : UInt32} {openRowStart : UInt64}
    (h : startOf phase = some (bank, openRowStart)) : ∃ req, held phase = some (req, bank) := by
  cases phase with
  | started req b _ | opened req b _ | stored req b _ _ =>
      obtain ⟨rfl, _⟩ := Prod.mk.inj (Option.some.inj h)
      exact ⟨req, rfl⟩
  | waiting | popped | awaited | exited | terminated => cases h

/-- A transfer in flight is the last of its bank, and not of the bank the
dispatcher holds, so no later start depends on its end yet. -/
theorem Sound.move (h : Sound timings ls s) (hserial : Serial config s) {i : Nat} {u : Transfer}
    (hu : s.transfers[i]? = some u) (hnot : u.status ≠ .ready) {status : TransferStatus} {calls : List Call}
    {currentCycle : UInt64} (hclock : s.currentCycle ≤ currentCycle) (hl : ∀ j, j ≠ i → l ≠ returned j)
    (hkept : returned i ∈ ls ++ [l] →
      status ≠ .launched ∧ (status = .stored ∨ status = .ready → transferEnd timings u ≤ currentCycle)) :
    Sound timings (ls ++ [l]) ({ s with calls, currentCycle }.moveTransfer i u status) := by
  have hold : ∀ {j}, j ≠ i → returned j ∈ ls ++ [l] → returned j ∈ ls :=
    fun hne hj => returned_of_snoc hj (hl _ hne)
  have hlast : ∀ {j v}, i < j → s.transfers[j]? = some v → u.bank ≠ v.bank :=
    fun hij hv hbank => hnot (h.settled i _ u _ hij hu hv hbank)
  unfold moveTransfer
  refine ⟨⟨?_, ?_⟩, ?_, ?_, ?_⟩
  · intro j k v w hjk hv hw hbank hj
    rcases set_cases hv with ⟨rfl, rfl⟩ | ⟨hne, hv'⟩
    · rcases set_cases hw with ⟨rfl, _⟩ | ⟨_, hw'⟩
      · exact absurd hjk (Nat.lt_irrefl _)
      · exact absurd hbank (hlast hjk hw')
    · rcases set_cases hw with ⟨rfl, rfl⟩ | ⟨_, hw'⟩
      · exact h.launched j _ v u hjk hv' hu hbank (hold hne hj)
      · exact h.launched j k v w hjk hv' hw' hbank (hold hne hj)
  · intro bank openRowStart hphase j v hv hbank hj
    rcases set_cases hv with ⟨rfl, rfl⟩ | ⟨hne, hv⟩
    · obtain ⟨req, hheld⟩ := held_of_startOf hphase
      exact absurd (ready_of_held hserial hheld hu hbank) hnot
    · exact h.current bank openRowStart hphase j v hv hbank (hold hne hj)
  · intro j hj
    dsimp only
    rw [List.length_set]
    by_cases hne : j = i
    · subst hne
      exact (List.getElem?_eq_some_iff.mp hu).1
    · exact h.known j (hold hne hj)
  · intro j v hv hj
    rcases set_cases hv with ⟨rfl, rfl⟩ | ⟨hne, hv⟩
    · exact hkept hj
    · obtain ⟨hlaunched, hend⟩ := h.kept j v hv (hold hne hj)
      exact ⟨hlaunched, fun hdone => UInt64.le_trans (hend hdone) hclock⟩
  · intro j k v w hjk hv hw hbank
    rcases set_cases hv with ⟨rfl, rfl⟩ | ⟨_, hv'⟩
    · rcases set_cases hw with ⟨rfl, _⟩ | ⟨_, hw'⟩
      · exact absurd hjk (Nat.lt_irrefl _)
      · exact absurd hbank (hlast hjk hw')
    · rcases set_cases hw with ⟨rfl, rfl⟩ | ⟨_, hw'⟩
      · exact h.settled j _ v u hjk hv' hu hbank
      · exact h.settled j k v w hjk hv' hw' hbank

theorem le_max_iff {a b c : UInt64} : a ≤ max b c ↔ a ≤ b ∨ a ≤ c := by
  change a ≤ (if b ≤ c then c else b) ↔ _
  split
  · next h => exact ⟨.inr, fun hle => hle.elim (fun hab => UInt64.le_trans hab h) id⟩
  · next h =>
      have hcb := UInt64.le_of_lt (UInt64.not_le.mp h)
      exact ⟨.inl, fun hle => hle.elim id fun hac => UInt64.le_trans hac hcb⟩

theorem forward_of_timely (hstep : Steps config timings s l t) (htimely : Timely timings s l) :
    s.currentCycle ≤ t.currentCycle := by
  cases hstep with
  | storeCycle req bank openRowStart openRowEnd hphase hend =>
      obtain ⟨hle, hlt⟩ := htimely req bank openRowStart hphase
      rw [hend, UInt64.le_iff_toNat_le, UInt64.toNat_add, UInt64.toNat_add, UInt32.toNat_toUInt64,
        UInt32.toNat_toUInt64]
      omega
  | storeTransferCycle i u cycle hu hstatus =>
      change s.currentCycle ≤ max cycle (transferEnd timings u)
      exact le_max_iff.mpr (htimely u cycle hu hstatus)
  | push | stop | exit | pop | await | loadCycle | openRow | terminate | launch | transferData
  | loadTransferCycle | sendResponse => exact UInt64.le_refl _

theorem sound_step (h : Sound timings ls s) (hserial : Serial config s) (hstep : Steps config timings s l t)
    (htimely : Timely timings s l) : Sound timings (ls ++ [l]) t := by
  have hclock := forward_of_timely hstep htimely
  cases hstep with
  | push | stop => exact h.frame rfl (fun _ hp => hp) hclock (by intro i hi; cases hi)
  | exit | pop | await | terminate =>
      exact h.frame rfl (by intro p hp; cases hp) hclock (by intro i hi; cases hi)
  | openRow req bank banks openRowStart row hphase =>
      exact h.frame rfl (by intro p hp; rw [hphase]; exact hp) hclock (by intro i hi; cases hi)
  | storeCycle req bank openRowStart openRowEnd hphase =>
      exact h.frame rfl (by intro p hp; rw [hphase]; exact hp) hclock (by intro i hi; cases hi)
  | loadCycle req bank hphase => exact h.load hserial hphase
  | launch req bank openRowStart openRowEnd col data hphase =>
      exact h.launch hserial hphase rfl rfl
  | transferData i u back hu hstatus =>
      refine h.move hserial hu (by rw [hstatus]; nofun) hclock ?_ ?_
      · intro j hne hj
        injection hj with hij
        exact hne hij.symm
      · intro hi
        cases back with
        | true => exact ⟨nofun, nofun⟩
        | false =>
            have hbefore := returned_of_snoc hi (by intro hj; cases hj)
            exact absurd hstatus (h.kept i u hu hbefore).1
  | loadTransferCycle i u hu hstatus =>
      refine h.move hserial hu (by rw [hstatus]; nofun) hclock (by intro j _ hj; cases hj) ?_
      exact fun _ => ⟨nofun, nofun⟩
  | storeTransferCycle i u cycle hu hstatus =>
      refine h.move hserial hu (by rw [hstatus]; nofun) hclock (by intro j _ hj; cases hj) ?_
      exact fun _ => ⟨nofun, fun _ => le_max_iff.mpr (.inr (UInt64.le_refl _))⟩
  | sendResponse i u data n hu hstatus =>
      refine h.move hserial hu (by rw [hstatus]; nofun) hclock (by intro j _ hj; cases hj) ?_
      intro hi
      have hbefore := returned_of_snoc hi (by intro hj; cases hj)
      exact ⟨nofun, fun _ => (h.kept i u hu hbefore).2 (.inl hstatus)⟩

section

variable {currentCycle : UInt64}

theorem sound_of_timely {ls : List Label} {s : Dispatcher}
    (htimely : ∀ before l u, before ++ [l] <+: ls →
      run (Dispatcher.step config timings) (initial currentCycle) before = some u → Timely timings u l)
    (h : run (Dispatcher.step config timings) (initial currentCycle) ls = some s) :
    Serial config s ∧ Sound timings ls s := by
  refine run_induction_of (fun ls s => Serial config s ∧ Sound timings ls s) (fun _ l u => Timely timings u l)
    ⟨serial_initial currentCycle, sound_initial currentCycle⟩ ?_ htimely h
  rintro _ u l v ⟨hserial, hsound⟩ hl hstep
  have hsteps := (steps_of_step hstep).2
  exact ⟨serial_step hserial hsteps, sound_step hsound hserial hsteps hl⟩

theorem keepsTime_of_timely {ls : List Label}
    (htimely : ∀ before l u, before ++ [l] <+: ls →
      run (Dispatcher.step config timings) (initial currentCycle) before = some u → Timely timings u l) :
    KeepsTime timings config currentCycle ls := by
  refine ⟨?_, ?_⟩
  · intro before l u v hpre hu hstep
    exact forward_of_timely (steps_of_step hstep).2 (htimely before l u hpre hu)
  · intro before u hpre hu
    exact (sound_of_timely (fun b m w hb => htimely b m w (hb.trans hpre)) hu).2.toApart

end

/-- The transfer on bank 0 reads the clock, the dispatcher moves it on for
another bank, and then the transfer stores its maximum. -/
def overtaken : List Label :=
  [.push ⟨0, 0x0, true, line, 5⟩, .push ⟨1, 0x4, true, line, 6⟩, .dispatch .pop, .dispatch .await,
    .dispatch .loadCycle, .dispatch (.openRow true), .dispatch .storeCycle, .dispatch (.launch line),
    .transfer 0 (.transferData true), .transfer 0 .loadCycle, .dispatch .pop, .dispatch .await,
    .dispatch .loadCycle, .dispatch (.openRow true), .dispatch .storeCycle, .transfer 0 .storeCycle]

theorem clock_goes_back : fourBanks.validate = .ok () ∧
    (run (Dispatcher.step fourBanks ⟨24, 24, 12⟩) (initial 0) overtaken).isSome ∧
    ¬ KeepsTime ⟨24, 24, 12⟩ fourBanks 0 overtaken := by
  refine ⟨by decide, rfl, ?_⟩
  intro h
  have hclock := h.forward (overtaken.take 15) (.transfer 0 .storeCycle) _ _ (List.prefix_refl _) rfl rfl
  exact absurd hclock (by decide)

end MemSim.SimulatedTime
