import MemSim.ClockBounds

namespace MemSim.Undisturbed

open Machine Runs Dispatcher DispatchOrder Quiescence SimulatedTime ClockBounds

def isLoaded (t : Transfer) : Bool :=
  match t.status with
  | .loaded _ => true
  | _ => false

def loadedStart : Phase → Option UInt64
  | .started _ _ openRowStart | .opened _ _ openRowStart => some openRowStart
  | _ => none

/-- Nobody stores between a transfer's load and its store; and between the
dispatcher's, transfers do only if they take no longer than a row to open. -/
def undisturbed (timings : DRAMTiming) (s : Dispatcher) : Label → Bool
  | .dispatch .storeCycle => s.transfers.all (!isLoaded ·)
  | .transfer i .storeCycle => (s.transfers.eraseIdx i).all (!isLoaded ·) &&
      (loadedStart s.phase = none || timings.transfer.toNat ≤ openingCycles timings)
  | _ => true

/-- What a thread has loaded is what it still finds, or not much less. -/
structure Coherent (timings : DRAMTiming) (s : Dispatcher) : Prop where
  loaded : ∀ t ∈ s.transfers, ∀ cycle, t.status = .loaded cycle → cycle = s.currentCycle
  opened : ∀ t ∈ s.transfers, t.openRowEnd ≤ s.currentCycle
  stored : ∀ req bank openRowStart openRowEnd, s.phase = .stored req bank openRowStart openRowEnd →
    openRowEnd ≤ s.currentCycle
  opening : ∀ openRowStart, loadedStart s.phase = some openRowStart →
    s.currentCycle.toNat ≤ openRowStart.toNat + openingCycles timings ∧ ∀ t ∈ s.transfers, t.openRowEnd ≤ openRowStart

variable {timings : DRAMTiming} {config : DRAMConfig} {s t : Dispatcher} {ls : List Label} {l : Label}

theorem coherent_initial (currentCycle : UInt64) : Coherent timings (initial currentCycle) where
  loaded _ h := absurd h List.not_mem_nil
  opened _ h := absurd h List.not_mem_nil
  stored _ _ _ _ h := by cases h
  opening _ h := by cases h

theorem Coherent.frame (h : Coherent timings s) (htransfers : t.transfers = s.transfers)
    (hclock : t.currentCycle = s.currentCycle)
    (hstored : ∀ req bank openRowStart openRowEnd, t.phase ≠ .stored req bank openRowStart openRowEnd)
    (hstart : ∀ openRowStart, loadedStart t.phase = some openRowStart → loadedStart s.phase = some openRowStart) :
    Coherent timings t := by
  refine ⟨?_, ?_, fun _ _ _ _ hphase => absurd hphase (hstored _ _ _ _), ?_⟩
  · rw [htransfers, hclock]
    exact h.loaded
  · rw [htransfers, hclock]
    exact h.opened
  · intro openRowStart hphase
    rw [htransfers, hclock]
    exact h.opening openRowStart (hstart _ hphase)

theorem Coherent.load (h : Coherent timings s) {req : DRAMRequest} {bank : UInt32} :
    Coherent timings { s with phase := .started req bank s.currentCycle } := by
  refine ⟨h.loaded, h.opened, by simp, ?_⟩
  intro openRowStart hphase
  obtain rfl := Option.some.inj hphase
  exact ⟨Nat.le_add_right _ _, h.opened⟩

theorem Coherent.storeCycle (h : Coherent timings s) {req : DRAMRequest} {bank : UInt32} {openRowStart : UInt64}
    (hphase : s.phase = .opened req bank openRowStart) (hnone : ∀ t ∈ s.transfers, isLoaded t = false)
    (hfits : openRowStart.toNat + openingCycles timings < 2 ^ 64) :
    Coherent timings { s with
      phase := .stored req bank openRowStart
        (openRowStart + timings.precharge.toUInt64 + timings.activate.toUInt64)
      currentCycle := openRowStart + timings.precharge.toUInt64 + timings.activate.toUInt64 } := by
  obtain ⟨_, hopened⟩ := h.opening openRowStart (by rw [hphase]; rfl)
  refine ⟨?_, ?_, ?_, by simp [loadedStart]⟩
  · intro t ht cycle hstatus
    have hloaded := hnone t ht
    rw [isLoaded, hstatus] at hloaded
    cases hloaded
  · intro t ht
    have hle := UInt64.le_iff_toNat_le.mp (hopened t ht)
    rw [UInt64.le_iff_toNat_le, openRowEnd_toNat hfits]
    omega
  · intro req' bank' openRowStart' openRowEnd hstored
    obtain ⟨_, _, _, rfl⟩ := Phase.stored.inj hstored
    exact UInt64.le_refl _

theorem Coherent.launch (h : Coherent timings s) {req : DRAMRequest} {bank : UInt32}
    {openRowStart openRowEnd : UInt64} (hphase : s.phase = .stored req bank openRowStart openRowEnd) {new : Transfer}
    (hend : new.openRowEnd = openRowEnd) (hstatus : new.status = .launched) {lastTransfer : UInt32 → Option Nat} :
    Coherent timings { s with phase := .waiting, lastTransfer, transfers := s.transfers ++ [new] } := by
  refine ⟨?_, ?_, by simp, by simp [loadedStart]⟩
  · intro t ht cycle hloaded
    rcases List.mem_append.mp ht with ht | ht
    · exact h.loaded t ht cycle hloaded
    · rw [List.mem_singleton.mp ht, hstatus] at hloaded
      cases hloaded
  · intro t ht
    rcases List.mem_append.mp ht with ht | ht
    · exact h.opened t ht
    · rw [List.mem_singleton.mp ht, hend]
      exact h.stored req bank openRowStart openRowEnd hphase

theorem Coherent.move (h : Coherent timings s) {i : Nat} {u : Transfer} (hu : s.transfers[i]? = some u)
    {status : TransferStatus} {calls : List Call}
    (hstatus : ∀ cycle, status = .loaded cycle → cycle = s.currentCycle) :
    Coherent timings ({ s with calls }.moveTransfer i u status) := by
  have hopened : ∀ {bound : UInt64}, (∀ t ∈ s.transfers, t.openRowEnd ≤ bound) →
      ∀ t ∈ s.transfers.set i { u with status }, t.openRowEnd ≤ bound := by
    intro bound hbound t ht
    rcases List.mem_or_eq_of_mem_set ht with ht | rfl
    · exact hbound t ht
    · exact hbound u (List.mem_of_getElem? hu)
  refine ⟨?_, hopened h.opened, h.stored, ?_⟩
  · intro t ht cycle hloaded
    rcases List.mem_or_eq_of_mem_set ht with ht | rfl
    · exact h.loaded t ht cycle hloaded
    · exact hstatus cycle hloaded
  · intro openRowStart hphase
    exact ⟨(h.opening openRowStart hphase).1, hopened (h.opening openRowStart hphase).2⟩

/-- The clock is what the transfer has loaded, so it does not go back; nor does
it pass what the dispatcher is about to store. -/
theorem Coherent.storeTransfer (h : Coherent timings s) {i : Nat} {u : Transfer} {cycle : UInt64}
    (hu : s.transfers[i]? = some u) (hstatus : u.status = .loaded cycle)
    (hothers : ∀ t ∈ s.transfers.eraseIdx i, isLoaded t = false)
    (hshort : loadedStart s.phase = none ∨ timings.transfer.toNat ≤ openingCycles timings) :
    Coherent timings ({ s with currentCycle := max cycle (transferEnd timings u) }.moveTransfer i u .stored) := by
  have hmem := List.mem_of_getElem? hu
  obtain rfl := h.loaded u hmem cycle hstatus
  have hclock : s.currentCycle ≤ max s.currentCycle (transferEnd timings u) := le_max_iff.mpr (.inl (UInt64.le_refl _))
  have hcases : ∀ {v}, v ∈ s.transfers.set i { u with status := .stored } →
      ∃ w ∈ s.transfers, v.openRowEnd = w.openRowEnd := by
    intro v hv
    rcases List.mem_or_eq_of_mem_set hv with hv | rfl
    · exact ⟨v, hv, rfl⟩
    · exact ⟨u, hmem, rfl⟩
  unfold moveTransfer
  refine ⟨?_, ?_, ?_, ?_⟩
  · intro v hv c hc
    obtain ⟨j, hj⟩ := List.getElem?_of_mem hv
    rcases set_cases hj with ⟨_, rfl⟩ | ⟨hne, hj⟩
    · cases hc
    · have hloaded := hothers v (List.mem_eraseIdx_iff_getElem?.mpr ⟨j, hne, hj⟩)
      rw [isLoaded, hc] at hloaded
      cases hloaded
  · intro v hv
    obtain ⟨w, hw, hend⟩ := hcases hv
    rw [hend]
    exact UInt64.le_trans (h.opened w hw) hclock
  · intro req bank openRowStart openRowEnd hphase
    exact UInt64.le_trans (h.stored req bank openRowStart openRowEnd hphase) hclock
  · intro openRowStart hphase
    obtain ⟨hnow, hopened⟩ := h.opening openRowStart hphase
    refine ⟨?_, ?_⟩
    · have htransfer := hshort.resolve_left (by rw [hphase]; nofun)
      have hend := UInt64.le_iff_toNat_le.mp (hopened u hmem)
      have hsum : (transferEnd timings u).toNat ≤ u.openRowEnd.toNat + timings.transfer.toNat := by
        rw [transferEnd, UInt64.toNat_add, UInt32.toNat_toUInt64]
        exact Nat.mod_le _ _
      dsimp only
      rw [toNat_max]
      omega
    · intro v hv
      obtain ⟨w, hw, hsame⟩ := hcases hv
      rw [hsame]
      exact hopened w hw

theorem coherent_step (h : Coherent timings s) (hstep : Steps config timings s l t) (hl : undisturbed timings s l)
    (hfits : l = .dispatch .storeCycle → ∀ req bank openRowStart, s.phase = .opened req bank openRowStart →
      openRowStart.toNat + openingCycles timings < 2 ^ 64) : Coherent timings t := by
  cases hstep with
  | push | stop => exact ⟨h.loaded, h.opened, h.stored, h.opening⟩
  | exit | pop | await | terminate => exact h.frame rfl rfl (by simp) nofun
  | openRow req bank banks openRowStart row hphase =>
      exact h.frame rfl rfl (by simp) (by intro start hs; rw [hphase]; exact hs)
  | loadCycle req bank hphase => exact h.load
  | storeCycle req bank openRowStart openRowEnd hphase hend =>
      obtain rfl := hend
      refine h.storeCycle hphase ?_ (hfits rfl req bank openRowStart hphase)
      intro t ht
      simpa using List.all_eq_true.mp hl t ht
  | launch req bank openRowStart openRowEnd col data hphase => exact h.launch hphase rfl rfl
  | transferData i u returns hu hstatus =>
      apply h.move hu
      intro cycle hcycle
      cases returns <;> cases hcycle
  | loadTransferCycle i u hu hstatus =>
      apply h.move hu
      intro cycle hcycle
      exact (TransferStatus.loaded.inj hcycle).symm
  | storeTransferCycle i u cycle hu hstatus =>
      obtain ⟨hothers, hshort⟩ := Bool.and_eq_true_iff.mp hl
      apply h.storeTransfer hu hstatus
      · intro t ht
        simpa using List.all_eq_true.mp hothers t ht
      · simpa using hshort
  | sendResponse i u data n hu hstatus => exact h.move hu nofun

theorem timely_of_coherent (h : Coherent timings s) (hstep : Steps config timings s l t)
    (hfits : l = .dispatch .storeCycle → ∀ req bank openRowStart, s.phase = .opened req bank openRowStart →
      openRowStart.toNat + openingCycles timings < 2 ^ 64) : Timely timings s l := by
  cases hstep with
  | storeCycle req bank openRowStart openRowEnd hphase =>
      intro req' bank' openRowStart' hphase'
      have hnow := (h.opening openRowStart' (by rw [hphase']; rfl)).1
      have hroom := hfits rfl req' bank' openRowStart' hphase'
      rw [openingCycles] at hnow hroom
      exact ⟨by omega, by omega⟩
  | storeTransferCycle i u cycle hu hstatus =>
      intro u' cycle' hu' hstatus'
      obtain rfl := h.loaded u' (List.mem_of_getElem? hu') cycle' hstatus'
      exact .inl (UInt64.le_refl _)
  | push | stop | exit | pop | await | loadCycle | openRow | terminate | launch | transferData
  | loadTransferCycle | sendResponse => trivial

section

variable {currentCycle : UInt64}

theorem openings_eq_count (h : run (Dispatcher.step config timings) (initial currentCycle) ls = some s) :
    openings s = ls.count (.dispatch .storeCycle) := by
  refine run_induction (fun ls s => openings s = ls.count (.dispatch .storeCycle)) rfl ?_ ls h
  intro ms u l v hu hstep
  rw [openings_step (steps_of_step hstep).2, hu, List.count_append, List.count_singleton]
  by_cases hl : l = .dispatch .storeCycle <;> simp [hl]

theorem fits_of_run (hfit : currentCycle.toNat + ls.count (.dispatch .storeCycle) * requestCycles timings < 2 ^ 64)
    {before : List Label} (hpre : before ++ [l] <+: ls)
    (hv : run (Dispatcher.step config timings) (initial currentCycle) (before ++ [l]) = some t)
    (hstep : Steps config timings s l t) :
    l = .dispatch .storeCycle → ∀ req bank openRowStart, s.phase = .opened req bank openRowStart →
      openRowStart.toNat + openingCycles timings < 2 ^ 64 := by
  rintro rfl req bank openRowStart hphase
  have hcount := Nat.mul_le_mul_right (requestCycles timings) (hpre.sublist.count_le (.dispatch .storeCycle))
  have hbounded := bounded_of_run hv (by rw [openings_eq_count hv]; omega)
  cases hstep with
  | storeCycle req' bank' openRowStart' openRowEnd hphase' hend =>
      rw [hphase] at hphase'
      obtain ⟨rfl, rfl, rfl⟩ := Phase.opened.inj hphase'
      have hlength := (hbounded.stored req bank openRowStart openRowEnd rfl).length
      have hlt := openRowEnd.toNat_lt
      omega

/-- The clock goes forward and no two busy intervals of a bank overlap, as long
as no thread is disturbed between its load and its store, and the requests, one
after the other, do not come to the end of the clock. -/
theorem keepsTime_of_undisturbed
    (h : run (Dispatcher.step config timings) (initial currentCycle) ls = some s)
    (hfit : currentCycle.toNat + ls.count (.dispatch .storeCycle) * requestCycles timings < 2 ^ 64)
    (hall : ∀ before l u, before ++ [l] <+: ls →
      run (Dispatcher.step config timings) (initial currentCycle) before = some u → undisturbed timings u l) :
    KeepsTime timings config currentCycle ls := by
  have hcoherent : ∀ {before u}, before <+: ls →
      run (Dispatcher.step config timings) (initial currentCycle) before = some u → Coherent timings u := by
    intro before u hbefore hu
    refine run_induction_of (fun _ => Coherent timings)
      (fun ms l v => ms ++ [l] <+: ls ∧ run (Dispatcher.step config timings) (initial currentCycle) ms = some v)
      (coherent_initial currentCycle) ?_ (fun ms l v hms hv => ⟨hms.trans hbefore, hv⟩) hu
    rintro ms v l w hv ⟨hms, hrun⟩ hstep
    have hsteps := (steps_of_step hstep).2
    exact coherent_step hv hsteps (hall ms l v hms hrun)
      (fits_of_run hfit hms (run_snoc.mpr ⟨v, hrun, hstep⟩) hsteps)
  apply keepsTime_of_timely
  intro before l u hpre hu
  obtain ⟨v, hstep, hv⟩ := step_of_prefix h hpre hu
  have hsteps := (steps_of_step hstep).2
  exact timely_of_coherent (hcoherent ((List.prefix_append before [l]).trans hpre) hu) hsteps
    (fits_of_run hfit hpre hv hsteps)

end

/-- The transfer on one bank moves the clock from 48 to 60 while the row of
another is opened, which is stored as open at 96. -/
def passing : List Label :=
  [.push ⟨0, 0x0, true, line, 5⟩, .push ⟨1, 0x4, true, line, 6⟩, .dispatch .pop, .dispatch .await,
    .dispatch .loadCycle, .dispatch (.openRow true), .dispatch .storeCycle, .dispatch (.launch line),
    .transfer 0 (.transferData true), .dispatch .pop, .dispatch .await, .dispatch .loadCycle,
    .transfer 0 .loadCycle, .transfer 0 .storeCycle, .dispatch (.openRow true), .dispatch .storeCycle,
    .dispatch (.launch line), .transfer 1 (.transferData true), .transfer 1 .loadCycle, .transfer 1 .storeCycle]

theorem keepsTime_of_undisturbed_passing : ∃ s,
    run (Dispatcher.step fourBanks ⟨24, 24, 12⟩) (initial 0) passing = some s ∧ s.currentCycle = 108 ∧
      KeepsTime ⟨24, 24, 12⟩ fourBanks 0 passing :=
  ⟨_, rfl, rfl, keepsTime_of_undisturbed
    (rfl : run (Dispatcher.step fourBanks ⟨24, 24, 12⟩) (initial 0) passing = some _) (by decide)
    (of_eachStep rfl)⟩

end MemSim.Undisturbed
