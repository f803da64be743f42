import MemSim.SimulatedTime

namespace MemSim.ClockBounds

open Machine Runs Dispatcher DispatchOrder SimulatedTime

def openingCycles (timings : DRAMTiming) : Nat := timings.precharge.toNat + timings.activate.toNat

def requestCycles (timings : DRAMTiming) : Nat := openingCycles timings + timings.transfer.toNat

def aboutToLaunch : Phase → Nat
  | .stored _ _ _ _ => 1
  | _ => 0

/-- A row has been opened for each request launched, and for the one about to be. -/
def openings (s : Dispatcher) : Nat := s.transfers.length + aboutToLaunch s.phase

variable (timings : DRAMTiming)

/-- The busy interval of a request has its full length, and ends by `last`. -/
structure Fits (first last : Nat) (openRowStart openRowEnd : UInt64) : Prop where
  start : first ≤ openRowStart.toNat
  length : openRowEnd.toNat = openRowStart.toNat + openingCycles timings
  finish : openRowEnd.toNat + timings.transfer.toNat ≤ last

/-- Every value of the clock that a thread holds lies between the two. -/
structure Bounded (first last : Nat) (s : Dispatcher) : Prop where
  clock : first ≤ s.currentCycle.toNat ∧ s.currentCycle.toNat ≤ last
  started : ∀ bank openRowStart, startOf s.phase = some (bank, openRowStart) →
    first ≤ openRowStart.toNat ∧ openRowStart.toNat ≤ last
  stored : ∀ req bank openRowStart openRowEnd, s.phase = .stored req bank openRowStart openRowEnd →
    Fits timings first last openRowStart openRowEnd
  loaded : ∀ t ∈ s.transfers, ∀ cycle, t.status = .loaded cycle → first ≤ cycle.toNat ∧ cycle.toNat ≤ last
  fits : ∀ t ∈ s.transfers, Fits timings first last t.openRowStart t.openRowEnd

variable {timings} {config : DRAMConfig} {s t : Dispatcher} {ls : List Label} {l : Label} {first last : Nat}

theorem bounded_initial (currentCycle : UInt64) :
    Bounded timings currentCycle.toNat currentCycle.toNat (initial currentCycle) where
  clock := ⟨Nat.le_refl _, Nat.le_refl _⟩
  started _ _ h := by cases h
  stored _ _ _ _ h := by cases h
  loaded _ h := absurd h List.not_mem_nil
  fits _ h := absurd h List.not_mem_nil

theorem Fits.mono {openRowStart openRowEnd : UInt64} (h : Fits timings first last openRowStart openRowEnd)
    {later : Nat} (hle : last ≤ later) : Fits timings first later openRowStart openRowEnd :=
  ⟨h.start, h.length, Nat.le_trans h.finish hle⟩

theorem Fits.transferEnd_toNat {u : Transfer} (h : Fits timings first last u.openRowStart u.openRowEnd)
    (hlast : last < 2 ^ 64) :
    (transferEnd timings u).toNat = u.openRowStart.toNat + requestCycles timings := by
  have hlength := h.length
  have hfinish := h.finish
  rw [transferEnd, UInt64.toNat_add, UInt32.toNat_toUInt64, Nat.mod_eq_of_lt (by omega), hlength, requestCycles,
    Nat.add_assoc]

theorem Fits.transferEnd_le {u : Transfer} (h : Fits timings first last u.openRowStart u.openRowEnd)
    (hlast : last < 2 ^ 64) : (transferEnd timings u).toNat ≤ last := by
  have hlength := h.length
  have hfinish := h.finish
  rw [h.transferEnd_toNat hlast, requestCycles]
  omega

theorem Bounded.mono (h : Bounded timings first last s) {later : Nat} (hle : last ≤ later) :
    Bounded timings first later s where
  clock := ⟨h.clock.1, Nat.le_trans h.clock.2 hle⟩
  started bank openRowStart hphase :=
    ⟨(h.started bank openRowStart hphase).1, Nat.le_trans (h.started bank openRowStart hphase).2 hle⟩
  stored req bank openRowStart openRowEnd hphase := (h.stored req bank openRowStart openRowEnd hphase).mono hle
  loaded t ht cycle hstatus := ⟨(h.loaded t ht cycle hstatus).1, Nat.le_trans (h.loaded t ht cycle hstatus).2 hle⟩
  fits t ht := (h.fits t ht).mono hle

theorem Bounded.frame (h : Bounded timings first last s) (htransfers : t.transfers = s.transfers)
    (hclock : t.currentCycle = s.currentCycle)
    (hstart : ∀ p, startOf t.phase = some p → startOf s.phase = some p)
    (hstored : ∀ req bank openRowStart openRowEnd, t.phase = .stored req bank openRowStart openRowEnd →
      s.phase = .stored req bank openRowStart openRowEnd) : Bounded timings first last t := by
  refine ⟨?_, ?_, ?_, ?_, ?_⟩
  · rw [hclock]
    exact h.clock
  · exact fun bank openRowStart hphase => h.started bank openRowStart (hstart _ hphase)
  · exact fun req bank openRowStart openRowEnd hphase =>
      h.stored req bank openRowStart openRowEnd (hstored _ _ _ _ hphase)
  · rw [htransfers]
    exact h.loaded
  · rw [htransfers]
    exact h.fits

theorem Bounded.move (h : Bounded timings first last s) {i : Nat} {u : Transfer} (hu : s.transfers[i]? = some u)
    {status : TransferStatus} {calls : List Call} {currentCycle : UInt64}
    (hclock : first ≤ currentCycle.toNat ∧ currentCycle.toNat ≤ last)
    (hstatus : ∀ cycle, status = .loaded cycle → first ≤ cycle.toNat ∧ cycle.toNat ≤ last) :
    Bounded timings first last ({ s with calls, currentCycle }.moveTransfer i u status) := by
  refine ⟨hclock, h.started, h.stored, ?_, ?_⟩
  · intro v hv cycle hloaded
    rcases List.mem_or_eq_of_mem_set hv with hv | rfl
    · exact h.loaded v hv cycle hloaded
    · exact hstatus cycle hloaded
  · intro v hv
    rcases List.mem_or_eq_of_mem_set hv with hv | rfl
    · exact h.fits v hv
    · exact h.fits u (List.mem_of_getElem? hu)

theorem toNat_max (a b : UInt64) : (max a b).toNat = max a.toNat b.toNat := by
  change (if a ≤ b then b else a).toNat = _
  split
  · next h => rw [Nat.max_eq_right (UInt64.le_iff_toNat_le.mp h)]
  · next h => rw [Nat.max_eq_left (Nat.le_of_lt (UInt64.lt_iff_toNat_lt.mp (UInt64.not_le.mp h)))]

theorem openRowEnd_toNat {openRowStart : UInt64} (h : openRowStart.toNat + openingCycles timings < 2 ^ 64) :
    (openRowStart + timings.precharge.toUInt64 + timings.activate.toUInt64).toNat =
      openRowStart.toNat + openingCycles timings := by
  rw [openingCycles] at h
  rw [UInt64.toNat_add, UInt64.toNat_add, UInt32.toNat_toUInt64, UInt32.toNat_toUInt64, openingCycles]
  omega

theorem Bounded.storeCycle (h : Bounded timings first last s) {req : DRAMRequest} {bank : UInt32}
    {openRowStart : UInt64} (hphase : s.phase = .opened req bank openRowStart)
    (hlast : last + requestCycles timings < 2 ^ 64) :
    Bounded timings first (last + requestCycles timings) { s with
      phase := .stored req bank openRowStart
        (openRowStart + timings.precharge.toUInt64 + timings.activate.toUInt64)
      currentCycle := openRowStart + timings.precharge.toUInt64 + timings.activate.toUInt64 } := by
  have hle : last ≤ last + requestCycles timings := Nat.le_add_right _ _
  obtain ⟨hfirst, hstart⟩ := h.started bank openRowStart (by rw [hphase]; rfl)
  rw [requestCycles] at hlast
  have hend : (openRowStart + timings.precharge.toUInt64 + timings.activate.toUInt64).toNat =
      openRowStart.toNat + openingCycles timings := openRowEnd_toNat (by omega)
  have hfits : Fits timings first (last + requestCycles timings) openRowStart
      (openRowStart + timings.precharge.toUInt64 + timings.activate.toUInt64) := by
    refine ⟨hfirst, hend, ?_⟩
    rw [hend, requestCycles]
    omega
  refine ⟨?_, ?_, ?_, (h.mono hle).loaded, (h.mono hle).fits⟩
  · have hfinish := hfits.finish
    dsimp only
    omega
  · intro b start hb
    exact (h.mono hle).started b start (by rw [hphase]; exact hb)
  · intro req' bank' openRowStart' openRowEnd' hphase'
    obtain ⟨_, _, rfl, rfl⟩ := Phase.stored.inj hphase'
    exact hfits

theorem Bounded.launch (h : Bounded timings first last s) {req : DRAMRequest} {bank : UInt32}
    {openRowStart openRowEnd : UInt64} (hphase : s.phase = .stored req bank openRowStart openRowEnd)
    {new : Transfer} (hstart : new.openRowStart = openRowStart) (hend : new.openRowEnd = openRowEnd)
    (hstatus : new.status = .launched) {lastTransfer : UInt32 → Option Nat} :
    Bounded timings first last
      { s with phase := .waiting, lastTransfer, transfers := s.transfers ++ [new] } := by
  refine ⟨h.clock, nofun, nofun, ?_, ?_⟩
  · intro v hv cycle hloaded
    rcases List.mem_append.mp hv with hv | hv
    · exact h.loaded v hv cycle hloaded
    · rw [List.mem_singleton.mp hv, hstatus] at hloaded
      cases hloaded
  · intro v hv
    rcases List.mem_append.mp hv with hv | hv
    · exact h.fits v hv
    · rw [List.mem_singleton.mp hv, hstart, hend]
      exact h.stored req bank openRowStart openRowEnd hphase

theorem bounded_step (h : Bounded timings first last s) (hstep : Steps config timings s l t)
    (hl : l ≠ .dispatch .storeCycle) (hlast : last < 2 ^ 64) : Bounded timings first last t := by
  cases hstep with
  | push | stop => exact h.frame rfl rfl (fun _ hp => hp) (fun _ _ _ _ hp => hp)
  | exit | pop | await | terminate => exact h.frame rfl rfl nofun nofun
  | openRow req bank banks openRowStart row hphase =>
      exact h.frame rfl rfl (by intro p hp; rw [hphase]; exact hp) nofun
  | loadCycle req bank hphase =>
      refine ⟨h.clock, ?_, nofun, h.loaded, h.fits⟩
      intro b start hb
      obtain ⟨_, rfl⟩ := Prod.mk.inj (Option.some.inj hb)
      exact h.clock
  | storeCycle => exact absurd rfl hl
  | launch req bank openRowStart openRowEnd col data hphase => exact h.launch hphase rfl rfl rfl
  | transferData i u returns hu hstatus =>
      apply h.move hu h.clock
      intro cycle hloaded
      cases returns <;> cases hloaded
  | loadTransferCycle i u hu hstatus =>
      apply h.move hu h.clock
      intro cycle hloaded
      obtain rfl := TransferStatus.loaded.inj hloaded
      exact h.clock
  | storeTransferCycle i u cycle hu hstatus =>
      have hmem := List.mem_of_getElem? hu
      have hcycle := h.loaded u hmem cycle hstatus
      have hend := (h.fits u hmem).transferEnd_le hlast
      refine h.move hu ?_ nofun
      change first ≤ (max cycle (transferEnd timings u)).toNat ∧ (max cycle (transferEnd timings u)).toNat ≤ last
      rw [toNat_max]
      omega
  | sendResponse i u data n hu hstatus => exact h.move hu h.clock nofun

theorem openings_step (hstep : Steps config timings s l t) :
    openings t = openings s + if l = .dispatch .storeCycle then 1 else 0 := by
  cases hstep with
  | push | stop => rfl
  | exit hphase | pop _ hphase | await _ _ hphase | loadCycle _ _ hphase | openRow _ _ _ _ _ hphase
  | terminate _ _ _ _ _ hphase | storeCycle _ _ _ _ hphase => simp [openings, aboutToLaunch, hphase]
  | launch _ _ _ _ _ _ hphase => simp [openings, aboutToLaunch, hphase]
  | transferData | loadTransferCycle | storeTransferCycle | sendResponse =>
      simp [openings, moveTransfer]

theorem bounded_of_run {currentCycle : UInt64}
    (h : run (Dispatcher.step config timings) (initial currentCycle) ls = some s)
    (hfit : currentCycle.toNat + openings s * requestCycles timings < 2 ^ 64) :
    Bounded timings currentCycle.toNat (currentCycle.toNat + openings s * requestCycles timings) s := by
  refine run_induction (fun _ s => currentCycle.toNat + openings s * requestCycles timings < 2 ^ 64 →
    Bounded timings currentCycle.toNat (currentCycle.toNat + openings s * requestCycles timings) s) ?_ ?_ ls h hfit
  · intro _
    exact (bounded_initial currentCycle).mono (Nat.le_add_right _ _)
  · intro _ u l v ih hstep hfit
    have hsteps := (steps_of_step hstep).2
    have hopenings := openings_step hsteps
    by_cases hl : l = .dispatch .storeCycle
    · rw [if_pos hl] at hopenings
      rw [hopenings, Nat.succ_mul, ← Nat.add_assoc] at hfit ⊢
      subst hl
      cases hsteps with
      | storeCycle req bank openRowStart openRowEnd hphase hend =>
          obtain rfl := hend
          exact (ih (by omega)).storeCycle hphase hfit
    · rw [if_neg hl, Nat.add_zero] at hopenings
      rw [hopenings] at hfit ⊢
      exact bounded_step (ih hfit) hsteps hl hfit

/-- However the threads interleave, and whatever they overwrite, the clock is
never ahead of serving the opened requests one after the other; every busy
interval lies within that time at its full length. -/
theorem run_bounded {currentCycle : UInt64}
    (h : run (Dispatcher.step config timings) (initial currentCycle) ls = some s)
    (hfit : currentCycle.toNat + openings s * requestCycles timings < 2 ^ 64) :
    currentCycle.toNat ≤ s.currentCycle.toNat ∧
      s.currentCycle.toNat ≤ currentCycle.toNat + openings s * requestCycles timings ∧
      ∀ t ∈ s.transfers, currentCycle.toNat ≤ t.openRowStart.toNat ∧
        (transferEnd timings t).toNat = t.openRowStart.toNat + requestCycles timings ∧
        (transferEnd timings t).toNat ≤ currentCycle.toNat + openings s * requestCycles timings := by
  have hbounded := bounded_of_run h hfit
  refine ⟨hbounded.clock.1, hbounded.clock.2, ?_⟩
  intro t ht
  have hfits := hbounded.fits t ht
  exact ⟨hfits.start, hfits.transferEnd_toNat hfit, hfits.transferEnd_le hfit⟩

theorem run_bounded_overtaken : ∃ s,
    run (Dispatcher.step fourBanks ⟨24, 24, 12⟩) (initial 0) overtaken = some s ∧
      s.currentCycle = 60 ∧ openings s = 2 ∧ (0 : UInt64).toNat ≤ s.currentCycle.toNat ∧
      s.currentCycle.toNat ≤ (0 : UInt64).toNat + openings s * requestCycles ⟨24, 24, 12⟩ ∧
      ∀ t ∈ s.transfers, (0 : UInt64).toNat ≤ t.openRowStart.toNat ∧
        (transferEnd ⟨24, 24, 12⟩ t).toNat = t.openRowStart.toNat + requestCycles ⟨24, 24, 12⟩ ∧
        (transferEnd ⟨24, 24, 12⟩ t).toNat ≤ (0 : UInt64).toNat + openings s * requestCycles ⟨24, 24, 12⟩ :=
  ⟨_, rfl, rfl, rfl, run_bounded
    (rfl : run (Dispatcher.step fourBanks ⟨24, 24, 12⟩) (initial 0) overtaken = some _) (by decide)⟩

end MemSim.ClockBounds
