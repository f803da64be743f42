import MemSim.Completion

namespace MemSim.Shutdown

open Machine Runs Dispatcher DispatchOrder Quiescence Answers Completion

/-- The dispatcher's thread has ended: it has left its loop, and each future
it had recorded, whose destructor waits, is ready. `stop` joins it now. -/
def Ended (s : Dispatcher) : Prop := s.phase = .exited ∧ ∀ bank, s.isFree bank = true

variable {config : DRAMConfig} {timings : DRAMTiming} {s t u : Dispatcher}

theorem ready_of_ended (h : Ended s) (hserial : Serial config s) : ∀ t ∈ s.transfers, t.status = .ready := by
  intro t ht
  obtain ⟨i, hi⟩ := List.getElem?_of_mem ht
  by_contra hnot
  have hlast := hserial.last i t hi hnot
  have hfree := h.2 t.bank
  simp [isFree, hlast, hi, hnot] at hfree

theorem isOwn_of_exited {l : Label} (hphase : s.phase = .exited) (hready : ∀ t ∈ s.transfers, t.status = .ready)
    (hstep : Steps config timings s l t) : isOwn l = false := by
  cases hstep with
  | push | stop => rfl
  | exit hphase' | pop _ hphase' | await _ _ hphase' | loadCycle _ _ hphase' | openRow _ _ _ _ _ hphase'
  | terminate _ _ _ _ _ hphase' | storeCycle _ _ _ _ hphase' | launch _ _ _ _ _ _ hphase' =>
      rw [hphase] at hphase'
      cases hphase'
  | transferData _ u _ hu hstatus | loadTransferCycle _ u hu hstatus | storeTransferCycle _ u _ hu hstatus
  | sendResponse _ u _ _ hu hstatus =>
      rw [hready u (List.mem_of_getElem? hu)] at hstatus
      cases hstatus

theorem frozen_step {l : Label} (hphase : s.phase = .exited) (hready : ∀ t ∈ s.transfers, t.status = .ready)
    (hstep : Steps config timings s l t) :
    t = { s with
      queue := (requested l).toList ++ s.queue
      dispatcherStop := t.dispatcherStop } := by
  have hothers := isOwn_of_exited hphase hready hstep
  cases hstep with
  | push | stop => rfl
  | exit | pop | await | loadCycle | openRow | terminate | storeCycle | launch | transferData | loadTransferCycle
  | storeTransferCycle | sendResponse => cases hothers

theorem frozen_of_ended {more : List Label} (h : Ended s) (hready : ∀ t ∈ s.transfers, t.status = .ready)
    (hrun : run (Dispatcher.step config timings) s more = some u) :
    u = { s with queue := (pushed more).reverse ++ s.queue, dispatcherStop := u.dispatcherStop } := by
  refine run_induction (fun more u =>
    u = { s with queue := (pushed more).reverse ++ s.queue, dispatcherStop := u.dispatcherStop }) rfl ?_ more hrun
  intro ms v l w hv hstep
  have hphase : v.phase = .exited := by rw [hv]; exact h.1
  have htransfers : ∀ t ∈ v.transfers, t.status = .ready := by rw [hv]; exact hready
  have hw := frozen_step hphase htransfers (steps_of_step hstep).2
  have hqueue : (requested l).toList ++ v.queue = (pushed (ms ++ [l])).reverse ++ s.queue := by
    rw [hv, pushed_snoc, List.reverse_append, List.append_assoc]
    cases requested l <;> rfl
  rw [hqueue] at hw
  rw [hw, hv]

theorem ended_of_ready (hphase : s.phase = .exited) (hserial : Serial config s)
    (hready : ∀ t ∈ s.transfers, t.status = .ready) : Ended s := by
  refine ⟨hphase, ?_⟩
  intro bank
  rw [isFree]
  cases hi : s.lastTransfer bank with
  | none => rfl
  | some i =>
      obtain ⟨t, ht, _⟩ := hserial.own bank i hi
      simp [ht, hready t (List.mem_of_getElem? ht)]

theorem ended_of_quiet (hphase : s.phase = .exited) (hserial : Serial config s) (hquiet : Quiet config timings s) :
    Ended s := by
  have hrunning : s.running = true := by rw [running, hphase]
  exact ended_of_ready hphase hserial fun t ht => ready_of_quiet hquiet hrunning ht

theorem quiet_of_ended (h : Ended s) (hserial : Serial config s) : Quiet config timings s := by
  intro l hl
  apply Option.eq_none_iff_forall_ne_some.mpr
  intro t hstep
  have hothers := isOwn_of_exited h.1 (ready_of_ended h hserial) (steps_of_step hstep).2
  rw [hl] at hothers
  cases hothers

variable (config timings) in
structure ShutDown (ends : List Ending) (ls : List Label) (s : Dispatcher) : Prop where
  stopped : .stop ∈ ls
  ready : ∀ t ∈ s.transfers, t.status = .ready
  answered : (ends.map (·.ticket)).Perm (s.dispatched.map (ticketOf config))
  served : ∀ bank, callsOn s.calls bank = (requestsOn config s.dispatched bank).flatMap (callsOf config)
  kept : (s.dispatched ++ s.queue).Perm (pushed ls)
  frozen : ∀ more u, run (Dispatcher.step config timings) s more = some u →
    u = { s with queue := (pushed more).reverse ++ s.queue, dispatcherStop := u.dispatcherStop }

theorem shutDown_of_ended {currentCycle : UInt64} {ls : List Label}
    (h : run (Dispatcher.step config timings) (initial currentCycle) ls = some s) (hended : Ended s) :
    ShutDown config timings (endings config timings currentCycle ls) ls s := by
  obtain ⟨hserial, hbooks⟩ := books_of_run h
  obtain ⟨hstop, hexited⟩ := stopped_of_run h
  have hready := ready_of_ended hended hserial
  have hhand : inHand s.phase = none := by rw [hended.1]; rfl
  exact {
    stopped := hstop.mp (hexited hended.1)
    ready := hready
    answered := hbooks.finished_of_inHand hhand hready
    served := calls_of_settled hserial hhand fun t ht => by simp [hready t ht]
    kept := (ordered_of_run h).perm
    frozen := fun more u hrun => frozen_of_ended hended hready hrun }

/-- A dispatcher that has left its loop ends when the last transfer does, and
leaves every request served or in the queue, and nothing in motion. -/
theorem run_shut_down {currentCycle : UInt64} {ls : List Label}
    (h : run (Dispatcher.step config timings) (initial currentCycle) ls = some s) (hphase : s.phase = .exited) :
    (Ended s ↔ Quiet config timings s) ∧
      (Ended s → ShutDown config timings (endings config timings currentCycle ls) ls s) := by
  obtain ⟨hserial, _⟩ := books_of_run h
  exact ⟨⟨fun hended => quiet_of_ended hended hserial, ended_of_quiet hphase hserial⟩, shutDown_of_ended h⟩

/-- `stop` comes while the second transfer is in flight, and a request behind it. -/
def stoppedCrossing : List Label :=
  crossing ++ [.push ⟨2, 0x8, false, line, 7⟩, .stop, .dispatch .exit, .transfer 1 (.sendResponse [] 48)]

theorem run_shut_down_stoppedCrossing : ∃ s,
    run (Dispatcher.step fourBanks ⟨24, 24, 12⟩) (initial 0) stoppedCrossing = some s ∧ s.queue.length = 1 ∧
      Ended s ∧ (Ended s ↔ Quiet fourBanks ⟨24, 24, 12⟩ s) ∧
      (Ended s → ShutDown fourBanks ⟨24, 24, 12⟩ (endings fourBanks ⟨24, 24, 12⟩ 0 stoppedCrossing)
        stoppedCrossing s) :=
  ⟨_, rfl, rfl, ended_of_ready rfl (books_of_run (rfl : run (Dispatcher.step fourBanks ⟨24, 24, 12⟩) (initial 0)
    stoppedCrossing = some _)).1 (by decide), run_shut_down rfl rfl⟩

end MemSim.Shutdown
