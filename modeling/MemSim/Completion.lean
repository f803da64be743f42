import MemSim.Answers

namespace MemSim.Completion

open Machine DRAMRequest Runs Dispatcher DispatchOrder Quiescence Answers

def transferLeft : TransferStatus → Nat
  | .launched => 4
  | .transferred => 3
  | .loaded _ => 2
  | .stored => 1
  | .ready => 0

/-- The steps before the dispatcher waits again, and those of the transfer it
launches on the way; then one to leave. -/
def phaseLeft : Phase → Nat
  | .waiting => 1
  | .popped _ => 10
  | .awaited _ _ => 9
  | .started _ _ _ => 8
  | .opened _ _ _ => 7
  | .stored _ _ _ _ => 6
  | .exited | .terminated _ _ => 0

def stepsLeft (s : Dispatcher) : Nat :=
  10 * s.queue.length + phaseLeft s.phase + (s.transfers.map fun t => transferLeft t.status).sum

def workOf (l : Label) : Nat := (isOwn l).toNat

def gainOf (l : Label) : Nat := 10 * (requested l).toList.length

variable {config : DRAMConfig} {timings : DRAMTiming} {s t : Dispatcher}

theorem transferLeft_move {transfers : List Transfer} {i : Nat} {u : Transfer} (hu : transfers[i]? = some u)
    (status : TransferStatus) :
    ((transfers.set i { u with status }).map fun t => transferLeft t.status).sum + transferLeft u.status =
      (transfers.map fun t => transferLeft t.status).sum + transferLeft status := by
  induction transfers generalizing i with
  | nil => simp at hu
  | cons v transfers ih =>
      cases i with
      | zero =>
          obtain rfl := Option.some.inj hu
          simp only [List.set_cons_zero, List.map_cons, List.sum_cons]
          omega
      | succ i =>
          have hrest := ih hu
          simp only [List.set_cons_succ, List.map_cons, List.sum_cons]
          omega

theorem stepsLeft_move {i : Nat} {u : Transfer} {status : TransferStatus} {calls : List Call}
    {currentCycle : UInt64} (hu : s.transfers[i]? = some u) (hless : transferLeft status < transferLeft u.status) :
    stepsLeft ({ s with calls, currentCycle }.moveTransfer i u status) + 1 ≤ stepsLeft s := by
  have hmove := transferLeft_move hu status
  simp only [stepsLeft, moveTransfer]
  omega

theorem stepsLeft_step {l : Label} (hstep : Steps config timings s l t) :
    stepsLeft t + workOf l ≤ stepsLeft s + gainOf l := by
  cases hstep with
  | push req => simp [stepsLeft, workOf, gainOf, isOwn, requested]; omega
  | stop => simp [stepsLeft, workOf, gainOf, isOwn, requested]
  | pop req hphase htop =>
      have hlength := List.length_erase_of_mem (top_mem htop)
      have hpos := List.length_pos_of_mem (top_mem htop)
      simp only [stepsLeft, hphase, phaseLeft, workOf, isOwn, Bool.toNat_true, hlength]
      omega
  | exit hphase | await req _ hphase | loadCycle req _ hphase | openRow req _ _ _ _ hphase
  | terminate req _ _ _ _ hphase | storeCycle req _ _ _ hphase =>
      simp only [stepsLeft, hphase, phaseLeft, workOf, isOwn, Bool.toNat_true]
      omega
  | launch req bank openRowStart openRowEnd col data hphase =>
      simp only [stepsLeft, hphase, phaseLeft, workOf, isOwn, Bool.toNat_true, List.map_append, List.sum_append,
        List.map_singleton, List.sum_singleton, transferLeft]
      omega
  | transferData i u returns hu hstatus =>
      apply Nat.le_add_right_of_le
      apply stepsLeft_move hu
      rw [hstatus]
      cases returns <;> decide
  | loadTransferCycle i u hu hstatus =>
      apply Nat.le_add_right_of_le
      exact stepsLeft_move hu (by simp [hstatus, transferLeft])
  | storeTransferCycle i u cycle hu hstatus =>
      apply Nat.le_add_right_of_le
      exact stepsLeft_move hu (by simp [hstatus, transferLeft])
  | sendResponse i u data n hu hstatus =>
      apply Nat.le_add_right_of_le
      exact stepsLeft_move hu (by simp [hstatus, transferLeft])

theorem sum_gainOf (ls : List Label) : (ls.map gainOf).sum = 10 * (pushed ls).length := by
  induction ls with
  | nil => rfl
  | cons l ls ih =>
      rw [List.map_cons, List.sum_cons, ih, gainOf, pushed, pushed, List.filterMap_cons]
      cases requested l with
      | none => simp
      | some req => simp; omega

theorem sum_workOf (ls : List Label) : (ls.map workOf).sum = ls.countP isOwn := by
  induction ls with
  | nil => rfl
  | cons l ls ih =>
      rw [List.map_cons, List.sum_cons, ih, workOf, List.countP_cons]
      cases isOwn l with
      | false => simp
      | true => simp; omega

/-- The steps of its own that the controller takes are at most ten for each
request, and one to leave. An `open_row` is one of them when it comes back. -/
theorem run_work_le {currentCycle : UInt64} {ls : List Label}
    (h : run (Dispatcher.step config timings) (initial currentCycle) ls = some s) :
    ls.countP isOwn + stepsLeft s ≤ 10 * (pushed ls).length + 1 := by
  have hwork := work_le_of_potential stepsLeft workOf gainOf
    (fun u l t hstep => stepsLeft_step (steps_of_step hstep).2) h
  rw [sum_gainOf, sum_workOf] at hwork
  have hinitial : stepsLeft (initial currentCycle) = 1 := rfl
  omega

theorem run_work_le_crossing : ∃ s,
    run (Dispatcher.step fourBanks ⟨24, 24, 12⟩) (initial 0) answeredCrossing = some s ∧
      answeredCrossing.countP isOwn + stepsLeft s ≤ 10 * (pushed answeredCrossing).length + 1 :=
  ⟨_, rfl, @run_work_le fourBanks ⟨24, 24, 12⟩ _ 0 answeredCrossing rfl⟩

variable (config timings) in
/-- What is true when the controller has come to rest. -/
structure Drained (ends : List Ending) (ls : List Label) (s : Dispatcher) : Prop where
  ready : ∀ t ∈ s.transfers, t.status = .ready
  stopped : .stop ∈ ls → s.phase = .exited
  unstopped : .stop ∉ ls → s.phase = .waiting ∧ (ends.map (·.ticket)).Perm (s.dispatched.map (ticketOf config))
  complete : .stop ∉ ls → ∀ n ≤ UInt64.size,
    ((pushed ls).map (·.seq)).Perm ((List.range n).map UInt64.ofNat) →
      s.dispatched.map (·.seq) = (List.range n).map UInt64.ofNat ∧
        (ends.map (·.ticket)).Perm ((pushed ls).map (ticketOf config))

theorem drained_of_rest {ls : List Label} {ends : List Ending} (hrest : AtRest ls s)
    (hbooks : Books config timings ends s) (hordered : Ordered ls s) : Drained config ends ls s := by
  have hended : .stop ∉ ls → (ends.map (·.ticket)).Perm (s.dispatched.map (ticketOf config)) :=
    fun hnot => hbooks.finished (hrest.waiting hnot) hrest.ready
  refine ⟨hrest.ready, hrest.stopped, fun hnot => ⟨hrest.waiting hnot, hended hnot⟩, ?_⟩
  intro hnot n hn hnumbered
  obtain ⟨hseqs, hperm⟩ := dispatched_of_rest hrest hordered hnot hn hnumbered
  exact ⟨hseqs, (hended hnot).trans (hperm.map _)⟩

/-- There is no deadlock. -/
theorem run_drained {currentCycle : UInt64} {ls : List Label}
    (h : run (Dispatcher.step config timings) (initial currentCycle) ls = some s) (hrunning : s.running = true)
    (hserved : ∀ req ∈ pushed ls, Served config req) (hquiet : Quiet config timings s) :
    Drained config (endings config timings currentCycle ls) ls s :=
  drained_of_rest (atRest_of_quiet h hrunning hserved hquiet) (books_of_run h).2 (ordered_of_run h)

theorem run_drained_crossing : ∃ s,
    run (Dispatcher.step fourBanks ⟨24, 24, 12⟩) (initial 0) answeredCrossing = some s ∧
      Drained fourBanks (endings fourBanks ⟨24, 24, 12⟩ 0 answeredCrossing) answeredCrossing s := by
  refine ⟨_, rfl, run_drained rfl rfl ?_ (quiet_of_rest ?_ rfl rfl ?_)⟩
  · intro req hreq
    have hpushed : pushed answeredCrossing = [⟨1, 0x4, true, line, 6⟩, ⟨0, 0x400, false, line, 5⟩] := by decide
    rw [hpushed] at hreq
    simp only [List.mem_cons, List.not_mem_nil, or_false] at hreq
    rcases hreq with rfl | rfl <;> exact ⟨_, _, _, _, rfl, rfl, rfl, rfl, by decide⟩
  · decide
  · nofun

end MemSim.Completion
