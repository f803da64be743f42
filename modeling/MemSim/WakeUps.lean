import MemSim.Completion
import MemSim.Monitor

namespace MemSim.WakeUps

open Machine DRAMRequest Runs Dispatcher DispatchOrder Quiescence Answers Completion Monitor

variable (config : DRAMConfig) (timings : DRAMTiming)

def takeNext (s : Dispatcher) : Option Dispatcher.Label :=
  if s.dispatcherStop then some (.dispatch .exit)
  else
    match top s.queue with
    | some req => if req.seq = s.expectedSeq then some (.dispatch .pop) else none
    | none => none

/-- `dispatcher_mtx` and `dispatcher_cv`. Every call of `handle_request` that
has its request, and of `stop`, locks, changes what is shared, unlocks and
notifies; the transfers and the rest of the dispatcher's loop need no lock. -/
def parts : Parts Dispatcher Dispatcher.Label where
  step := Dispatcher.step config timings
  take := takeNext
  wants s := s.phase = .waiting
  isCall
    | .push _ | .stop => true
    | .dispatch _ | .transfer _ _ => false
  isFree
    | .dispatch .exit | .dispatch .pop | .push _ | .stop => false
    | .dispatch _ | .transfer _ _ => true

variable {config timings} {s t : Dispatcher} {l : Dispatcher.Label}

theorem free_of_waiting (hphase : s.phase = .waiting) (hfree : (parts config timings).isFree l = true)
    (hstep : Steps config timings s l t) :
    t.phase = s.phase ∧ t.queue = s.queue ∧ t.dispatcherStop = s.dispatcherStop ∧ t.expectedSeq = s.expectedSeq := by
  cases hstep with
  | transferData | loadTransferCycle | storeTransferCycle | sendResponse => exact ⟨rfl, rfl, rfl, rfl⟩
  | push | stop | exit | pop => cases hfree
  | await _ _ h | loadCycle _ _ h | openRow _ _ _ _ _ h | terminate _ _ _ _ _ h | storeCycle _ _ _ _ h
  | launch _ _ _ _ _ _ h => rw [hphase] at h; cases h

theorem lawful_parts : Lawful (parts config timings) where
  keeps := by
    intro s l t hwants hl hstep
    have hphase : s.phase = .waiting := of_decide_eq_true hwants
    apply decide_eq_true
    rcases hl with hcall | hfree
    · cases (steps_of_step hstep).2 with
      | push | stop => exact hphase
      | _ => cases hcall
    · rw [(free_of_waiting hphase hfree (steps_of_step hstep).2).1, hphase]
  quiet := by
    intro s l t hwants htake hfree hstep
    have hphase : s.phase = .waiting := of_decide_eq_true hwants
    obtain ⟨_, hqueue, hstop, hseq⟩ := free_of_waiting hphase hfree (steps_of_step hstep).2
    change takeNext t = none
    rw [takeNext, hqueue, hstop, hseq]
    exact htake
  ready := by
    intro s l hwants htake
    have hphase : s.phase = .waiting := of_decide_eq_true hwants
    change takeNext s = some l at htake
    change ∃ t, s.step config timings l = some t
    rw [takeNext] at htake
    split at htake
    · next hstop =>
        obtain rfl := Option.some.inj htake
        rw [← Option.isSome_iff_exists]
        simp [Dispatcher.step, running, hphase, dispatchStep, hstop]
    · next hstop =>
        split at htake
        · next req htop =>
            obtain ⟨hseq, htake⟩ := Option.ite_none_right_eq_some.mp htake
            obtain rfl := Option.some.inj htake
            rw [← Option.isSome_iff_exists]
            simp [Dispatcher.step, running, hphase, dispatchStep, hstop, htop, hseq]
        · cases htake
  takes := by
    intro s l htake
    change takeNext s = some l at htake
    rw [takeNext] at htake
    split at htake
    · obtain rfl := Option.some.inj htake
      rfl
    · split at htake
      · obtain ⟨_, htake⟩ := Option.ite_none_right_eq_some.mp htake
        obtain rfl := Option.some.inj htake
        rfl
      · cases htake
  frees := by
    intro l hfree
    cases l with
    | push | stop => cases hfree
    | dispatch | transfer => rfl

variable (config timings) in
def dispatcherRun (currentCycle : UInt64) (ms : List (Monitor.Label Dispatcher.Label)) : List Dispatcher.Label :=
  emitted (Monitor.step (parts config timings)) (acted (parts config timings)) (start (initial currentCycle)) ms

theorem quiet_of_stuck (htake : (parts config timings).wants s = true → (parts config timings).take s = none)
    (hfree : ∀ l, (parts config timings).isFree l = true → (parts config timings).step s l = none) :
    Quiet config timings s := by
  intro l hl
  by_cases h : (parts config timings).isFree l = true
  · exact hfree l h
  · apply Option.eq_none_iff_forall_ne_some.mpr
    intro t hstep
    cases (steps_of_step hstep).2 with
    | push | stop => cases hl
    | exit hphase hstop =>
        have hnone : takeNext s = none := htake (decide_eq_true hphase)
        simp [takeNext, hstop] at hnone
    | pop req hphase htop hstop hseq =>
        have hnone : takeNext s = none := htake (decide_eq_true hphase)
        simp [takeNext, hstop, htop, hseq] at hnone
    | _ => exact h rfl

theorem requests_acted {ls : List Dispatcher.Label} {callers : List (Dispatcher.Label × CallerPhase)}
    (hdone : ∀ c ∈ callers, c.2 = .done) (h : (ls.filter (parts config timings).isCall).Perm (changes callers)) :
    (pushed ls).Perm (callers.filterMap fun c => requested c.1) ∧ (.stop ∈ ls ↔ .stop ∈ callers.map (·.1)) := by
  have hchanges : changes callers = callers.map (·.1) := by
    rw [changes, List.filter_eq_self.mpr]
    intro c hc
    rw [hdone c hc]
    rfl
  rw [hchanges] at h
  constructor
  · have hpushed : pushed ls = (ls.filter (parts config timings).isCall).filterMap requested := by
      rw [pushed, List.filterMap_filter]
      apply List.filterMap_congr
      intro l _
      cases l <;> rfl
    have hperm := h.filterMap requested
    rw [List.filterMap_map] at hperm
    rw [hpushed]
    exact hperm
  · rw [← h.mem_iff, List.mem_filter]
    exact ⟨fun hmem => ⟨hmem, rfl⟩, And.left⟩

variable (config timings) in
structure Woken (currentCycle : UInt64) (ms : List (Monitor.Label Dispatcher.Label))
    (m : Monitor.State Dispatcher Dispatcher.Label) : Prop where
  safe : Safe (parts config timings) m
  refines : run (Dispatcher.step config timings) (initial currentCycle) (dispatcherRun config timings currentCycle ms) =
    some m.shared
  drained : m.shared.running = true → Stuck (parts config timings) m →
    (∀ c ∈ m.callers, ∀ req, c.1 = .push req → Served config req) →
      (∀ c ∈ m.callers, c.2 = .done) ∧
      (pushed (dispatcherRun config timings currentCycle ms)).Perm (m.callers.filterMap fun c => requested c.1) ∧
      (.stop ∈ dispatcherRun config timings currentCycle ms ↔ .stop ∈ m.callers.map (·.1)) ∧
      Drained config (endings config timings currentCycle (dispatcherRun config timings currentCycle ms))
        (dispatcherRun config timings currentCycle ms) m.shared

/-- Whoever has a request, or calls `stop`, is heard: the dispatcher never
sleeps on work, and the threads together come to rest only when all is done. -/
theorem run_woken {currentCycle : UInt64} {ms : List (Monitor.Label Dispatcher.Label)}
    {m : Monitor.State Dispatcher Dispatcher.Label}
    (h : run (Monitor.step (parts config timings)) (start (initial currentCycle)) ms = some m) :
    Woken config timings currentCycle ms m := by
  have hsafe := safe_of_run lawful_parts h
  have hrun : run (Dispatcher.step config timings) (initial currentCycle)
      (dispatcherRun config timings currentCycle ms) = some m.shared := run_acted h
  refine ⟨hsafe, hrun, ?_⟩
  intro hrunning hstuck hserved
  have hcallable : ∀ c ∈ m.callers, ∃ t, (parts config timings).step m.shared c.1 = some t := by
    rintro ⟨l, phase⟩ hc
    have hcall := hsafe.calls _ hc
    cases l with
    | push | stop => exact ⟨_, if_pos hrunning⟩
    | dispatch | transfer => cases hcall
  obtain ⟨hdone, htake, hfree⟩ := rest_of_stuck lawful_parts hsafe hstuck hcallable
  obtain ⟨hpushed, hstop⟩ := requests_acted hdone (calls_acted lawful_parts h)
  have hall : ∀ req ∈ pushed (dispatcherRun config timings currentCycle ms), Served config req := by
    intro req hreq
    obtain ⟨c, hc, hreq⟩ := List.mem_filterMap.mp (hpushed.subset hreq)
    apply hserved c hc
    cases hlabel : c.1 with
    | push r =>
        rw [hlabel] at hreq
        rw [Option.some.inj hreq]
    | stop | dispatch | transfer =>
        rw [hlabel] at hreq
        cases hreq
  have hrest := atRest_of_quiet hrun hrunning hall (quiet_of_stuck htake hfree)
  exact ⟨hdone, hpushed, hstop, drained_of_rest hrest (books_of_run hrun).2 (ordered_of_run hrun)⟩

/-- The dispatcher sleeps; a request is pushed, and the dispatcher sleeps again
before it is notified; a second one wakes it. -/
def threads : List (Monitor.Label Dispatcher.Label) :=
  [.waiterLock, .test, .call (.push ⟨0, 0x400, false, line, 5⟩), .call .stop, .lock 0, .change 0, .wake, .unlock 0,
    .waiterLock, .test, .notify 0, .lock 1, .change 1, .free (.dispatch .await), .free (.dispatch .loadCycle),
    .unlock 1, .notify 1]

theorem run_woken_threads : ∃ m,
    run (Monitor.step (parts fourBanks ⟨24, 24, 12⟩)) (start (initial 0)) threads = some m ∧
      Woken fourBanks ⟨24, 24, 12⟩ 0 threads m :=
  ⟨_, rfl, run_woken rfl⟩

end MemSim.WakeUps
