import MemSim.DispatchOrder

namespace MemSim.Quiescence

open Machine DRAMRequest Runs Dispatcher DispatchOrder

/-- The controller's own steps, as opposed to what comes from outside. -/
def isOwn : Label → Bool
  | .dispatch _ | .transfer _ _ => true
  | .push _ | .stop => false

variable {config : DRAMConfig} {timings : DRAMTiming} {s t : Dispatcher}

variable (config) in
def Served (req : DRAMRequest) : Prop :=
  ∃ bank row col banks, bankOf config req = some bank ∧ rowOf config req = some row ∧
    colOf config req = some col ∧ config.numberOfBanks = .ok banks ∧ bank < banks

variable (config timings) in
/-- Every thread of the controller has ended or waits. -/
def Quiet (s : Dispatcher) : Prop := ∀ l, isOwn l = true → s.step config timings l = none

theorem ok_of_field {field : Checked String UInt64} {v : UInt32}
    (h : (match field with | .ok f => some f.toUInt32 | .error _ => none) = some v) :
    ∃ f, field = .ok f ∧ f.toUInt32 = v := by
  cases field with
  | error e => cases h
  | ok f => exact ⟨f, rfl, Option.some.inj h⟩

theorem ready_of_quiet (hquiet : Quiet config timings s) (hrunning : s.running = true) {u : Transfer}
    (hu : u ∈ s.transfers) : u.status = .ready := by
  obtain ⟨i, hi⟩ := List.mem_iff_getElem?.mp hu
  have hstep : ∀ action, s.transferStep timings i u action = none := by
    intro action
    simpa [Dispatcher.step, hrunning, hi] using hquiet (.transfer i action) rfl
  cases hstatus : u.status with
  | launched => simpa [transferStep, hstatus] using hstep (.transferData true)
  | transferred => simpa [transferStep, hstatus] using hstep .loadCycle
  | loaded cycle => simpa [transferStep, hstatus] using hstep .storeCycle
  | stored => simpa [transferStep, hstatus] using hstep (.sendResponse [] 0)
  | ready => rfl

theorem phase_of_quiet (hserial : Serial config s) (hquiet : Quiet config timings s) (hrunning : s.running = true)
    (hserved : ∀ req, inHand s.phase = some req → Served config req) :
    s.phase = .exited ∨ s.phase = .waiting ∧ s.dispatcherStop = false ∧
      ∀ req, top s.queue = some req → req.seq ≠ s.expectedSeq := by
  have hstep : ∀ action, s.dispatchStep config timings action = none := by
    intro action
    simpa [Dispatcher.step, hrunning] using hquiet (.dispatch action) rfl
  cases hphase : s.phase with
  | exited => exact .inl rfl
  | waiting =>
      have hstop : s.dispatcherStop = false := by simpa [dispatchStep, hphase] using hstep .exit
      refine .inr ⟨rfl, hstop, ?_⟩
      intro req htop
      simpa [dispatchStep, hphase, htop, hstop] using hstep .pop
  | popped req =>
      obtain ⟨bank, _, _, _, hbank, _⟩ := hserved req (by rw [hphase]; rfl)
      obtain ⟨bidx, hbidx, rfl⟩ := ok_of_field hbank
      have hfree : s.isFree bidx.toUInt32 = true := by
        rw [isFree]
        cases hi : s.lastTransfer bidx.toUInt32 with
        | none => rfl
        | some i =>
            obtain ⟨u, hu, _⟩ := hserial.own _ i hi
            simp [hu, ready_of_quiet hquiet hrunning (List.mem_of_getElem? hu)]
      have hawait := hstep .await
      simp [dispatchStep, hphase, hbidx, hfree] at hawait
  | awaited req bank =>
      have hload := hstep .loadCycle
      simp [dispatchStep, hphase] at hload
  | started req bank openRowStart =>
      obtain ⟨b, row, _, banks, hb, hrow, _, hbanks, hlt⟩ := hserved req (by rw [hphase]; rfl)
      obtain ⟨r, hr, _⟩ := ok_of_field hrow
      have hbank := (hserial.free req bank (by rw [hphase]; rfl)).2
      rw [hb] at hbank
      obtain rfl := Option.some.inj hbank
      have hopen := hstep (.openRow true)
      simp [dispatchStep, hphase, hr, hbanks, hlt] at hopen
  | opened req bank openRowStart =>
      have hstore := hstep .storeCycle
      simp [dispatchStep, hphase] at hstore
  | stored req bank openRowStart openRowEnd =>
      obtain ⟨_, _, col, _, _, _, hcol, _⟩ := hserved req (by rw [hphase]; rfl)
      obtain ⟨c, hc, _⟩ := ok_of_field hcol
      have hlaunch := hstep (.launch [])
      simp [dispatchStep, hphase, hc] at hlaunch
  | terminated req bank => simp [running, hphase] at hrunning

theorem quiet_of_rest (hready : ∀ t ∈ s.transfers, t.status = .ready) (hphase : s.phase = .waiting)
    (hstop : s.dispatcherStop = false) (hwait : ∀ req, top s.queue = some req → req.seq ≠ s.expectedSeq) :
    Quiet config timings s := by
  intro l hl
  apply Option.eq_none_iff_forall_ne_some.mpr
  intro t hstep
  cases (steps_of_step hstep).2 with
  | push | stop => cases hl
  | exit _ hstop' => rw [hstop] at hstop'; cases hstop'
  | pop req _ htop _ hseq => exact hwait req htop hseq
  | await _ _ hphase' | loadCycle _ _ hphase' | openRow _ _ _ _ _ hphase' | terminate _ _ _ _ _ hphase'
  | storeCycle _ _ _ _ hphase' | launch _ _ _ _ _ _ hphase' => rw [hphase] at hphase'; cases hphase'
  | transferData _ u _ hu hstatus | loadTransferCycle _ u hu hstatus | storeTransferCycle _ u _ hu hstatus
  | sendResponse _ u _ _ hu hstatus => rw [hready u (List.mem_of_getElem? hu)] at hstatus; cases hstatus

theorem inHand_mem_step {l : Label} (h : ∀ req, inHand s.phase = some req → req ∈ s.dispatched)
    (hstep : Steps config timings s l t) : ∀ req, inHand t.phase = some req → req ∈ t.dispatched := by
  cases hstep with
  | pop req hphase =>
      intro r hr
      obtain rfl := Option.some.inj hr
      exact List.mem_append_right _ (List.mem_singleton_self _)
  | exit hphase | launch req _ _ _ _ _ hphase => nofun
  | await req _ hphase | loadCycle req _ hphase | openRow req _ _ _ _ hphase | terminate req _ _ _ _ hphase
  | storeCycle req _ _ _ hphase =>
      rw [hphase] at h
      exact h
  | push | stop | transferData | loadTransferCycle | storeTransferCycle | sendResponse => exact h

theorem stopped_step {ls : List Label} {l : Label}
    (h : (s.dispatcherStop = true ↔ .stop ∈ ls) ∧ (s.phase = .exited → s.dispatcherStop = true))
    (hstep : Steps config timings s l t) :
    (t.dispatcherStop = true ↔ .stop ∈ ls ++ [l]) ∧ (t.phase = .exited → t.dispatcherStop = true) := by
  have hsame : l ≠ .stop → t.dispatcherStop = s.dispatcherStop →
      (t.phase = .exited → s.dispatcherStop = true) →
      (t.dispatcherStop = true ↔ .stop ∈ ls ++ [l]) ∧ (t.phase = .exited → t.dispatcherStop = true) := by
    intro hl hstop hphase
    rw [hstop, List.mem_append, List.mem_singleton, h.1]
    exact ⟨⟨.inl, fun hls => hls.elim id fun hl' => absurd hl'.symm hl⟩, fun ht => h.1.mp (hphase ht)⟩
  cases hstep with
  | stop => simp
  | exit _ hstop => exact hsame nofun rfl fun _ => hstop
  | push | transferData | loadTransferCycle | storeTransferCycle | sendResponse => exact hsame nofun rfl h.2
  | pop | await | loadCycle | openRow | terminate | storeCycle | launch => exact hsame nofun rfl nofun

theorem stopped_of_run {currentCycle : UInt64} {ls : List Label}
    (h : run (Dispatcher.step config timings) (initial currentCycle) ls = some s) :
    (s.dispatcherStop = true ↔ .stop ∈ ls) ∧ (s.phase = .exited → s.dispatcherStop = true) :=
  run_induction (fun ls s => (s.dispatcherStop = true ↔ .stop ∈ ls) ∧ (s.phase = .exited → s.dispatcherStop = true))
    ⟨by simp [initial], by simp [initial]⟩ (fun _ _ _ _ hu hstep => stopped_step hu (steps_of_step hstep).2) ls h

theorem queue_eq_nil {ls : List Label} {n : Nat} (hordered : Ordered ls s) (hn : n ≤ UInt64.size)
    (hnumbered : ((pushed ls).map (·.seq)).Perm ((List.range n).map UInt64.ofNat))
    (hwait : ∀ req, top s.queue = some req → req.seq ≠ s.expectedSeq) : s.queue = [] := by
  have hnodup : ((pushed ls).map (·.seq)).Nodup := by
    rw [hnumbered.nodup_iff]
    apply List.Nodup.map_on _ List.nodup_range
    intro i hi j hj hij
    rw [List.mem_range] at hi hj
    have heq := congrArg UInt64.toNat hij
    rwa [UInt64.toNat_ofNat_of_lt' (by omega), UInt64.toNat_ofNat_of_lt' (by omega)] at heq
  have hlength : s.dispatched.length + s.queue.length = n := by
    have hperm := (hordered.perm.map (·.seq)).trans hnumbered
    simpa using hperm.length_eq
  by_contra hne
  have hlt : s.dispatched.length < n := by
    have := List.length_pos_of_ne_nil hne
    omega
  have hmem : s.expectedSeq ∈ (s.dispatched ++ s.queue).map (·.seq) := by
    rw [((hordered.perm.map (·.seq)).trans hnumbered).mem_iff, hordered.expected]
    exact List.mem_map_of_mem (List.mem_range.mpr hlt)
  rw [List.map_append, List.mem_append, hordered.seqs] at hmem
  rcases hmem with hmem | hmem
  · obtain ⟨i, hi, heq⟩ := List.mem_map.mp hmem
    rw [List.mem_range] at hi
    rw [hordered.expected] at heq
    have hnat := congrArg UInt64.toNat heq
    rw [UInt64.toNat_ofNat_of_lt' (by omega), UInt64.toNat_ofNat_of_lt' (by omega)] at hnat
    omega
  · obtain ⟨req, hreq, hseq⟩ := List.mem_map.mp hmem
    exact hwait req (hordered.top_eq hnodup hreq hseq) hseq

/-- What was launched has called its bank, and the dispatcher has nothing in
its hands: no call is owed any more. -/
theorem calls_of_settled (h : Serial config s) (hhand : inHand s.phase = none)
    (hdone : ∀ t ∈ s.transfers, t.status ≠ .launched) (bank : UInt32) :
    callsOn s.calls bank = (requestsOn config s.dispatched bank).flatMap (callsOf config) := by
  have hdispatcher : owedByDispatcher config s.phase bank (s.openRows bank) = [] := by
    cases hphase : s.phase with
    | waiting | exited => rfl
    | popped | awaited | started | opened | stored | terminated => simp [hphase, inHand] at hhand
  have htransfer : owedByTransfer s.transfers (s.lastTransfer bank) bank (s.openRows bank) = [] := by
    unfold owedByTransfer
    split
    · next t ht =>
        obtain ⟨i, _, hi⟩ := Option.bind_eq_some_iff.mp ht
        rw [if_neg (hdone t (List.mem_of_getElem? hi))]
    · rfl
  rw [← h.log, hdispatcher, htransfer, List.append_nil, List.append_nil]

structure AtRest (ls : List Label) (s : Dispatcher) : Prop where
  ready : ∀ t ∈ s.transfers, t.status = .ready
  stopped : .stop ∈ ls → s.phase = .exited
  waiting : .stop ∉ ls → s.phase = .waiting
  behind : .stop ∉ ls → ∀ req, top s.queue = some req → req.seq ≠ s.expectedSeq

theorem atRest_of_quiet {currentCycle : UInt64} {ls : List Label}
    (h : run (Dispatcher.step config timings) (initial currentCycle) ls = some s) (hrunning : s.running = true)
    (hserved : ∀ req ∈ pushed ls, Served config req) (hquiet : Quiet config timings s) : AtRest ls s := by
  have hordered := ordered_of_run h
  have hhand := run_induction (fun _ s => ∀ req, inHand s.phase = some req → req ∈ s.dispatched)
    (by simp [initial, inHand])
    (fun _ _ _ _ hu hstep => inHand_mem_step hu (steps_of_step hstep).2) ls h
  obtain ⟨hstop, hexited⟩ := stopped_of_run h
  have hrest := phase_of_quiet (serial_of_run h) hquiet hrunning fun req hreq =>
    hserved req (hordered.perm.subset (List.mem_append_left _ (hhand req hreq)))
  have hwaiting : .stop ∉ ls → s.phase = .waiting ∧ ∀ req, top s.queue = some req → req.seq ≠ s.expectedSeq := by
    intro hnot
    rcases hrest with hphase | ⟨hphase, _, hwait⟩
    · exact absurd (hstop.mp (hexited hphase)) hnot
    · exact ⟨hphase, hwait⟩
  refine ⟨fun t ht => ready_of_quiet hquiet hrunning ht, ?_, fun hnot => (hwaiting hnot).1,
    fun hnot => (hwaiting hnot).2⟩
  intro hmem
  rcases hrest with hphase | ⟨_, hnot, _⟩
  · exact hphase
  · rw [hstop.mpr hmem] at hnot
    cases hnot

theorem dispatched_of_rest {ls : List Label} {n : Nat} (hrest : AtRest ls s) (hordered : Ordered ls s)
    (hnot : .stop ∉ ls) (hn : n ≤ UInt64.size)
    (hnumbered : ((pushed ls).map (·.seq)).Perm ((List.range n).map UInt64.ofNat)) :
    s.dispatched.map (·.seq) = (List.range n).map UInt64.ofNat ∧ s.dispatched.Perm (pushed ls) := by
  have hempty := queue_eq_nil hordered hn hnumbered (hrest.behind hnot)
  have hperm := hordered.perm
  rw [hempty, List.append_nil] at hperm
  have hlength : s.dispatched.length = n := by
    simpa using ((hperm.map (·.seq)).trans hnumbered).length_eq
  exact ⟨by rw [hordered.seqs, hlength], hperm⟩

variable (config timings) in
/-- Dispatch follows the numbers and loses nothing, every bank sees its own
requests' calls in that order, and has one transfer in flight at most. With the
numbers from zero on, rest comes only when every request has been dispatched
and every bank has seen all its calls. -/
structure Serialised (ls : List Label) (s : Dispatcher) : Prop where
  seqs : s.dispatched.map (·.seq) = (List.range s.dispatched.length).map UInt64.ofNat
  perm : (s.dispatched ++ s.queue).Perm (pushed ls)
  next : ((pushed ls).map (·.seq)).Nodup → ∀ req ∈ s.queue, req.seq = s.expectedSeq →
    top s.queue = some req
  calls : ∀ bank, callsOn s.calls bank <+: (requestsOn config s.dispatched bank).flatMap (callsOf config)
  settled : s.phase = .waiting → (∀ t ∈ s.transfers, t.status ≠ .launched) → ∀ bank,
    callsOn s.calls bank = (requestsOn config s.dispatched bank).flatMap (callsOf config)
  single : ∀ (i j : Nat) (t u : Transfer), s.transfers[i]? = some t → s.transfers[j]? = some u →
    t.status ≠ .ready → u.status ≠ .ready → t.bank = u.bank → i = j
  complete : s.running = true → .stop ∉ ls → (∀ req ∈ pushed ls, Served config req) → Quiet config timings s →
    ∀ n ≤ UInt64.size, ((pushed ls).map (·.seq)).Perm ((List.range n).map UInt64.ofNat) →
      s.dispatched.map (·.seq) = (List.range n).map UInt64.ofNat ∧ s.dispatched.Perm (pushed ls) ∧
        ∀ bank, callsOn s.calls bank = (requestsOn config s.dispatched bank).flatMap (callsOf config)

/-- Whatever the order of pushes, dispatches and transfers. -/
theorem run_serialised {currentCycle : UInt64} {ls : List Label}
    (h : run (Dispatcher.step config timings) (initial currentCycle) ls = some s) :
    Serialised config timings ls s := by
  have hserial := serial_of_run h
  have hordered := ordered_of_run h
  have hcalls : s.phase = .waiting → (∀ t ∈ s.transfers, t.status ≠ .launched) → ∀ bank,
      callsOn s.calls bank = (requestsOn config s.dispatched bank).flatMap (callsOf config) :=
    fun hphase => calls_of_settled hserial (by rw [hphase]; rfl)
  refine ⟨hordered.seqs, hordered.perm, fun hd _ => hordered.top_eq hd, ?_, hcalls, ?_, ?_⟩
  · intro bank
    rw [← hserial.log, List.append_assoc]
    exact List.prefix_append _ _
  · intro i j t u ht hu hti huj hbank
    have hi := hserial.last i t ht hti
    have hj := hserial.last j u hu huj
    rw [hbank, hj] at hi
    exact (Option.some.inj hi).symm
  · intro hrunning hnot hserved hquiet n hn hnumbered
    have hrest := atRest_of_quiet h hrunning hserved hquiet
    obtain ⟨hseqs, hperm⟩ := dispatched_of_rest hrest hordered hnot hn hnumbered
    refine ⟨hseqs, hperm, hcalls (hrest.waiting hnot) ?_⟩
    intro t ht
    rw [hrest.ready t ht]
    nofun

def line : List UInt8 := [1, 2, 3, 4, 5, 6, 7, 8]

/-- Two requests pushed in the other order; the second row is opened while the
first transfer is in flight, and the first transfer throws. -/
def crossing : List Label :=
  [.push ⟨1, 0x4, true, line, 6⟩, .push ⟨0, 0x400, false, line, 5⟩, .dispatch .pop, .dispatch .await,
    .dispatch .loadCycle, .dispatch (.openRow true), .dispatch .storeCycle, .dispatch (.launch line),
    .dispatch .pop, .dispatch .await, .dispatch .loadCycle, .dispatch (.openRow true),
    .transfer 0 (.transferData false), .dispatch .storeCycle, .dispatch (.launch line),
    .transfer 1 (.transferData true), .transfer 1 .loadCycle, .transfer 1 .storeCycle]

theorem run_serialised_crossing : fourBanks.validate = .ok () ∧
    ∃ s, run (Dispatcher.step fourBanks ⟨24, 24, 12⟩) (initial 0) crossing = some s ∧
      s.queue = [] ∧ s.dispatched = [⟨0, 0x400, false, line, 5⟩, ⟨1, 0x4, true, line, 6⟩] ∧
      s.calls = [.openRow 0 0, .openRow 2 0, .transferData 0 102 false (some 0), .transferData 2 0 true (some 0)] ∧
      Serialised fourBanks ⟨24, 24, 12⟩ crossing s :=
  ⟨by decide, _, rfl, rfl, rfl, rfl, run_serialised rfl⟩

end MemSim.Quiescence
