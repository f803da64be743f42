import MemSim.Quiescence
import MemSim.Replay

namespace MemSim.Serialisability

open Machine Runs Dispatcher DispatchOrder Quiescence Replay

inductive BankCall
  | openRow (row : UInt32)
  | transferData (col : UInt32) (isWrite : Bool) (data : List UInt8)
  deriving DecidableEq, Repr

structure Service where
  req : DRAMRequest
  data : List UInt8
  deriving DecidableEq, Repr

def transferCall (t : Transfer) : BankCall := .transferData t.col t.isWrite t.data

variable (config : DRAMConfig) (timings : DRAMTiming)

def callOf (s : Dispatcher) : Label → Option (UInt32 × BankCall)
  | .dispatch (.openRow _) =>
      match s.phase with
      | .started req bank _ => (rowOf config req).map fun row => (bank, .openRow row)
      | _ => none
  | .transfer i (.transferData _) => (s.transfers[i]?).map fun t => (t.bank, transferCall t)
  | _ => none

def serviceOf (s : Dispatcher) : Label → Option Service
  | .dispatch (.launch data) =>
      match s.phase with
      | .stored req _ _ _ => some ⟨req, data⟩
      | _ => none
  | _ => none

def callsMade (currentCycle : UInt64) (ls : List Label) : List (UInt32 × BankCall) :=
  emitted (Dispatcher.step config timings) (callOf config) (initial currentCycle) ls

def services (currentCycle : UInt64) (ls : List Label) : List Service :=
  emitted (Dispatcher.step config timings) serviceOf (initial currentCycle) ls

def serviceCalls (v : Service) : List (UInt32 × BankCall) :=
  match bankOf config v.req, rowOf config v.req, colOf config v.req with
  | some bank, some row, some col =>
      [(bank, .openRow row), (bank, .transferData col v.req.isWrite v.data)]
  | _, _, _ => []

def pending (s : Dispatcher) (bank : UInt32) : List BankCall :=
  match (s.lastTransfer bank).bind (s.transfers[·]?) with
  | some t => if t.status = .launched then [transferCall t] else []
  | none => []

def opened (phase : Phase) (bank : UInt32) : List BankCall :=
  match phase with
  | .opened req b _ | .stored req b _ _ | .terminated req b =>
      if b = bank then (rowOf config req).toList.map .openRow else []
  | _ => []

/-- The calls made, and those still to be made by the transfers, are those of
the services one by one, and the row that is open for the next. -/
structure Log (calls : List (UInt32 × BankCall)) (served : List Service) (s : Dispatcher) : Prop where
  requests : served.map (·.req) ++ (inHand s.phase).toList = s.dispatched
  log : ∀ bank, onKey bank calls ++ pending s bank =
    onKey bank (served.flatMap (serviceCalls config)) ++ opened config s.phase bank
  row : ∀ req bank openRowStart openRowEnd,
    s.phase = .opened req bank openRowStart ∨ s.phase = .stored req bank openRowStart openRowEnd →
      ∃ row, rowOf config req = some row

variable {config timings} {s t : Dispatcher} {calls : List (UInt32 × BankCall)} {served : List Service}

theorem log_initial (currentCycle : UInt64) : Log config [] [] (initial currentCycle) :=
  ⟨rfl, fun _ => rfl, by simp [initial]⟩

theorem log_phase {phase : Phase} {queue : List DRAMRequest} {dispatcherStop : Bool} {currentCycle : UInt64}
    (h : Log config calls served s) (hhand : inHand phase = inHand s.phase)
    (hopened : ∀ bank, opened config phase bank = opened config s.phase bank)
    (hrow : ∀ req bank openRowStart openRowEnd,
      phase = .opened req bank openRowStart ∨ phase = .stored req bank openRowStart openRowEnd →
        ∃ row, rowOf config req = some row) :
    Log config calls served { s with phase, queue, dispatcherStop, currentCycle } := by
  refine ⟨?_, ?_, hrow⟩
  · dsimp only
    rw [hhand]
    exact h.requests
  · intro bank
    dsimp only
    rw [hopened]
    exact h.log bank

theorem log_await {req : DRAMRequest} {bank : UInt32} (h : Log config calls served s)
    (hserial : Serial config s) (hphase : s.phase = .popped req) (hfree : s.isFree bank) :
    Log config calls served { s with
      phase := .awaited req bank
      lastTransfer := Function.update s.lastTransfer bank none } := by
  refine ⟨?_, ?_, by simp⟩
  · have hrequests := h.requests
    rw [hphase] at hrequests
    exact hrequests
  · intro b
    have hlog := h.log b
    rw [hphase] at hlog
    dsimp only [opened] at hlog ⊢
    rw [← hlog]
    congr 1
    rw [pending, pending]
    dsimp only
    by_cases hb : b = bank
    · subst hb
      rw [Function.update_self]
      cases hi : s.lastTransfer b with
      | none => rfl
      | some i =>
          obtain ⟨u, hu, _⟩ := hserial.own b i hi
          have hready : u.status = .ready := by simpa [isFree, hi, hu] using hfree
          simp [hu, hready]
    · rw [Function.update_of_ne hb]

theorem pending_eq_nil {bank : UInt32} (hnone : s.lastTransfer bank = none) : pending s bank = [] := by
  rw [pending, hnone, Option.bind_none]

theorem log_openRow {req : DRAMRequest} {bank row : UInt32} {openRowStart : UInt64} {phase : Phase}
    {openRows : UInt32 → Option UInt32} {made : List Call}
    (h : Log config calls served s) (hserial : Serial config s) (hphase : s.phase = .started req bank openRowStart)
    (hrow : rowOf config req = some row)
    (hnext : phase = .opened req bank openRowStart ∨ phase = .terminated req bank) :
    Log config (calls ++ [(bank, .openRow row)]) served { s with phase, openRows, calls := made } := by
  obtain ⟨hnone, _⟩ := hserial.free req bank (by rw [hphase]; rfl)
  have hopened : ∀ b, opened config phase b = if bank = b then [.openRow row] else [] := by
    intro b
    rcases hnext with rfl | rfl <;> simp [opened, hrow]
  have hhand : inHand phase = some req := by
    rcases hnext with rfl | rfl <;> rfl
  refine ⟨?_, ?_, ?_⟩
  · have hrequests := h.requests
    rw [hphase] at hrequests
    dsimp only
    rw [hhand]
    exact hrequests
  · intro b
    have hlog := h.log b
    rw [hphase] at hlog
    dsimp only [opened] at hlog
    rw [List.append_nil] at hlog
    dsimp only
    rw [hopened, ← hlog, onKey_append]
    by_cases hb : bank = b
    · subst hb
      have hpending : ∀ u : Dispatcher, u.lastTransfer = s.lastTransfer → pending u bank = [] := by
        intro u hu
        exact pending_eq_nil (by rw [hu, hnone])
      rw [hpending s rfl, hpending { s with phase, openRows, calls := made } rfl, onKey_cons_self, onKey_nil,
        if_pos rfl, List.append_nil, List.append_nil]
    · rw [onKey_cons_of_ne hb, onKey_nil, if_neg hb, List.append_nil, List.append_nil]
      rfl
  · intro r b start finish hr
    rcases hnext with rfl | rfl
    · rcases hr with hr | hr
      · injection hr with hreq
        exact ⟨row, hreq ▸ hrow⟩
      · cases hr
    · rcases hr with hr | hr <;> cases hr

theorem log_launch {req : DRAMRequest} {bank col : UInt32} {openRowStart openRowEnd : UInt64} {new : Transfer}
    {data : List UInt8} (h : Log config calls served s) (hserial : Serial config s)
    (hphase : s.phase = .stored req bank openRowStart openRowEnd) (hcol : colOf config req = some col)
    (hcall : transferCall new = .transferData col req.isWrite data)
    (hstatus : new.status = .launched) :
    Log config calls (served ++ [⟨req, data⟩]) { s with
      phase := .waiting
      lastTransfer := Function.update s.lastTransfer bank (some s.transfers.length)
      transfers := s.transfers ++ [new] } := by
  obtain ⟨hnone, hreq⟩ := hserial.free req bank (by rw [hphase]; rfl)
  obtain ⟨row, hrow⟩ := h.row req bank openRowStart openRowEnd (.inr hphase)
  refine ⟨?_, ?_, by simp⟩
  · have hrequests := h.requests
    rw [hphase] at hrequests
    simpa [inHand] using hrequests
  · intro b
    have hlog := h.log b
    rw [hphase] at hlog
    dsimp only [opened] at hlog ⊢
    rw [List.flatMap_append, onKey_append, List.flatMap_singleton, serviceCalls, hreq, hrow, hcol, List.append_nil]
    by_cases hb : bank = b
    · subst hb
      have hself : pending { s with
          phase := .waiting
          lastTransfer := Function.update s.lastTransfer bank (some s.transfers.length)
          transfers := s.transfers ++ [new] } bank = [transferCall new] := by
        simp [pending, hstatus]
      rw [if_pos rfl, hrow, pending_eq_nil hnone, List.append_nil] at hlog
      rw [hself, hlog, hcall, onKey_cons_self, onKey_cons_self, onKey_nil, List.append_assoc]
      rfl
    · have hother : pending { s with
          phase := .waiting
          lastTransfer := Function.update s.lastTransfer bank (some s.transfers.length)
          transfers := s.transfers ++ [new] } b = pending s b := by
        rw [pending, pending]
        dsimp only
        rw [Function.update_of_ne (Ne.symm hb)]
        cases hi : s.lastTransfer b with
        | none => rfl
        | some i =>
            obtain ⟨u, hu, _⟩ := hserial.own b i hi
            have hlt := (List.getElem?_eq_some_iff.mp hu).1
            rw [Option.bind_some, Option.bind_some, List.getElem?_append_left hlt]
      rw [if_neg hb, List.append_nil] at hlog
      rw [hother, hlog, onKey_cons_of_ne hb, onKey_cons_of_ne hb, onKey_nil, List.append_nil]

theorem log_move {i : Nat} {u : Transfer} {status : TransferStatus} {made : List Call} {currentCycle : UInt64}
    (h : Log config calls served s) (hserial : Serial config s) (hu : s.transfers[i]? = some u)
    (hnot : u.status ≠ .ready) (hstatus : status ≠ .launched) :
    Log config (calls ++ if u.status = .launched then [(u.bank, transferCall u)] else []) served
      ({ s with calls := made, currentCycle }.moveTransfer i u status) := by
  obtain ⟨hi, _⟩ := List.getElem?_eq_some_iff.mp hu
  have hlast := hserial.last i u hu hnot
  unfold moveTransfer
  refine ⟨h.requests, ?_, h.row⟩
  intro b
  have hlog := h.log b
  dsimp only
  rw [← hlog, onKey_append, List.append_assoc]
  congr 1
  by_cases hb : u.bank = b
  · subst hb
    have hdone : pending { s with
        transfers := s.transfers.set i { u with status }, calls := made, currentCycle } u.bank = [] := by
      simp [pending, hlast, List.getElem?_set, hi, hstatus]
    have hbefore : pending s u.bank = if u.status = .launched then [transferCall u] else [] := by
      simp [pending, hlast, hu]
    rw [hdone, hbefore, List.append_nil]
    split
    · rw [onKey_cons_self, onKey_nil]
    · rfl
  · have hkeys : onKey b (if u.status = .launched then [(u.bank, transferCall u)] else []) = [] := by
      split
      · rw [onKey_cons_of_ne hb, onKey_nil]
      · rfl
    rw [hkeys, List.nil_append, pending, pending]
    dsimp only
    cases hj : s.lastTransfer b with
    | none => rfl
    | some j =>
        obtain ⟨v, hv, hvb⟩ := hserial.own b j hj
        have hij : i ≠ j := by
          rintro rfl
          rw [hu] at hv
          obtain rfl := Option.some.inj hv
          exact hb hvb
        rw [Option.bind_some, Option.bind_some, getElem?_set_of_ne hij]

theorem log_pop {req : DRAMRequest} {queue : List DRAMRequest} {expectedSeq : UInt64}
    (h : Log config calls served s) (hphase : s.phase = .waiting) :
    Log config calls served { s with
      queue
      expectedSeq
      phase := .popped req
      dispatched := s.dispatched ++ [req] } := by
  refine ⟨?_, ?_, by simp⟩
  · have hrequests := h.requests
    rw [hphase, inHand, Option.toList_none, List.append_nil] at hrequests
    dsimp only
    rw [hrequests]
    rfl
  · intro bank
    have hlog := h.log bank
    rw [hphase] at hlog
    exact hlog

theorem log_dispatch {action : DispatchAction} (h : Log config calls served s) (hserial : Serial config s)
    (hstep : Steps config timings s (.dispatch action) t) :
    Log config (calls ++ (callOf config s (.dispatch action)).toList)
      (served ++ (serviceOf s (.dispatch action)).toList) t := by
  have hsame : callOf config s (.dispatch action) = none → serviceOf s (.dispatch action) = none →
      Log config calls served t → Log config (calls ++ (callOf config s (.dispatch action)).toList)
        (served ++ (serviceOf s (.dispatch action)).toList) t := by
    intro hcall hservice hlog
    rw [hcall, hservice, Option.toList_none, List.append_nil, Option.toList_none, List.append_nil]
    exact hlog
  cases hstep with
  | exit hphase =>
      exact hsame rfl rfl (log_phase h (by rw [hphase]; rfl) (by rw [hphase]; exact fun _ => rfl) (by simp))
  | pop req hphase => exact hsame rfl rfl (log_pop h hphase)
  | await req bidx hphase hbank hfree => exact hsame rfl rfl (log_await h hserial hphase hfree)
  | loadCycle req bank hphase =>
      exact hsame rfl rfl (log_phase h (by rw [hphase]; rfl) (by rw [hphase]; exact fun _ => rfl) (by simp))
  | openRow req bank banks openRowStart row hphase hrow =>
      have hrow' : rowOf config req = some row.toUInt32 := by rw [rowOf, hrow]
      have hcall : callOf config s (.dispatch (.openRow true)) = some (bank, .openRow row.toUInt32) := by
        simp [callOf, hphase, hrow']
      simpa only [hcall, serviceOf, Option.toList_none, Option.toList_some, List.append_nil] using
        log_openRow h hserial hphase hrow' (.inl rfl)
  | terminate req bank banks openRowStart row hphase hrow =>
      have hrow' : rowOf config req = some row.toUInt32 := by rw [rowOf, hrow]
      have hcall : callOf config s (.dispatch (.openRow false)) = some (bank, .openRow row.toUInt32) := by
        simp [callOf, hphase, hrow']
      simpa only [hcall, serviceOf, Option.toList_none, Option.toList_some, List.append_nil] using
        log_openRow h hserial hphase hrow' (.inr rfl)
  | storeCycle req bank openRowStart openRowEnd hphase =>
      refine hsame rfl rfl (log_phase h (by rw [hphase]; rfl) (by rw [hphase]; exact fun _ => rfl) ?_)
      intro r b start finish hr
      rcases hr with hr | hr
      · cases hr
      · injection hr with hreq hb
        exact hreq ▸ h.row req bank openRowStart openRowEnd (.inl hphase)
  | launch req bank openRowStart openRowEnd col data hphase hcol =>
      have hservice : serviceOf s (.dispatch (.launch data)) = some ⟨req, data⟩ := by
        simp [serviceOf, hphase]
      have hcol' : colOf config req = some col.toUInt32 := by rw [colOf, hcol]
      simp only [hservice, callOf, Option.toList_none, Option.toList_some, List.append_nil]
      exact log_launch h hserial hphase hcol' rfl rfl

theorem log_step {l : Label} (h : Log config calls served s) (hserial : Serial config s)
    (hstep : Steps config timings s l t) :
    Log config (calls ++ (callOf config s l).toList) (served ++ (serviceOf s l).toList) t := by
  cases l with
  | dispatch action => exact log_dispatch h hserial hstep
  | push | stop =>
      simp only [callOf, serviceOf, Option.toList_none, List.append_nil]
      cases hstep
      exact log_phase h rfl (fun _ => rfl) h.row
  | transfer i action =>
      simp only [serviceOf, Option.toList_none, List.append_nil]
      cases hstep with
      | transferData _ u returns hu hstatus =>
          have hcall : (callOf config s (.transfer i (.transferData returns))).toList =
              if u.status = .launched then [(u.bank, transferCall u)] else [] := by
            simp [callOf, hu, hstatus]
          rw [hcall]
          apply log_move h hserial hu (by rw [hstatus]; nofun)
          cases returns <;> nofun
      | loadTransferCycle _ u hu hstatus | storeTransferCycle _ u _ hu hstatus | sendResponse _ u _ _ hu hstatus =>
          have hquiet : calls = calls ++ if u.status = .launched then [(u.bank, transferCall u)] else [] := by
            simp [hstatus]
          simp only [callOf, Option.toList_none, List.append_nil]
          rw [hquiet]
          exact log_move h hserial hu (by rw [hstatus]; nofun) nofun

theorem log_of_run {currentCycle : UInt64} {ls : List Label}
    (h : run (Dispatcher.step config timings) (initial currentCycle) ls = some s) :
    Log config (callsMade config timings currentCycle ls) (services config timings currentCycle ls) s := by
  have hboth := run_induction (fun ls s => run (Dispatcher.step config timings) (initial currentCycle) ls = some s ∧
      Serial config s ∧ Log config (callsMade config timings currentCycle ls)
        (services config timings currentCycle ls) s)
    ⟨rfl, serial_initial currentCycle, log_initial currentCycle⟩ ?_ ls h
  · exact hboth.2.2
  · rintro ms u l v ⟨hu, hserial, hlog⟩ hstep
    refine ⟨run_snoc.mpr ⟨u, hu, hstep⟩, serial_step hserial (steps_of_step hstep).2, ?_⟩
    rw [callsMade, services, emitted_snoc hu, emitted_snoc hu]
    exact log_step hlog hserial (steps_of_step hstep).2

variable (config) in
def Settled (s : Dispatcher) : Prop :=
  (∀ bank, opened config s.phase bank = []) ∧ ∀ u ∈ s.transfers, u.status ≠ .launched

theorem onKey_callsMade {currentCycle : UInt64} {ls : List Label}
    (h : run (Dispatcher.step config timings) (initial currentCycle) ls = some s) (hsettled : Settled config s)
    (bank : UInt32) :
    onKey bank (callsMade config timings currentCycle ls) =
      onKey bank ((services config timings currentCycle ls).flatMap (serviceCalls config)) := by
  have hpending : pending s bank = [] := by
    rw [pending]
    split
    · next u hu =>
        obtain ⟨i, _, hi⟩ := Option.bind_eq_some_iff.mp hu
        rw [if_neg (hsettled.2 u (List.mem_of_getElem? hi))]
    · rfl
  have hlog := (log_of_run h).log bank
  rwa [hpending, hsettled.1 bank, List.append_nil, List.append_nil] at hlog

/-- Whatever a call does to its bank and answers, the banks end as if the
dispatched requests had been served one after the other, and every bank has
given the same answers. -/
theorem run_serialisable {β ρ : Type} (effect : BankCall → β → Option (β × ρ)) {currentCycle : UInt64}
    {ls : List Label} (h : run (Dispatcher.step config timings) (initial currentCycle) ls = some s)
    (hsettled : Settled config s) {m m' : UInt32 → β} {rs : List (UInt32 × ρ)}
    (hcalls : replay effect m (callsMade config timings currentCycle ls) = some (m', rs)) :
    (services config timings currentCycle ls).map (·.req) ++ (inHand s.phase).toList = s.dispatched ∧
      ∃ rs', replay effect m ((services config timings currentCycle ls).flatMap (serviceCalls config)) =
        some (m', rs') ∧ ∀ bank, onKey bank rs' = onKey bank rs :=
  ⟨(log_of_run h).requests, replay_of_onKey_eq (onKey_callsMade h hsettled) hcalls⟩

/-- What the calls do on banks as they are modelled: undefined behaviour has
no result, and an exception leaves the bank as it was thrown. -/
def bankEffect {β : Type} (openRow : UInt32 → EStateM (Stop String) β Unit)
    (transferData : UInt32 → Bool → EStateM (Stop String) (β × List UInt8) Unit) :
    BankCall → β → Option (β × Option (List UInt8))
  | .openRow row, b =>
      match openRow row b with
      | .ok () b' => some (b', some [])
      | .error (.raised _) b' => some (b', none)
      | .error (.fault _) _ => none
  | .transferData col isWrite data, b =>
      match transferData col isWrite (b, data) with
      | .ok () r => some (r.1, some r.2)
      | .error (.raised _) r => some (r.1, none)
      | .error (.fault _) _ => none

def overtaking : List Label :=
  [.push ⟨0, 0x0, true, line, 5⟩, .push ⟨1, 0x4, true, line.reverse, 6⟩, .dispatch .pop, .dispatch .await,
    .dispatch .loadCycle, .dispatch (.openRow true), .dispatch .storeCycle, .dispatch (.launch line),
    .dispatch .pop, .dispatch .await, .dispatch .loadCycle, .dispatch (.openRow true), .dispatch .storeCycle,
    .dispatch (.launch line.reverse), .transfer 1 (.transferData true), .transfer 0 (.transferData true)]

theorem run_serialisable_overtaking : ∃ s m' rs rs',
    run (Dispatcher.step fourBanks ⟨24, 24, 12⟩) (initial 0) overtaking = some s ∧
    replay (bankEffect DRAMBank.openRow DRAMBank.transferData) (fun _ => ⟨List.replicate 8 (DRAMSubarray.new 2 2)⟩)
      (callsMade fourBanks ⟨24, 24, 12⟩ 0 overtaking) = some (m', rs) ∧
    replay (bankEffect DRAMBank.openRow DRAMBank.transferData) (fun _ => ⟨List.replicate 8 (DRAMSubarray.new 2 2)⟩)
      ((services fourBanks ⟨24, 24, 12⟩ 0 overtaking).flatMap (serviceCalls fourBanks)) = some (m', rs') ∧
    ∀ bank, onKey bank rs' = onKey bank rs := by
  obtain ⟨_, rs', hrs', hkeys⟩ := @run_serialisable fourBanks ⟨24, 24, 12⟩ _ DRAMBank _
    (bankEffect DRAMBank.openRow DRAMBank.transferData) 0 overtaking rfl ⟨fun _ => rfl, by decide⟩
    (fun _ => ⟨List.replicate 8 (DRAMSubarray.new 2 2)⟩) _ _ rfl
  exact ⟨_, _, _, rs', rfl, rfl, hrs', hkeys⟩

end MemSim.Serialisability
