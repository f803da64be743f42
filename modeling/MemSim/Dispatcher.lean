import MemSim.DRAMController
import MemSim.DRAMRequest
import MemSim.ResponseWire
import Mathlib.Logic.Function.Basic

namespace MemSim

open Machine DRAMRequest

structure DRAMTiming where
  precharge : UInt32
  activate : UInt32
  transfer : UInt32
  deriving DecidableEq, Repr

/-- A call made on a bank; a transfer also carries the row it found open. -/
inductive Call
  | openRow (bank row : UInt32)
  | transferData (bank col : UInt32) (isWrite : Bool) (found : Option UInt32)
  deriving DecidableEq, Repr

def Call.bank : Call → UInt32
  | .openRow bank _ => bank
  | .transferData bank _ _ _ => bank

/-- Where an asynchronous transfer stands. It is ready, for whoever waits for
its future, when it has returned or thrown. -/
inductive TransferStatus
  | launched
  | transferred
  | loaded (cycle : UInt64)
  | stored
  | ready
  deriving DecidableEq, Repr

structure Transfer where
  bank : UInt32
  col : UInt32
  isWrite : Bool
  clientFd : Int32
  seq : UInt64
  data : List UInt8
  openRowStart : UInt64
  openRowEnd : UInt64
  status : TransferStatus
  deriving DecidableEq, Repr

inductive Phase
  | waiting
  | popped (req : DRAMRequest)
  | awaited (req : DRAMRequest) (bank : UInt32)
  | started (req : DRAMRequest) (bank : UInt32) (openRowStart : UInt64)
  | opened (req : DRAMRequest) (bank : UInt32) (openRowStart : UInt64)
  | stored (req : DRAMRequest) (bank : UInt32) (openRowStart openRowEnd : UInt64)
  | exited
  | terminated (req : DRAMRequest) (bank : UInt32)
  deriving DecidableEq, Repr

/-- The shared queue and clock, the dispatcher's own variables and every
transfer it has launched; then the rows the banks have open, and the calls and
dispatches so far. -/
structure Dispatcher where
  queue : List DRAMRequest
  dispatcherStop : Bool
  expectedSeq : UInt64
  phase : Phase
  lastTransfer : UInt32 → Option Nat
  transfers : List Transfer
  currentCycle : UInt64
  openRows : UInt32 → Option UInt32
  calls : List Call
  dispatched : List DRAMRequest

namespace Dispatcher

def initial (currentCycle : UInt64) : Dispatcher :=
  { queue := []
    dispatcherStop := false
    expectedSeq := 0
    phase := .waiting
    lastTransfer := fun _ => none
    transfers := []
    currentCycle
    openRows := fun _ => none
    calls := []
    dispatched := [] }

/-- The dispatcher's own steps. What `open_row` answers is part of the label,
and so is what the hand-over of the payload to an empty vector leaves there. -/
inductive DispatchAction
  | exit
  | pop
  | await
  | loadCycle
  | openRow (returns : Bool)
  | storeCycle
  | launch (data : List UInt8)
  deriving DecidableEq, Repr

/-- The steps of a transfer. What `transfer_data` and `send` answer is part of
the label, and so is what the copy of the bytes read to the empty vector of the
response leaves there. -/
inductive TransferAction
  | transferData (returns : Bool)
  | loadCycle
  | storeCycle
  | sendResponse (data : List UInt8) (n : Int)
  deriving DecidableEq, Repr

inductive Label
  | push (req : DRAMRequest)
  | stop
  | dispatch (action : DispatchAction)
  | transfer (index : Nat) (action : TransferAction)
  deriving DecidableEq, Repr

def isFree (s : Dispatcher) (bank : UInt32) : Bool :=
  match s.lastTransfer bank with
  | none => true
  | some i => (s.transfers[i]?).any (·.status == .ready)

def responseOf (timings : DRAMTiming) (t : Transfer) (data : List UInt8) : DRAMResponse :=
  { seq := t.seq
    completionCycle := t.openRowEnd + timings.transfer.toUInt64 - t.openRowStart
    success := true
    data }

def sendError (t : Transfer) : String :=
  "failed to send response for request number: " ++ toString t.seq.toNat

def moveTransfer (s : Dispatcher) (i : Nat) (t : Transfer) (status : TransferStatus) : Dispatcher :=
  { s with transfers := s.transfers.set i { t with status } }

/-- An exception that leaves the dispatcher's thread ends the process. -/
def running (s : Dispatcher) : Bool :=
  match s.phase with
  | .terminated _ _ => false
  | _ => true

variable (config : DRAMConfig) (timings : DRAMTiming)

/-- One step of the dispatcher's thread. A fault on the way, an index beyond
the banks included, leaves the step without a result. -/
def dispatchStep (s : Dispatcher) : DispatchAction → Option Dispatcher
  | .exit =>
      match s.phase with
      | .waiting => if s.dispatcherStop then some { s with phase := .exited } else none
      | _ => none
  | .pop =>
      match s.phase, top s.queue with
      | .waiting, some req =>
          if !s.dispatcherStop && req.seq == s.expectedSeq then
            some { s with
              queue := s.queue.erase req
              expectedSeq := s.expectedSeq + 1
              phase := .popped req
              dispatched := s.dispatched ++ [req] }
          else none
      | _, _ => none
  | .await =>
      match s.phase with
      | .popped req =>
          match DRAMController.getBankId config req.address with
          | .ok bidx =>
              if s.isFree bidx.toUInt32 then
                some { s with
                  phase := .awaited req bidx.toUInt32
                  lastTransfer := Function.update s.lastTransfer bidx.toUInt32 none }
              else none
          | .error _ => none
      | _ => none
  | .loadCycle =>
      match s.phase with
      | .awaited req bank => some { s with phase := .started req bank s.currentCycle }
      | _ => none
  | .openRow returns =>
      match s.phase with
      | .started req bank openRowStart =>
          match DRAMController.getRowId config req.address, config.numberOfBanks with
          | .ok row, .ok banks =>
              if bank < banks then
                let calls := s.calls ++ [.openRow bank row.toUInt32]
                if returns then
                  some { s with
                    phase := .opened req bank openRowStart
                    openRows := Function.update s.openRows bank (some row.toUInt32)
                    calls }
                else some { s with phase := .terminated req bank, calls }
              else none
          | _, _ => none
      | _ => none
  | .storeCycle =>
      match s.phase with
      | .opened req bank openRowStart =>
          let openRowEnd := openRowStart + timings.precharge.toUInt64 + timings.activate.toUInt64
          some { s with phase := .stored req bank openRowStart openRowEnd, currentCycle := openRowEnd }
      | _ => none
  | .launch data =>
      match s.phase with
      | .stored req bank openRowStart openRowEnd =>
          match DRAMController.getColId config req.address with
          | .ok col =>
              if req.data = [] → data = [] then
                some { s with
                  phase := .waiting
                  lastTransfer := Function.update s.lastTransfer bank (some s.transfers.length)
                  transfers := s.transfers ++ [{
                    bank
                    col := col.toUInt32
                    isWrite := req.isWrite
                    clientFd := req.clientFd
                    seq := req.seq
                    data
                    openRowStart
                    openRowEnd
                    status := .launched }] }
              else none
          | .error _ => none
      | _ => none

def transferStep (s : Dispatcher) (i : Nat) (t : Transfer) : TransferAction → Option Dispatcher
  | .transferData returns =>
      if t.status = .launched then
        let calls := s.calls ++ [.transferData t.bank t.col t.isWrite (s.openRows t.bank)]
        some ({ s with calls }.moveTransfer i t (if returns then .transferred else .ready))
      else none
  | .loadCycle =>
      if t.status = .transferred then some (s.moveTransfer i t (.loaded s.currentCycle)) else none
  | .storeCycle =>
      match t.status with
      | .loaded cycle =>
          let transferEnd := t.openRowEnd + timings.transfer.toUInt64
          some ({ s with currentCycle := max cycle transferEnd }.moveTransfer i t .stored)
      | _ => none
  | .sendResponse data _ =>
      -- a `send` that fails leaves its exception in the future, which is ready then too
      if t.status = .stored ∧ (t.isWrite = true ∨ t.data = [] → data = []) then some (s.moveTransfer i t .ready)
      else none

def step (s : Dispatcher) (l : Label) : Option Dispatcher :=
  if s.running then
    match l with
    | .push req => some { s with queue := req :: s.queue }
    | .stop => some { s with dispatcherStop := true }
    | .dispatch action => s.dispatchStep config timings action
    | .transfer i action => (s.transfers[i]?).bind fun t => s.transferStep timings i t action
  else none

inductive Steps (s : Dispatcher) : Label → Dispatcher → Prop
  | push (req : DRAMRequest) : Steps s (.push req) { s with queue := req :: s.queue }
  | stop : Steps s .stop { s with dispatcherStop := true }
  | exit (hphase : s.phase = .waiting) (hstop : s.dispatcherStop = true) :
      Steps s (.dispatch .exit) { s with phase := .exited }
  | pop (req : DRAMRequest) (hphase : s.phase = .waiting) (htop : top s.queue = some req)
      (hstop : s.dispatcherStop = false) (hseq : req.seq = s.expectedSeq) :
      Steps s (.dispatch .pop) { s with
        queue := s.queue.erase req
        expectedSeq := s.expectedSeq + 1
        phase := .popped req
        dispatched := s.dispatched ++ [req] }
  | await (req : DRAMRequest) (bidx : UInt64) (hphase : s.phase = .popped req)
      (hbank : DRAMController.getBankId config req.address = .ok bidx) (hfree : s.isFree bidx.toUInt32) :
      Steps s (.dispatch .await) { s with
        phase := .awaited req bidx.toUInt32
        lastTransfer := Function.update s.lastTransfer bidx.toUInt32 none }
  | loadCycle (req : DRAMRequest) (bank : UInt32) (hphase : s.phase = .awaited req bank) :
      Steps s (.dispatch .loadCycle) { s with phase := .started req bank s.currentCycle }
  | openRow (req : DRAMRequest) (bank banks : UInt32) (openRowStart row : UInt64)
      (hphase : s.phase = .started req bank openRowStart)
      (hrow : DRAMController.getRowId config req.address = .ok row)
      (hbanks : config.numberOfBanks = .ok banks) (hlt : bank < banks) :
      Steps s (.dispatch (.openRow true)) { s with
        phase := .opened req bank openRowStart
        openRows := Function.update s.openRows bank (some row.toUInt32)
        calls := s.calls ++ [.openRow bank row.toUInt32] }
  | terminate (req : DRAMRequest) (bank banks : UInt32) (openRowStart row : UInt64)
      (hphase : s.phase = .started req bank openRowStart)
      (hrow : DRAMController.getRowId config req.address = .ok row)
      (hbanks : config.numberOfBanks = .ok banks) (hlt : bank < banks) :
      Steps s (.dispatch (.openRow false)) { s with
        phase := .terminated req bank
        calls := s.calls ++ [.openRow bank row.toUInt32] }
  | storeCycle (req : DRAMRequest) (bank : UInt32) (openRowStart openRowEnd : UInt64)
      (hphase : s.phase = .opened req bank openRowStart)
      (hend : openRowEnd = openRowStart + timings.precharge.toUInt64 + timings.activate.toUInt64) :
      Steps s (.dispatch .storeCycle) { s with
        phase := .stored req bank openRowStart openRowEnd
        currentCycle := openRowEnd }
  | launch (req : DRAMRequest) (bank : UInt32) (openRowStart openRowEnd col : UInt64) (data : List UInt8)
      (hphase : s.phase = .stored req bank openRowStart openRowEnd)
      (hcol : DRAMController.getColId config req.address = .ok col) (hdata : req.data = [] → data = []) :
      Steps s (.dispatch (.launch data)) { s with
        phase := .waiting
        lastTransfer := Function.update s.lastTransfer bank (some s.transfers.length)
        transfers := s.transfers ++ [{
          bank
          col := col.toUInt32
          isWrite := req.isWrite
          clientFd := req.clientFd
          seq := req.seq
          data
          openRowStart
          openRowEnd
          status := .launched }] }
  | transferData (i : Nat) (t : Transfer) (returns : Bool) (ht : s.transfers[i]? = some t)
      (hstatus : t.status = .launched) :
      Steps s (.transfer i (.transferData returns))
        ({ s with calls := s.calls ++ [Call.transferData t.bank t.col t.isWrite (s.openRows t.bank)] }.moveTransfer
          i t (if returns then .transferred else .ready))
  | loadTransferCycle (i : Nat) (t : Transfer) (ht : s.transfers[i]? = some t)
      (hstatus : t.status = .transferred) :
      Steps s (.transfer i .loadCycle) (s.moveTransfer i t (.loaded s.currentCycle))
  | storeTransferCycle (i : Nat) (t : Transfer) (cycle : UInt64) (ht : s.transfers[i]? = some t)
      (hstatus : t.status = .loaded cycle) :
      Steps s (.transfer i .storeCycle)
        ({ s with currentCycle := max cycle (t.openRowEnd + timings.transfer.toUInt64) }.moveTransfer i t .stored)
  | sendResponse (i : Nat) (t : Transfer) (data : List UInt8) (n : Int) (ht : s.transfers[i]? = some t)
      (hstatus : t.status = .stored) (hdata : t.isWrite = true ∨ t.data = [] → data = []) :
      Steps s (.transfer i (.sendResponse data n)) (s.moveTransfer i t .ready)

variable {config timings} {s t : Dispatcher}

theorem steps_of_dispatchStep {action : DispatchAction} (h : s.dispatchStep config timings action = some t) :
    Steps config timings s (.dispatch action) t := by
  cases action with
  | exit =>
      simp only [dispatchStep] at h
      split at h
      · next hphase =>
          obtain ⟨hstop, h⟩ := Option.ite_none_right_eq_some.mp h
          obtain rfl := Option.some.inj h
          exact .exit hphase hstop
      · cases h
  | pop =>
      simp only [dispatchStep] at h
      split at h
      · next req hphase htop =>
          obtain ⟨hguard, h⟩ := Option.ite_none_right_eq_some.mp h
          obtain rfl := Option.some.inj h
          simp only [Bool.and_eq_true, Bool.not_eq_true', beq_iff_eq] at hguard
          exact .pop req hphase htop hguard.1 hguard.2
      · cases h
  | await =>
      simp only [dispatchStep] at h
      split at h
      · next req hphase =>
          split at h
          · next bidx hbidx =>
              obtain ⟨hfree, h⟩ := Option.ite_none_right_eq_some.mp h
              obtain rfl := Option.some.inj h
              exact .await req bidx hphase hbidx hfree
          · cases h
      · cases h
  | loadCycle =>
      simp only [dispatchStep] at h
      split at h
      · next req bank hphase =>
          obtain rfl := Option.some.inj h
          exact .loadCycle req bank hphase
      · cases h
  | openRow returns =>
      simp only [dispatchStep] at h
      split at h
      · next req bank openRowStart hphase =>
          split at h
          · next row banks hrow hbanks =>
              obtain ⟨hlt, h⟩ := Option.ite_none_right_eq_some.mp h
              cases returns with
              | true =>
                  obtain rfl := Option.some.inj h
                  exact .openRow req bank banks openRowStart row hphase hrow hbanks hlt
              | false =>
                  obtain rfl := Option.some.inj h
                  exact .terminate req bank banks openRowStart row hphase hrow hbanks hlt
          · cases h
      · cases h
  | storeCycle =>
      simp only [dispatchStep] at h
      split at h
      · next req bank openRowStart hphase =>
          obtain rfl := Option.some.inj h
          exact .storeCycle req bank openRowStart _ hphase rfl
      · cases h
  | launch data =>
      simp only [dispatchStep] at h
      split at h
      · next req bank openRowStart openRowEnd hphase =>
          split at h
          · next col hcol =>
              obtain ⟨hdata, h⟩ := Option.ite_none_right_eq_some.mp h
              obtain rfl := Option.some.inj h
              exact .launch req bank openRowStart openRowEnd col data hphase hcol hdata
          · cases h
      · cases h

theorem steps_of_transferStep {i : Nat} {u : Transfer} {action : TransferAction}
    (hu : s.transfers[i]? = some u) (h : s.transferStep timings i u action = some t) :
    Steps config timings s (.transfer i action) t := by
  cases action with
  | transferData returns =>
      obtain ⟨hstatus, h⟩ := Option.ite_none_right_eq_some.mp h
      obtain rfl := Option.some.inj h
      exact .transferData i u returns hu hstatus
  | loadCycle =>
      obtain ⟨hstatus, h⟩ := Option.ite_none_right_eq_some.mp h
      obtain rfl := Option.some.inj h
      exact .loadTransferCycle i u hu hstatus
  | storeCycle =>
      simp only [transferStep] at h
      split at h
      · next cycle hstatus =>
          obtain rfl := Option.some.inj h
          exact .storeTransferCycle i u cycle hu hstatus
      · cases h
  | sendResponse data n =>
      obtain ⟨⟨hstatus, hdata⟩, h⟩ := Option.ite_none_right_eq_some.mp h
      obtain rfl := Option.some.inj h
      exact .sendResponse i u data n hu hstatus hdata

theorem steps_of_step {l : Label} (h : s.step config timings l = some t) :
    s.running ∧ Steps config timings s l t := by
  obtain ⟨hrunning, h⟩ := Option.ite_none_right_eq_some.mp h
  refine ⟨hrunning, ?_⟩
  cases l with
  | push req =>
      obtain rfl := Option.some.inj h
      exact .push req
  | stop =>
      obtain rfl := Option.some.inj h
      exact .stop
  | dispatch action => exact steps_of_dispatchStep h
  | transfer i action =>
      obtain ⟨u, hu, h⟩ := Option.bind_eq_some_iff.mp h
      exact steps_of_transferStep hu h

end Dispatcher

end MemSim
