import MemSim.Dispatcher
import MemSim.RequestWire
import MemSim.ResponseWire

namespace MemSim

open Machine ByteImage

structure Descriptor where
  process : Nat
  fd : Int32
  deriving DecidableEq, Repr

namespace DRAM

def sunPathSize : Nat := 108

/-- How far a call of `access` has come, with its `c_fd` while it has one, and
the vector that came in its response. -/
inductive AccessPhase
  | called
  | opened (cFd : Int32)
  | connected (cFd : Int32)
  | sent (cFd : Int32)
  | received (cFd : Int32) (vector : VectorHeader)
  | returned
  | threw (error : String)
  deriving DecidableEq, Repr

structure AccessCall where
  process : Nat
  socketPath : List UInt8
  address : UInt32
  isWrite : Bool
  data : List UInt8
  phase : AccessPhase
  deriving DecidableEq, Repr

/-- The system calls of `access`, in its order; what each of them answers is
part of the action, and so is what the array of the wire struct held. -/
inductive AccessAction
  | socket (result : Int32)
  | connect (result : Int32) (strerror : String)
  | send (n : Int) (array : Bytes 64)
  | recv (n : Int) (resp : RawResponse)
  | close

def hex (address : UInt32) : String :=
  String.ofList (List.leftpad 8 '0' (Nat.toDigits 16 address.toNat))

/-- One step of a call, on the descriptors the clients have open. What
`socket()` gives is not open yet; a fault leaves the step without a result. -/
def accessStep (opened : List Descriptor) (a : AccessCall) : AccessAction → Option (List Descriptor × AccessCall)
  | .socket result =>
      match a.phase with
      | .called =>
          if result = -1 then some (opened, { a with phase := .threw "socket() failed" })
          else if ⟨a.process, result⟩ ∈ opened then none
          else some (⟨a.process, result⟩ :: opened, { a with phase := .opened result })
      | _ => none
  | .connect result strerror =>
      match a.phase with
      | .opened cFd =>
          -- the path is looked at first, and `connect()` may not be reached
          if sunPathSize ≤ a.socketPath.length then
            some (opened, { a with phase := .threw "Socket path too long" })
          else if result < 0 then
            some (opened.erase ⟨a.process, cFd⟩, { a with phase := .threw ("connect() failed: " ++ strerror) })
          else some (opened, { a with phase := .connected cFd })
      | _ => none
  | .send n array =>
      match a.phase with
      | .connected cFd =>
          match encodeRequest a.address a.isWrite a.data array with
          | .ok _ =>
              if n < 0 then
                some (opened, { a with
                  phase := .threw ("failed to send memory access request to address: 0x" ++ hex a.address) })
              else some (opened, { a with phase := .sent cFd })
          | .error _ => none
      | _ => none
  | .recv n resp =>
      match a.phase with
      | .sent cFd =>
          match (readResponse a.isWrite n resp).run a.data with
          | .ok _ data => some (opened, { a with data, phase := .received cFd resp.data })
          | .error (.raised e) _ => some (opened, { a with phase := .threw e })
          | .error (.fault _) _ => none
      | _ => none
  | .close =>
      match a.phase with
      | .received cFd vector =>
          -- the response is destroyed as the call returns
          match vector.destroy with
          | .ok _ => some (opened.erase ⟨a.process, cFd⟩, { a with phase := .returned })
          | .error _ => none
      | _ => none

end DRAM

/-- The accept loop, the client descriptors it has open, those whose handlers
wait for a request, and the rest of the controller. -/
structure Controller where
  accepting : Bool
  opened : List Int32
  receiving : List Int32
  nextSeq : UInt64
  terminated : Bool
  dispatcher : Dispatcher

namespace Controller

def initial (nextSeq currentCycle : UInt64) : Controller :=
  { accepting := true
    opened := []
    receiving := []
    nextSeq
    terminated := false
    dispatcher := .initial currentCycle }

inductive Action
  | accept (clientFd : Int32)
  | handle (handler : Nat) (n : Int) (wire : WireRequest)
  | dispatch (action : Dispatcher.DispatchAction)
  | transfer (index : Nat) (action : Dispatcher.TransferAction)

def running (s : Controller) : Bool := !s.terminated && s.dispatcher.running

variable (config : DRAMConfig) (timings : DRAMTiming)

def step (s : Controller) (action : Action) : Option Controller :=
  if s.running then
    match action with
    | .accept clientFd =>
        if s.accepting then
          if clientFd < 0 then some { s with accepting := false }
          else if clientFd ∈ s.opened then none
          else some { s with opened := clientFd :: s.opened, receiving := s.receiving ++ [clientFd] }
        else none
    | .handle handler n wire =>
        match s.receiving[handler]? with
        | some cFd =>
            match (DRAMController.handleRequest cFd s.nextSeq n wire).run s.dispatcher.queue with
            | .ok _ queue =>
                some { s with
                  receiving := s.receiving.eraseIdx handler
                  dispatcher := { s.dispatcher with queue } }
            -- an exception that leaves a detached thread ends the process
            | .error (.raised _) _ => some { s with terminated := true }
            | .error (.fault _) _ => none
        | none => none
    | .dispatch action =>
        (s.dispatcher.step config timings (.dispatch action)).map fun dispatcher => { s with dispatcher }
    | .transfer i action =>
        (s.dispatcher.step config timings (.transfer i action)).map fun dispatcher => { s with dispatcher }
  else none

inductive Steps (s : Controller) : Action → Controller → Prop
  | acceptFailed (clientFd : Int32) : Steps s (.accept clientFd) { s with accepting := false }
  | accept (clientFd : Int32) (hfresh : clientFd ∉ s.opened) :
      Steps s (.accept clientFd)
        { s with opened := clientFd :: s.opened, receiving := s.receiving ++ [clientFd] }
  | handle (handler : Nat) (n : Int) (wire : WireRequest) (req : DRAMRequest)
      (hreceiving : s.receiving[handler]? = some req.clientFd) (hseq : req.seq = s.nextSeq + 1) :
      Steps s (.handle handler n wire) { s with
        receiving := s.receiving.eraseIdx handler
        dispatcher := { s.dispatcher with queue := req :: s.dispatcher.queue } }
  | terminate (handler : Nat) (n : Int) (wire : WireRequest) :
      Steps s (.handle handler n wire) { s with terminated := true }
  | dispatch (action : Dispatcher.DispatchAction) (d : Dispatcher)
      (h : Dispatcher.Steps config timings s.dispatcher (.dispatch action) d) :
      Steps s (.dispatch action) { s with dispatcher := d }
  | transfer (i : Nat) (action : Dispatcher.TransferAction) (d : Dispatcher)
      (h : Dispatcher.Steps config timings s.dispatcher (.transfer i action) d) :
      Steps s (.transfer i action) { s with dispatcher := d }

variable {config timings} {s t : Controller}

theorem steps_of_step {action : Action} (h : s.step config timings action = some t) :
    Steps config timings s action t := by
  obtain ⟨_, h⟩ := Option.ite_none_right_eq_some.mp h
  cases action with
  | accept clientFd =>
      obtain ⟨_, h⟩ := Option.ite_none_right_eq_some.mp h
      split at h
      · obtain rfl := Option.some.inj h
        exact .acceptFailed clientFd
      · obtain ⟨hfresh, h⟩ := Option.ite_none_left_eq_some.mp h
        obtain rfl := Option.some.inj h
        exact .accept clientFd hfresh
  | handle handler n wire =>
      dsimp only at h
      split at h
      · next cFd hreceiving =>
          by_cases hn : n < 0
          · obtain ⟨e, he⟩ := RequestWire.handleRequest_failed hn cFd s.nextSeq wire s.dispatcher.queue
            rw [he] at h
            obtain rfl := Option.some.inj h
            exact .terminate handler n wire
          · rw [RequestWire.handleRequest_eq (Int.not_lt.mp hn)] at h
            by_cases hsize : wire.dataSize = 0
            · rw [if_pos hsize] at h
              obtain rfl := Option.some.inj h
              exact .handle handler n wire ⟨s.nextSeq + 1, wire.address, wire.isWrite, [], cFd⟩ hreceiving rfl
            · rw [if_neg hsize] at h
              cases h
      · cases h
  | dispatch action =>
      obtain ⟨d, hd, rfl⟩ := Option.map_eq_some_iff.mp h
      exact .dispatch action d (Dispatcher.steps_of_step hd).2
  | transfer i action =>
      obtain ⟨d, hd, rfl⟩ := Option.map_eq_some_iff.mp h
      exact .transfer i action d (Dispatcher.steps_of_step hd).2

end Controller

/-- Every call of `access` so far, the descriptors that the clients have open,
and the controller they call. -/
structure Connections where
  calls : List DRAM.AccessCall
  opened : List Descriptor
  controller : Controller

namespace Connections

def initial (nextSeq currentCycle : UInt64) : Connections := ⟨[], [], .initial nextSeq currentCycle⟩

inductive Label
  | call (process : Nat) (socketPath : List UInt8) (address : UInt32) (isWrite : Bool) (data : List UInt8)
  | access (index : Nat) (action : DRAM.AccessAction)
  | controller (action : Controller.Action)

variable (config : DRAMConfig) (timings : DRAMTiming)

def step (s : Connections) : Label → Option Connections
  | .call process socketPath address isWrite data =>
      some { s with calls := s.calls ++ [{ process, socketPath, address, isWrite, data, phase := .called }] }
  | .access i action =>
      match s.calls[i]? with
      | some a => (DRAM.accessStep s.opened a action).map fun (opened, a') =>
          { s with calls := s.calls.set i a', opened }
      | none => none
  | .controller action => (s.controller.step config timings action).map fun controller => { s with controller }

end Connections

end MemSim
