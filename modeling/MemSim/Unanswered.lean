import MemSim.ConnectionLeaks
import MemSim.Striping

namespace MemSim.Unanswered

open Machine ByteImage DRAM Runs Connections
open ConnectionLeaks (controller_induction)
open DispatchOrder (inHand)

variable (config : DRAMConfig) (timings : DRAMTiming) (first : UInt64)

/-- A transfer that returns does so on some state of its bank's class. -/
def Honest (s : Connections) : Label → Prop
  | .controller (.transfer i (.transferData true)) =>
      ∀ t, s.controller.dispatcher.transfers[i]? = some t → ∃ k : DRAMBankEqClass,
        k.dramConfig = config ∧ Returns (DRAMBankEqClass.transferData t.col t.isWrite (k, t.data))
  | _ => True

/-- Every request has the same number and no payload, so of all of them one is
dispatched at most, and its transfer has not returned. -/
structure Unserved (s : Controller) : Prop where
  nextSeq : s.nextSeq = first
  queued : ∀ req ∈ s.dispatcher.queue, req.seq = first + 1 ∧ req.data = []
  hand : ∀ req, inHand s.dispatcher.phase = some req → req.data = []
  expected : s.dispatcher.expectedSeq = UInt64.ofNat s.dispatcher.dispatched.length
  once : s.dispatcher.dispatched = [] ∨ first + 1 = 0 ∧ s.dispatcher.dispatched.length = 1
  transfers : ∀ t ∈ s.dispatcher.transfers, t.data = [] ∧ (t.status = .launched ∨ t.status = .ready)

variable {config timings first} {s t : Controller}

theorem unserved_initial (currentCycle : UInt64) : Unserved first (.initial first currentCycle) where
  nextSeq := rfl
  queued := by simp [Controller.initial, Dispatcher.initial]
  hand := by simp [Controller.initial, Dispatcher.initial, inHand]
  expected := rfl
  once := .inl rfl
  transfers := by simp [Controller.initial, Dispatcher.initial]

theorem queue_of_handle {handler : Nat} {n : Int} {wire : WireRequest}
    (h : s.step config timings (.handle handler n wire) = some t) :
    t.nextSeq = s.nextSeq ∧ (t.dispatcher = s.dispatcher ∨
      ∃ req, req.seq = s.nextSeq + 1 ∧ req.data = [] ∧
        t.dispatcher = { s.dispatcher with queue := req :: s.dispatcher.queue }) := by
  obtain ⟨_, h⟩ := Option.ite_none_right_eq_some.mp h
  dsimp only at h
  split at h
  · next cFd hreceiving =>
      by_cases hn : n < 0
      · obtain ⟨e, he⟩ := RequestWire.handleRequest_failed hn cFd s.nextSeq wire s.dispatcher.queue
        rw [he] at h
        obtain rfl := Option.some.inj h
        exact ⟨rfl, .inl rfl⟩
      · rw [RequestWire.handleRequest_eq (Int.not_lt.mp hn)] at h
        by_cases hsize : wire.dataSize = 0
        · rw [if_pos hsize] at h
          obtain rfl := Option.some.inj h
          exact ⟨rfl, .inr ⟨_, rfl, rfl, rfl⟩⟩
        · rw [if_neg hsize] at h
          cases h
  · cases h

theorem not_returns_of_empty (hv : config.validate = .ok ()) {k : DRAMBankEqClass} (hk : k.dramConfig = config)
    (col : UInt32) (isWrite : Bool) : ¬ Returns (DRAMBankEqClass.transferData col isWrite (k, [])) := by
  have hbus := (DRAMConfig.Valid.of_validate hv).sysConfig.bus_ne
  have hlength : ([] : List UInt8).length ≠ config.sysConfig.dataBusWidth.toNat := by
    intro hzero
    apply hbus
    rw [← UInt32.toNat_inj, UInt8.toNat_toUInt32, ← hzero]
    rfl
  obtain ⟨text, htext⟩ := Striping.transferData_of_length_ne hk col isWrite hlength
  rw [htext]
  exact not_returns_error _ _

theorem unserved_dispatch {d : Dispatcher} {action : Dispatcher.DispatchAction} (h : Unserved first s)
    (hstep : Dispatcher.Steps config timings s.dispatcher (.dispatch action) d) :
    Unserved first { s with dispatcher := d } := by
  cases hstep with
  | exit => exact ⟨h.nextSeq, h.queued, by simp [inHand], h.expected, h.once, h.transfers⟩
  | pop req hphase htop hstop hseq =>
      obtain ⟨hnumber, hdata⟩ := h.queued req (DRAMRequest.top_mem htop)
      have hfirst : s.dispatcher.dispatched = [] ∧ first + 1 = 0 := by
        rw [hnumber, h.expected] at hseq
        rcases h.once with hnil | ⟨hzero, hlength⟩
        · rw [hnil] at hseq
          exact ⟨hnil, hseq⟩
        · rw [hzero, hlength] at hseq
          exact absurd hseq (by decide)
      refine ⟨h.nextSeq, ?_, ?_, ?_, ?_, h.transfers⟩
      · exact fun other hother => h.queued other (List.mem_of_mem_erase hother)
      · intro other hother
        obtain rfl := Option.some.inj hother
        exact hdata
      · dsimp only
        rw [h.expected, hfirst.1]
        rfl
      · dsimp only
        rw [hfirst.1]
        exact .inr ⟨hfirst.2, rfl⟩
  | await req _ hphase | loadCycle req _ hphase | openRow req _ _ _ _ hphase | terminate req _ _ _ _ hphase
  | storeCycle req _ _ _ hphase =>
      refine ⟨h.nextSeq, h.queued, ?_, h.expected, h.once, h.transfers⟩
      have hhand := h.hand
      rw [hphase] at hhand
      exact hhand
  | launch req bank openRowStart openRowEnd col data hphase hcol hdata =>
      refine ⟨h.nextSeq, h.queued, by simp [inHand], h.expected, h.once, ?_⟩
      intro t ht
      rcases List.mem_append.mp ht with ht | ht
      · exact h.transfers t ht
      · rw [List.mem_singleton.mp ht]
        exact ⟨hdata (h.hand req (by rw [hphase]; rfl)), .inl rfl⟩

theorem unserved_transfer {d : Dispatcher} {i : Nat} {action : Dispatcher.TransferAction} (h : Unserved first s)
    (hthrows : action ≠ .transferData true)
    (hstep : Dispatcher.Steps config timings s.dispatcher (.transfer i action) d) :
    Unserved first { s with dispatcher := d } ∧ action = .transferData false := by
  have hstatus : ∀ {t : Transfer}, s.dispatcher.transfers[i]? = some t → t.status = .launched ∨ t.status = .ready :=
    fun ht => (h.transfers _ (List.mem_of_getElem? ht)).2
  cases hstep with
  | transferData _ t returns ht hlaunched =>
      cases returns with
      | true => exact absurd rfl hthrows
      | false =>
          refine ⟨⟨h.nextSeq, h.queued, h.hand, h.expected, h.once, ?_⟩, rfl⟩
          intro u hu
          rcases List.mem_or_eq_of_mem_set hu with hu | rfl
          · exact h.transfers u hu
          · exact ⟨(h.transfers t (List.mem_of_getElem? ht)).1, .inr rfl⟩
  | loadTransferCycle _ t ht ht' | storeTransferCycle _ t _ ht ht' | sendResponse _ t _ _ ht ht' =>
      rcases hstatus ht with hs | hs <;> · rw [hs] at ht'; cases ht'

theorem unserved_handle {handler : Nat} {n : Int} {wire : WireRequest} (h : Unserved first s)
    (hstep : s.step config timings (.handle handler n wire) = some t) : Unserved first t := by
  obtain ⟨hnext, hsame | ⟨req, hseq, hdata, hd⟩⟩ := queue_of_handle hstep
  · exact ⟨hnext.trans h.nextSeq, hsame ▸ h.queued, hsame ▸ h.hand, hsame ▸ h.expected, hsame ▸ h.once,
      hsame ▸ h.transfers⟩
  · rw [h.nextSeq] at hseq
    refine ⟨hnext.trans h.nextSeq, ?_, hd ▸ h.hand, hd ▸ h.expected, hd ▸ h.once, hd ▸ h.transfers⟩
    rw [hd]
    intro other hother
    rcases List.mem_cons.mp hother with rfl | hother
    · exact ⟨hseq, hdata⟩
    · exact h.queued other hother

theorem unserved_step {action : Controller.Action} (h : Unserved first s)
    (hthrows : ∀ i, action ≠ .transfer i (.transferData true)) (hstep : s.step config timings action = some t) :
    Unserved first t ∧ ∀ i data n, action ≠ .transfer i (.sendResponse data n) := by
  cases action with
  | accept clientFd =>
      cases Controller.steps_of_step hstep
      all_goals exact ⟨⟨h.nextSeq, h.queued, h.hand, h.expected, h.once, h.transfers⟩, nofun⟩
  | handle handler n wire => exact ⟨unserved_handle h hstep, nofun⟩
  | dispatch action =>
      cases Controller.steps_of_step hstep with
      | dispatch _ d hd => exact ⟨unserved_dispatch h hd, nofun⟩
  | transfer i action =>
      cases Controller.steps_of_step hstep with
      | transfer _ _ d hd =>
          obtain ⟨hkept, rfl⟩ := unserved_transfer h (fun heq => hthrows i (by rw [heq])) hd
          exact ⟨hkept, nofun⟩

/-- No client is ever answered. The numbers let one request through at most,
and that only when the counter begins at its end; and it comes without a
payload, so its transfer throws. -/
theorem never_answered {currentCycle : UInt64} {ls : List Label} {s : Connections} (hv : config.validate = .ok ())
    (h : run (step config timings) (initial first currentCycle) ls = some s)
    (hall : ∀ before l u, before ++ [l] <+: ls →
      run (step config timings) (initial first currentCycle) before = some u → Honest config u l) :
    (∀ i data n, Label.controller (.transfer i (.sendResponse data n)) ∉ ls) ∧
      s.controller.dispatcher.dispatched.length ≤ 1 ∧
      (s.controller.dispatcher.dispatched ≠ [] → first = 0xFFFFFFFFFFFFFFFF) ∧
      ∀ t ∈ s.controller.dispatcher.transfers, t.status = .launched ∨ t.status = .ready := by
  have hkept : Unserved first s.controller ∧
      ∀ i data n, Label.controller (.transfer i (.sendResponse data n)) ∉ ls := by
    refine run_induction_of (fun ls s => Unserved first s.controller ∧
        ∀ i data n, Label.controller (.transfer i (.sendResponse data n)) ∉ ls) (fun _ l u => Honest config u l)
      ⟨unserved_initial currentCycle, by simp⟩ ?_ hall h
    rintro before u l v ⟨hu, hnone⟩ hl hstep
    have hlabels : (∀ i data n, l ≠ .controller (.transfer i (.sendResponse data n))) →
        ∀ i data n, Label.controller (.transfer i (.sendResponse data n)) ∉ before ++ [l] := by
      intro hl i data n hmem
      rcases List.mem_append.mp hmem with hmem | hmem
      · exact hnone i data n hmem
      · exact hl i data n (List.mem_singleton.mp hmem).symm
    cases l with
    | call | access =>
        refine ⟨?_, hlabels nofun⟩
        rcases ConnectionLeaks.step_controller hstep with hsame | ⟨action, hl', _⟩
        · rw [hsame]
          exact hu
        · cases hl'
    | controller action =>
        obtain ⟨c, hc, rfl⟩ := Option.map_eq_some_iff.mp hstep
        have hthrows : ∀ i, action ≠ .transfer i (.transferData true) := by
          rintro i rfl
          cases Controller.steps_of_step hc with
          | transfer _ _ d hd =>
              cases hd with
              | transferData _ t _ ht _ =>
                  obtain ⟨k, hk, hreturns⟩ := hl t ht
                  rw [(hu.transfers t (List.mem_of_getElem? ht)).1] at hreturns
                  exact not_returns_of_empty hv hk _ _ hreturns
        obtain ⟨hkept, hother⟩ := unserved_step hu hthrows hc
        exact ⟨hkept, hlabels fun i data n heq => hother i data n (by injection heq)⟩
  refine ⟨hkept.2, ?_, ?_, fun t ht => (hkept.1.transfers t ht).2⟩
  · rcases hkept.1.once with hnil | ⟨_, hlength⟩
    · rw [hnil]
      exact Nat.zero_le 1
    · exact Nat.le_of_eq hlength
  · intro hne
    have hzero := (hkept.1.once.resolve_left hne).1
    have hfirst := congrArg (· - 1) hzero
    rwa [UInt64.add_sub_cancel] at hfirst

/-- The counter begins at its end: the one request it lets through is opened
and launched, and its transfer throws. -/
def onlyRequest : List Label :=
  [.controller (.accept 5), .controller (.handle 0 80 ⟨0x400, false, 0, ⟨toBytes 64 0, toBytes_length 64 0⟩⟩),
    .controller (.dispatch .pop), .controller (.dispatch .await), .controller (.dispatch .loadCycle),
    .controller (.dispatch (.openRow true)), .controller (.dispatch .storeCycle),
    .controller (.dispatch (.launch [])), .controller (.transfer 0 (.transferData false))]

theorem never_answered_onlyRequest : ∃ s,
    run (step DispatchOrder.fourBanks ⟨24, 24, 12⟩) (initial 0xFFFFFFFFFFFFFFFF 0) onlyRequest = some s ∧
      s.controller.dispatcher.dispatched ≠ [] ∧
      (∀ i data n, Label.controller (.transfer i (.sendResponse data n)) ∉ onlyRequest) ∧
      s.controller.dispatcher.dispatched.length ≤ 1 ∧
      (s.controller.dispatcher.dispatched ≠ [] → (0xFFFFFFFFFFFFFFFF : UInt64) = 0xFFFFFFFFFFFFFFFF) ∧
      ∀ t ∈ s.controller.dispatcher.transfers, t.status = .launched ∨ t.status = .ready := by
  refine ⟨_, rfl, by decide, @never_answered DispatchOrder.fourBanks ⟨24, 24, 12⟩ 0xFFFFFFFFFFFFFFFF 0 onlyRequest _
    (by decide) rfl ?_⟩
  intro before l u hpre _
  have hmem : l ∈ onlyRequest := hpre.subset (List.mem_append_right _ (List.mem_singleton_self l))
  simp only [onlyRequest, List.mem_cons, List.not_mem_nil, or_false] at hmem
  rcases hmem with rfl | rfl | rfl | rfl | rfl | rfl | rfl | rfl | rfl <;> exact trivial

end MemSim.Unanswered
