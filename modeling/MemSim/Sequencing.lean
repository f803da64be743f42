import MemSim.DRAMRequest
import MemSim.Runs

namespace MemSim.Sequencing

open DRAMRequest Runs

/-- The counters and the queue, the requests that a handler has numbered and
not yet pushed, and every number ever given out. -/
structure Sequencer where
  nextSeq : UInt64
  expectedSeq : UInt64
  queue : List DRAMRequest
  numbered : List DRAMRequest
  assigned : List UInt64
  deriving DecidableEq, Repr

/-- Any number of handlers may stand between their two steps; a push names one
of them. -/
inductive Label
  | read (address : UInt64) (isWrite : Bool) (data : List UInt8) (clientFd : Int32)
  | push (handler : Nat)
  | dispatch
  deriving DecidableEq, Repr

namespace Label

def isRead : Label → Bool
  | .read _ _ _ _ => true
  | _ => false

def isPush : Label → Bool
  | .push _ => true
  | _ => false

end Label

def initial : Sequencer := ⟨0, 0, [], [], []⟩

/-- A handler loads `next_seq`; nothing ever stores it. -/
def step (s : Sequencer) : Label → Option Sequencer
  | .read address isWrite data clientFd =>
      let seq := s.nextSeq + 1
      some { s with
        numbered := s.numbered ++ [{ seq, address, isWrite, data, clientFd }]
        assigned := s.assigned ++ [seq] }
  | .push handler =>
      match s.numbered[handler]? with
      | some req => some { s with queue := req :: s.queue, numbered := s.numbered.eraseIdx handler }
      | none => none
  | .dispatch =>
      match top s.queue with
      | some req =>
          if req.seq = s.expectedSeq then
            some { s with queue := s.queue.erase req, expectedSeq := s.expectedSeq + 1 }
          else none
      | none => none

/-- The numbers differ, and no request is stranded. -/
def Sequenced (s : Sequencer) : Prop :=
  s.assigned.Nodup ∧
    (s.numbered = [] → s.queue ≠ [] → ∃ req, top s.queue = some req ∧ req.seq = s.expectedSeq)

/-- Every request gets the number one, while the dispatcher waits for zero. -/
structure Stuck (ls : List Label) (s : Sequencer) : Prop where
  nextSeq : s.nextSeq = 0
  expectedSeq : s.expectedSeq = 0
  assigned : s.assigned = List.replicate (ls.countP Label.isRead) 1
  numbered : ∀ req ∈ s.numbered, req.seq = 1
  queued : ∀ req ∈ s.queue, req.seq = 1
  pushed : s.queue.length = ls.countP Label.isPush
  read : s.numbered.length + s.queue.length = ls.countP Label.isRead

theorem stuck_initial : Stuck [] initial := ⟨rfl, rfl, rfl, by simp [initial], by simp [initial], rfl, rfl⟩

theorem stuck_step {ls : List Label} {s t : Sequencer} {l : Label} (h : Stuck ls s)
    (hstep : step s l = some t) : Stuck (ls ++ [l]) t := by
  cases l with
  | read address isWrite data clientFd =>
      obtain rfl := Option.some.inj hstep
      refine ⟨h.nextSeq, h.expectedSeq, ?_, ?_, h.queued, ?_, ?_⟩
      · rw [h.assigned, h.nextSeq, List.countP_append, List.replicate_add]
        rfl
      · intro req hreq
        rcases List.mem_append.mp hreq with hreq | hreq
        · exact h.numbered req hreq
        · rw [List.mem_singleton.mp hreq, h.nextSeq]
          rfl
      · rw [h.pushed, List.countP_append]
        rfl
      · rw [List.countP_append, ← h.read, List.length_append, Nat.add_right_comm]
        rfl
  | push handler =>
      simp only [step] at hstep
      split at hstep
      · next req hreq =>
          obtain rfl := Option.some.inj hstep
          obtain ⟨hlt, rfl⟩ := List.getElem?_eq_some_iff.mp hreq
          refine ⟨h.nextSeq, h.expectedSeq, ?_, ?_, ?_, ?_, ?_⟩
          · rw [h.assigned, List.countP_append]
            rfl
          · exact fun other hother => h.numbered other (List.mem_of_mem_eraseIdx hother)
          · intro other hother
            rcases List.mem_cons.mp hother with rfl | hother
            · exact h.numbered _ (List.getElem_mem hlt)
            · exact h.queued other hother
          · rw [List.countP_append, ← h.pushed]
            rfl
          · rw [List.countP_append, ← h.read, List.length_eraseIdx_of_lt hlt, List.length_cons]
            change _ = s.numbered.length + s.queue.length + 0
            omega
      · cases hstep
  | dispatch =>
      simp only [step] at hstep
      split at hstep
      · next req hreq =>
          have hone := h.queued req (top_mem hreq)
          rw [hone, h.expectedSeq, if_neg (by decide)] at hstep
          cases hstep
      · cases hstep

theorem stuck_run {ls : List Label} {s : Sequencer} (h : run step initial ls = some s) : Stuck ls s :=
  run_induction Stuck stuck_initial (fun _ _ _ _ => stuck_step) ls h

/-- The sequencing holds in every state of a run exactly while no request has
been pushed and only one has a number. -/
theorem sequenced_iff {ls : List Label} {s : Sequencer} (h : run step initial ls = some s) :
    (∀ t, Visits step initial ls t → Sequenced t) ↔
      ls.countP Label.isPush = 0 ∧ ls.countP Label.isRead ≤ 1 := by
  constructor
  · intro hall
    have hs := stuck_run h
    obtain ⟨hnodup, hguard⟩ := hall s ⟨ls, [], (List.append_nil ls).symm, h⟩
    rw [hs.assigned, List.nodup_replicate] at hnodup
    refine ⟨?_, hnodup⟩
    by_contra hpush
    have hread := hs.read
    have hqueue := hs.pushed
    have hnumbered : s.numbered = [] := List.eq_nil_of_length_eq_zero (by omega)
    have hne : s.queue ≠ [] := by
      rw [← List.length_pos_iff]
      omega
    obtain ⟨req, hreq, hseq⟩ := hguard hnumbered hne
    rw [hs.queued req (top_mem hreq), hs.expectedSeq] at hseq
    exact absurd hseq (by decide)
  · rintro ⟨hpush, hread⟩ t ⟨before, rest, rfl, ht⟩
    rw [List.countP_append] at hpush hread
    have hs := stuck_run ht
    refine ⟨?_, ?_⟩
    · rw [hs.assigned, List.nodup_replicate]
      omega
    · intro _ hne
      have hzero : t.queue.length = 0 := by
        rw [hs.pushed]
        omega
      exact absurd (List.eq_nil_of_length_eq_zero hzero) hne

theorem sequenced_iff_one_read :
    (∀ t, Visits step initial [.read 0 false [] 5] t → Sequenced t) ↔
      [Label.read 0 false [] 5].countP Label.isPush = 0 ∧ [Label.read 0 false [] 5].countP Label.isRead ≤ 1 :=
  sequenced_iff rfl

theorem first_request_stranded : ∃ s, run step initial [.read 0 false [] 5, .push 0] = some s ∧ ¬ Sequenced s := by
  refine ⟨_, rfl, ?_⟩
  rintro ⟨_, hguard⟩
  obtain ⟨req, hreq, hseq⟩ := hguard rfl (by decide)
  obtain rfl := List.mem_singleton.mp (top_mem hreq)
  exact absurd hseq (by decide)

end MemSim.Sequencing
