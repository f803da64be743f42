import MemSim.Connections
import MemSim.DispatchOrder
import MemSim.Ownership
import Mathlib.Data.List.Perm.Basic

namespace MemSim.ConnectionLeaks

open Machine DRAM Runs Ownership Connections
open Dispatcher (TransferAction)
open DispatchOrder (inHand)

def descriptor (a : AccessCall) : Option Descriptor :=
  match a.phase with
  | .opened cFd | .connected cFd | .sent cFd | .received cFd _ => some ⟨a.process, cFd⟩
  | .called | .returned | .threw _ => none

def ended (a : AccessCall) : Bool :=
  match a.phase with
  | .returned | .threw _ => true
  | _ => false

def holder (calls : List AccessCall) (i : Nat) : Option Descriptor := calls[i]?.bind descriptor

/-- A call that ends in a step leaves the descriptor it had closed. -/
def Closes (s t : Connections) : Prop :=
  ∀ i d a, holder s.calls i = some d → t.calls[i]? = some a → ended a → d ∉ t.opened

def owned (s : Controller) : List Int32 :=
  s.receiving ++ s.dispatcher.queue.map (·.clientFd) ++
    (inHand s.dispatcher.phase).toList.map (·.clientFd) ++
    (s.dispatcher.transfers.filter (·.status ≠ .ready)).map (·.clientFd)

def Kept (s : Controller) : Prop := ∀ fd, fd ∈ s.opened ↔ fd ∈ owned s

section

variable (config : DRAMConfig) (timings : DRAMTiming) (nextSeq currentCycle : UInt64)

/-- No call of a run leaves its descriptor open, and the controller's open
ones are always those of requests it still has. -/
structure NoLeaks (ls : List Label) : Prop where
  closes : ∀ before l s t, before ++ [l] <+: ls →
    run (step config timings) (initial nextSeq currentCycle) before = some s →
    step config timings s l = some t → Closes s t
  kept : ∀ before s, before <+: ls →
    run (step config timings) (initial nextSeq currentCycle) before = some s → Kept s.controller

end

/-- The step does not throw, `socket()` and `connect()` apart. -/
def unthrown (a : AccessCall) : AccessAction → Bool
  | .connect _ _ => a.socketPath.length < sunPathSize
  | .send n _ => 0 ≤ n
  | .recv n resp => 0 ≤ n && resp.success
  | .socket _ | .close => true

def endsTransfer : TransferAction → Bool
  | .transferData returns => !returns
  | .sendResponse _ _ => true
  | .loadCycle | .storeCycle => false

def Harmless (s : Connections) : Label → Prop
  | .access i action => ∀ a, s.calls[i]? = some a → unthrown a action
  | .controller (.transfer _ action) => endsTransfer action = false
  | .call _ _ _ _ _ | .controller _ => True

inductive Moves (opened : List Descriptor) (a : AccessCall) (action : AccessAction) :
    List Descriptor → AccessCall → Prop
  | keeps (a' : AccessCall) (h : unthrown a action) (hsame : descriptor a' = descriptor a) :
      Moves opened a action opened a'
  | opens (a' : AccessCall) (d : Descriptor) (h : unthrown a action) (hnone : descriptor a = none)
      (hfresh : d ∉ opened) (hd : descriptor a' = some d) : Moves opened a action (d :: opened) a'
  | closes (a' : AccessCall) (d : Descriptor) (h : unthrown a action) (hd : descriptor a = some d)
      (hend : ended a') : Moves opened a action (opened.erase d) a'
  | leaves (a' : AccessCall) (d : Descriptor) (h : unthrown a action = false) (hd : descriptor a = some d)
      (hend : ended a') : Moves opened a action opened a'

theorem descriptor_of_ended {a : AccessCall} (h : ended a) : descriptor a = none := by
  unfold ended at h
  unfold descriptor
  split at h
  · next hphase => rw [hphase]
  · next hphase => rw [hphase]
  · cases h

theorem readResponse_ok {isWrite : Bool} {n : Int} {resp : RawResponse} {caller data : List UInt8}
    (h : (readResponse isWrite n resp).run caller = .ok () data) : 0 ≤ n ∧ resp.success = true := by
  by_contra hnot
  have hbad : n < 0 ∨ resp.success = false := by
    rwa [not_and_or, Int.not_le, Bool.not_eq_true] at hnot
  rw [ResponseWire.readResponse_refused hbad] at h
  split at h <;> cases h

theorem readResponse_raised {isWrite : Bool} {n : Int} {resp : RawResponse} {caller data : List UInt8} {e : String}
    (h : (readResponse isWrite n resp).run caller = .error (.raised e) data) :
    (decide (0 ≤ n) && resp.success) = false := by
  by_contra hgood
  obtain ⟨hn, hsuccess⟩ : 0 ≤ n ∧ resp.success = true := by simpa using hgood
  cases isWrite with
  | true =>
      rw [ResponseWire.readResponse_write hn hsuccess] at h
      cases h
  | false =>
      have hguard : (decide (n < 0) || !resp.success) = false := by
        simp [hn, hsuccess]
      simp only [readResponse, hguard] at h
      by_cases hrange : resp.data.start = resp.data.finish
      · have hsource : resp.data.range = .ok [] := if_pos hrange
        rw [hsource] at h
        cases h
      · have hsource : resp.data.range = .error (.fault .outOfRange) := if_neg hrange
        rw [hsource] at h
        cases h

theorem moves_of_accessStep {opened opened' : List Descriptor} {a a' : AccessCall} {action : AccessAction}
    (h : accessStep opened a action = some (opened', a')) : Moves opened a action opened' a' := by
  cases action with
  | socket result =>
      simp only [accessStep] at h
      split at h
      · next hphase =>
          have hnone : descriptor a = none := by rw [descriptor, hphase]
          split at h
          · obtain ⟨rfl, rfl⟩ := Prod.mk.inj (Option.some.inj h)
            exact .keeps _ rfl hnone.symm
          · split at h
            · cases h
            · next hfresh =>
                obtain ⟨rfl, rfl⟩ := Prod.mk.inj (Option.some.inj h)
                exact .opens _ _ rfl hnone hfresh rfl
      · cases h
  | connect result strerror =>
      simp only [accessStep] at h
      split at h
      · next cFd hphase =>
          have hd : descriptor a = some ⟨a.process, cFd⟩ := by rw [descriptor, hphase]
          split at h
          · next hlong =>
              obtain ⟨rfl, rfl⟩ := Prod.mk.inj (Option.some.inj h)
              exact .leaves _ _ (decide_eq_false (Nat.not_lt.mpr hlong)) hd rfl
          · next hshort =>
              have hfits : unthrown a (.connect result strerror) := decide_eq_true (Nat.lt_of_not_le hshort)
              split at h
              · obtain ⟨rfl, rfl⟩ := Prod.mk.inj (Option.some.inj h)
                exact .closes _ _ hfits hd rfl
              · obtain ⟨rfl, rfl⟩ := Prod.mk.inj (Option.some.inj h)
                exact .keeps _ hfits hd.symm
      · cases h
  | send n array =>
      simp only [accessStep] at h
      split at h
      · next cFd hphase =>
          have hd : descriptor a = some ⟨a.process, cFd⟩ := by rw [descriptor, hphase]
          split at h
          · split at h
            · next hfailed =>
                obtain ⟨rfl, rfl⟩ := Prod.mk.inj (Option.some.inj h)
                exact .leaves _ _ (decide_eq_false (Int.not_le.mpr hfailed)) hd rfl
            · next hsent =>
                obtain ⟨rfl, rfl⟩ := Prod.mk.inj (Option.some.inj h)
                exact .keeps _ (decide_eq_true (Int.not_lt.mp hsent)) hd.symm
          · cases h
      · cases h
  | recv n resp =>
      simp only [accessStep] at h
      split at h
      · next cFd hphase =>
          have hd : descriptor a = some ⟨a.process, cFd⟩ := by rw [descriptor, hphase]
          split at h
          · next data hread =>
              obtain ⟨rfl, rfl⟩ := Prod.mk.inj (Option.some.inj h)
              obtain ⟨hn, hsuccess⟩ := readResponse_ok hread
              exact .keeps _ (by simp [unthrown, hn, hsuccess]) hd.symm
          · next e data hread =>
              obtain ⟨rfl, rfl⟩ := Prod.mk.inj (Option.some.inj h)
              exact .leaves _ _ (readResponse_raised hread) hd rfl
          · cases h
      · cases h
  | close =>
      simp only [accessStep] at h
      split at h
      · next cFd vector hphase =>
          have hd : descriptor a = some ⟨a.process, cFd⟩ := by rw [descriptor, hphase]
          split at h
          · obtain ⟨rfl, rfl⟩ := Prod.mk.inj (Option.some.inj h)
            exact .closes _ _ rfl hd rfl
          · cases h
      · cases h

theorem holder_set {calls : List AccessCall} {i : Nat} {a : AccessCall} (ha : calls[i]? = some a) (a' : AccessCall) :
    holder (calls.set i a') = Function.update (holder calls) i (descriptor a') := by
  obtain ⟨hi, _⟩ := List.getElem?_eq_some_iff.mp ha
  funext j
  by_cases hj : j = i
  · rw [hj, Function.update_self, holder, List.getElem?_set_self hi, Option.bind_some]
  · rw [Function.update_of_ne hj, holder, List.getElem?_set_ne (Ne.symm hj), holder]

theorem holder_snoc (calls : List AccessCall) {a : AccessCall} (h : descriptor a = none) :
    holder (calls ++ [a]) = holder calls := by
  funext i
  rw [holder, holder, List.getElem?_append]
  split
  · rfl
  · next hi =>
      rw [List.getElem?_eq_none (Nat.not_lt.mp hi), List.getElem?_singleton]
      split
      · exact h
      · rfl

def Holding (s : Connections) : Prop := Held (holder s.calls) s.opened

theorem holding_initial (nextSeq currentCycle : UInt64) : Holding (initial nextSeq currentCycle) := held_nobody

variable {config : DRAMConfig} {timings : DRAMTiming} {s t : Connections}

theorem moves_of_step {i : Nat} {action : AccessAction}
    (h : step config timings s (.access i action) = some t) :
    ∃ a opened a', s.calls[i]? = some a ∧ Moves s.opened a action opened a' ∧
      t = { s with calls := s.calls.set i a', opened } := by
  simp only [step] at h
  split at h
  · next a ha =>
      obtain ⟨⟨opened, a'⟩, hstep, rfl⟩ := Option.map_eq_some_iff.mp h
      exact ⟨a, opened, a', ha, moves_of_accessStep hstep, rfl⟩
  · cases h

theorem holding_step {l : Label} (h : Holding s) (hstep : step config timings s l = some t) : Holding t := by
  cases l with
  | call process socketPath address isWrite data =>
      obtain rfl := Option.some.inj hstep
      rw [Holding, holder_snoc _ rfl]
      exact h
  | access i action =>
      obtain ⟨a, opened, a', ha, hmoves, rfl⟩ := moves_of_step hstep
      have hheld : holder s.calls i = descriptor a := by rw [holder, ha, Option.bind_some]
      rw [Holding, holder_set ha]
      cases hmoves with
      | keeps _ _ hsame =>
          rw [hsame, ← hheld, Function.update_eq_self]
          exact h
      | opens _ d _ _ hfresh hd =>
          rw [hd]
          exact Held.acquire h i hfresh
      | closes _ d _ hd hend =>
          rw [descriptor_of_ended hend]
          exact Held.release h (hheld.trans hd)
      | leaves _ d _ hd hend =>
          rw [descriptor_of_ended hend]
          exact Held.abandon h i
  | controller action =>
      obtain ⟨controller, _, rfl⟩ := Option.map_eq_some_iff.mp hstep
      exact h

theorem holder_of_ended {calls : List AccessCall} {i : Nat} {a : AccessCall} (ha : calls[i]? = some a)
    (hend : ended a) : holder calls i = none := by
  rw [holder, ha, Option.bind_some, descriptor_of_ended hend]

theorem closes_of_harmless {l : Label} (h : Holding s) (hstep : step config timings s l = some t)
    (hl : Harmless s l) : Closes s t := by
  intro i d b hd hb hend
  have hnone := holder_of_ended hb hend
  cases l with
  | call process socketPath address isWrite data =>
      obtain rfl := Option.some.inj hstep
      rw [holder_snoc _ rfl, hd] at hnone
      cases hnone
  | access j action =>
      obtain ⟨a, opened, a', ha, hmoves, rfl⟩ := moves_of_step hstep
      have hheld : holder s.calls j = descriptor a := by rw [holder, ha, Option.bind_some]
      rw [holder_set ha] at hnone
      by_cases hij : i = j
      · subst hij
        rw [Function.update_self] at hnone
        cases hmoves with
        | keeps _ _ hsame =>
            rw [← hsame, hnone, hd] at hheld
            cases hheld
        | opens _ _ _ _ _ hopened =>
            rw [hopened] at hnone
            cases hnone
        | closes _ e _ he _ =>
            obtain rfl : d = e := Option.some.inj (hd.symm.trans (hheld.trans he))
            exact List.Nodup.not_mem_erase h.nodup
        | leaves _ _ hthrows _ _ =>
            rw [hl a ha] at hthrows
            cases hthrows
      · rw [Function.update_of_ne hij, hd] at hnone
        cases hnone
  | controller action =>
      obtain ⟨controller, _, rfl⟩ := Option.map_eq_some_iff.mp hstep
      rw [hd] at hnone
      cases hnone

theorem not_closes_of_throw {i : Nat} {action : AccessAction} (h : Holding s)
    (hstep : step config timings s (.access i action) = some t) (hl : ¬ Harmless s (.access i action)) :
    ¬ Closes s t := by
  intro hcloses
  obtain ⟨a, opened, a', ha, hmoves, rfl⟩ := moves_of_step hstep
  have hheld : holder s.calls i = descriptor a := by rw [holder, ha, Option.bind_some]
  have hthrows : unthrown a action = false := by
    rw [← Bool.not_eq_true]
    intro hgood
    apply hl
    intro b hb
    obtain rfl : a = b := Option.some.inj (ha.symm.trans hb)
    exact hgood
  cases hmoves with
  | keeps _ hgood | opens _ _ hgood | closes _ _ hgood =>
      rw [hthrows] at hgood
      cases hgood
  | leaves _ d _ hd hend =>
      obtain ⟨hi, _⟩ := List.getElem?_eq_some_iff.mp ha
      exact hcloses i d a' (hheld.trans hd) (List.getElem?_set_self hi) hend (h.opened i d (hheld.trans hd))

def given (s : Dispatcher) : List Int32 :=
  s.queue.map (·.clientFd) ++ (inHand s.phase).toList.map (·.clientFd) ++ s.transfers.map (·.clientFd)

/-- What the accept loop has opened is with a handler or has been given to the
dispatcher, since nothing closes it. -/
structure Accounts (s : Controller) : Prop where
  nodup : s.opened.Nodup
  perm : s.opened.Perm (s.receiving ++ given s.dispatcher)

def Flying (d : Dispatcher) : Prop := ∀ t ∈ d.transfers, t.status ≠ .ready

section

variable {d d' : Dispatcher}

theorem given_congr (hqueue : d'.queue = d.queue) (hphase : inHand d'.phase = inHand d.phase)
    (htransfers : d'.transfers.map (·.clientFd) = d.transfers.map (·.clientFd)) : (given d').Perm (given d) := by
  rw [given, given, hqueue, hphase, htransfers]

theorem given_move {i : Nat} {u : Transfer} (hu : d.transfers[i]? = some u) (status : TransferStatus) :
    (d.moveTransfer i u status).transfers.map (·.clientFd) = d.transfers.map (·.clientFd) := by
  obtain ⟨hi, _⟩ := List.getElem?_eq_some_iff.mp hu
  rw [Dispatcher.moveTransfer]
  apply List.ext_getElem?
  intro j
  rw [List.getElem?_map, List.getElem?_map]
  by_cases hij : i = j
  · subst hij
    rw [List.getElem?_set_self hi, hu]
    rfl
  · rw [List.getElem?_set_ne hij]

theorem given_steps {l : Dispatcher.Label} (h : Dispatcher.Steps config timings d l d')
    (hpush : ∀ req, l ≠ .push req) : (given d').Perm (given d) := by
  cases h with
  | push req => exact absurd rfl (hpush req)
  | stop => exact List.Perm.refl _
  | exit hphase => exact given_congr rfl (by rw [hphase]; rfl) rfl
  | pop req hphase htop =>
      have hqueue := (List.perm_cons_erase (DRAMRequest.top_mem htop)).map (·.clientFd)
      rw [given, given, hphase]
      apply List.Perm.append_right
      simp only [inHand, Option.toList_some, Option.toList_none, List.map_nil, List.map_cons, List.append_nil]
      exact (List.perm_append_singleton _ _).trans hqueue.symm
  | await req bidx hphase => exact given_congr rfl (by rw [hphase]; rfl) rfl
  | loadCycle req bank hphase => exact given_congr rfl (by rw [hphase]; rfl) rfl
  | openRow req bank banks openRowStart row hphase => exact given_congr rfl (by rw [hphase]; rfl) rfl
  | terminate req bank banks openRowStart row hphase => exact given_congr rfl (by rw [hphase]; rfl) rfl
  | storeCycle req bank openRowStart openRowEnd hphase => exact given_congr rfl (by rw [hphase]; rfl) rfl
  | launch req bank openRowStart openRowEnd col data hphase =>
      rw [given, given, hphase, List.append_assoc, List.append_assoc]
      apply List.Perm.append_left
      simp only [inHand, Option.toList_some, Option.toList_none, List.map_nil, List.map_cons, List.map_append,
        List.nil_append]
      exact List.perm_append_comm
  | transferData i u returns hu => exact given_congr rfl rfl (given_move hu _)
  | loadTransferCycle i u hu => exact given_congr rfl rfl (given_move hu _)
  | storeTransferCycle i u cycle hu => exact given_congr rfl rfl (given_move hu _)
  | sendResponse i u data n hu => exact given_congr rfl rfl (given_move hu _)

theorem flying_move {i : Nat} {u : Transfer} {status : TransferStatus} (h : Flying d) (hstatus : status ≠ .ready) :
    Flying (d.moveTransfer i u status) := by
  intro v hv
  rcases List.mem_or_eq_of_mem_set hv with hv | rfl
  · exact h v hv
  · exact hstatus

theorem not_flying_move {i : Nat} {u : Transfer} (hu : d.transfers[i]? = some u) :
    ¬ Flying (d.moveTransfer i u .ready) := by
  intro h
  obtain ⟨hi, _⟩ := List.getElem?_eq_some_iff.mp hu
  exact h { u with status := .ready } (List.mem_of_getElem? (List.getElem?_set_self hi)) rfl

theorem flying_steps {l : Dispatcher.Label} (h : Dispatcher.Steps config timings d l d')
    (hl : ∀ i action, l = .transfer i action → endsTransfer action = false) (hd : Flying d) : Flying d' := by
  cases h with
  | push | stop | exit | pop | await | loadCycle | openRow | terminate | storeCycle => exact hd
  | launch =>
      intro v hv
      rcases List.mem_append.mp hv with hv | hv
      · exact hd v hv
      · rw [List.mem_singleton.mp hv]
        intro h
        cases h
  | transferData i u returns =>
      have hreturns : returns = true := by simpa [endsTransfer] using hl i _ rfl
      rw [hreturns, if_pos rfl]
      exact flying_move hd (by decide)
  | loadTransferCycle => exact flying_move hd (by intro h; cases h)
  | storeTransferCycle => exact flying_move hd (by decide)
  | sendResponse i => exact absurd (hl i _ rfl) nofun

theorem not_flying_of_ends {i : Nat} {action : TransferAction}
    (h : Dispatcher.Steps config timings d (.transfer i action) d') (hends : endsTransfer action = true) :
    ¬ Flying d' := by
  cases h with
  | transferData _ u returns hu =>
      have hthrows : returns = false := by simpa [endsTransfer] using hends
      rw [hthrows]
      exact not_flying_move hu
  | sendResponse _ u data n hu => exact not_flying_move hu
  | loadTransferCycle | storeTransferCycle => cases hends

end

section

variable {c c' : Controller}

theorem accounts_initial (nextSeq currentCycle : UInt64) : Accounts (.initial nextSeq currentCycle) :=
  ⟨List.nodup_nil, List.Perm.refl _⟩

theorem accounts_step {action : Controller.Action} (h : Accounts c)
    (hstep : c.step config timings action = some c') : Accounts c' := by
  cases Controller.steps_of_step hstep with
  | acceptFailed => exact ⟨h.nodup, h.perm⟩
  | accept clientFd hfresh =>
      refine ⟨List.nodup_cons.mpr ⟨hfresh, h.nodup⟩, ?_⟩
      rw [List.append_assoc]
      exact (h.perm.cons clientFd).trans List.perm_middle.symm
  | handle handler n wire req hreceiving =>
      obtain ⟨hlt, hfd⟩ := List.getElem?_eq_some_iff.mp hreceiving
      have htaken : c.receiving.Perm (req.clientFd :: c.receiving.eraseIdx handler) := by
        rw [← hfd]
        exact (List.getElem_cons_eraseIdx_perm hlt).symm
      exact ⟨h.nodup, (h.perm.trans (htaken.append_right _)).trans List.perm_middle.symm⟩
  | terminate => exact ⟨h.nodup, h.perm⟩
  | dispatch action d hd =>
      have hgiven := given_steps hd (by intro req hreq; cases hreq)
      exact ⟨h.nodup, h.perm.trans (hgiven.symm.append_left _)⟩
  | transfer i action d hd =>
      have hgiven := given_steps hd (by intro req hreq; cases hreq)
      exact ⟨h.nodup, h.perm.trans (hgiven.symm.append_left _)⟩

theorem kept_iff (h : Accounts c) : Kept c ↔ Flying c.dispatcher := by
  have hperm := h.perm
  rw [given, ← List.append_assoc, ← List.append_assoc] at hperm
  constructor
  · intro hkept u hu hready
    have hmem := List.mem_map_of_mem (f := (·.clientFd)) hu
    have hnodup := hperm.nodup_iff.mp h.nodup
    obtain ⟨_, htransfers, hapart⟩ := List.nodup_append.mp hnodup
    have howned := (hkept u.clientFd).mp (hperm.mem_iff.mpr (List.mem_append_right _ hmem))
    rcases List.mem_append.mp howned with hrest | hflying
    · exact hapart _ hrest _ hmem rfl
    · obtain ⟨v, hv, hfd⟩ := List.mem_map.mp hflying
      obtain ⟨hv, hstatus⟩ := List.mem_filter.mp hv
      obtain rfl := List.inj_on_of_nodup_map htransfers hv hu hfd
      exact of_decide_eq_true hstatus hready
  · intro hflying fd
    have hall : c.dispatcher.transfers.filter (·.status ≠ .ready) = c.dispatcher.transfers :=
      List.filter_eq_self.mpr fun u hu => decide_eq_true (hflying u hu)
    rw [owned, hall]
    exact hperm.mem_iff

end

theorem step_controller {l : Label} (h : step config timings s l = some t) :
    t.controller = s.controller ∨
      ∃ action, l = .controller action ∧ s.controller.step config timings action = some t.controller := by
  cases l with
  | call process socketPath address isWrite data =>
      obtain rfl := Option.some.inj h
      exact .inl rfl
  | access i action =>
      obtain ⟨_, _, _, _, _, rfl⟩ := moves_of_step h
      exact .inl rfl
  | controller action =>
      obtain ⟨c, hc, rfl⟩ := Option.map_eq_some_iff.mp h
      exact .inr ⟨action, rfl, hc⟩

theorem flying_step {l : Label} (h : Flying s.controller.dispatcher) (hstep : step config timings s l = some t)
    (hl : Harmless s l) : Flying t.controller.dispatcher := by
  rcases step_controller hstep with hsame | ⟨action, rfl, hc⟩
  · rw [hsame]
    exact h
  · generalize t.controller = c at hc ⊢
    cases Controller.steps_of_step hc with
    | acceptFailed | accept | handle | terminate => exact h
    | dispatch action d hd => exact flying_steps hd (by intro i action h; cases h) h
    | transfer i action d hd =>
        refine flying_steps hd ?_ h
        rintro j other ⟨rfl, rfl⟩
        exact hl

theorem not_kept_of_ends {i : Nat} {action : TransferAction} (h : Accounts s.controller)
    (hstep : step config timings s (.controller (.transfer i action)) = some t)
    (hends : endsTransfer action = true) : ¬ Kept t.controller := by
  obtain ⟨c, hc, rfl⟩ := Option.map_eq_some_iff.mp hstep
  rw [kept_iff (accounts_step h hc)]
  cases Controller.steps_of_step hc with
  | transfer _ _ d hd => exact not_flying_of_ends hd hends

structure Idle (c : Controller) : Prop where
  nextSeq : c.nextSeq = 0
  queued : ∀ req ∈ c.dispatcher.queue, req.seq = 1
  expectedSeq : c.dispatcher.expectedSeq = 0
  phase : c.dispatcher.phase = .waiting
  dispatcherStop : c.dispatcher.dispatcherStop = false
  transfers : c.dispatcher.transfers = []

theorem idle_initial (currentCycle : UInt64) : Idle (.initial 0 currentCycle) :=
  ⟨rfl, fun _ hreq => absurd hreq List.not_mem_nil, rfl, rfl, rfl, rfl⟩

theorem Idle.not_dispatch {c : Controller} {action : Dispatcher.DispatchAction} {d : Dispatcher} (h : Idle c)
    (hsteps : Dispatcher.Steps config timings c.dispatcher (.dispatch action) d) : False := by
  have hwaiting := h.phase
  cases hsteps with
  | exit hphase hstop =>
      rw [h.dispatcherStop] at hstop
      cases hstop
  | pop req hphase htop hstop hseq =>
      rw [h.queued req (DRAMRequest.top_mem htop), h.expectedSeq] at hseq
      exact absurd hseq (by decide)
  | await req bidx hphase | loadCycle req bank hphase | openRow req bank banks openRowStart row hphase
  | terminate req bank banks openRowStart row hphase | storeCycle req bank openRowStart openRowEnd hphase
  | launch req bank openRowStart openRowEnd col data hphase =>
      rw [hwaiting] at hphase
      cases hphase

theorem Idle.not_transfer {c : Controller} {i : Nat} {action : TransferAction} {d : Dispatcher} (h : Idle c)
    (hsteps : Dispatcher.Steps config timings c.dispatcher (.transfer i action) d) : False := by
  have hempty := h.transfers
  cases hsteps with
  | transferData _ u returns hu | loadTransferCycle _ u hu | storeTransferCycle _ u cycle hu
  | sendResponse _ u _ _ hu =>
      rw [hempty] at hu
      cases hu

theorem idle_step {c c' : Controller} {action : Controller.Action} (h : Idle c)
    (hstep : c.step config timings action = some c') : Idle c' := by
  cases Controller.steps_of_step hstep with
  | acceptFailed | accept | terminate =>
      exact ⟨h.nextSeq, h.queued, h.expectedSeq, h.phase, h.dispatcherStop, h.transfers⟩
  | handle handler n wire req hreceiving hseq =>
      refine ⟨h.nextSeq, ?_, h.expectedSeq, h.phase, h.dispatcherStop, h.transfers⟩
      intro other hother
      rcases List.mem_cons.mp hother with rfl | hother
      · rw [hseq, h.nextSeq]
        rfl
      · exact h.queued other hother
  | dispatch action d hd => exact (h.not_dispatch hd).elim
  | transfer i action d hd => exact (h.not_transfer hd).elim

section

variable {nextSeq currentCycle : UInt64} {ls : List Label}

theorem holding_run (h : run (step config timings) (initial nextSeq currentCycle) ls = some s) : Holding s :=
  run_induction (fun _ => Holding) (holding_initial nextSeq currentCycle) (fun _ _ _ _ => holding_step) ls h

theorem controller_induction {I : Controller → Prop} (hstart : I (.initial nextSeq currentCycle))
    (hstep : ∀ c c' action, I c → c.step config timings action = some c' → I c')
    (h : run (step config timings) (initial nextSeq currentCycle) ls = some s) : I s.controller := by
  refine run_induction (fun _ u => I u.controller) hstart ?_ ls h
  intro _ u l v hu hl
  rcases step_controller hl with hsame | ⟨action, _, hc⟩
  · rw [hsame]
    exact hu
  · exact hstep _ _ action hu hc

theorem accounts_run (h : run (step config timings) (initial nextSeq currentCycle) ls = some s) :
    Accounts s.controller :=
  controller_induction (accounts_initial nextSeq currentCycle) (fun _ _ _ => accounts_step) h

/-- A controller whose numbers begin at zero gives the first request the
number one and serves none, so it gets to no connection it would not close. -/
theorem kept_of_new (h : run (step config timings) (initial 0 currentCycle) ls = some s) :
    Kept s.controller := by
  have hidle : Idle s.controller :=
    controller_induction (idle_initial currentCycle) (fun _ _ _ => idle_step) h
  rw [kept_iff (accounts_run h), Flying, hidle.transfers]
  intro u hu
  cases hu

/-- A run leaks nothing exactly while calls throw in `socket()` and
`connect()` only, and no transfer ends. -/
theorem noLeaks_iff (h : run (step config timings) (initial nextSeq currentCycle) ls = some s) :
    NoLeaks config timings nextSeq currentCycle ls ↔
      ∀ before l u, before ++ [l] <+: ls →
        run (step config timings) (initial nextSeq currentCycle) before = some u → Harmless u l := by
  constructor
  · intro hleaks before l u hpre hu
    obtain ⟨v, hstep, hv⟩ := step_of_prefix h hpre hu
    cases l with
    | call => exact trivial
    | access i action =>
        by_contra hl
        exact not_closes_of_throw (holding_run hu) hstep hl (hleaks.closes before _ u v hpre hu hstep)
    | controller action =>
        cases action with
        | accept | handle | dispatch => exact trivial
        | transfer i action =>
            change endsTransfer action = false
            rw [← Bool.not_eq_true]
            intro hends
            exact not_kept_of_ends (accounts_run hu) hstep hends (hleaks.kept _ v hpre hv)
  · intro hall
    refine ⟨?_, ?_⟩
    · intro before l u v hpre hu hstep
      exact closes_of_harmless (holding_run hu) hstep (hall before l u hpre hu)
    · intro before u hpre hu
      refine (kept_iff (accounts_run hu)).mpr ?_
      refine run_induction_of (fun _ v => Flying v.controller.dispatcher) (fun _ l v => Harmless v l)
        (by intro v hv; cases hv) (fun _ _ _ _ hv hl hstep => flying_step hv hstep hl) ?_ hu
      exact fun b m w hb => hall b m w (hb.trans hpre)

end

def failedSend : List Label :=
  [.call 1 [] 0x40 false [], .access 0 (.socket 5), .access 0 (.connect 0 ""),
    .access 0 (.send (-1) ⟨List.replicate 64 0, rfl⟩)]

theorem noLeaks_iff_failed_send :
    NoLeaks DispatchOrder.fourBanks ⟨24, 24, 12⟩ 0 0 failedSend ↔
      ∀ before l u, before ++ [l] <+: failedSend →
        run (step DispatchOrder.fourBanks ⟨24, 24, 12⟩) (initial 0 0) before = some u → Harmless u l :=
  noLeaks_iff (rfl : run (step DispatchOrder.fourBanks ⟨24, 24, 12⟩) (initial 0 0) failedSend = some _)

theorem failed_send_leaks :
    (run (step DispatchOrder.fourBanks ⟨24, 24, 12⟩) (initial 0 0) failedSend).isSome ∧
      ¬ NoLeaks DispatchOrder.fourBanks ⟨24, 24, 12⟩ 0 0 failedSend := by
  refine ⟨rfl, ?_⟩
  intro h
  exact h.closes (failedSend.take 3) _ _ _ (List.prefix_refl _) rfl rfl 0 ⟨1, 5⟩ _ rfl rfl rfl (by decide)

end MemSim.ConnectionLeaks
