import MemSim.SimulatedTime
import Mathlib.Data.List.Perm.Subperm

namespace MemSim.Answers

open Machine Runs Dispatcher DispatchOrder Quiescence SimulatedTime

/-- What a request takes along from the queue to its response. -/
structure Ticket where
  bank : Option UInt32
  col : Option UInt32
  isWrite : Bool
  clientFd : Int32
  seq : UInt64
  deriving DecidableEq, Repr

def ticketOf (config : DRAMConfig) (req : DRAMRequest) : Ticket :=
  ⟨bankOf config req, colOf config req, req.isWrite, req.clientFd, req.seq⟩

def ticket (t : Transfer) : Ticket := ⟨some t.bank, some t.col, t.isWrite, t.clientFd, t.seq⟩

/-- A transfer ends when it sends its response, when that `send` fails, or when
its `transfer_data` throws. -/
inductive EndedBy
  | response (resp : DRAMResponse)
  | sendFailed (error : String)
  | transferFailed
  deriving DecidableEq, Repr

structure Ending where
  index : Nat
  ticket : Ticket
  completionCycle : UInt64
  endedBy : EndedBy
  deriving DecidableEq, Repr

def completionCycle (timings : DRAMTiming) (t : Transfer) : UInt64 := transferEnd timings t - t.openRowStart

def endingOf (timings : DRAMTiming) (i : Nat) (t : Transfer) (endedBy : EndedBy) : Ending :=
  ⟨i, ticket t, completionCycle timings t, endedBy⟩

def sending (timings : DRAMTiming) (t : Transfer) (data : List UInt8) (n : Int) : EndedBy :=
  if n < 0 then .sendFailed (sendError t) else .response (responseOf timings t data)

def ending (timings : DRAMTiming) (s : Dispatcher) : Label → Option Ending
  | .transfer i (.sendResponse data n) => (s.transfers[i]?).map fun t => endingOf timings i t (sending timings t data n)
  | .transfer i (.transferData false) => (s.transfers[i]?).map (endingOf timings i · .transferFailed)
  | _ => none

/-- An ending is its transfer's own. The response is the one that
`dispatcher_loop` builds, whenever that comes to the end of its copy. -/
def Reports (timings : DRAMTiming) (t : Transfer) : EndedBy → Prop
  | .response resp => resp.seq = t.seq ∧ resp.completionCycle = completionCycle timings t ∧ resp.success = true ∧
      ∀ built, DRAMController.buildResponse t.seq t.openRowStart (transferEnd timings t) t.isWrite t.data = .ok built →
        resp = built
  | .sendFailed error => error = sendError t
  | .transferFailed => True

variable (config : DRAMConfig) (timings : DRAMTiming)

def endings (currentCycle : UInt64) (ls : List Label) : List Ending :=
  emitted (Dispatcher.step config timings) (ending timings) (initial currentCycle) ls

def isReady (s : Dispatcher) (i : Nat) : Bool := (s.transfers[i]?).any fun t => decide (t.status = .ready)

def opensIn (timings : DRAMTiming) (openRowStart openRowEnd : UInt64) : Prop :=
  openRowEnd = openRowStart + timings.precharge.toUInt64 + timings.activate.toUInt64

/-- Each transfer is that of the request dispatched in its place, and ends
once, when it becomes ready; on one bank in the order of dispatch. -/
structure Books (ends : List Ending) (s : Dispatcher) : Prop where
  tickets : s.dispatched.map (ticketOf config) =
    s.transfers.map ticket ++ (inHand s.phase).toList.map (ticketOf config)
  opens : ∀ t ∈ s.transfers, opensIn timings t.openRowStart t.openRowEnd
  stored : ∀ req bank openRowStart openRowEnd, s.phase = .stored req bank openRowStart openRowEnd →
    opensIn timings openRowStart openRowEnd
  once : ∀ i, (ends.map (·.index)).count i = (isReady s i).toNat
  own : ∀ e ∈ ends, ∃ t, s.transfers[e.index]? = some t ∧ e.ticket = ticket t ∧ Reports timings t e.endedBy
  latency : ∀ e ∈ ends, e.completionCycle =
    timings.precharge.toUInt64 + timings.activate.toUInt64 + timings.transfer.toUInt64
  recorded : ∀ bank i, s.lastTransfer bank = some i → ∀ (j : Nat) (u : Transfer),
    s.transfers[j]? = some u → u.bank = bank → j ≤ i
  inOrder : ∀ bank, ((ends.filter (·.ticket.bank = some bank)).map (·.index)).Pairwise (· < ·)

variable {config timings} {s t : Dispatcher} {ends : List Ending}

theorem reports_sending {u : Transfer} {data : List UInt8} (hdata : u.isWrite = true ∨ u.data = [] → data = [])
    (n : Int) : Reports timings u (sending timings u data n) := by
  rw [sending]
  split
  · rfl
  · refine ⟨rfl, rfl, rfl, ?_⟩
    intro built hbuilt
    obtain ⟨hdefined, rfl⟩ := ResponseWire.buildResponse_eq_ok.mp hbuilt
    rw [responseOf, hdata hdefined]
    rfl

theorem books_initial (currentCycle : UInt64) : Books config timings [] (initial currentCycle) where
  tickets := rfl
  opens := by simp [initial]
  stored := by simp [initial]
  once i := by simp [isReady, initial]
  own := by simp
  latency := by simp
  recorded := by simp [initial]
  inOrder _ := .nil

theorem latency_of_opens {u : Transfer} (h : opensIn timings u.openRowStart u.openRowEnd) :
    completionCycle timings u =
      timings.precharge.toUInt64 + timings.activate.toUInt64 + timings.transfer.toUInt64 := by
  rw [completionCycle, transferEnd, h, UInt64.add_assoc, UInt64.add_assoc, UInt64.add_comm u.openRowStart,
    UInt64.add_sub_cancel, UInt64.add_assoc]

theorem books_frame (h : Books config timings ends s) (htransfers : t.transfers = s.transfers)
    (hlast : ∀ bank i, t.lastTransfer bank = some i → s.lastTransfer bank = some i)
    (htickets : t.dispatched.map (ticketOf config) =
      s.transfers.map ticket ++ (inHand t.phase).toList.map (ticketOf config))
    (hstored : ∀ req bank openRowStart openRowEnd, t.phase = .stored req bank openRowStart openRowEnd →
      opensIn timings openRowStart openRowEnd) : Books config timings ends t := by
  refine ⟨?_, ?_, hstored, ?_, ?_, h.latency, ?_, h.inOrder⟩
  · rw [htransfers, htickets]
  · rw [htransfers]
    exact h.opens
  · intro i
    rw [isReady, htransfers]
    exact h.once i
  · rw [htransfers]
    exact h.own
  · intro bank i hi
    rw [htransfers]
    exact h.recorded bank i (hlast bank i hi)

theorem books_phase (h : Books config timings ends s) (htransfers : t.transfers = s.transfers)
    (hlast : ∀ bank i, t.lastTransfer bank = some i → s.lastTransfer bank = some i)
    (hdispatched : t.dispatched = s.dispatched) (hhand : inHand t.phase = inHand s.phase)
    (hstored : ∀ req bank openRowStart openRowEnd, t.phase = .stored req bank openRowStart openRowEnd →
      opensIn timings openRowStart openRowEnd) : Books config timings ends t := by
  apply books_frame h htransfers hlast _ hstored
  rw [hdispatched, hhand]
  exact h.tickets

theorem books_launch {req : DRAMRequest} {bank : UInt32} {openRowStart openRowEnd : UInt64} {new : Transfer}
    (h : Books config timings ends s)
    (hphase : s.phase = .stored req bank openRowStart openRowEnd) (hnew : ticket new = ticketOf config req)
    (hbank : new.bank = bank) (hstart : new.openRowStart = openRowStart) (hend : new.openRowEnd = openRowEnd)
    (hstatus : new.status = .launched) :
    Books config timings ends { s with
      phase := .waiting
      lastTransfer := Function.update s.lastTransfer bank (some s.transfers.length)
      transfers := s.transfers ++ [new] } := by
  have hlt : ∀ {j u}, s.transfers[j]? = some u → j < s.transfers.length :=
    fun hu => (List.getElem?_eq_some_iff.mp hu).1
  refine ⟨?_, ?_, nofun, ?_, ?_, h.latency, ?_, h.inOrder⟩
  · have htickets := h.tickets
    rw [hphase] at htickets
    simpa [inHand, hnew] using htickets
  · intro u hu
    rcases List.mem_append.mp hu with hu | hu
    · exact h.opens u hu
    · obtain rfl := List.mem_singleton.mp hu
      rw [hstart, hend]
      exact h.stored req bank openRowStart openRowEnd hphase
  · intro i
    rw [h.once i]
    rcases Nat.lt_or_ge i s.transfers.length with hi | hi
    · simp [isReady, List.getElem?_append_left hi]
    · have hnone : s.transfers[i]? = none := List.getElem?_eq_none hi
      have hcase : ∀ u, (s.transfers ++ [new])[i]? = some u → u = new := by
        intro u hu
        rcases append_cases hu with hu | ⟨_, rfl⟩
        · exact absurd (hlt hu) (by omega)
        · rfl
      cases hu : (s.transfers ++ [new])[i]? with
      | none => simp [isReady, hnone, hu]
      | some u =>
          obtain rfl := hcase u hu
          simp [isReady, hnone, hu, hstatus]
  · intro e he
    obtain ⟨u, hu, hown⟩ := h.own e he
    exact ⟨u, by rw [List.getElem?_append_left (hlt hu), hu], hown⟩
  · intro b i hi j u hu hub
    dsimp only at hi hu
    by_cases hb : b = bank
    · subst hb
      rw [Function.update_self] at hi
      obtain rfl := Option.some.inj hi
      rcases append_cases hu with hu | ⟨rfl, _⟩
      · exact Nat.le_of_lt (hlt hu)
      · exact Nat.le_refl _
    · rw [Function.update_of_ne hb] at hi
      rcases append_cases hu with hu | ⟨_, rfl⟩
      · exact h.recorded b i hi j u hu hub
      · exact absurd (hub.symm.trans hbank) hb

/-- A transfer that is not ready is the last of its bank, so what ends before
it on that bank came before it. -/
theorem index_lt_of_unready (h : Books config timings ends s) (hserial : Serial config s) {i : Nat}
    {u : Transfer} (hu : s.transfers[i]? = some u) (hnot : u.status ≠ .ready) {e : Ending} (he : e ∈ ends)
    (hbank : e.ticket.bank = some u.bank) : e.index < i := by
  obtain ⟨v, hv, hticket, _⟩ := h.own e he
  have hvb : v.bank = u.bank := by
    rw [hticket] at hbank
    exact Option.some.inj hbank
  have hle := h.recorded u.bank i (hserial.last i u hu hnot) e.index v hv hvb
  have hcount : (ends.map (·.index)).count i = 0 := by
    rw [h.once i]
    simp [isReady, hu, hnot]
  have hne : e.index ≠ i := by
    rintro rfl
    exact (List.count_eq_zero.mp hcount) (List.mem_map_of_mem he)
  omega

theorem books_move {i : Nat} {u : Transfer} {status : TransferStatus} {calls : List Call} {currentCycle : UInt64}
    {new : Option Ending} (h : Books config timings ends s) (hserial : Serial config s)
    (hu : s.transfers[i]? = some u) (hnot : u.status ≠ .ready)
    (hnew : (status ≠ .ready ∧ new = none) ∨
      (status = .ready ∧ ∃ a, Reports timings u a ∧ new = some (endingOf timings i u a))) :
    Books config timings (ends ++ new.toList) ({ s with calls, currentCycle }.moveTransfer i u status) := by
  obtain ⟨hi, hget⟩ := List.getElem?_eq_some_iff.mp hu
  have hself : (s.transfers.set i { u with status })[i]? = some { u with status } := by
    rw [List.getElem?_set, if_pos rfl, if_pos hi]
  have hkeep : ∀ (f : Transfer → Ticket), f { u with status } = f u →
      (s.transfers.set i { u with status }).map f = s.transfers.map f := by
    intro f hf
    rw [List.map_set, hf, ← hget, ← List.getElem_map f, List.set_getElem_self]
    simpa using hi
  have hold : ∀ e ∈ ends, ∃ v, (s.transfers.set i { u with status })[e.index]? = some v ∧ e.ticket = ticket v ∧
      Reports timings v e.endedBy := by
    intro e he
    obtain ⟨v, hv, hown⟩ := h.own e he
    by_cases hei : e.index = i
    · rw [hei] at hv ⊢
      rw [hu] at hv
      obtain rfl := Option.some.inj hv
      exact ⟨_, hself, hown⟩
    · exact ⟨v, by rw [getElem?_set_of_ne (Ne.symm hei), hv], hown⟩
  unfold moveTransfer
  refine ⟨?_, ?_, h.stored, ?_, ?_, ?_, ?_, ?_⟩
  · dsimp only
    rw [hkeep ticket rfl]
    exact h.tickets
  · intro v hv
    rcases List.mem_or_eq_of_mem_set hv with hv | rfl
    · exact h.opens v hv
    · exact h.opens u (List.mem_of_getElem? hu)
  · intro j
    rw [List.map_append, List.count_append, h.once j]
    by_cases hij : i = j
    · subst hij
      rcases hnew with ⟨hstatus, rfl⟩ | ⟨rfl, a, _, rfl⟩
      · simp [isReady, hu, hself, hnot, hstatus]
      · simp [isReady, hu, hself, hnot, endingOf]
    · have hcount : (new.toList.map (·.index)).count j = 0 := by
        rcases hnew with ⟨_, rfl⟩ | ⟨_, a, hreports, rfl⟩
        · rfl
        · simp [endingOf, hij]
      rw [hcount]
      simp [isReady, hij]
  · intro e he
    rcases List.mem_append.mp he with he | he
    · exact hold e he
    · rcases hnew with ⟨_, rfl⟩ | ⟨_, a, hreports, rfl⟩
      · simp at he
      · obtain rfl := List.mem_singleton.mp he
        exact ⟨_, hself, rfl, hreports⟩
  · intro e he
    rcases List.mem_append.mp he with he | he
    · exact h.latency e he
    · rcases hnew with ⟨_, rfl⟩ | ⟨_, a, hreports, rfl⟩
      · simp at he
      · obtain rfl := List.mem_singleton.mp he
        exact latency_of_opens (h.opens u (List.mem_of_getElem? hu))
  · intro b k hk j v hv hvb
    dsimp only at hk hv
    rcases set_cases hv with ⟨rfl, rfl⟩ | ⟨_, hv⟩
    · exact h.recorded b k hk j u hu hvb
    · exact h.recorded b k hk j v hv hvb
  · intro b
    rw [List.filter_append, List.map_append, List.pairwise_append]
    refine ⟨h.inOrder b, ?_, ?_⟩
    · rcases hnew with ⟨_, rfl⟩ | ⟨_, a, hreports, rfl⟩
      · exact .nil
      · exact (List.pairwise_singleton _ _).sublist ((List.filter_sublist).map _)
    · intro j hj k hk
      obtain ⟨e, he, rfl⟩ := List.mem_map.mp hj
      obtain ⟨f, hf, rfl⟩ := List.mem_map.mp hk
      obtain ⟨he, heb⟩ := List.mem_filter.mp he
      obtain ⟨hf, hfb⟩ := List.mem_filter.mp hf
      rcases hnew with ⟨_, rfl⟩ | ⟨_, a, hreports, rfl⟩
      · simp at hf
      · obtain rfl := List.mem_singleton.mp hf
        simp only [decide_eq_true_eq] at heb hfb
        exact index_lt_of_unready h hserial hu hnot he (heb.trans hfb.symm)

theorem books_quiet {l : Label} (h : Books config timings ends s) (hserial : Serial config s)
    (hstep : Steps config timings s l t) (hl : ∀ i action, l ≠ .transfer i action) :
    Books config timings ends t := by
  cases hstep with
  | push | stop => exact books_phase h rfl (fun _ _ hi => hi) rfl rfl h.stored
  | exit hphase => exact books_phase h rfl (fun _ _ hi => hi) rfl (by rw [hphase]; rfl) (by simp)
  | pop req hphase =>
      have htickets := h.tickets
      rw [hphase] at htickets
      refine books_frame h rfl (fun _ _ hi => hi) ?_ (by simp)
      simp only [List.map_append, htickets, inHand, Option.toList_none, Option.toList_some, List.map_nil,
        List.append_nil]
  | await req bidx hphase =>
      refine books_phase h rfl ?_ rfl (by rw [hphase]; rfl) (by simp)
      intro bank i hi
      dsimp only at hi
      by_cases hb : bank = bidx.toUInt32
      · rw [hb, Function.update_self] at hi
        cases hi
      · rwa [Function.update_of_ne hb] at hi
  | loadCycle req bank hphase => exact books_phase h rfl (fun _ _ hi => hi) rfl (by rw [hphase]; rfl) (by simp)
  | openRow req bank banks openRowStart row hphase =>
      exact books_phase h rfl (fun _ _ hi => hi) rfl (by rw [hphase]; rfl) (by simp)
  | terminate req bank banks openRowStart row hphase =>
      exact books_phase h rfl (fun _ _ hi => hi) rfl (by rw [hphase]; rfl) (by simp)
  | storeCycle req bank openRowStart openRowEnd hphase hend =>
      refine books_phase h rfl (fun _ _ hi => hi) rfl (by rw [hphase]; rfl) ?_
      intro r b start finish hr
      injection hr with _ _ hstart hfinish
      rw [← hstart, ← hfinish]
      exact hend
  | launch req bank openRowStart openRowEnd col data hphase hcol =>
      obtain ⟨_, hbank⟩ := hserial.free req bank (by rw [hphase]; rfl)
      refine books_launch h hphase ?_ rfl rfl rfl rfl
      simp [ticket, ticketOf, hbank, colOf, hcol]
  | transferData i | loadTransferCycle i | storeTransferCycle i | sendResponse i => exact absurd rfl (hl i _)

theorem books_step {l : Label} (h : Books config timings ends s) (hserial : Serial config s)
    (hstep : Steps config timings s l t) :
    Books config timings (ends ++ (ending timings s l).toList) t := by
  cases l with
  | push | stop | dispatch =>
      simpa only [ending, Option.toList_none, List.append_nil] using books_quiet h hserial hstep nofun
  | transfer i action =>
      cases hstep with
      | transferData _ u returns hu hstatus =>
          apply books_move h hserial hu (by rw [hstatus]; nofun)
          cases returns with
          | true => exact .inl ⟨nofun, rfl⟩
          | false => exact .inr ⟨rfl, .transferFailed, trivial, by simp [ending, hu]⟩
      | loadTransferCycle _ u hu hstatus =>
          exact books_move h hserial hu (by rw [hstatus]; nofun) (.inl ⟨nofun, rfl⟩)
      | storeTransferCycle _ u cycle hu hstatus =>
          exact books_move h hserial hu (by rw [hstatus]; nofun) (.inl ⟨nofun, rfl⟩)
      | sendResponse _ u data n hu hstatus hdata =>
          exact books_move h hserial hu (by rw [hstatus]; nofun)
            (.inr ⟨rfl, _, reports_sending hdata n, by simp [ending, hu]⟩)

def addressee (e : Ending) : Int32 × UInt64 := (e.ticket.clientFd, e.ticket.seq)

theorem subperm_filterMap {α β : Type} {l m : List α} (h : l.Subperm m) (f : α → Option β) :
    (l.filterMap f).Subperm (m.filterMap f) := by
  obtain ⟨k, hperm, hsub⟩ := h
  exact ⟨k.filterMap f, hperm.filterMap f, hsub.filterMap f⟩

theorem map_subperm_of_indices {α β γ : Type} {xs : List α} {g : α → γ} {ys : List β} {index : β → Nat}
    {f : β → γ} (hnodup : (ys.map index).Nodup)
    (hown : ∀ y ∈ ys, ∃ x, xs[index y]? = some x ∧ f y = g x) : (ys.map f).Subperm (xs.map g) := by
  have hsub : (ys.map index).Subperm (List.range xs.length) := by
    apply List.subperm_of_subset hnodup
    intro i hi
    obtain ⟨y, hy, rfl⟩ := List.mem_map.mp hi
    obtain ⟨x, hx, _⟩ := hown y hy
    exact List.mem_range.mpr (List.getElem?_eq_some_iff.mp hx).1
  have hys : (ys.map index).filterMap (fun i => (xs[i]?).map g) = ys.map f := by
    rw [List.filterMap_map, ← List.filterMap_eq_map]
    apply List.filterMap_congr
    intro y hy
    obtain ⟨x, hx, hf⟩ := hown y hy
    simp [hx, hf]
  have hxs : (List.range xs.length).filterMap (fun i => (xs[i]?).map g) = xs.map g := by
    have hsome : (List.range xs.length).map (fun i => (xs[i]?).map g) = (xs.map g).map some := by
      apply List.ext_getElem?
      intro i
      rcases Nat.lt_or_ge i xs.length with hi | hi <;> simp [hi]
    have hfilter := congrArg (List.filterMap id) hsome
    simpa only [List.filterMap_map, Function.comp_def, id_eq, List.filterMap_eq_map'] using hfilter
  have hmapped := subperm_filterMap hsub fun i => (xs[i]?).map g
  rwa [hys, hxs] at hmapped

theorem Books.nodup (h : Books config timings ends s) : (ends.map (·.index)).Nodup := by
  rw [List.nodup_iff_count_le_one]
  intro i
  rw [h.once i]
  exact Bool.toNat_le _

theorem Books.subperm (h : Books config timings ends s) : (ends.map (·.ticket)).Subperm (s.transfers.map ticket) := by
  apply map_subperm_of_indices h.nodup
  intro e he
  obtain ⟨t, ht, hticket, _⟩ := h.own e he
  exact ⟨t, ht, hticket⟩

theorem Books.addressees (h : Books config timings ends s) {ls : List Label} (hordered : Ordered ls s) :
    (ends.map addressee).Subperm ((pushed ls).map fun req => (req.clientFd, req.seq)) := by
  have hdispatched : (s.transfers.map ticket).Subperm (s.dispatched.map (ticketOf config)) := by
    rw [h.tickets]
    exact (List.sublist_append_left _ _).subperm
  have hpushed : (s.dispatched.map (ticketOf config)).Subperm ((pushed ls).map (ticketOf config)) := by
    simpa only [List.filterMap_eq_map'] using
      subperm_filterMap ((List.sublist_append_left _ _).subperm.trans hordered.perm.subperm)
        fun req => some (ticketOf config req)
  have hall := subperm_filterMap ((h.subperm.trans hdispatched).trans hpushed) fun k => some (k.clientFd, k.seq)
  rw [List.filterMap_eq_map', List.map_map, List.map_map] at hall
  exact hall

theorem Books.finished_of_inHand (h : Books config timings ends s) (hhand : inHand s.phase = none)
    (hready : ∀ t ∈ s.transfers, t.status = .ready) :
    (ends.map (·.ticket)).Perm (s.dispatched.map (ticketOf config)) := by
  have htickets := h.tickets
  rw [hhand, Option.toList_none, List.map_nil, List.append_nil] at htickets
  rw [htickets]
  apply h.subperm.perm_of_length_le
  have hindices : List.range s.transfers.length ⊆ ends.map (·.index) := by
    intro i hi
    have hlt := List.mem_range.mp hi
    have hi : isReady s i = true := by
      rw [isReady, List.getElem?_eq_getElem hlt]
      simpa using hready _ (List.getElem_mem hlt)
    apply List.count_pos_iff.mp
    rw [h.once i, hi]
    exact Nat.one_pos
  have hlength := (List.subperm_of_subset List.nodup_range hindices).length_le
  simpa using hlength

theorem Books.finished (h : Books config timings ends s) (hphase : s.phase = .waiting)
    (hready : ∀ t ∈ s.transfers, t.status = .ready) :
    (ends.map (·.ticket)).Perm (s.dispatched.map (ticketOf config)) :=
  h.finished_of_inHand (by rw [hphase]; rfl) hready

variable (config timings) in
/-- What a run's responses are, in whatever order its threads took their steps. -/
structure Answered (ls : List Label) (ends : List Ending) (s : Dispatcher) : Prop extends
    Books config timings ends s where
  pushed : (ends.map addressee).Subperm ((DispatchOrder.pushed ls).map fun req => (req.clientFd, req.seq))
  finished : s.phase = .waiting → (∀ t ∈ s.transfers, t.status = .ready) →
    (ends.map (·.ticket)).Perm (s.dispatched.map (ticketOf config))

theorem books_of_run {currentCycle : UInt64} {ls : List Label}
    (h : run (Dispatcher.step config timings) (initial currentCycle) ls = some s) :
    Serial config s ∧ Books config timings (endings config timings currentCycle ls) s :=
  emitted_induction (fun ends s => Serial config s ∧ Books config timings ends s)
    ⟨serial_initial currentCycle, books_initial currentCycle⟩
    (fun _ _ _ _ hu hstep => ⟨serial_step hu.1 (steps_of_step hstep).2,
      books_step hu.2 hu.1 (steps_of_step hstep).2⟩) h

theorem run_answered {currentCycle : UInt64} {ls : List Label}
    (h : run (Dispatcher.step config timings) (initial currentCycle) ls = some s) :
    Answered config timings ls (endings config timings currentCycle ls) s := by
  obtain ⟨_, hbooks⟩ := books_of_run h
  exact ⟨hbooks, hbooks.addressees (ordered_of_run h), hbooks.finished⟩

/-- Of the two requests that cross, the first is never answered. -/
def answeredCrossing : List Label := crossing ++ [.transfer 1 (.sendResponse [] 48)]

theorem run_answered_crossing :
    endings fourBanks ⟨24, 24, 12⟩ 0 answeredCrossing =
      [⟨0, ⟨some 0, some 102, false, 5, 0⟩, 60, .transferFailed⟩,
        ⟨1, ⟨some 2, some 0, true, 6, 1⟩, 60, .response ⟨1, 60, true, []⟩⟩] ∧
    ∃ s, run (Dispatcher.step fourBanks ⟨24, 24, 12⟩) (initial 0) answeredCrossing = some s ∧
      Answered fourBanks ⟨24, 24, 12⟩ answeredCrossing
        (endings fourBanks ⟨24, 24, 12⟩ 0 answeredCrossing) s :=
  ⟨by decide, _, rfl, run_answered rfl⟩

end MemSim.Answers
