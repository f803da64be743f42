import MemSim.Dispatcher
import MemSim.Runs

namespace MemSim.DispatchOrder

open Machine DRAMRequest Dispatcher Runs

variable (config : DRAMConfig)

def bankOf (req : DRAMRequest) : Option UInt32 :=
  match DRAMController.getBankId config req.address with
  | .ok bidx => some bidx.toUInt32
  | .error _ => none

def rowOf (req : DRAMRequest) : Option UInt32 :=
  match DRAMController.getRowId config req.address with
  | .ok row => some row.toUInt32
  | .error _ => none

def colOf (req : DRAMRequest) : Option UInt32 :=
  match DRAMController.getColId config req.address with
  | .ok col => some col.toUInt32
  | .error _ => none

def transferOf (req : DRAMRequest) (bank : UInt32) (found : Option UInt32) : List Call :=
  (colOf config req).toList.map fun col => .transferData bank col req.isWrite found

/-- The calls that serve a request: its row is opened, and its transfer finds it open. -/
def callsOf (req : DRAMRequest) : List Call :=
  match bankOf config req, rowOf config req with
  | some bank, some row => .openRow bank row :: transferOf config req bank (some row)
  | _, _ => []

def callsOn (calls : List Call) (bank : UInt32) : List Call := calls.filter (·.bank = bank)

def requestsOn (reqs : List DRAMRequest) (bank : UInt32) : List DRAMRequest :=
  reqs.filter (bankOf config · = some bank)

def owedByTransfer (transfers : List Transfer) (recorded : Option Nat) (bank : UInt32)
    (found : Option UInt32) : List Call :=
  match recorded.bind (transfers[·]?) with
  | some t => if t.status = .launched then [.transferData bank t.col t.isWrite found] else []
  | none => []

def owedByDispatcher (phase : Phase) (bank : UInt32) (found : Option UInt32) : List Call :=
  match phase with
  | .waiting | .exited => []
  | .popped req | .awaited req _ | .started req _ _ =>
      if bankOf config req = some bank then callsOf config req else []
  | .opened req b _ | .stored req b _ _ => if b = bank then transferOf config req bank found else []
  | .terminated req b => if b = bank then transferOf config req bank (rowOf config req) else []

def held : Phase → Option (DRAMRequest × UInt32)
  | .awaited req bank | .started req bank _ | .opened req bank _ | .stored req bank _ _ => some (req, bank)
  | _ => none

def inHand : Phase → Option DRAMRequest
  | .waiting | .exited => none
  | .popped req | .awaited req _ | .started req _ _ | .opened req _ _ | .stored req _ _ _
  | .terminated req _ => some req

/-- The calls made and those owed are the calls of the dispatched requests, and
a transfer that is not ready is the recorded one of its bank. -/
structure Serial (s : Dispatcher) : Prop where
  log : ∀ bank, callsOn s.calls bank ++
      owedByTransfer s.transfers (s.lastTransfer bank) bank (s.openRows bank) ++
      owedByDispatcher config s.phase bank (s.openRows bank) =
    (requestsOn config s.dispatched bank).flatMap (callsOf config)
  last : ∀ (i : Nat) (t : Transfer), s.transfers[i]? = some t → t.status ≠ .ready →
    s.lastTransfer t.bank = some i
  own : ∀ bank i, s.lastTransfer bank = some i → ∃ t, s.transfers[i]? = some t ∧ t.bank = bank
  free : ∀ req bank, held s.phase = some (req, bank) →
    s.lastTransfer bank = none ∧ bankOf config req = some bank

variable {config} {timings : DRAMTiming} {s : Dispatcher}

theorem serial_initial (currentCycle : UInt64) : Serial config (initial currentCycle) :=
  ⟨fun _ => rfl, by simp [initial], by simp [initial], by simp [initial, held]⟩

theorem callsOn_snoc (calls : List Call) (c : Call) (bank : UInt32) :
    callsOn (calls ++ [c]) bank = callsOn calls bank ++ if c.bank = bank then [c] else [] := by
  rw [callsOn, List.filter_append]
  by_cases hb : c.bank = bank <;> simp [callsOn, hb]

theorem requestsOn_snoc (reqs : List DRAMRequest) (req : DRAMRequest) (bank : UInt32) :
    requestsOn config (reqs ++ [req]) bank =
      requestsOn config reqs bank ++ if bankOf config req = some bank then [req] else [] := by
  rw [requestsOn, List.filter_append]
  by_cases hb : bankOf config req = some bank <;> simp [requestsOn, hb]

theorem serial_pop {req : DRAMRequest} {queue : List DRAMRequest} {expectedSeq : UInt64}
    (h : Serial config s) (hphase : s.phase = .waiting) :
    Serial config { s with
      queue
      expectedSeq
      phase := .popped req
      dispatched := s.dispatched ++ [req] } := by
  refine ⟨?_, h.last, h.own, nofun⟩
  intro bank
  have hlog := h.log bank
  rw [hphase, owedByDispatcher, List.append_nil] at hlog
  dsimp only
  rw [hlog, requestsOn_snoc, List.flatMap_append, owedByDispatcher]
  congr 1
  split <;> simp

theorem serial_await {req : DRAMRequest} {bank : UInt32} (h : Serial config s)
    (hphase : s.phase = .popped req) (hbank : bankOf config req = some bank) (hfree : s.isFree bank) :
    Serial config { s with
      phase := .awaited req bank
      lastTransfer := Function.update s.lastTransfer bank none } := by
  have hready : ∀ i t, s.lastTransfer bank = some i → s.transfers[i]? = some t → t.status = .ready := by
    intro i t hi ht
    simpa [isFree, hi, ht] using hfree
  refine ⟨?_, ?_, ?_, ?_⟩
  · intro b
    have hlog := h.log b
    rw [hphase, owedByDispatcher] at hlog
    dsimp only
    rw [← hlog, owedByDispatcher]
    congr 2
    by_cases hb : b = bank
    · subst hb
      rw [Function.update_self]
      cases hi : s.lastTransfer b with
      | none => rfl
      | some i =>
          obtain ⟨t, ht, _⟩ := h.own b i hi
          simp [owedByTransfer, ht, hready i t hi ht]
    · rw [Function.update_of_ne hb]
  · intro i t ht hnot
    have hi := h.last i t ht hnot
    have hb : t.bank ≠ bank := by
      intro hb
      rw [hb] at hi
      exact hnot (hready i t hi ht)
    dsimp only
    rwa [Function.update_of_ne hb]
  · intro b i hi
    dsimp only at hi
    have hb : b ≠ bank := by
      rintro rfl
      rw [Function.update_self] at hi
      cases hi
    rw [Function.update_of_ne hb] at hi
    exact h.own b i hi
  · intro r b hr
    obtain ⟨rfl, rfl⟩ := Prod.mk.inj (Option.some.inj hr)
    exact ⟨Function.update_self _ _ _, hbank⟩

theorem serial_openRow {req : DRAMRequest} {bank row : UInt32} {openRowStart : UInt64} (h : Serial config s)
    (hphase : s.phase = .started req bank openRowStart) (hrow : rowOf config req = some row) :
    Serial config { s with
      phase := .opened req bank openRowStart
      openRows := Function.update s.openRows bank (some row)
      calls := s.calls ++ [.openRow bank row] } := by
  obtain ⟨hnone, hbank⟩ := h.free req bank (by rw [hphase]; rfl)
  refine ⟨?_, h.last, h.own, ?_⟩
  · intro b
    have hlog := h.log b
    rw [hphase, owedByDispatcher] at hlog
    dsimp only
    rw [← hlog, callsOn_snoc, owedByDispatcher]
    by_cases hb : bank = b
    · subst hb
      rw [Function.update_self, hnone, if_pos hbank, callsOf, hbank, hrow]
      simp [owedByTransfer, Call.bank]
    · have hother : bankOf config req ≠ some b := by
        rw [hbank]
        simpa using hb
      rw [Function.update_of_ne (Ne.symm hb), if_neg hother, if_neg hb]
      simp [Call.bank, hb]
  · intro r b hr
    obtain ⟨rfl, rfl⟩ := Prod.mk.inj (Option.some.inj hr)
    exact ⟨hnone, hbank⟩

theorem serial_terminate {req : DRAMRequest} {bank row : UInt32} {openRowStart : UInt64}
    (h : Serial config s) (hphase : s.phase = .started req bank openRowStart)
    (hrow : rowOf config req = some row) :
    Serial config { s with
      phase := .terminated req bank
      calls := s.calls ++ [.openRow bank row] } := by
  obtain ⟨hnone, hbank⟩ := h.free req bank (by rw [hphase]; rfl)
  refine ⟨?_, h.last, h.own, nofun⟩
  intro b
  have hlog := h.log b
  rw [hphase, owedByDispatcher] at hlog
  dsimp only
  rw [← hlog, callsOn_snoc, owedByDispatcher]
  by_cases hb : bank = b
  · subst hb
    rw [hnone, if_pos hbank, callsOf, hbank, hrow]
    simp [owedByTransfer, Call.bank]
  · have hother : bankOf config req ≠ some b := by
      rw [hbank]
      simpa using hb
    rw [if_neg hother, if_neg hb]
    simp [Call.bank, hb]

theorem append_cases {transfers : List Transfer} {i : Nat} {new u : Transfer}
    (h : (transfers ++ [new])[i]? = some u) :
    transfers[i]? = some u ∨ (i = transfers.length ∧ u = new) := by
  rcases Nat.lt_or_ge i transfers.length with hi | hi
  · rw [List.getElem?_append_left hi] at h
    exact .inl h
  · rw [List.getElem?_append_right hi] at h
    obtain ⟨hlt, hnew⟩ := List.getElem?_eq_some_iff.mp h
    rw [List.length_singleton] at hlt
    exact .inr ⟨by omega, by simpa using hnew.symm⟩

theorem getElem?_set_of_ne {l : List Transfer} {i j : Nat} (h : i ≠ j) (t : Transfer) :
    (l.set i t)[j]? = l[j]? := by
  rw [List.getElem?_set, if_neg h]

theorem set_cases {transfers : List Transfer} {i j : Nat} {new u : Transfer}
    (h : (transfers.set i new)[j]? = some u) : (j = i ∧ u = new) ∨ (j ≠ i ∧ transfers[j]? = some u) := by
  by_cases hij : i = j
  · subst hij
    obtain ⟨hlt, hget⟩ := List.getElem?_eq_some_iff.mp h
    rw [List.getElem_set_self] at hget
    exact .inl ⟨rfl, hget.symm⟩
  · rw [getElem?_set_of_ne hij] at h
    exact .inr ⟨Ne.symm hij, h⟩

theorem ready_of_held (h : Serial config s) {req : DRAMRequest} {bank : UInt32}
    (hheld : held s.phase = some (req, bank)) {i : Nat} {u : Transfer} (hu : s.transfers[i]? = some u)
    (hbank : u.bank = bank) : u.status = .ready := by
  by_contra hnot
  have hlast := h.last i u hu hnot
  rw [hbank, (h.free req bank hheld).1] at hlast
  cases hlast

theorem serial_launch {req : DRAMRequest} {bank : UInt32} {openRowStart openRowEnd : UInt64} {t : Transfer}
    (h : Serial config s) (hphase : s.phase = .stored req bank openRowStart openRowEnd)
    (hcol : colOf config req = some t.col) (hbank : t.bank = bank) (hwrite : t.isWrite = req.isWrite)
    (hstatus : t.status = .launched) :
    Serial config { s with
      phase := .waiting
      lastTransfer := Function.update s.lastTransfer bank (some s.transfers.length)
      transfers := s.transfers ++ [t] } := by
  obtain ⟨hnone, _⟩ := h.free req bank (by rw [hphase]; rfl)
  have hlt : ∀ {i t}, s.transfers[i]? = some t → i < s.transfers.length :=
    fun ht => (List.getElem?_eq_some_iff.mp ht).1
  refine ⟨?_, ?_, ?_, nofun⟩
  · intro b
    have hlog := h.log b
    rw [hphase, owedByDispatcher] at hlog
    dsimp only
    rw [← hlog, owedByDispatcher]
    by_cases hb : bank = b
    · subst hb
      rw [Function.update_self, hnone]
      simp [owedByTransfer, hstatus, transferOf, hcol, hwrite]
    · rw [Function.update_of_ne (Ne.symm hb), if_neg hb]
      congr 2
      cases hi : s.lastTransfer b with
      | none => rfl
      | some i =>
          obtain ⟨u, hu, _⟩ := h.own b i hi
          simp [owedByTransfer, List.getElem?_append_left (hlt hu)]
  · intro i u hu hnot
    dsimp only
    rcases append_cases hu with hu | ⟨rfl, rfl⟩
    · have hb : u.bank ≠ bank := fun hb => hnot (ready_of_held h (by rw [hphase]; rfl) hu hb)
      rw [Function.update_of_ne hb]
      exact h.last i u hu hnot
    · rw [hbank, Function.update_self]
  · intro b i hi
    dsimp only at hi ⊢
    by_cases hb : bank = b
    · subst hb
      rw [Function.update_self] at hi
      obtain rfl := Option.some.inj hi
      exact ⟨t, by simp, hbank⟩
    · rw [Function.update_of_ne (Ne.symm hb)] at hi
      obtain ⟨u, hu, hub⟩ := h.own b i hi
      exact ⟨u, by rw [List.getElem?_append_left (hlt hu), hu], hub⟩

theorem callsOn_owed (calls : List Call) (transfers : List Transfer) (recorded : Option Nat)
    (bank : UInt32) (found : Option UInt32) (b : UInt32) :
    callsOn (calls ++ owedByTransfer transfers recorded bank found) b =
      callsOn calls b ++ if bank = b then owedByTransfer transfers recorded bank found else [] := by
  unfold owedByTransfer
  split
  · split
    · exact callsOn_snoc _ _ _
    · simp
  · simp

/-- A transfer in flight moves on; its bank, and every other transfer, stays. -/
theorem serial_move {i : Nat} {t : Transfer} {status : TransferStatus} {calls : List Call}
    {currentCycle : UInt64} (h : Serial config s) (ht : s.transfers[i]? = some t)
    (hnot : t.status ≠ .ready) (hstatus : status ≠ .launched)
    (hcalls : calls = s.calls ++ owedByTransfer s.transfers (some i) t.bank (s.openRows t.bank)) :
    Serial config ({ s with calls, currentCycle }.moveTransfer i t status) := by
  obtain ⟨hi, hti⟩ := List.getElem?_eq_some_iff.mp ht
  have hself : ∀ u, (s.transfers.set i u)[i]? = some u := fun u => by
    rw [List.getElem?_set, if_pos rfl, if_pos hi]
  have hlast := h.last i t ht hnot
  unfold moveTransfer
  refine ⟨?_, ?_, ?_, h.free⟩
  · intro b
    have hlog := h.log b
    dsimp only
    rw [← hlog]
    rw [hcalls, callsOn_owed]
    congr 1
    by_cases hb : t.bank = b
    · subst hb
      have hdone : owedByTransfer (s.transfers.set i { t with status }) (some i) t.bank
          (s.openRows t.bank) = [] := by
        simp [owedByTransfer, hself, hstatus]
      rw [hlast, hdone, if_pos rfl, List.append_nil]
    · rw [if_neg hb, List.append_nil]
      congr 1
      cases hj : s.lastTransfer b with
      | none => rfl
      | some j =>
          obtain ⟨u, hu, hub⟩ := h.own b j hj
          have hij : i ≠ j := by
            rintro rfl
            rw [ht] at hu
            obtain rfl := Option.some.inj hu
            exact hb hub
          simp only [owedByTransfer, Option.bind_some, getElem?_set_of_ne hij]
  · intro j u hu hne
    rcases set_cases hu with ⟨rfl, rfl⟩ | ⟨_, hu'⟩
    · exact hlast
    · exact h.last j u hu' hne
  · intro b j hj
    dsimp only at hj ⊢
    obtain ⟨u, hu, hub⟩ := h.own b j hj
    by_cases hij : i = j
    · subst hij
      rw [ht] at hu
      obtain rfl := Option.some.inj hu
      exact ⟨_, hself _, hub⟩
    · exact ⟨u, by rw [getElem?_set_of_ne hij, hu], hub⟩

theorem serial_move_quiet {i : Nat} {t : Transfer} {status : TransferStatus} {currentCycle : UInt64}
    (h : Serial config s) (ht : s.transfers[i]? = some t) (hlaunched : t.status ≠ .launched)
    (hnot : t.status ≠ .ready) (hstatus : status ≠ .launched) :
    Serial config ({ s with currentCycle }.moveTransfer i t status) := by
  apply serial_move h ht hnot hstatus
  simp [owedByTransfer, ht, hlaunched]

theorem serial_phase {phase : Phase} {currentCycle : UInt64} (h : Serial config s)
    (hheld : held phase = held s.phase)
    (howed : ∀ bank found, owedByDispatcher config phase bank found = owedByDispatcher config s.phase bank found) :
    Serial config { s with phase, currentCycle } := by
  refine ⟨?_, h.last, h.own, ?_⟩
  · intro bank
    dsimp only
    rw [howed]
    exact h.log bank
  · dsimp only
    rw [hheld]
    exact h.free

theorem serial_step {t : Dispatcher} {l : Label} (h : Serial config s)
    (hstep : Steps config timings s l t) : Serial config t := by
  cases hstep with
  | push | stop => exact ⟨h.log, h.last, h.own, h.free⟩
  | exit hphase => exact serial_phase h (by rw [hphase]; rfl) (by rw [hphase]; exact fun _ _ => rfl)
  | pop req hphase => exact serial_pop h hphase
  | await req bidx hphase hbidx hfree => exact serial_await h hphase (by rw [bankOf, hbidx]) hfree
  | loadCycle req bank hphase =>
      exact serial_phase h (by rw [hphase]; rfl) (by rw [hphase]; exact fun _ _ => rfl)
  | openRow req bank banks openRowStart row hphase hrow =>
      exact serial_openRow h hphase (by rw [rowOf, hrow])
  | terminate req bank banks openRowStart row hphase hrow =>
      exact serial_terminate h hphase (by rw [rowOf, hrow])
  | storeCycle req bank openRowStart openRowEnd hphase =>
      exact serial_phase h (by rw [hphase]; rfl) (by rw [hphase]; exact fun _ _ => rfl)
  | launch req bank openRowStart openRowEnd col data hphase hcol =>
      exact serial_launch h hphase (by rw [colOf, hcol]) rfl rfl rfl
  | transferData i t returns ht hstatus =>
      apply serial_move h ht (by rw [hstatus]; nofun)
      · cases returns <;> nofun
      · simp [owedByTransfer, ht, hstatus]
  | loadTransferCycle i t ht hstatus =>
      exact serial_move_quiet h ht (by rw [hstatus]; nofun) (by rw [hstatus]; nofun) nofun
  | storeTransferCycle i t cycle ht hstatus =>
      exact serial_move_quiet h ht (by rw [hstatus]; nofun) (by rw [hstatus]; nofun) nofun
  | sendResponse i t data n ht hstatus =>
      exact serial_move_quiet h ht (by rw [hstatus]; nofun) (by rw [hstatus]; nofun) nofun

def requested : Label → Option DRAMRequest
  | .push req => some req
  | _ => none

def pushed (ls : List Label) : List DRAMRequest := ls.filterMap requested

theorem pushed_snoc (ls : List Label) (l : Label) :
    pushed (ls ++ [l]) = pushed ls ++ (requested l).toList := by
  rw [pushed, List.filterMap_append]
  cases h : requested l <;> simp [pushed, h]

/-- The dispatcher counts its dispatches, and no request is lost or copied. -/
structure Ordered (ls : List Label) (s : Dispatcher) : Prop where
  seqs : s.dispatched.map (·.seq) = (List.range s.dispatched.length).map UInt64.ofNat
  expected : s.expectedSeq = UInt64.ofNat s.dispatched.length
  perm : (s.dispatched ++ s.queue).Perm (pushed ls)

theorem ordered_initial (currentCycle : UInt64) : Ordered [] (initial currentCycle) :=
  ⟨rfl, rfl, .refl []⟩

theorem ordered_step {ls : List Label} {t : Dispatcher} {l : Label} (h : Ordered ls s)
    (hstep : Steps config timings s l t) : Ordered (ls ++ [l]) t := by
  cases hstep with
  | push req =>
      refine ⟨h.seqs, h.expected, ?_⟩
      simp only [pushed_snoc, requested, Option.toList_some]
      apply List.perm_middle.trans
      exact (h.perm.cons req).trans (List.perm_append_singleton _ _).symm
  | pop req hphase htop hstop hseq =>
      refine ⟨?_, ?_, ?_⟩
      · dsimp only
        rw [List.map_append, h.seqs, List.length_append, List.length_singleton, List.range_succ,
          List.map_append, List.map_singleton, List.map_singleton, hseq, h.expected]
      · dsimp only
        rw [h.expected, List.length_append, List.length_singleton, UInt64.ofNat_add]
        rfl
      · simp only [pushed_snoc, requested, Option.toList_none, List.append_nil]
        rw [List.append_assoc]
        exact ((List.perm_cons_erase (top_mem htop)).symm.append_left s.dispatched).trans h.perm
  | stop | exit | await | loadCycle | openRow | terminate | storeCycle | launch | transferData
  | loadTransferCycle | storeTransferCycle | sendResponse =>
      refine ⟨h.seqs, h.expected, ?_⟩
      simp only [pushed_snoc, requested, Option.toList_none, List.append_nil]
      exact h.perm

/-- Of the queued requests only the next in order can be on top of the others. -/
theorem Ordered.top_eq {ls : List Label} (h : Ordered ls s) (hdistinct : ((pushed ls).map (·.seq)).Nodup)
    {req : DRAMRequest} (hmem : req ∈ s.queue) (hseq : req.seq = s.expectedSeq) :
    top s.queue = some req := by
  have hnodup : ((s.dispatched ++ s.queue).map (·.seq)).Nodup := ((h.perm.map _).nodup_iff).mpr hdistinct
  rw [List.map_append, List.nodup_append] at hnodup
  obtain ⟨_, hqueue, hapart⟩ := hnodup
  have hle : ∀ other ∈ s.queue, req.seq.toNat ≤ other.seq.toNat := by
    intro other hother
    by_contra hlt
    have hreq : req.seq.toNat ≤ s.dispatched.length := by
      rw [hseq, h.expected, UInt64.toNat_ofNat']
      exact Nat.mod_le _ _
    have hgone : other.seq ∈ s.dispatched.map (·.seq) := by
      rw [h.seqs, List.mem_map]
      exact ⟨other.seq.toNat, List.mem_range.mpr (by omega), UInt64.ofNat_toNat⟩
    exact hapart _ hgone _ (List.mem_map_of_mem hother) rfl
  obtain ⟨first, hfirst⟩ := top_isSome (List.ne_nil_of_mem hmem)
  have heq : first.seq = req.seq := by
    apply UInt64.toNat_inj.mp
    exact Nat.le_antisymm (top_seq_le hfirst hmem) (hle first (top_mem hfirst))
  rw [hfirst, List.inj_on_of_nodup_map hqueue (top_mem hfirst) hmem heq]

section

variable {currentCycle : UInt64} {ls : List Label}

theorem serial_of_run (h : run (Dispatcher.step config timings) (initial currentCycle) ls = some s) :
    Serial config s :=
  run_induction (fun _ => Serial config) (serial_initial currentCycle)
    (fun _ _ _ _ hu hstep => serial_step hu (steps_of_step hstep).2) ls h

theorem ordered_of_run (h : run (Dispatcher.step config timings) (initial currentCycle) ls = some s) :
    Ordered ls s :=
  run_induction Ordered (ordered_initial currentCycle)
    (fun _ _ _ _ hu hstep => ordered_step hu (steps_of_step hstep).2) ls h

end

def fourBanks : DRAMConfig :=
  { sysConfig := ⟨14, 8, 1, 64⟩
    chipWidthBits := 8
    bankBits := 2
    rowBits := 6
    colBits := 6
    addressMappings := ⟨0xC, 0x3F0, 0xFC00⟩ }

end MemSim.DispatchOrder
