import MemSim.Answers
import MemSim.ClockBounds

namespace MemSim.OneBank

open Machine Runs Dispatcher DispatchOrder Quiescence SimulatedTime Answers ClockBounds

def AllOn (config : DRAMConfig) (bank : UInt32) (s : Dispatcher) : Prop :=
  ∀ req ∈ s.dispatched, bankOf config req = some bank

instance (config : DRAMConfig) (bank : UInt32) (s : Dispatcher) : Decidable (AllOn config bank s) :=
  inferInstanceAs (Decidable (∀ req ∈ s.dispatched, bankOf config req = some bank))

variable (timings : DRAMTiming)

/-- The cycles the first `n` requests take one after the other: each opens its
row, and one whose `transfer_data` has returned transfers. -/
def elapsed (ls : List Label) : Nat → Nat
  | 0 => 0
  | n + 1 => elapsed ls n + openingCycles timings + if returned n ∈ ls then timings.transfer.toNat else 0

def moved : TransferStatus → Bool
  | .stored | .ready => true
  | _ => false

structure InTurn (first : Nat) (ls : List Label) (s : Dispatcher) : Prop where
  settled : ∀ (i j : Nat) (t u : Transfer), i < j → s.transfers[i]? = some t → s.transfers[j]? = some u →
    t.status = .ready
  known : ∀ i, returned i ∈ ls → ∃ t, s.transfers[i]? = some t ∧ t.status ≠ .launched
  answered : ∀ (i : Nat) (t : Transfer), s.transfers[i]? = some t → t.status ≠ .launched → t.status ≠ .ready →
    returned i ∈ ls
  loaded : ∀ t ∈ s.transfers, ∀ cycle, t.status = .loaded cycle → cycle = t.openRowEnd
  starts : ∀ (i : Nat) (t : Transfer), s.transfers[i]? = some t →
    t.openRowStart.toNat = first + elapsed timings ls i
  started : ∀ bank openRowStart, startOf s.phase = some (bank, openRowStart) →
    openRowStart.toNat = first + elapsed timings ls s.transfers.length
  pending : ∀ t ∈ s.transfers, moved t.status = false → s.currentCycle = t.openRowEnd
  clock : (∀ t ∈ s.transfers, moved t.status = true) →
    s.currentCycle.toNat =
      first + elapsed timings ls s.transfers.length + aboutToLaunch s.phase * openingCycles timings

variable {timings} {config : DRAMConfig} {s t : Dispatcher} {ls : List Label} {l : Label} {first : Nat}
  {bank : UInt32}

theorem inTurn_initial (currentCycle : UInt64) : InTurn timings currentCycle.toNat [] (initial currentCycle) where
  settled _ _ _ _ _ h := by simp [initial] at h
  known _ h := absurd h List.not_mem_nil
  answered _ _ h := by simp [initial] at h
  loaded _ h := absurd h List.not_mem_nil
  starts _ _ h := by simp [initial] at h
  started _ _ h := by cases h
  pending _ h := absurd h List.not_mem_nil
  clock _ := by simp [initial, aboutToLaunch, elapsed]

theorem bank_of_allOn {ends : List Ending} (hserial : Serial config s) (hbooks : Books config timings ends s)
    (hall : AllOn config bank s) :
    (∀ t ∈ s.transfers, t.bank = bank) ∧ ∀ req b, held s.phase = some (req, b) → b = bank := by
  have hticket : ∀ k ∈ s.dispatched.map (ticketOf config), k.bank = some bank := by
    intro k hk
    obtain ⟨req, hreq, rfl⟩ := List.mem_map.mp hk
    exact hall req hreq
  rw [hbooks.tickets] at hticket
  refine ⟨?_, ?_⟩
  · intro t ht
    exact Option.some.inj (hticket (ticket t) (List.mem_append_left _ (List.mem_map_of_mem ht)))
  · intro req b hheld
    have hhand : inHand s.phase = some req := by
      cases hphase : s.phase with
      | awaited r _ | started r _ _ | opened r _ _ | stored r _ _ _ =>
          rw [hphase] at hheld
          obtain ⟨rfl, _⟩ := Prod.mk.inj (Option.some.inj hheld)
          rfl
      | waiting | popped _ | exited | terminated _ _ =>
          rw [hphase] at hheld
          cases hheld
    have hbank := hticket (ticketOf config req) (by simp [hhand])
    rw [ticketOf, (hserial.free req b hheld).2] at hbank
    exact Option.some.inj hbank

theorem elapsed_snoc {n : Nat} (h : ∀ i, i < n → l ≠ returned i) :
    elapsed timings (ls ++ [l]) n = elapsed timings ls n := by
  induction n with
  | zero => rfl
  | succ n ih =>
      have hn : returned n ∈ ls ++ [l] ↔ returned n ∈ ls := by
        rw [List.mem_append, List.mem_singleton]
        exact or_iff_left fun hl => h n (Nat.lt_succ_self n) hl.symm
      rw [elapsed, elapsed, ih fun i hi => h i (Nat.lt_succ_of_lt hi)]
      simp only [hn]

/-- What the threads of a run on one bank know of each other. -/
structure Held (bank : UInt32) (s : Dispatcher) : Prop where
  transfers : ∀ t ∈ s.transfers, t.bank = bank
  free : ∀ req b, held s.phase = some (req, b) → ∀ t ∈ s.transfers, t.status = .ready

theorem held_of_allOn {ends : List Ending} (hserial : Serial config s) (hbooks : Books config timings ends s)
    (hall : AllOn config bank s) : Held bank s := by
  obtain ⟨htransfers, hheld⟩ := bank_of_allOn hserial hbooks hall
  refine ⟨htransfers, ?_⟩
  intro req b hphase t ht
  obtain ⟨i, hi⟩ := List.getElem?_of_mem ht
  exact ready_of_held hserial hphase hi ((htransfers t ht).trans (hheld req b hphase).symm)

theorem InTurn.frame (h : InTurn timings first ls s) (htransfers : t.transfers = s.transfers)
    (hclock : t.currentCycle = s.currentCycle) (hlaunch : aboutToLaunch t.phase = aboutToLaunch s.phase)
    (hstart : ∀ p, startOf t.phase = some p → startOf s.phase = some p)
    (hl : ∀ i, l ≠ returned i) : InTurn timings first (ls ++ [l]) t := by
  have hreturned : ∀ i, returned i ∈ ls ++ [l] ↔ returned i ∈ ls :=
    fun i => ⟨fun hi => returned_of_snoc hi (hl i), fun hi => List.mem_append_left _ hi⟩
  have helapsed : ∀ n, elapsed timings (ls ++ [l]) n = elapsed timings ls n :=
    fun n => elapsed_snoc fun i _ => hl i
  refine ⟨?_, ?_, ?_, ?_, ?_, ?_, ?_, ?_⟩
  all_goals simp only [htransfers, hclock, hlaunch, hreturned, helapsed]
  · exact h.settled
  · exact h.known
  · exact h.answered
  · exact h.loaded
  · exact h.starts
  · exact fun b start hphase => h.started b start (hstart _ hphase)
  · exact h.pending
  · exact h.clock

theorem dispatch_ne_returned {action : DispatchAction} (i : Nat) : Label.dispatch action ≠ returned i := nofun

theorem moved_of_ready {status : TransferStatus} (h : status = .ready) : moved status = true := by rw [h]; rfl

theorem InTurn.load (h : InTurn timings first ls s) (hheld : Held bank s) {req : DRAMRequest} {b : UInt32}
    (hphase : s.phase = .awaited req b) :
    InTurn timings first (ls ++ [.dispatch .loadCycle]) { s with phase := .started req b s.currentCycle } := by
  have hready := hheld.free req b (by rw [hphase]; rfl)
  have hclock := h.clock fun t ht => moved_of_ready (hready t ht)
  rw [hphase, show aboutToLaunch (.awaited req b) = 0 from rfl, Nat.zero_mul, Nat.add_zero] at hclock
  have hframe : InTurn timings first (ls ++ [.dispatch .loadCycle]) { s with phase := .awaited req b } :=
    h.frame rfl rfl (by rw [hphase]) nofun dispatch_ne_returned
  refine { hframe with started := ?_ }
  intro b' start hb
  obtain ⟨_, rfl⟩ := Prod.mk.inj (Option.some.inj hb)
  rw [elapsed_snoc fun i _ => dispatch_ne_returned i]
  exact hclock

theorem InTurn.storeCycle (h : InTurn timings first ls s) (hheld : Held bank s) {req : DRAMRequest} {b : UInt32}
    {openRowStart openRowEnd : UInt64} (hphase : s.phase = .opened req b openRowStart)
    (hend : openRowEnd.toNat = openRowStart.toNat + openingCycles timings) :
    InTurn timings first (ls ++ [.dispatch .storeCycle])
      { s with phase := .stored req b openRowStart openRowEnd, currentCycle := openRowEnd } := by
  have hready := hheld.free req b (by rw [hphase]; rfl)
  have hstart := h.started b openRowStart (by rw [hphase]; rfl)
  have hframe : InTurn timings first (ls ++ [.dispatch .storeCycle]) s :=
    h.frame rfl rfl rfl (fun _ hp => hp) dispatch_ne_returned
  refine { hframe with started := ?_, pending := ?_, clock := ?_ }
  · intro b' start hb
    exact hframe.started b' start (by rw [hphase]; exact hb)
  · intro t ht hmoved
    rw [moved_of_ready (hready t ht)] at hmoved
    cases hmoved
  · intro _
    dsimp only
    rw [elapsed_snoc fun i _ => dispatch_ne_returned i, aboutToLaunch, Nat.one_mul, hend, hstart]

theorem InTurn.launch (h : InTurn timings first ls s) (hheld : Held bank s) {req : DRAMRequest} {b : UInt32}
    {openRowStart openRowEnd : UInt64} (hphase : s.phase = .stored req b openRowStart openRowEnd)
    (hend : openRowEnd.toNat = openRowStart.toNat + openingCycles timings) {new : Transfer}
    (hnewStart : new.openRowStart = openRowStart) (hnewEnd : new.openRowEnd = openRowEnd)
    (hstatus : new.status = .launched) {lastTransfer : UInt32 → Option Nat} {data : List UInt8} :
    InTurn timings first (ls ++ [.dispatch (.launch data)])
      { s with phase := .waiting, lastTransfer, transfers := s.transfers ++ [new] } := by
  have hready := hheld.free req b (by rw [hphase]; rfl)
  have hstart := h.started b openRowStart (by rw [hphase]; rfl)
  have hclock := h.clock fun t ht => moved_of_ready (hready t ht)
  rw [hphase, aboutToLaunch, Nat.one_mul, ← hstart, ← hend] at hclock
  have hframe : InTurn timings first (ls ++ [.dispatch (.launch data)]) s :=
    h.frame rfl rfl rfl (fun _ hp => hp) dispatch_ne_returned
  have hlt : ∀ {j u}, s.transfers[j]? = some u → j < s.transfers.length :=
    fun hu => (List.getElem?_eq_some_iff.mp hu).1
  refine ⟨?_, ?_, ?_, ?_, ?_, by simp [startOf], ?_, ?_⟩
  · intro i j u v hij hu hv
    rcases append_cases hu with hu | ⟨rfl, _⟩
    · exact hready u (List.mem_of_getElem? hu)
    · rcases append_cases hv with hv | ⟨rfl, _⟩
      · exact absurd (hlt hv) (by omega)
      · exact absurd hij (Nat.lt_irrefl _)
  · intro i hi
    obtain ⟨u, hu, hne⟩ := hframe.known i hi
    exact ⟨u, by rw [List.getElem?_append_left (hlt hu), hu], hne⟩
  · intro i u hu hne hnot
    rcases append_cases hu with hu | ⟨_, rfl⟩
    · exact hframe.answered i u hu hne hnot
    · exact absurd hstatus hne
  · intro u hu cycle hloaded
    rcases List.mem_append.mp hu with hu | hu
    · exact h.loaded u hu cycle hloaded
    · rw [List.mem_singleton.mp hu, hstatus] at hloaded
      cases hloaded
  · intro i u hu
    rcases append_cases hu with hu | ⟨rfl, rfl⟩
    · exact hframe.starts i u hu
    · rw [hnewStart, hstart, elapsed_snoc fun i _ => dispatch_ne_returned i]
  · intro u hu hmoved
    rcases List.mem_append.mp hu with hu | hu
    · rw [moved_of_ready (hready u hu)] at hmoved
      cases hmoved
    · rw [List.mem_singleton.mp hu, hnewEnd]
      exact UInt64.toNat_inj.mp hclock
  · intro hmoved
    have hnew := hmoved new (List.mem_append_right _ (List.mem_singleton_self new))
    rw [hstatus] at hnew
    cases hnew

structure Last (s : Dispatcher) (i : Nat) : Prop where
  length : s.transfers.length = i + 1
  others : ∀ (j : Nat) (v : Transfer), j ≠ i → s.transfers[j]? = some v → v.status = .ready
  idle : startOf s.phase = none
  waiting : aboutToLaunch s.phase = 0

theorem InTurn.last_of_unready (h : InTurn timings first ls s) (hheld : Held bank s) {i : Nat} {u : Transfer}
    (hu : s.transfers[i]? = some u) (hnot : u.status ≠ .ready) : Last s i := by
  have hlt := (List.getElem?_eq_some_iff.mp hu).1
  have hlength : s.transfers.length = i + 1 := by
    by_contra hne
    have hnext : i + 1 < s.transfers.length := by omega
    exact hnot (h.settled i (i + 1) u _ (Nat.lt_succ_self i) hu (List.getElem?_eq_getElem hnext))
  have hfree : ∀ req b, held s.phase ≠ some (req, b) :=
    fun req b hphase => hnot (hheld.free req b hphase u (List.mem_of_getElem? hu))
  refine ⟨hlength, ?_, ?_, ?_⟩
  · intro j v hji hv
    have hj := (List.getElem?_eq_some_iff.mp hv).1
    exact h.settled j i v u (by omega) hv hu
  · cases hstart : startOf s.phase with
    | none => rfl
    | some p =>
        obtain ⟨req, hphase⟩ := held_of_startOf hstart
        exact absurd hphase (hfree req p.1)
  · cases hphase : s.phase with
    | stored req b openRowStart openRowEnd => exact absurd (by rw [hphase]; rfl) (hfree req b)
    | waiting | popped | awaited | started | opened | exited | terminated => rfl

theorem InTurn.clock_last (h : InTurn timings first ls s) {i : Nat} {u : Transfer} (hlast : Last s i)
    (hu : s.transfers[i]? = some u) (hmoved : moved u.status = true)
    (hlength : u.openRowEnd.toNat = u.openRowStart.toNat + openingCycles timings) :
    s.currentCycle.toNat = u.openRowEnd.toNat + if returned i ∈ ls then timings.transfer.toNat else 0 := by
  have hall : ∀ t ∈ s.transfers, moved t.status = true := by
    intro t ht
    obtain ⟨j, hj⟩ := List.getElem?_of_mem ht
    by_cases hji : j = i
    · subst hji
      rw [hu] at hj
      rwa [← Option.some.inj hj]
    · exact moved_of_ready (hlast.others j t hji hj)
  rw [h.clock hall, hlast.length, hlast.waiting, Nat.zero_mul, Nat.add_zero, elapsed, hlength, h.starts i u hu]
  simp only [Nat.add_assoc]

theorem InTurn.move (h : InTurn timings first ls s) {i : Nat} {u : Transfer} (hlast : Last s i)
    (hu : s.transfers[i]? = some u)
    (hlength : u.openRowEnd.toNat = u.openRowStart.toNat + openingCycles timings) {status : TransferStatus}
    {calls : List Call} {currentCycle : UInt64} (hl : ∀ j, j ≠ i → l ≠ returned j)
    (hlaunched : status ≠ .launched) (hanswered : status ≠ .ready → returned i ∈ ls ++ [l])
    (hloaded : ∀ cycle, status = .loaded cycle → cycle = u.openRowEnd)
    (hpending : moved status = false → currentCycle = u.openRowEnd)
    (hmoved : moved status = true → currentCycle.toNat =
      u.openRowEnd.toNat + if returned i ∈ ls ++ [l] then timings.transfer.toNat else 0) :
    InTurn timings first (ls ++ [l]) ({ s with calls, currentCycle }.moveTransfer i u status) := by
  have hi := (List.getElem?_eq_some_iff.mp hu).1
  have hself : (s.transfers.set i { u with status })[i]? = some { u with status } := by
    rw [List.getElem?_set, if_pos rfl, if_pos hi]
  have helapsed : ∀ n, n ≤ i → elapsed timings (ls ++ [l]) n = elapsed timings ls n :=
    fun n hn => elapsed_snoc fun j hj => hl j (by omega)
  have hbound : ∀ {j v}, (s.transfers.set i { u with status })[j]? = some v → j ≤ i := by
    intro j v hv
    have hj := (List.getElem?_eq_some_iff.mp hv).1
    rw [List.length_set, hlast.length] at hj
    omega
  unfold moveTransfer
  refine ⟨?_, ?_, ?_, ?_, ?_, ?_, ?_, ?_⟩
  · intro j k v w hjk hv hw
    have hk := hbound hw
    rcases set_cases hv with ⟨rfl, _⟩ | ⟨hne, hv⟩
    · omega
    · exact hlast.others j v hne hv
  · intro j hj
    by_cases hji : j = i
    · subst hji
      exact ⟨_, hself, hlaunched⟩
    · obtain ⟨v, hv, hne⟩ := h.known j (returned_of_snoc hj (hl j hji))
      exact ⟨v, by rw [getElem?_set_of_ne (Ne.symm hji), hv], hne⟩
  · intro j v hv hne hnot
    rcases set_cases hv with ⟨rfl, rfl⟩ | ⟨_, hv⟩
    · exact hanswered hnot
    · exact List.mem_append_left _ (h.answered j v hv hne hnot)
  · intro v hv cycle hcycle
    rcases List.mem_or_eq_of_mem_set hv with hv | rfl
    · exact h.loaded v hv cycle hcycle
    · exact hloaded cycle hcycle
  · intro j v hv
    rw [helapsed j (hbound hv)]
    rcases set_cases hv with ⟨rfl, rfl⟩ | ⟨_, hv⟩
    · exact h.starts j u hu
    · exact h.starts j v hv
  · intro b start hb
    dsimp only at hb
    rw [hlast.idle] at hb
    cases hb
  · intro v hv hfalse
    obtain ⟨j, hj⟩ := List.getElem?_of_mem hv
    rcases set_cases hj with ⟨_, rfl⟩ | ⟨hne, hj⟩
    · exact hpending hfalse
    · rw [moved_of_ready (hlast.others j v hne hj)] at hfalse
      cases hfalse
  · intro hall
    have hthis := hmoved (hall _ (List.mem_of_getElem? hself))
    dsimp only
    rw [hthis, List.length_set, hlast.length, hlast.waiting, Nat.zero_mul, Nat.add_zero, elapsed,
      helapsed i (Nat.le_refl i), hlength, h.starts i u hu]
    simp only [Nat.add_assoc]

theorem InTurn.dispatch {action : DispatchAction} (h : InTurn timings first ls s) (hheld : Held bank s)
    {last : Nat} (hbounded : Bounded timings first last t) (hstep : Steps config timings s (.dispatch action) t) :
    InTurn timings first (ls ++ [.dispatch action]) t := by
  cases hstep with
  | exit hphase | pop _ hphase | await _ _ hphase | terminate _ _ _ _ _ hphase =>
      exact h.frame rfl rfl (by rw [hphase]; rfl) nofun dispatch_ne_returned
  | openRow req b banks openRowStart row hphase =>
      exact h.frame rfl rfl (by rw [hphase]; rfl) (by intro p hp; rw [hphase]; exact hp) dispatch_ne_returned
  | loadCycle req b hphase => exact h.load hheld hphase
  | storeCycle req b openRowStart openRowEnd hphase =>
      exact h.storeCycle hheld hphase (hbounded.stored req b openRowStart openRowEnd rfl).length
  | launch req b openRowStart openRowEnd col data hphase =>
      exact h.launch hheld hphase (hbounded.fits _ (List.mem_append_right _ (List.mem_singleton_self _))).length
        rfl rfl rfl

theorem InTurn.transfer {i : Nat} {action : TransferAction} (h : InTurn timings first ls s) (hheld : Held bank s)
    {last : Nat} (hbounded : Bounded timings first last s) (hfit : last < 2 ^ 64)
    (hstep : Steps config timings s (.transfer i action) t) : InTurn timings first (ls ++ [.transfer i action]) t := by
  cases hstep with
  | transferData _ u back hu hstatus =>
      have hlast := h.last_of_unready hheld hu (by simp [hstatus])
      have hlength := (hbounded.fits u (List.mem_of_getElem? hu)).length
      have hnow := h.pending u (List.mem_of_getElem? hu) (by rw [hstatus]; rfl)
      have hbefore : returned i ∉ ls := by
        intro hi
        obtain ⟨v, hv, hne⟩ := h.known i hi
        rw [hu] at hv
        obtain rfl := Option.some.inj hv
        exact hne hstatus
      have hl : ∀ j, j ≠ i → Label.transfer i (.transferData back) ≠ returned j := by
        intro j hji hj
        injection hj with hij
        exact hji hij.symm
      cases back with
      | true =>
          have hafter : returned i ∈ ls ++ [.transfer i (.transferData true)] :=
            List.mem_append_right _ (List.mem_singleton_self _)
          exact h.move hlast hu hlength hl (by simp) (fun _ => hafter) (by simp) (fun _ => hnow) (by simp [moved])
      | false =>
          have hafter : returned i ∉ ls ++ [.transfer i (.transferData false)] :=
            fun hi => hbefore (returned_of_snoc hi (by simp [returned]))
          refine h.move hlast hu hlength hl (by simp) (fun hne => absurd rfl hne) (by simp) (by simp [moved]) ?_
          intro _
          rw [if_neg hafter, hnow, Nat.add_zero]
  | loadTransferCycle _ u hu hstatus =>
      have hlast := h.last_of_unready hheld hu (by simp [hstatus])
      have hlength := (hbounded.fits u (List.mem_of_getElem? hu)).length
      have hnow := h.pending u (List.mem_of_getElem? hu) (by rw [hstatus]; rfl)
      have hreturned := h.answered i u hu (by simp [hstatus]) (by simp [hstatus])
      refine h.move hlast hu hlength (by simp [returned]) (by simp) (fun _ => List.mem_append_left _ hreturned) ?_
        (fun _ => hnow) (by simp [moved])
      intro cycle hcycle
      rw [← TransferStatus.loaded.inj hcycle, hnow]
  | storeTransferCycle _ u cycle hu hstatus =>
      have hmem := List.mem_of_getElem? hu
      have hlast := h.last_of_unready hheld hu (by simp [hstatus])
      have hlength := (hbounded.fits u hmem).length
      have hcycle := h.loaded u hmem cycle hstatus
      have hreturned := h.answered i u hu (by simp [hstatus]) (by simp [hstatus])
      refine h.move hlast hu hlength (by simp [returned]) (by simp) (fun _ => List.mem_append_left _ hreturned)
        (by simp) (by simp [moved]) ?_
      intro _
      change (max cycle (transferEnd timings u)).toNat = _
      rw [if_pos (List.mem_append_left _ hreturned), toNat_max, hcycle,
        (hbounded.fits u hmem).transferEnd_toNat hfit, requestCycles]
      omega
  | sendResponse _ u data n hu hstatus =>
      have hlast := h.last_of_unready hheld hu (by simp [hstatus])
      have hlength := (hbounded.fits u (List.mem_of_getElem? hu)).length
      have hreturned := h.answered i u hu (by simp [hstatus]) (by simp [hstatus])
      have hnow := h.clock_last hlast hu (by rw [hstatus]; rfl) hlength
      refine h.move hlast hu hlength (by simp [returned]) (by simp) (fun hne => absurd rfl hne) (by simp)
        (by simp [moved]) ?_
      intro _
      rw [hnow, if_pos hreturned, if_pos (List.mem_append_left _ hreturned)]

def Grows (s t : Dispatcher) : Prop := s.dispatched ⊆ t.dispatched ∧ openings s ≤ openings t

theorem grows_step (hstep : Steps config timings s l t) : Grows s t := by
  refine ⟨?_, ?_⟩
  · cases hstep with
    | pop => exact List.subset_append_left _ _
    | push | stop | exit | await | loadCycle | openRow | terminate | storeCycle | launch | transferData
    | loadTransferCycle | storeTransferCycle | sendResponse => exact List.Subset.refl _
  · rw [openings_step hstep]
    exact Nat.le_add_right _ _

theorem grows_of_run (h : run (Dispatcher.step config timings) s ls = some t) : Grows s t := by
  refine run_induction (fun _ t => Grows s t) ⟨List.Subset.refl _, Nat.le_refl _⟩ ?_ ls h
  intro _ u l v hu hstep
  have hv := grows_step (steps_of_step hstep).2
  exact ⟨List.Subset.trans hu.1 hv.1, Nat.le_trans hu.2 hv.2⟩

theorem Grows.allOn (h : Grows s t) (hall : AllOn config bank t) : AllOn config bank s :=
  fun req hreq => hall req (h.1 hreq)

theorem Grows.fits (h : Grows s t) (hfit : first + openings t * requestCycles timings < 2 ^ 64) :
    first + openings s * requestCycles timings < 2 ^ 64 :=
  Nat.lt_of_le_of_lt (Nat.add_le_add_left (Nat.mul_le_mul_right _ h.2) _) hfit

theorem inTurn_of_run {currentCycle : UInt64}
    (h : run (Dispatcher.step config timings) (initial currentCycle) ls = some s) (hall : AllOn config bank s)
    (hfit : currentCycle.toNat + openings s * requestCycles timings < 2 ^ 64) :
    InTurn timings currentCycle.toNat ls s := by
  have hboth : run (Dispatcher.step config timings) (initial currentCycle) ls = some s ∧
      (AllOn config bank s → currentCycle.toNat + openings s * requestCycles timings < 2 ^ 64 →
        InTurn timings currentCycle.toNat ls s) := by
    refine run_induction (fun ls s => run (Dispatcher.step config timings) (initial currentCycle) ls = some s ∧
      (AllOn config bank s → currentCycle.toNat + openings s * requestCycles timings < 2 ^ 64 →
        InTurn timings currentCycle.toNat ls s)) ⟨rfl, fun _ _ => inTurn_initial currentCycle⟩ ?_ ls h
    rintro ms u l v ⟨hu, ih⟩ hstep
    have hv := run_snoc.mpr ⟨u, hu, hstep⟩
    refine ⟨hv, ?_⟩
    intro hall hfit
    have hsteps := (steps_of_step hstep).2
    have hgrows := grows_step hsteps
    have hallu := hgrows.allOn hall
    have hfitu := hgrows.fits hfit
    have hturn := ih hallu hfitu
    obtain ⟨hserial, hbooks⟩ := books_of_run hu
    have hheld := held_of_allOn hserial hbooks hallu
    cases l with
    | push req =>
        cases hsteps
        exact hturn.frame rfl rfl rfl (fun _ hp => hp) nofun
    | stop =>
        cases hsteps
        exact hturn.frame rfl rfl rfl (fun _ hp => hp) nofun
    | dispatch action => exact hturn.dispatch hheld (bounded_of_run hv hfit) hsteps
    | transfer i action => exact hturn.transfer hheld (bounded_of_run hu hfitu) hfitu hsteps
  exact hboth.2 hall hfit

/-- On one bank no store of the clock comes too late. -/
theorem timely_of_inTurn (h : InTurn timings first ls s) (hheld : Held bank s) {last : Nat}
    (hbounded : Bounded timings first last t) (hstep : Steps config timings s l t) : Timely timings s l := by
  cases hstep with
  | storeCycle req b openRowStart openRowEnd hphase =>
      intro req' b' openRowStart' hphase'
      rw [hphase] at hphase'
      obtain ⟨rfl, rfl, rfl⟩ := Phase.opened.inj hphase'
      have hready := hheld.free req b (by rw [hphase]; rfl)
      have hclock := h.clock fun t ht => moved_of_ready (hready t ht)
      rw [hphase, show aboutToLaunch (.opened req b openRowStart) = 0 from rfl, Nat.zero_mul, Nat.add_zero,
        ← h.started b openRowStart (by rw [hphase]; rfl)] at hclock
      have hfits := hbounded.stored req b openRowStart openRowEnd rfl
      have hlength := hfits.length
      have hend := openRowEnd.toNat_lt
      rw [openingCycles] at hlength
      exact ⟨by omega, by omega⟩
  | storeTransferCycle i u cycle hu hstatus =>
      intro u' cycle' hu' hstatus'
      rw [hu] at hu'
      obtain rfl := Option.some.inj hu'
      rw [hstatus] at hstatus'
      obtain rfl := TransferStatus.loaded.inj hstatus'
      have hmem := List.mem_of_getElem? hu
      rw [h.loaded u hmem cycle hstatus, h.pending u hmem (by rw [hstatus]; rfl)]
      exact .inl (UInt64.le_refl _)
  | push | stop | exit | pop | await | loadCycle | openRow | terminate | launch | transferData
  | loadTransferCycle | sendResponse => trivial

theorem keepsTime_of_allOn {currentCycle : UInt64}
    (h : run (Dispatcher.step config timings) (initial currentCycle) ls = some s) (hall : AllOn config bank s)
    (hfit : currentCycle.toNat + openings s * requestCycles timings < 2 ^ 64) :
    KeepsTime timings config currentCycle ls := by
  have hprefix : ∀ {before u}, before <+: ls →
      run (Dispatcher.step config timings) (initial currentCycle) before = some u →
      AllOn config bank u ∧ currentCycle.toNat + openings u * requestCycles timings < 2 ^ 64 := by
    rintro before u ⟨rest, rfl⟩ hu
    rw [run_append, hu, Option.bind_some] at h
    have hgrows := grows_of_run h
    exact ⟨hgrows.allOn hall, hgrows.fits hfit⟩
  have htimely : ∀ before l u, before ++ [l] <+: ls →
      run (Dispatcher.step config timings) (initial currentCycle) before = some u → Timely timings u l := by
    intro before l u hpre hu
    obtain ⟨v, hstep, hv⟩ := step_of_prefix h hpre hu
    obtain ⟨hallu, hfitu⟩ := hprefix ((List.prefix_append before [l]).trans hpre) hu
    obtain ⟨_, hfitv⟩ := hprefix hpre hv
    obtain ⟨hserial, hbooks⟩ := books_of_run hu
    exact timely_of_inTurn (inTurn_of_run hu hallu hfitu) (held_of_allOn hserial hbooks hallu)
      (bounded_of_run hv hfitv) (steps_of_step hstep).2
  exact keepsTime_of_timely htimely

/-- On one bank the simulated time of a run does not depend on how its threads
interleave: each request starts when the one before it ends. -/
theorem run_inTurn {currentCycle : UInt64}
    (h : run (Dispatcher.step config timings) (initial currentCycle) ls = some s) (hall : AllOn config bank s)
    (hfit : currentCycle.toNat + openings s * requestCycles timings < 2 ^ 64) :
    KeepsTime timings config currentCycle ls ∧
      (∀ (i : Nat) (t : Transfer), s.transfers[i]? = some t →
        t.openRowStart.toNat = currentCycle.toNat + elapsed timings ls i ∧
          (transferEnd timings t).toNat = currentCycle.toNat + elapsed timings ls i + requestCycles timings) ∧
      (s.phase = .waiting → (∀ t ∈ s.transfers, t.status = .ready) →
        s.currentCycle.toNat = currentCycle.toNat + elapsed timings ls s.dispatched.length) := by
  have hturn := inTurn_of_run h hall hfit
  have hbounded := bounded_of_run h hfit
  refine ⟨keepsTime_of_allOn h hall hfit, ?_, ?_⟩
  · intro i t ht
    have hend := (hbounded.fits t (List.mem_of_getElem? ht)).transferEnd_toNat hfit
    rw [hturn.starts i t ht] at hend
    exact ⟨hturn.starts i t ht, hend⟩
  · intro hphase hready
    have hcount := congrArg List.length (books_of_run h).2.tickets
    rw [hphase] at hcount
    have hclock := hturn.clock fun t ht => moved_of_ready (hready t ht)
    rw [hphase, show aboutToLaunch .waiting = 0 from rfl, Nat.zero_mul, Nat.add_zero] at hclock
    simp only [inHand, Option.toList_none, List.map_nil, List.append_nil, List.length_map] at hcount
    rw [hclock, hcount]

/-- The second request is popped while the first transfer is in flight, whose
response cannot be sent; and its own transfer throws. -/
def queuedUp : List Label :=
  [.push ⟨0, 0x0, true, line, 5⟩, .push ⟨1, 0x400, false, line, 6⟩, .dispatch .pop, .dispatch .await,
    .dispatch .loadCycle, .dispatch (.openRow true), .dispatch .storeCycle, .dispatch (.launch line),
    .dispatch .pop, .transfer 0 (.transferData true), .transfer 0 .loadCycle, .transfer 0 .storeCycle,
    .transfer 0 (.sendResponse [] (-1)), .dispatch .await, .dispatch .loadCycle, .dispatch (.openRow true),
    .dispatch .storeCycle, .dispatch (.launch line), .transfer 1 (.transferData false)]

theorem run_inTurn_queuedUp : ∃ s,
    run (Dispatcher.step fourBanks ⟨24, 24, 12⟩) (initial 7) queuedUp = some s ∧ s.currentCycle = 115 ∧
      KeepsTime ⟨24, 24, 12⟩ fourBanks 7 queuedUp ∧
      (∀ (i : Nat) (t : Transfer), s.transfers[i]? = some t →
        t.openRowStart.toNat = (7 : UInt64).toNat + elapsed ⟨24, 24, 12⟩ queuedUp i ∧
          (transferEnd ⟨24, 24, 12⟩ t).toNat =
            (7 : UInt64).toNat + elapsed ⟨24, 24, 12⟩ queuedUp i + requestCycles ⟨24, 24, 12⟩) ∧
      (s.phase = .waiting → (∀ t ∈ s.transfers, t.status = .ready) →
        s.currentCycle.toNat = (7 : UInt64).toNat + elapsed ⟨24, 24, 12⟩ queuedUp s.dispatched.length) := by
  refine ⟨_, rfl, rfl, ?_⟩
  exact run_inTurn (rfl : run (Dispatcher.step fourBanks ⟨24, 24, 12⟩) (initial 7) queuedUp = some _)
    (show AllOn fourBanks 0 _ by decide) (by decide)

end MemSim.OneBank
