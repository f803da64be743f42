import MemSim.SocketAddress
import MemSim.Runs

namespace MemSim

open Machine

inductive StartPhase
  | resting
  | created
  | removed
  | bound
  | looping
  | accepting
  | threw (error : String)
  deriving DecidableEq, Repr

/-- The server's side of a controller, with every descriptor its process has
open, and of these the sockets that `setup_server` made. -/
structure Server where
  socketPath : List UInt8
  controllerFd : Int32
  serverStop : Bool
  phase : StartPhase
  joinable : Bool
  joining : Nat
  terminated : Bool
  opened : List Int32
  own : List Int32
  deriving DecidableEq, Repr

namespace Server

def initial (socketPath : List UInt8) : Server :=
  { socketPath
    controllerFd := -1
    serverStop := false
    phase := .resting
    joinable := false
    joining := 0
    terminated := false
    opened := []
    own := [] }

/-- The system calls of `start` and `stop`, with what each answers; the
destructor is one more `stop`. The last two are those of everybody else. -/
inductive Label
  | socket (result : Int32)
  | remove (error : Option String)
  | bind (result : Int32)
  | listen (result : Int32)
  | test
  | accept (clientFd : Int32)
  | close
  | join
  | openOther (fd : Int32)
  | closeOther (fd : Int32)
  deriving DecidableEq, Repr

def idle (s : Server) : Bool :=
  match s.phase with
  | .resting | .threw _ => true
  | _ => false

def fresh (s : Server) (fd : Int32) : Bool := 0 ≤ fd && !s.opened.contains fd

def advance (s : Server) : Label → Option Server
  | .socket result =>
      if s.idle then
        if result = -1 then some { s with controllerFd := -1, phase := .threw "socket() failed" }
        else if s.fresh result then
          some { s with
            controllerFd := result
            phase := .created
            opened := result :: s.opened
            own := result :: s.own }
        else none
      else none
  | .remove error =>
      match s.phase with
      | .created =>
          match DRAMController.serverPath s.socketPath, error with
          | .error (.raised e), _ => some { s with phase := .threw e }
          | .error (.fault _), _ => none
          | .ok _, some e => some { s with phase := .threw e }
          | .ok _, none => some { s with phase := .removed }
      | _ => none
  | .bind result =>
      match s.phase with
      | .removed =>
          if result = -1 then some { s with phase := .threw "bind() failed" }
          else some { s with phase := .bound }
      | _ => none
  | .listen result =>
      match s.phase with
      | .bound =>
          if result = -1 then some { s with phase := .threw "listen() failed" }
          -- a thread that has not been joined cannot be replaced
          else if s.joinable then some { s with terminated := true }
          else some { s with joinable := true, phase := .looping }
      | _ => none
  | .test =>
      match s.phase with
      | .looping => some { s with phase := if s.serverStop then .resting else .accepting }
      | _ => none
  | .accept clientFd =>
      match s.phase with
      | .accepting =>
          if clientFd < 0 then some { s with phase := .resting }
          else if s.fresh clientFd then some { s with phase := .looping, opened := clientFd :: s.opened }
          else none
      | _ => none
  | .close =>
      some { s with
        serverStop := true
        joining := s.joining + 1
        opened := s.opened.erase s.controllerFd
        own := s.own.erase s.controllerFd }
  | .join =>
      if 0 < s.joining then some { s with joinable := false, joining := s.joining - 1 } else none
  | .openOther fd => if s.fresh fd then some { s with opened := fd :: s.opened } else none
  | .closeOther fd =>
      if fd ∈ s.opened ∧ fd ∉ s.own then some { s with opened := s.opened.erase fd } else none

def step (s : Server) (l : Label) : Option Server := if s.terminated then none else s.advance l

inductive Effect (s : Server) : Label → Server → Prop
  | refused (t : Server) (hfd : t.controllerFd = -1) (hopened : t.opened = s.opened) (hown : t.own = s.own) :
      Effect s (.socket (-1)) t
  | made (fd : Int32) (t : Server) (hle : 0 ≤ fd) (hfresh : fd ∉ s.opened) (hfd : t.controllerFd = fd)
      (hopened : t.opened = fd :: s.opened) (hown : t.own = fd :: s.own) : Effect s (.socket fd) t
  | closed (t : Server) (hfd : t.controllerFd = s.controllerFd)
      (hopened : t.opened = s.opened.erase s.controllerFd) (hown : t.own = s.own.erase s.controllerFd) :
      Effect s .close t
  | quiet (l : Label) (t : Server) (hsocket : ∀ fd, l ≠ .socket fd) (hclose : l ≠ .close)
      (hfd : t.controllerFd = s.controllerFd) (hown : t.own = s.own)
      (hopened : t.opened = s.opened ∨ (∃ fd, fd ∉ s.opened ∧ t.opened = fd :: s.opened) ∨
        ∃ fd, fd ∉ s.own ∧ t.opened = s.opened.erase fd) : Effect s l t

variable {s t : Server} {l : Label}

theorem fresh_iff {fd : Int32} : s.fresh fd = true ↔ 0 ≤ fd ∧ fd ∉ s.opened := by
  simp [fresh]

theorem Effect.still (hsocket : ∀ fd, l ≠ .socket fd) (hclose : l ≠ .close) (hfd : t.controllerFd = s.controllerFd)
    (hown : t.own = s.own) (hopened : t.opened = s.opened) : Effect s l t :=
  .quiet l t hsocket hclose hfd hown (.inl hopened)

theorem effect_of_socket {result : Int32} (h : s.advance (.socket result) = some t) :
    Effect s (.socket result) t := by
  obtain ⟨_, h⟩ := Option.ite_none_right_eq_some.mp h
  by_cases hfailed : result = -1
  · rw [if_pos hfailed] at h
    obtain rfl := Option.some.inj h
    subst hfailed
    exact .refused _ rfl rfl rfl
  · rw [if_neg hfailed] at h
    obtain ⟨hfresh, h⟩ := Option.ite_none_right_eq_some.mp h
    obtain rfl := Option.some.inj h
    obtain ⟨hle, hnot⟩ := fresh_iff.mp hfresh
    exact .made result _ hle hnot rfl rfl rfl

theorem effect_of_remove {error : Option String} (h : s.advance (.remove error) = some t) :
    Effect s (.remove error) t := by
  simp only [advance] at h
  split at h
  · split at h
    · obtain rfl := Option.some.inj h
      exact .still (by simp) (by simp) rfl rfl rfl
    · cases h
    · obtain rfl := Option.some.inj h
      exact .still (by simp) (by simp) rfl rfl rfl
    · obtain rfl := Option.some.inj h
      exact .still (by simp) (by simp) rfl rfl rfl
  · cases h

theorem effect_of_bind {result : Int32} (h : s.advance (.bind result) = some t) : Effect s (.bind result) t := by
  simp only [advance] at h
  split at h
  · split at h
    · obtain rfl := Option.some.inj h
      exact .still (by simp) (by simp) rfl rfl rfl
    · obtain rfl := Option.some.inj h
      exact .still (by simp) (by simp) rfl rfl rfl
  · cases h

theorem effect_of_listen {result : Int32} (h : s.advance (.listen result) = some t) :
    Effect s (.listen result) t := by
  simp only [advance] at h
  split at h
  · split at h
    · obtain rfl := Option.some.inj h
      exact .still (by simp) (by simp) rfl rfl rfl
    · split at h
      · obtain rfl := Option.some.inj h
        exact .still (by simp) (by simp) rfl rfl rfl
      · obtain rfl := Option.some.inj h
        exact .still (by simp) (by simp) rfl rfl rfl
  · cases h

theorem effect_of_accept {clientFd : Int32} (h : s.advance (.accept clientFd) = some t) :
    Effect s (.accept clientFd) t := by
  simp only [advance] at h
  split at h
  · split at h
    · obtain rfl := Option.some.inj h
      exact .still (by simp) (by simp) rfl rfl rfl
    · obtain ⟨hfresh, h⟩ := Option.ite_none_right_eq_some.mp h
      obtain rfl := Option.some.inj h
      exact .quiet _ _ (by simp) (by simp) rfl rfl (.inr (.inl ⟨clientFd, (fresh_iff.mp hfresh).2, rfl⟩))
  · cases h

theorem effect_of_step (h : s.step l = some t) : Effect s l t := by
  obtain ⟨_, h⟩ := Option.ite_none_left_eq_some.mp h
  cases l with
  | socket result => exact effect_of_socket h
  | remove error => exact effect_of_remove h
  | bind result => exact effect_of_bind h
  | listen result => exact effect_of_listen h
  | accept clientFd => exact effect_of_accept h
  | test =>
      simp only [advance] at h
      split at h
      · obtain rfl := Option.some.inj h
        exact .still (by simp) (by simp) rfl rfl rfl
      · cases h
  | close =>
      obtain rfl := Option.some.inj h
      exact .closed _ rfl rfl rfl
  | join =>
      obtain ⟨_, h⟩ := Option.ite_none_right_eq_some.mp h
      obtain rfl := Option.some.inj h
      exact .still (by simp) (by simp) rfl rfl rfl
  | openOther fd =>
      obtain ⟨hfresh, h⟩ := Option.ite_none_right_eq_some.mp h
      obtain rfl := Option.some.inj h
      exact .quiet _ _ (by simp) (by simp) rfl rfl (.inr (.inl ⟨fd, (fresh_iff.mp hfresh).2, rfl⟩))
  | closeOther fd =>
      obtain ⟨⟨_, hnot⟩, h⟩ := Option.ite_none_right_eq_some.mp h
      obtain rfl := Option.some.inj h
      exact .quiet _ _ (by simp) (by simp) rfl rfl (.inr (.inr ⟨fd, hnot, rfl⟩))

end Server

namespace ServerSocket

open Runs Server

/-- Sockets that a later one has taken the place of, and whether the last has
been made without a `stop` since. -/
def tallyLabel (tally : Nat × Bool) : Label → Nat × Bool
  | .socket result => (tally.1 + tally.2.toNat, result != -1)
  | .close => (tally.1, false)
  | _ => tally

def tally (ls : List Label) : Nat × Bool := ls.foldl tallyLabel (0, false)

def replaced (ls : List Label) : Nat := (tally ls).1

def armed (ls : List Label) : Bool := (tally ls).2

/-- The sockets of the server still open are those replaced, and the last one
until a `stop`. -/
structure Ledger (ls : List Label) (s : Server) : Prop where
  nodup : s.own.Nodup
  opened : ∀ fd ∈ s.own, fd ∈ s.opened
  nonneg : ∀ fd ∈ s.own, 0 ≤ fd
  named : s.controllerFd ∈ s.own ↔ armed ls = true
  length : s.own.length = replaced ls + (armed ls).toNat

variable {s t u v : Server} {ls : List Label} {l : Label}

theorem tally_snoc (ls : List Label) (l : Label) : tally (ls ++ [l]) = tallyLabel (tally ls) l := by
  simp [tally]

theorem tally_socket (ls : List Label) (fd : Int32) :
    tally (ls ++ [.socket fd]) = (replaced ls + (armed ls).toNat, fd != -1) := tally_snoc ls _

theorem tally_close (ls : List Label) : tally (ls ++ [.close]) = (replaced ls, false) := tally_snoc ls _

theorem ledger_initial (socketPath : List UInt8) : Ledger [] (initial socketPath) where
  nodup := .nil
  opened _ h := absurd h List.not_mem_nil
  nonneg _ h := absurd h List.not_mem_nil
  named := by simp [initial, armed, tally]
  length := rfl

theorem Ledger.refused (h : Ledger ls s) (hfd : t.controllerFd = -1) (hopened : t.opened = s.opened)
    (hown : t.own = s.own) : Ledger (ls ++ [.socket (-1)]) t := by
  have harmed : armed (ls ++ [.socket (-1)]) = false := by
    rw [armed, tally_socket]
    rfl
  have hreplaced : replaced (ls ++ [.socket (-1)]) = replaced ls + (armed ls).toNat := by
    rw [replaced, tally_socket]
  refine ⟨?_, ?_, ?_, ?_, ?_⟩
  all_goals rw [hown]
  · exact h.nodup
  · rw [hopened]
    exact h.opened
  · exact h.nonneg
  · rw [hfd, harmed]
    constructor
    · intro hmem
      exact absurd (h.nonneg _ hmem) (by decide)
    · intro hfalse
      cases hfalse
  · rw [harmed, hreplaced, h.length]
    rfl

theorem Ledger.made (h : Ledger ls s) {fd : Int32} (hle : 0 ≤ fd) (hfresh : fd ∉ s.opened)
    (hfd : t.controllerFd = fd) (hopened : t.opened = fd :: s.opened) (hown : t.own = fd :: s.own) :
    Ledger (ls ++ [.socket fd]) t := by
  have hne : fd ≠ -1 := by
    rintro rfl
    exact absurd hle (by decide)
  have harmed : armed (ls ++ [.socket fd]) = true := by
    rw [armed, tally_socket]
    exact bne_iff_ne.mpr hne
  have hreplaced : replaced (ls ++ [.socket fd]) = replaced ls + (armed ls).toNat := by
    rw [replaced, tally_socket]
  refine ⟨?_, ?_, ?_, ?_, ?_⟩
  all_goals rw [hown]
  · exact List.nodup_cons.mpr ⟨fun hmem => hfresh (h.opened fd hmem), h.nodup⟩
  · rw [hopened]
    intro other hother
    rcases List.mem_cons.mp hother with rfl | hother
    · exact List.mem_cons_self
    · exact List.mem_cons_of_mem _ (h.opened other hother)
  · intro other hother
    rcases List.mem_cons.mp hother with rfl | hother
    · exact hle
    · exact h.nonneg other hother
  · rw [hfd, harmed]
    exact iff_of_true List.mem_cons_self rfl
  · rw [harmed, hreplaced, List.length_cons, h.length]
    rfl

theorem Ledger.closed (h : Ledger ls s) (hfd : t.controllerFd = s.controllerFd)
    (hopened : t.opened = s.opened.erase s.controllerFd) (hown : t.own = s.own.erase s.controllerFd) :
    Ledger (ls ++ [.close]) t := by
  have harmed : armed (ls ++ [.close]) = false := by rw [armed, tally_close]
  have hreplaced : replaced (ls ++ [.close]) = replaced ls := by rw [replaced, tally_close]
  have hgone : s.controllerFd ∉ s.own.erase s.controllerFd := h.nodup.not_mem_erase
  refine ⟨?_, ?_, ?_, ?_, ?_⟩
  all_goals rw [hown]
  · exact h.nodup.erase _
  · rw [hopened]
    intro fd hmem
    have hne : fd ≠ s.controllerFd := by
      rintro rfl
      exact hgone hmem
    exact (List.mem_erase_of_ne hne).mpr (h.opened fd (List.mem_of_mem_erase hmem))
  · exact fun fd hmem => h.nonneg fd (List.mem_of_mem_erase hmem)
  · rw [hfd, harmed]
    exact iff_of_false hgone (by simp)
  · rw [harmed, hreplaced]
    have hlength := h.length
    cases ha : armed ls with
    | true =>
        rw [ha] at hlength
        rw [List.length_erase_of_mem (h.named.mpr ha), hlength]
        rfl
    | false =>
        rw [ha] at hlength
        rw [List.erase_of_not_mem fun hmem => by simp [h.named.mp hmem] at ha, hlength]

theorem Ledger.quiet (h : Ledger ls s) (hsocket : ∀ fd, l ≠ .socket fd) (hclose : l ≠ .close)
    (hfd : t.controllerFd = s.controllerFd) (hown : t.own = s.own)
    (hopened : t.opened = s.opened ∨ (∃ fd, fd ∉ s.opened ∧ t.opened = fd :: s.opened) ∨
      ∃ fd, fd ∉ s.own ∧ t.opened = s.opened.erase fd) : Ledger (ls ++ [l]) t := by
  have htally : tally (ls ++ [l]) = tally ls := by
    rw [tally_snoc]
    cases l with
    | socket fd => exact absurd rfl (hsocket fd)
    | close => exact absurd rfl hclose
    | remove | bind | listen | test | accept | join | openOther | closeOther => rfl
  refine ⟨?_, ?_, ?_, ?_, ?_⟩
  all_goals rw [hown]
  · exact h.nodup
  · intro other hother
    have hmem := h.opened other hother
    rcases hopened with hopened | ⟨fd, _, hopened⟩ | ⟨fd, hnot, hopened⟩
    · rwa [hopened]
    · rw [hopened]
      exact List.mem_cons_of_mem _ hmem
    · have hne : other ≠ fd := by
        rintro rfl
        exact hnot hother
      rw [hopened]
      exact (List.mem_erase_of_ne hne).mpr hmem
  · exact h.nonneg
  · rw [hfd, armed, htally]
    exact h.named
  · rw [replaced, armed, htally]
    exact h.length

theorem ledger_step (h : Ledger ls s) (hstep : Effect s l t) : Ledger (ls ++ [l]) t := by
  cases hstep with
  | refused _ hfd hopened hown => exact h.refused hfd hopened hown
  | made fd _ hle hfresh hfd hopened hown => exact h.made hle hfresh hfd hopened hown
  | closed _ hfd hopened hown => exact h.closed hfd hopened hown
  | quiet _ _ hsocket hclose hfd hown hopened => exact h.quiet hsocket hclose hfd hown hopened

theorem ledger_of_run {socketPath : List UInt8} (h : run Server.step (initial socketPath) ls = some s) :
    Ledger ls s :=
  run_induction Ledger (ledger_initial socketPath) (fun _ _ _ _ hu hstep => ledger_step hu (effect_of_step hstep)) ls h

def isSocket : Label → Bool
  | .socket _ => true
  | _ => false

theorem replaced_le (ls : List Label) :
    replaced ls ≤ ls.countP isSocket - 1 ∧ (armed ls = true → 0 < ls.countP isSocket) := by
  induction ls using List.reverseRecOn with
  | nil => exact ⟨Nat.le_refl _, fun h => absurd h (by simp [armed, tally])⟩
  | append_singleton ls l ih =>
      obtain ⟨hreplaced, harmed⟩ := ih
      rw [List.countP_append, replaced, armed]
      cases l with
      | socket result =>
          rw [tally_socket, List.countP_singleton, show isSocket (.socket result) = true from rfl, if_pos rfl]
          refine ⟨?_, fun _ => Nat.succ_pos _⟩
          cases ha : armed ls with
          | true =>
              have hpos := harmed ha
              rw [Bool.toNat_true]
              omega
          | false =>
              rw [Bool.toNat_false]
              omega
      | close =>
          rw [tally_close]
          exact ⟨hreplaced, fun h => absurd h Bool.false_ne_true⟩
      | remove | bind | listen | test | accept | join | openOther | closeOther =>
          rw [tally_snoc]
          exact ⟨hreplaced, harmed⟩

/-- A `stop` now would close what somebody else has open. -/
def Strikes (s : Server) : Prop := s.controllerFd ∈ s.opened ∧ s.controllerFd ∉ s.own

instance (s : Server) : Decidable (Strikes s) := inferInstanceAs (Decidable (_ ∧ _))

/-- No error path of `setup_server` loses its socket, a `start` after one that
failed does, and a second `stop` closes the descriptor that has taken its number. -/
theorem run_ledger {socketPath : List UInt8} (h : run Server.step (initial socketPath) ls = some s) :
    s.own.length = replaced ls + (armed ls).toNat ∧ (∀ fd ∈ s.own, fd ∈ s.opened) ∧
      (s.controllerFd ∈ s.own ↔ armed ls = true) ∧ replaced ls ≤ ls.countP isSocket - 1 ∧
      ∀ before u, before ++ [.close] <+: ls → run Server.step (initial socketPath) before = some u →
        (Strikes u ↔ armed before = false ∧ u.controllerFd ∈ u.opened) := by
  have hledger := ledger_of_run h
  refine ⟨hledger.length, hledger.opened, hledger.named, (replaced_le ls).1, ?_⟩
  intro before u _ hu
  rw [Strikes, (ledger_of_run hu).named, Bool.not_eq_true, and_comm]

def stopped : List Label :=
  [.socket 3, .remove none, .bind 0, .listen 0, .test, .close, .accept (-1), .join, .openOther 3, .close]

theorem run_ledger_stopped : ∃ s u, run Server.step (initial [47, 115]) stopped = some s ∧
    run Server.step (initial [47, 115]) (stopped.take 9) = some u ∧ Strikes u ∧
      (s.own.length = replaced stopped + (armed stopped).toNat ∧ (∀ fd ∈ s.own, fd ∈ s.opened) ∧
        (s.controllerFd ∈ s.own ↔ armed stopped = true) ∧
        replaced stopped ≤ stopped.countP isSocket - 1 ∧
        ∀ before u, before ++ [.close] <+: stopped → run Server.step (initial [47, 115]) before = some u →
          (Strikes u ↔ armed before = false ∧ u.controllerFd ∈ u.opened)) :=
  ⟨_, _, rfl, rfl, by decide, run_ledger rfl⟩

end ServerSocket

end MemSim
