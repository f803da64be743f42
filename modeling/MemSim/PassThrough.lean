import MemSim.FailedAccess
import MemSim.MissTypes
import MemSim.Simulation

namespace MemSim.PassThrough

open Machine Cache Simulation

variable {μ : Type} {n : Nat}

def ask (next : Option (Memory μ)) (address : UInt32) (isWrite : Bool) : EStateM String (List UInt8 × μ) Unit :=
  match next with
  | none => pure ()
  | some level => level.access address isWrite

/-- What follows the fetch where no line is stored: a write-through hands on
what the fetch has left of the data, and a read answers zeros. -/
def finishing (blockSize : UInt32) (writePolicy : WritePolicyType) (next : Option (Memory μ)) (address : UInt32)
    (isWrite : Bool) : EStateM String (List UInt8 × μ) Unit :=
  if isWrite then
    match writePolicy with
    | .WriteThrough => ask next address true
    | .WriteBack => pure ()
  else
    modify fun s => (List.replicate blockSize.toNat 0, s.2)

def passing (blockSize : UInt32) (writePolicy : WritePolicyType) (next : Option (Memory μ)) : Memory μ where
  access address isWrite := do
    ask next address false
    finishing blockSize writePolicy next address isWrite

def raising {σ α : Type} : EStateM.Result String σ α → EStateM.Result (Stop String) σ α
  | .ok a s => .ok a s
  | .error e s => .error (.raised e) s

def Tied (s : Frame μ) (t : List UInt8 × μ) : Prop := s.data = t.1 ∧ s.memory = t.2

def Steady (n : Nat) (I : μ → Prop) (next : Option (Memory μ)) : Prop :=
  ∀ address isWrite t, t.1.length = n → I t.2 →
    (final ((ask next address isWrite).run t)).1.length = n ∧ I (final ((ask next address isWrite).run t)).2

structure Idle (blockSize : UInt32) (writePolicy : WritePolicyType) (c : Cache) : Prop where
  shape : Shape c
  cold : Cold c
  blockSize_eq : c.blockSize = blockSize
  writePolicy_eq : c.config.writePolicy = writePolicy

variable {blockSize : UInt32} {writePolicy : WritePolicyType} {next : Option (Memory μ)} {I : μ → Prop}
  {s : Frame μ}

theorem Fresh.idle {conf : CacheConfig} {g : Indeterminate} {c : Cache} (h : Fresh conf g c) (hs : Shape c) :
    Idle conf.blockSize conf.writePolicy c := ⟨hs, h.cold, h.blockSize, by rw [h.config]⟩

theorem Idle.same {c d : Cache} (h : Idle blockSize writePolicy c) (hsame : SameLines c d) :
    Idle blockSize writePolicy d :=
  ⟨hsame.shape h.shape, hsame.cold h.cold, hsame.blockSize.trans h.blockSize_eq, by
    rw [hsame.config, h.writePolicy_eq]⟩

theorem Idle.line {c : Cache} (h : Idle blockSize writePolicy c) {i w : Nat} {line : CacheBlock}
    (hline : c.lineAt i w = some line) :
    line.valid = false ∧ line.data = List.replicate blockSize.toNat 0 := by
  obtain ⟨set, hset, hmem⟩ := mem_of_lineAt hline
  obtain ⟨hvalid, hdata⟩ := h.cold set hset line hmem
  exact ⟨hvalid, by rw [hdata, h.blockSize_eq]⟩

theorem steady_of_keeps (hnext : ∀ level ∈ next, KeepsSize level) : Steady n (fun _ => True) next := by
  intro address isWrite t ht _
  cases next with
  | none => exact ⟨ht, trivial⟩
  | some level => exact ⟨(hnext level rfl address isWrite t.1 t.2).trans ht, trivial⟩

theorem nextAccess_ask (next : Option (Memory μ)) (address : UInt32) (isWrite : Bool) (s : Frame μ) :
    (nextAccess next address isWrite).run s = answered s ((ask next address isWrite).run (s.data, s.memory)) := by
  cases next with
  | none => rfl
  | some level => exact nextAccess_answered level address isWrite s

theorem accessFinish_tied {line : CacheBlock} {address : UInt32} (isWrite : Bool)
    (hpolicy : s.cache.config.writePolicy = writePolicy) (hline : line.data = List.replicate blockSize.toNat 0)
    (hnext : Steady blockSize.toNat I next) (hlength : s.data.length = blockSize.toNat) (hI : I s.memory) :
    Matches Tied ((accessFinish next address isWrite line).run s)
      (raising ((finishing blockSize writePolicy next address isWrite).run (s.data, s.memory))) := by
  have hlen : line.data.length = blockSize.toNat := by rw [hline, List.length_replicate]
  cases isWrite with
  | false =>
      rw [accessFinish_read, copyData_eq (hlength.trans hlen.symm)]
      exact ⟨rfl, hline, rfl⟩
  | true =>
      cases writePolicy with
      | WriteBack =>
          rw [accessFinish_writeBack _ _ _ _ hpolicy, copyData_eq (hlen.trans hlength.symm)]
          exact ⟨rfl, rfl, rfl⟩
      | WriteThrough =>
          have hkept := hnext address true (s.data, s.memory) hlength hI
          rw [accessFinish_writeThrough _ _ _ _ hpolicy, nextAccess_ask]
          simp only [finishing, if_true]
          cases h : (ask next address true).run (s.data, s.memory) with
          | error e u =>
              simp only [answered]
              exact ⟨rfl, rfl, rfl⟩
          | ok _ u =>
              rw [h, final_ok] at hkept
              simp only [answered, copyData_eq (hlen.trans hkept.1.symm), copied]
              exact ⟨rfl, rfl, rfl⟩

/-- Every access of a cache that stores no line is the one of the level
without lines, in what it returns, in what it throws and in what it leaves. -/
theorem access_tied (hidle : Idle blockSize writePolicy s.cache) (hnext : Steady blockSize.toNat I next)
    (address : UInt32) (isWrite : Bool) (hlength : s.data.length = blockSize.toNat) (hI : I s.memory) :
    Matches Tied ((access next address isWrite).run s)
      (raising (((passing blockSize writePolicy next).access address isWrite).run (s.data, s.memory))) := by
  obtain ⟨line, hline, heq⟩ := access_of_miss next isWrite hidle.shape (hidle.cold.hitWay_eq_none address)
  obtain ⟨hvalid, hdata⟩ := hidle.line hline
  have hkept := hnext address false (s.data, s.memory) hlength hI
  rw [heq, EStateM.run_bind, writeBack_eq, hvalid]
  simp only [Bool.false_and, Bool.false_eq_true, if_false]
  rw [refill_eq, nextAccess_ask, passing, EStateM.run_bind]
  dsimp only
  cases h : (ask next address false).run (s.data, s.memory) with
  | error e u =>
      simp only [answered]
      exact ⟨rfl, rfl, rfl⟩
  | ok _ u =>
      rw [h, final_ok] at hkept
      simp only [answered]
      apply accessFinish_tied (I := I) isWrite
      · exact hidle.writePolicy_eq
      · exact hdata
      · exact hnext
      · exact hkept.1
      · exact hkept.2

theorem access_idle (hidle : Idle blockSize writePolicy s.cache) (next : Option (Memory μ)) (address : UInt32)
    (isWrite : Bool) : Idle blockSize writePolicy (final ((access next address isWrite).run s)).cache :=
  hidle.same (MissTypes.miss_sameLines next isWrite hidle.shape (hidle.cold.hitWay_eq_none address))

def request (level : Memory μ) (a : Access n) (t : List UInt8 × μ) : EStateM.Result String (List UInt8 × μ) Unit :=
  (level.access a.address a.isWrite).run (a.data, t.2)

theorem final_raising {σ α : Type} (r : EStateM.Result String σ α) : final (raising r) = final r := by
  cases r <;> rfl

theorem perform_tied {t : List UInt8 × μ} (hidle : Idle blockSize writePolicy s.cache)
    (hnext : Steady blockSize.toNat I next) (hI : I t.2) (hst : Tied s t) (a : Access blockSize.toNat) :
    Matches Tied (perform next a s) (raising (request (passing blockSize writePolicy next) a t)) := by
  rw [← hst.2] at hI
  rw [request, ← hst.2]
  exact access_tied (s := { s with data := a.data }) hidle hnext a.address a.isWrite a.data_length hI

theorem after_tied {t : List UInt8 × μ} (hidle : Idle blockSize writePolicy s.cache)
    (hnext : Steady blockSize.toNat (fun _ => True) next) (hst : Tied s t) (trace : List (Access blockSize.toNat)) :
    Tied (after next trace s) (runAll (request (passing blockSize writePolicy next)) trace t) ∧
      Idle blockSize writePolicy (after next trace s).cache := by
  induction trace generalizing s t with
  | nil => exact ⟨hst, hidle⟩
  | cons a trace ih =>
      have htied := (perform_tied hidle hnext trivial hst a).final
      rw [final_raising] at htied
      exact ih (access_idle (s := { s with data := a.data }) hidle next a.address a.isWrite) htied

/-- Whatever lies below a cache, and wherever it throws, each access of each
run of the cache is one of the level without lines. -/
theorem run_passes {args conf : CacheConfig} (h : CacheConfig.construct args = .ok conf) (g : Indeterminate)
    (globalCounter : UInt64) (next : Option (Memory μ)) (hnext : ∀ level ∈ next, KeepsSize level) (memory : μ) :
    ∃ c, Cache.new conf g = .ok c ∧ ∀ (trace : List (Access conf.blockSize.toNat)) (a : Access conf.blockSize.toNat),
      Matches Tied (perform next a (after next trace (start c globalCounter memory)))
        (raising (request (passing conf.blockSize conf.writePolicy next) a
          (runAll (request (passing conf.blockSize conf.writePolicy next)) trace ([], memory)))) := by
  obtain ⟨c, hc, hfresh, hshape⟩ := new_eq (CacheConfig.accepted_of_construct h) g
  refine ⟨c, hc, fun trace a => ?_⟩
  have hsteady := steady_of_keeps (n := conf.blockSize.toNat) hnext
  obtain ⟨htied, hidle⟩ := after_tied (s := start c globalCounter memory) (t := ([], memory))
    (Fresh.idle hfresh hshape) hsteady ⟨rfl, rfl⟩ trace
  exact perform_tied hidle hsteady trivial htied a

theorem readOnly_keeps : ∀ level ∈ some FailedAccess.readOnly, KeepsSize level := by
  intro level hlevel address isWrite data memory
  obtain rfl := Option.some.inj hlevel
  cases isWrite <;> rfl

theorem run_passes_read_only :
    ∃ c, Cache.new ⟨16, 2, 4, .FIFO, .WriteThrough, 4, 4, 8, 8⟩ zeroFilled = .ok c ∧
      ∀ (trace : List (Access (UInt32.toNat 4))) (a : Access (UInt32.toNat 4)),
        Matches Tied (perform (some FailedAccess.readOnly) a (after (some FailedAccess.readOnly) trace (start c 0 ())))
          (raising (request (passing 4 .WriteThrough (some FailedAccess.readOnly)) a
            (runAll (request (passing 4 .WriteThrough (some FailedAccess.readOnly))) trace ([], ())))) :=
  run_passes (by decide : CacheConfig.construct ⟨16, 2, 4, .FIFO, .WriteThrough, 4, 4, 8, 8⟩ =
    .ok ⟨16, 2, 4, .FIFO, .WriteThrough, 4, 4, 8, 8⟩) zeroFilled 0 _ readOnly_keeps ()

end MemSim.PassThrough
