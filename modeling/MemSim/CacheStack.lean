import MemSim.PassThrough
import MemSim.WriteBack

namespace MemSim.CacheStack

open Machine Cache Simulation PassThrough

variable {μ ν : Type} {n : Nat}

/-- A cache as a caller's next level. Each cache counts its own stamps here,
which no line keeps; what text a fault leaves is open. -/
def asLevel (text : Fault → String) (next : Option (Memory ν)) : Memory ((Cache × UInt64) × ν) where
  access address isWrite := fun s =>
    match (Cache.access next address isWrite).run ⟨s.2.1.1, s.2.1.2, s.2.2, s.1⟩ with
    | .ok () t => .ok () (t.data, (t.cache, t.globalCounter), t.memory)
    | .error (.raised e) t => .error e (t.data, (t.cache, t.globalCounter), t.memory)
    | .error (.fault f) t => .error (text f) (t.data, (t.cache, t.globalCounter), t.memory)

/-- The caches of a stack from its top, and the state of the level below them all. -/
@[reducible] def Stack (μ : Type) : List CacheConfig → Type
  | [] => μ
  | _ :: confs => (Cache × UInt64) × Stack μ confs

def stack (text : Fault → String) (bottom : Memory μ) : (confs : List CacheConfig) → Memory (Stack μ confs)
  | [] => bottom
  | _ :: confs => asLevel text (some (stack text bottom confs))

def through (bottom : Memory μ) : List CacheConfig → Memory μ
  | [] => bottom
  | conf :: confs => passing conf.blockSize conf.writePolicy (some (through bottom confs))

def Made : (confs : List CacheConfig) → Stack μ confs → μ → Prop
  | [], s, m => s = m
  | conf :: confs, s, m => (∃ g, Cache.new conf g = .ok s.1.1) ∧ Made confs s.2 m

def base : (confs : List CacheConfig) → Stack μ confs → μ
  | [], s => s
  | _ :: confs, s => base confs s.2

def Over : (confs : List CacheConfig) → Stack μ confs → μ → Prop
  | [], s, m => s = m
  | conf :: confs, s, m => Idle conf.blockSize conf.writePolicy s.1.1 ∧ Over confs s.2 m

def reached : List CacheConfig → Nat
  | [] => 0
  | conf :: confs => match conf.writePolicy with
    | .WriteThrough => reached confs + 1
    | .WriteBack => 1

/-- What an access asks of the level below all caches: each cache it reaches
fetches once, and a write comes out only where every cache writes through. -/
def traffic (confs : List CacheConfig) (address : UInt32) (isWrite : Bool) : List (UInt32 × Bool) :=
  if isWrite then
    List.replicate (reached confs) (address, false) ++
      if confs.all (·.writePolicy = .WriteThrough) then [(address, true)] else []
  else [(address, false)]

def place (call : WriteBack.LevelCall) : UInt32 × Bool := (call.address, call.isWrite)

def recorded (blockSize : UInt32) : Memory (List WriteBack.LevelCall × (UInt32 → Block blockSize.toNat)) :=
  WriteBack.logged (flatMemory blockSize)

def content (blockSize : UInt32) (confs : List CacheConfig) (memory : UInt32 → Block blockSize.toNat)
    (address : UInt32) : List UInt8 :=
  match confs with
  | [] => (memory (address / blockSize)).1
  | _ :: _ => List.replicate blockSize.toNat 0

def Within (n : Nat) (R : ν → μ → Prop) (s : List UInt8 × ν) (t : List UInt8 × μ) : Prop :=
  s.1 = t.1 ∧ s.1.length = n ∧ R s.2 t.2

def Uncovered (blockSize : UInt32) (writePolicy : WritePolicyType) (I : ν → Prop) (s : (Cache × UInt64) × ν)
    (t : ν) : Prop := Idle blockSize writePolicy s.1.1 ∧ s.2 = t ∧ I t

variable {blockSize : UInt32} {writePolicy : WritePolicyType} {next : Option (Memory μ)} {I : μ → Prop}

theorem final_finishing (hnext : Steady n I next) (hsize : blockSize.toNat = n) (address : UInt32)
    (isWrite : Bool) {t : List UInt8 × μ} (hlength : t.1.length = n) (hI : I t.2) :
    (final ((finishing blockSize writePolicy next address isWrite).run t)).1.length = n ∧
      I (final ((finishing blockSize writePolicy next address isWrite).run t)).2 := by
  cases isWrite with
  | false =>
      refine ⟨?_, hI⟩
      rw [← hsize]
      exact List.length_replicate
  | true =>
      cases writePolicy with
      | WriteBack => exact ⟨hlength, hI⟩
      | WriteThrough => exact hnext address true t hlength hI

theorem passing_steady (writePolicy : WritePolicyType) (hnext : Steady n I next) (hsize : blockSize.toNat = n) :
    Steady n I (some (passing blockSize writePolicy next)) := by
  intro address isWrite t hlength hI
  have hfetch := hnext address false t hlength hI
  rw [ask, passing, EStateM.run_bind]
  cases h : (ask next address false).run t with
  | error e u =>
      rw [h] at hfetch
      exact hfetch
  | ok _ u =>
      rw [h, final_ok] at hfetch
      exact final_finishing hnext hsize address isWrite hfetch.1 hfetch.2

/-- A cache that stores no line simulates the level without lines. -/
theorem asLevel_simulates (text : Fault → String) (writePolicy : WritePolicyType) (hnext : Steady n I next)
    (hsize : blockSize.toNat = n) (address : UInt32) (isWrite : Bool) :
    Simulates (Within n (Uncovered blockSize writePolicy I)) ((asLevel text next).access address isWrite)
      ((passing blockSize writePolicy next).access address isWrite) := by
  subst hsize
  rintro ⟨d, ⟨c, k⟩, m⟩ ⟨d', m'⟩ ⟨hd, hlength, hidle, hm, hI⟩
  obtain rfl : d = d' := hd
  obtain rfl : m = m' := hm
  have htied := access_tied (s := ⟨c, k, m, d⟩) hidle hnext address isWrite hlength hI
  have hidle' := access_idle (s := ⟨c, k, m, d⟩) hidle next address isWrite
  have hsteady := passing_steady writePolicy hnext rfl address isWrite (d, m) hlength hI
  rw [ask] at hsteady
  change Matches _ (match (Cache.access next address isWrite).run ⟨c, k, m, d⟩ with
    | .ok () t => .ok () (t.data, (t.cache, t.globalCounter), t.memory)
    | .error (.raised e) t => .error e (t.data, (t.cache, t.globalCounter), t.memory)
    | .error (.fault f) t => .error (text f) (t.data, (t.cache, t.globalCounter), t.memory)) _
  cases haccess : (Cache.access next address isWrite).run ⟨c, k, m, d⟩ with
  | ok u t =>
      rw [haccess] at htied hidle'
      cases hpassing : ((passing blockSize writePolicy next).access address isWrite).run (d, m) with
      | error e v =>
          rw [hpassing] at htied
          exact False.elim htied
      | ok u v =>
          rw [hpassing] at htied hsteady
          obtain ⟨_, hdata, hmemory⟩ := htied
          exact ⟨rfl, hdata, hdata ▸ hsteady.1, hidle', hmemory, hsteady.2⟩
  | error e t =>
      rw [haccess] at htied hidle'
      cases hpassing : ((passing blockSize writePolicy next).access address isWrite).run (d, m) with
      | ok u v =>
          rw [hpassing] at htied
          exact False.elim htied
      | error e v =>
          rw [hpassing] at htied hsteady
          obtain ⟨rfl, hdata, hmemory⟩ := htied
          exact ⟨rfl, hdata, hdata ▸ hsteady.1, hidle', hmemory, hsteady.2⟩

theorem passing_simulates (writePolicy : WritePolicyType) {R : ν → μ → Prop} {upper : Memory ν} {lower : Memory μ}
    (h : ∀ address isWrite, Simulates (Within n R) (upper.access address isWrite) (lower.access address isWrite))
    (hsize : blockSize.toNat = n) (address : UInt32) (isWrite : Bool) :
    Simulates (Within n R) ((passing blockSize writePolicy (some upper)).access address isWrite)
      ((passing blockSize writePolicy (some lower)).access address isWrite) := by
  apply Simulates.bind (h address false)
  intro _
  cases isWrite with
  | false =>
      apply Simulates.modify
      rintro s t ⟨_, _, hR⟩
      exact ⟨rfl, by rw [List.length_replicate, hsize], hR⟩
  | true =>
      cases writePolicy with
      | WriteBack => exact Simulates.pure ()
      | WriteThrough => exact h address true

theorem stack_simulates (text : Fault → String) {bottom : Memory μ} (hbottom : KeepsSize bottom)
    {confs : List CacheConfig} (hsizes : ∀ conf ∈ confs, conf.blockSize.toNat = n) (address : UInt32)
    (isWrite : Bool) :
    Simulates (Within n (Over confs)) ((stack text bottom confs).access address isWrite)
      ((through bottom confs).access address isWrite) := by
  induction confs generalizing address isWrite with
  | nil =>
      rintro ⟨d, m⟩ ⟨d', m'⟩ ⟨hd, hlength, hm⟩
      obtain rfl : d = d' := hd
      obtain rfl : m = m' := hm
      have hkept := hbottom address isWrite d m
      change Matches _ (bottom.access address isWrite (d, m)) (bottom.access address isWrite (d, m))
      cases h : bottom.access address isWrite (d, m) with
      | ok u t =>
          rw [h, final_ok] at hkept
          exact ⟨rfl, rfl, hkept.trans hlength, rfl⟩
      | error e t =>
          rw [h, final_error] at hkept
          exact ⟨rfl, rfl, hkept.trans hlength, rfl⟩
  | cons conf confs ih =>
      have hsize := hsizes conf List.mem_cons_self
      have hrest := ih fun c hc => hsizes c (List.mem_cons_of_mem _ hc)
      have hsteady : Steady n (fun s => ∃ m, Over confs s m) (some (stack text bottom confs)) := by
        rintro address isWrite ⟨d, s⟩ hlength ⟨m, hm⟩
        have hfinal := (hrest address isWrite (d, s) (d, m) ⟨rfl, hlength, hm⟩).final
        exact ⟨hfinal.2.1, _, hfinal.2.2⟩
      have hcache := asLevel_simulates text conf.writePolicy hsteady hsize address isWrite
      have hbelow := passing_simulates conf.writePolicy hrest hsize address isWrite
      rintro ⟨d, s⟩ ⟨d', m⟩ ⟨hd, hlength, hidle, hover⟩
      obtain rfl : d = d' := hd
      apply ((hcache.comp hbelow) (d, s) (d, m)
        ⟨(d, s.2), ⟨rfl, hlength, hidle, rfl, m, hover⟩, rfl, hlength, hover⟩).imp
      rintro ⟨t, ⟨ht, hlt, hidle', hs, _⟩, hu, _, hover'⟩
      exact ⟨ht.trans hu, hlt, hidle', by rw [hs]; exact hover'⟩

theorem Over.base {confs : List CacheConfig} {s : Stack μ confs} {m : μ} (h : Over confs s m) :
    base confs s = m := by
  induction confs with
  | nil => exact h
  | cons conf confs ih => exact ih h.2

theorem Made.over {confs : List CacheConfig} (haccepted : ∀ conf ∈ confs, ∃ args, CacheConfig.construct args = .ok conf)
    {s : Stack μ confs} {m : μ} (h : Made confs s m) : Over confs s m := by
  induction confs with
  | nil => exact h
  | cons conf confs ih =>
      obtain ⟨⟨g, hg⟩, hrest⟩ := h
      obtain ⟨args, hargs⟩ := haccepted conf List.mem_cons_self
      obtain ⟨c, hc, hfresh, hshape⟩ := new_eq (CacheConfig.accepted_of_construct hargs) g
      rw [hg] at hc
      obtain rfl := Except.ok.inj hc
      exact ⟨Fresh.idle hfresh hshape, ih (fun c hc => haccepted c (List.mem_cons_of_mem _ hc)) hrest⟩

theorem recorded_keeps (blockSize : UInt32) : KeepsSize (recorded blockSize) := by
  intro address isWrite d m
  have hkept := flatMemory_keepsSize blockSize address isWrite d m.2
  rw [recorded, WriteBack.logged]
  dsimp only
  cases h : (flatMemory blockSize).access address isWrite (d, m.2) with
  | ok u t =>
      rw [h] at hkept
      exact hkept
  | error e t =>
      rw [h] at hkept
      exact hkept

section

variable {confs : List CacheConfig} (address : UInt32) {d : List UInt8} (log : List WriteBack.LevelCall)
  (memory : UInt32 → Block blockSize.toNat)

theorem content_length (confs : List CacheConfig) :
    (content blockSize confs memory address).length = blockSize.toNat := by
  cases confs with
  | nil => exact (memory (address / blockSize)).2
  | cons conf confs => exact List.length_replicate

theorem through_read (hsizes : ∀ conf ∈ confs, conf.blockSize = blockSize) (hlength : d.length = blockSize.toNat) :
    ((through (recorded blockSize) confs).access address false).run (d, log, memory) =
      .ok () (content blockSize confs memory address, log ++ [⟨address, false, d⟩], memory) := by
  induction confs with
  | nil => simp [through, recorded, WriteBack.logged, flatMemory, EStateM.run, hlength, content]
  | cons conf confs ih =>
      have hsize := hsizes conf List.mem_cons_self
      rw [through, passing, EStateM.run_bind, ask, ih fun c hc => hsizes c (List.mem_cons_of_mem _ hc)]
      subst hsize
      rfl

theorem through_write (hsizes : ∀ conf ∈ confs, conf.blockSize = blockSize) (hlength : d.length = blockSize.toNat) :
    ∃ t, ((through (recorded blockSize) confs).access address true).run (d, log, memory) = .ok () t ∧
      t.2.1.map place = log.map place ++ traffic confs address true ∧
      t.2.2 = match confs with
        | [] => Function.update memory (address / blockSize) ⟨d, hlength⟩
        | _ :: _ => memory := by
  induction confs generalizing d log with
  | nil =>
      refine ⟨(d, log ++ [⟨address, true, d⟩], Function.update memory (address / blockSize) ⟨d, hlength⟩), ?_, ?_, rfl⟩
      · simp [through, recorded, WriteBack.logged, flatMemory, EStateM.run, hlength]
      · simp [traffic, reached, place]
  | cons conf confs ih =>
      have hrest := fun c hc => hsizes c (List.mem_cons_of_mem conf hc)
      have hfetch := through_read address log memory hrest hlength
      rw [through, passing, EStateM.run_bind, ask, hfetch]
      dsimp only [finishing, if_true]
      cases hpolicy : conf.writePolicy with
      | WriteBack =>
          refine ⟨_, rfl, ?_, rfl⟩
          simp [traffic, reached, hpolicy, place]
      | WriteThrough =>
          obtain ⟨t, ht, hlog, hmemory⟩ := ih (log ++ [⟨address, false, d⟩]) hrest
            (content_length address memory confs)
          refine ⟨t, ht, ?_, ?_⟩
          · rw [hlog]
            simp [traffic, reached, hpolicy, place, List.replicate_succ]
          · rw [hmemory]
            cases confs with
            | nil => exact Function.update_eq_self _ memory
            | cons conf' confs => rfl

theorem request_flat (hne : confs ≠ []) (hsizes : ∀ conf ∈ confs, conf.blockSize = blockSize)
    (a : Access blockSize.toNat) (t : List UInt8 × List WriteBack.LevelCall × (UInt32 → Block blockSize.toNat)) :
    ∃ u, request (through (recorded blockSize) confs) a t = .ok () u ∧
      u.2.1.map place = t.2.1.map place ++ traffic confs a.address a.isWrite ∧ u.2.2 = t.2.2 ∧
      (a.isWrite = false → u.1 = List.replicate blockSize.toNat 0) := by
  obtain ⟨conf, rest, rfl⟩ := List.exists_cons_of_ne_nil hne
  rw [request]
  cases a.isWrite with
  | false =>
      refine ⟨_, through_read a.address t.2.1 t.2.2 hsizes a.data_length, ?_, rfl, fun _ => rfl⟩
      simp [traffic, place]
  | true =>
      obtain ⟨u, hu, hlog, hmemory⟩ := through_write a.address t.2.1 t.2.2 hsizes a.data_length
      exact ⟨u, hu, hlog, hmemory, by simp⟩

theorem runAll_flat (hne : confs ≠ []) (hsizes : ∀ conf ∈ confs, conf.blockSize = blockSize)
    (trace : List (Access blockSize.toNat))
    (t : List UInt8 × List WriteBack.LevelCall × (UInt32 → Block blockSize.toNat)) :
    (runAll (request (through (recorded blockSize) confs)) trace t).2.1.map place =
        t.2.1.map place ++ trace.flatMap (fun a => traffic confs a.address a.isWrite) ∧
      (runAll (request (through (recorded blockSize) confs)) trace t).2.2 = t.2.2 := by
  induction trace generalizing t with
  | nil => exact ⟨(List.append_nil _).symm, rfl⟩
  | cons a trace ih =>
      obtain ⟨u, hu, hlog, hmemory, _⟩ := request_flat hne hsizes a t
      have hfinal : final (request (through (recorded blockSize) confs) a t) = u := by rw [hu, final_ok]
      obtain ⟨htrace, hrest⟩ := ih u
      rw [runAll, List.foldl_cons, hfinal]
      exact ⟨by rw [← runAll, htrace, hlog, List.flatMap_cons, List.append_assoc], hrest.trans hmemory⟩

end

theorem request_matches (text : Fault → String) {bottom : Memory μ} (hbottom : KeepsSize bottom)
    {confs : List CacheConfig} (hsizes : ∀ conf ∈ confs, conf.blockSize = blockSize) (a : Access blockSize.toNat)
    {s : List UInt8 × Stack μ confs} {t : List UInt8 × μ} (h : Over confs s.2 t.2) :
    Matches (Within blockSize.toNat (Over confs)) (request (stack text bottom confs) a s)
      (request (through bottom confs) a t) :=
  stack_simulates text hbottom (fun conf hc => by rw [hsizes conf hc]) a.address a.isWrite _ _
    ⟨rfl, a.data_length, h⟩

/-- Under any number of caches the flat memory is asked for each block the
caches are, once for each cache that a write reaches, and never changes. -/
theorem run_traffic {confs : List CacheConfig} (hne : confs ≠ [])
    (haccepted : ∀ conf ∈ confs, ∃ args, CacheConfig.construct args = .ok conf)
    (hsizes : ∀ conf ∈ confs, conf.blockSize = blockSize) (text : Fault → String)
    (memory : UInt32 → Block blockSize.toNat) {s : Stack _ confs} (hmade : Made confs s ([], memory))
    (trace : List (Access blockSize.toNat)) :
    let level := stack text (recorded blockSize) confs
    let t := runAll (request level) trace ([], s)
    (base confs t.2).1.map place = trace.flatMap (fun a => traffic confs a.address a.isWrite) ∧
      (base confs t.2).2 = memory ∧
      ∀ a : Access blockSize.toNat, ∃ u, request level a t = .ok () u ∧
        (a.isWrite = false → u.1 = List.replicate blockSize.toNat 0) := by
  intro level t
  have hkeeps := recorded_keeps blockSize
  have hover : Over confs t.2 (runAll (request (through (recorded blockSize) confs)) trace ([], [], memory)).2 :=
    runAll_matches (R := fun s t => Over confs s.2 t.2)
      (fun a _ s t h => (request_matches text hkeeps hsizes a h).imp fun h => h.2.2) (hmade.over haccepted)
  obtain ⟨hlog, hmemory⟩ := runAll_flat hne hsizes trace ([], [], memory)
  rw [hover.base]
  refine ⟨hlog, hmemory, fun a => ?_⟩
  have hmatches := request_matches text hkeeps hsizes a hover
  obtain ⟨v, hv, _, _, hread⟩ := request_flat hne hsizes a
    (runAll (request (through (recorded blockSize) confs)) trace ([], [], memory))
  rw [hv] at hmatches
  cases hu : request level a t with
  | ok _ u =>
      rw [hu] at hmatches
      exact ⟨u, rfl, fun h => hmatches.2.1.trans (hread h)⟩
  | error e u =>
      rw [hu] at hmatches
      exact False.elim hmatches

def twoConfigs : List CacheConfig :=
  [⟨16, 2, 4, .FIFO, .WriteThrough, 4, 4, 8, 8⟩, ⟨16, 2, 4, .FIFO, .WriteBack, 4, 4, 8, 8⟩]

theorem run_traffic_two_caches : ∃ s : Stack (List WriteBack.LevelCall × (UInt32 → Block (UInt32.toNat 4))) twoConfigs,
    Made twoConfigs s ([], fun _ => ⟨[7, 7, 7, 7], rfl⟩) ∧
      let level := stack (fun _ => "fault") (recorded 4) twoConfigs
      let t := runAll (request level) [⟨9, true, [1, 2, 3, 4], rfl⟩] ([], s)
      (base twoConfigs t.2).1.map place = [(9, false), (9, false)] ∧
        (base twoConfigs t.2).2 = (fun _ => ⟨[7, 7, 7, 7], rfl⟩) ∧
        ∀ a : Access (UInt32.toNat 4), ∃ u, request level a t = .ok () u ∧
          (a.isWrite = false → u.1 = List.replicate (UInt32.toNat 4) 0) := by
  obtain ⟨c, hc, _⟩ := two_by_two .WriteThrough
  obtain ⟨d, hd, _⟩ := two_by_two .WriteBack
  refine ⟨((c, 0), (d, 0), [], fun _ => ⟨[7, 7, 7, 7], rfl⟩), ⟨⟨zeroFilled, hc⟩, ⟨zeroFilled, hd⟩, rfl⟩, ?_⟩
  apply run_traffic (by decide)
  · intro conf hconf
    refine ⟨conf, ?_⟩
    rcases List.mem_pair.mp hconf with rfl | rfl <;> decide
  · intro conf hconf
    rcases List.mem_pair.mp hconf with rfl | rfl <;> rfl
  · exact ⟨⟨zeroFilled, hc⟩, ⟨zeroFilled, hd⟩, rfl⟩

end MemSim.CacheStack
