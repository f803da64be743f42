import MemSim.CacheSteps

namespace MemSim.FailedAccess

open Machine Cache

variable {μ : Type}

/-- At most the statistics and the miss type differ. -/
def Intact (c d : Cache) : Prop :=
  d = { c with
    hits := d.hits
    misses := d.misses
    reads := d.reads
    writes := d.writes
    missType := d.missType }

def backed (level : Memory μ) (c : Cache) (victim : CacheBlock) (setId : Int32) :
    EStateM String (List UInt8 × μ) Unit :=
  if victim.valid && victim.dirty then level.access (AddressSplit.victimAddress c victim.tag setId) true
  else pure ()

/-- A write misses under write-through, and of its calls on the next level the
store of the written data is the first that throws. -/
def StoreThrows (level : Memory μ) (s : Frame μ) (address : UInt32) (isWrite : Bool) : Prop :=
  s.cache.hitWay address = none ∧ isWrite = true ∧ s.cache.config.writePolicy = .WriteThrough ∧
    ∃ victim d₁ d₂ e d₃,
      s.cache.lineAt (s.cache.setOf address) (s.cache.missWay (s.cache.setOf address)) = some victim ∧
      backed level s.cache victim (s.cache.setIdOf address) (s.data, s.memory) = .ok () d₁ ∧
      level.access address false d₁ = .ok () d₂ ∧
      level.access address true d₂ = .error e d₃

variable {level : Memory μ} {s : Frame μ} {address : UInt32} {isWrite : Bool}

theorem writeBack_answered (level : Memory μ) (victim : CacheBlock) (setId : Int32) (s : Frame μ) :
    (writeBack (some level) victim setId).run s = answered s (backed level s.cache victim setId (s.data, s.memory)) := by
  rw [writeBack_eq, backed]
  split
  · exact nextAccess_answered _ _ _ _
  · rfl

theorem copied_ne_raised (s : Frame μ) (f : List UInt8 → Frame μ) (dst src : List UInt8) (e : String)
    (t : Frame μ) : copied s f (copyData dst src) ≠ .error (.raised e) t := by
  intro h
  by_cases hlen : dst.length = src.length
  · rw [copyData_eq hlen] at h
    cases h
  · rw [copyData, assert, if_neg hlen, bind_error] at h
    cases h

theorem accessFinish_raised {block : CacheBlock} {e : String} {t : Frame μ}
    (h : (accessFinish (some level) address isWrite block).run s = .error (.raised e) t) :
    isWrite = true ∧ s.cache.config.writePolicy = .WriteThrough ∧
      ∃ d, level.access address true (s.data, s.memory) = .error e d := by
  cases isWrite with
  | false =>
      rw [accessFinish_read] at h
      exact absurd h (copied_ne_raised _ _ _ _ _ _)
  | true =>
      cases hpolicy : s.cache.config.writePolicy with
      | WriteBack =>
          rw [accessFinish_writeBack _ _ _ _ hpolicy] at h
          exact absurd h (copied_ne_raised _ _ _ _ _ _)
      | WriteThrough =>
          rw [accessFinish_writeThrough _ _ _ _ hpolicy, nextAccess_answered] at h
          refine ⟨rfl, rfl, ?_⟩
          dsimp only at h
          cases hstore : level.access address true (s.data, s.memory) with
          | error f d =>
              simp only [hstore, answered, EStateM.Result.error.injEq, Stop.raised.injEq] at h
              exact ⟨d, by rw [h.1]⟩
          | ok u d =>
              simp only [hstore, answered] at h
              exact absurd h (copied_ne_raised _ _ _ _ _ _)

theorem intact_hit (level : Memory μ) (isWrite : Bool) (hhit : s.cache.hitWay address ≠ none) (hs : Shape s.cache) :
    Intact s.cache (final ((access (some level) address isWrite).run s)).cache := by
  rcases access_cache (some level) address isWrite hs with ⟨_, h⟩ | ⟨hmiss, _⟩
  · rw [h]
    cases isWrite <;> rfl
  · exact absurd hmiss hhit

theorem inserted_policies_ne {c : Cache} {i : Nat} (hi : i < c.replacementPolicySet.length) (w : Nat) :
    (c.inserted i w).replacementPolicySet ≠ c.replacementPolicySet := by
  intro h
  have hget := congrArg (·[i]?) h
  simp only [inserted, List.getElem?_modify_eq, List.getElem?_eq_getElem hi, Option.map_eq_map,
    Option.map_some, Option.some.injEq] at hget
  have hcounter := congrArg FIFOPolicy.counter hget
  dsimp only at hcounter
  rw [← UInt32.add_zero c.replacementPolicySet[i].counter, UInt32.add_assoc, UInt32.add_right_inj] at hcounter
  exact absurd hcounter (by decide)

/-- An exception of the next level leaves the lines and the policies alone,
unless it is the store of a write-through after a miss that throws. -/
theorem intact_iff (hs : Shape s.cache) (level : Memory μ) (address : UInt32) (isWrite : Bool) :
    (∀ e t, (access (some level) address isWrite).run s = .error (.raised e) t → Intact s.cache t.cache) ↔
      ¬ StoreThrows level s address isWrite := by
  constructor
  · rintro hintact ⟨hmiss, rfl, hpolicy, victim, d₁, d₂, e, d₃, hvictim, hback, hfetch, hstore⟩
    obtain ⟨line, hline, heq⟩ := access_of_miss (some level) true hs hmiss
    rw [hvictim] at hline
    obtain rfl := Option.some.inj hline
    have hback' : backed level (s.cache.missed (s.cache.setOf address)) victim (s.cache.setIdOf address)
        (s.data, s.memory) = .ok () d₁ := hback
    rw [EStateM.run_bind, writeBack_answered, hback'] at heq
    simp only [answered, refill_eq, nextAccess_answered, hfetch] at heq
    rw [accessFinish_writeThrough] at heq
    case hpolicy => exact hpolicy
    simp only [nextAccess_answered, hstore, answered] at heq
    have hkept := congrArg replacementPolicySet (hintact e _ heq)
    refine inserted_policies_ne (c := s.cache) ?_ _ hkept
    rw [hs.policies_length]
    exact setOf_lt hs address
  · intro hnot e t hrun
    cases hw : s.cache.hitWay address with
    | some w =>
        have hintact := intact_hit level isWrite (by rw [hw]; nofun) hs
        rwa [hrun] at hintact
    | none =>
        obtain ⟨victim, hvictim, heq⟩ := access_of_miss (some level) isWrite hs hw
        rw [hrun, EStateM.run_bind, writeBack_answered] at heq
        have hback : backed level (s.cache.missed (s.cache.setOf address)) victim (s.cache.setIdOf address) =
          backed level s.cache victim (s.cache.setIdOf address) := rfl
        rw [hback] at heq
        cases hd₁ : backed level s.cache victim (s.cache.setIdOf address) (s.data, s.memory) with
        | error f d =>
            simp only [hd₁, answered, EStateM.Result.error.injEq] at heq
            rw [heq.2]
            rfl
        | ok u d₁ =>
            simp only [hd₁, answered, refill_eq, nextAccess_answered] at heq
            cases hd₂ : level.access address false d₁ with
            | error f d =>
                simp only [hd₂, EStateM.Result.error.injEq] at heq
                rw [heq.2]
                rfl
            | ok u d₂ =>
                simp only [hd₂] at heq
                obtain ⟨hwrite, hpolicy, d₃, hstore⟩ := accessFinish_raised heq.symm
                exact absurd ⟨hw, hwrite, hpolicy, victim, d₁, d₂, e, d₃, hvictim, hd₁, hd₂, hstore⟩ hnot

def readOnly : Memory Unit where
  access _ isWrite := fun s =>
    if isWrite then .error "error recieving response from the controller" s else .ok () s

theorem intact_iff_read_only :
    ∃ c, Cache.new ⟨16, 2, 4, .FIFO, .WriteBack, 4, 4, 8, 8⟩ zeroFilled = .ok c ∧
      ((∀ e t, (access (some readOnly) 0 true).run ⟨c, 0, (), [1, 2, 3, 4]⟩ = .error (.raised e) t →
          Intact c t.cache) ↔
        ¬ StoreThrows readOnly ⟨c, 0, (), [1, 2, 3, 4]⟩ 0 true) := by
  obtain ⟨c, hc, hshape, _⟩ := two_by_two .WriteBack
  have hs : Shape (⟨c, 0, (), [1, 2, 3, 4]⟩ : Frame Unit).cache := hshape
  exact ⟨c, hc, intact_iff hs readOnly 0 true⟩

theorem failed_store_counted :
    ∃ c e t, Cache.new ⟨16, 2, 4, .FIFO, .WriteThrough, 4, 4, 8, 8⟩ zeroFilled = .ok c ∧
      (access (some readOnly) 0 true).run ⟨c, 0, (), [1, 2, 3, 4]⟩ = .error (.raised e) t ∧
      ¬ Intact c t.cache := by
  refine ⟨_, _, _, rfl, rfl, ?_⟩
  intro h
  exact absurd (congrArg replacementPolicySet h) (by decide)

end MemSim.FailedAccess
