import MemSim.CacheSteps

namespace MemSim.WriteBack

open Machine Cache

variable {μ : Type}

structure LevelCall where
  address : UInt32
  isWrite : Bool
  data : List UInt8
  deriving DecidableEq, Repr

def logged (level : Memory μ) : Memory (List LevelCall × μ) where
  access address isWrite := fun s =>
    match level.access address isWrite (s.1, s.2.2) with
    | .ok () t => .ok () (t.1, s.2.1 ++ [⟨address, isWrite, s.1⟩], t.2)
    | .error e t => .error e (t.1, s.2.1 ++ [⟨address, isWrite, s.1⟩], t.2)

/-- The calls an access makes on the next level, however it ends. -/
def callsOf (level : Memory μ) (s : Frame μ) (address : UInt32) (isWrite : Bool) : List LevelCall :=
  (final ((access (some (logged level)) address isWrite).run
    ⟨s.cache, s.globalCounter, ([], s.memory), s.data⟩)).memory.1

def ResolvedTags (c : Cache) : Prop :=
  ∀ i w line, c.lineAt i w = some line → line.valid = true →
    ∃ address setId, c.resolveAddress address = .ok (line.tag, setId) ∧ setId.toInt = i

def Evicts (c : Cache) (address : UInt32) (victim : CacheBlock) : Prop :=
  c.hitWay address = none ∧ c.invalidWay (c.setOf address) = none ∧
    c.lineAt (c.setOf address) (c.victimWay (c.setOf address)) = some victim

/-- The victim's own block is written once, before anything else is asked for. -/
def WritesVictim (level : Memory μ) (s : Frame μ) (address : UInt32) (isWrite : Bool) (victim : CacheBlock)
    (data : List UInt8) : Prop :=
  ∃ start rest, callsOf level s address isWrite = ⟨start, true, data⟩ :: rest ∧
    (∀ call ∈ rest, call.isWrite = true → call.address / s.cache.blockSize ≠ start / s.cache.blockSize) ∧
    ∀ a, s.cache.resolveAddress a = .ok (victim.tag, s.cache.setIdOf address) → start = a - a % s.cache.blockSize

/-- A dirty victim is written with its own data; no other line is written back. -/
structure WritesBack (level : Memory μ) (s : Frame μ) (address : UInt32) (isWrite : Bool) : Prop where
  dirty : ∀ victim, Evicts s.cache address victim → victim.dirty = true →
    WritesVictim level s address isWrite victim victim.data
  otherwise : (∀ victim, Evicts s.cache address victim → victim.dirty = false) →
    ∀ call ∈ callsOf level s address isWrite, call.isWrite = true →
      isWrite = true ∧ s.cache.config.writePolicy = .WriteThrough ∧ call.address = address

def OwnStores (c : Cache) (address : UInt32) (isWrite : Bool) (calls : List LevelCall) : Prop :=
  ∀ call ∈ calls, call.isWrite = true →
    isWrite = true ∧ c.config.writePolicy = .WriteThrough ∧ call.address = address

variable {level : Memory μ} {s : Frame μ} {address : UInt32} {isWrite : Bool}

theorem nextAccess_logged (level : Memory μ) (address : UInt32) (isWrite : Bool)
    (s : Frame (List LevelCall × μ)) :
    (final ((nextAccess (some (logged level)) address isWrite).run s)).memory.1 =
      s.memory.1 ++ [⟨address, isWrite, s.data⟩] := by
  rw [nextAccess_answered, logged]
  dsimp only
  cases level.access address isWrite (s.data, s.memory.2) <;> rfl

theorem accessFinish_logged (level : Memory μ) (address : UInt32) (isWrite : Bool) (block : CacheBlock)
    (s : Frame (List LevelCall × μ)) :
    ∃ calls, (final ((accessFinish (some (logged level)) address isWrite block).run s)).memory.1 =
      s.memory.1 ++ calls ∧ OwnStores s.cache address isWrite calls := by
  cases isWrite with
  | false =>
      refine ⟨[], ?_, nofun⟩
      rw [accessFinish_read, List.append_nil]
      apply final_copied (P := fun t : Frame (List LevelCall × μ) => t.memory.1 = s.memory.1)
      · rfl
      · exact fun _ => rfl
  | true =>
      cases hpolicy : s.cache.config.writePolicy with
      | WriteBack =>
          refine ⟨[], ?_, nofun⟩
          rw [accessFinish_writeBack _ _ _ _ hpolicy, List.append_nil]
          apply final_copied (P := fun t : Frame (List LevelCall × μ) => t.memory.1 = s.memory.1)
          · rfl
          · exact fun _ => rfl
      | WriteThrough =>
          have hcalls := nextAccess_logged level address true { s with cache := s.cache.served true }
          refine ⟨[⟨address, true, s.data⟩], ?_, ?_⟩
          · rw [accessFinish_writeThrough _ _ _ _ hpolicy]
            split
            · next e t h =>
                rw [h] at hcalls
                exact hcalls
            · next t h =>
                rw [h] at hcalls
                exact final_copied
                  (P := fun t : Frame (List LevelCall × μ) => t.memory.1 = s.memory.1 ++ [⟨address, true, s.data⟩])
                  hcalls (fun _ => hcalls) _
          · intro call hcall _
            rw [List.mem_singleton.mp hcall]
            exact ⟨rfl, hpolicy, rfl⟩

theorem refill_logged (level : Memory μ) (address : UInt32) (isWrite : Bool) (line : CacheBlock) (tag : UInt32)
    (i w : Nat) (s : Frame (List LevelCall × μ)) :
    ∃ calls, (final ((refill (some (logged level)) address isWrite line tag i w).run s)).memory.1 =
      s.memory.1 ++ calls ∧ OwnStores s.cache address isWrite calls := by
  have hcalls := nextAccess_logged level address false s
  have hcache := nextAccess_cache (some (logged level)) address false s
  have hfetch : OwnStores s.cache address isWrite [⟨address, false, s.data⟩] := by
    intro call hcall hwrite
    rw [List.mem_singleton.mp hcall] at hwrite
    cases hwrite
  rw [refill_eq]
  cases h : (nextAccess (some (logged level)) address false).run s with
  | error e t =>
      rw [h] at hcalls
      exact ⟨_, hcalls, hfetch⟩
  | ok _ t =>
      rw [h, final_ok] at hcalls hcache
      obtain ⟨calls, hfinish, hown⟩ := accessFinish_logged level address isWrite
        (refilled line tag t.globalCounter)
        { t with cache := t.cache.inserted i w, globalCounter := t.globalCounter + 1 }
      refine ⟨⟨address, false, s.data⟩ :: calls, ?_, ?_⟩
      · dsimp only
        rw [hfinish, hcalls, List.append_assoc]
        rfl
      · intro call hcall hwrite
        rcases List.mem_cons.mp hcall with rfl | hcall
        · cases hwrite
        · rw [← hcache]
          exact hown call hcall hwrite

theorem writeBack_logged (level : Memory μ) (victim : CacheBlock) (setId : Int32)
    (s : Frame (List LevelCall × μ)) :
    (final ((writeBack (some (logged level)) victim setId).run s)).memory.1 =
      s.memory.1 ++ if victim.valid && victim.dirty then
        [⟨AddressSplit.victimAddress s.cache victim.tag setId, true, s.data⟩]
      else [] := by
  rw [writeBack_eq]
  split
  · exact nextAccess_logged level _ true s
  · simp

theorem callsOf_miss (hs : Shape s.cache) (hmiss : s.cache.hitWay address = none) (level : Memory μ)
    (isWrite : Bool) :
    ∃ line calls, s.cache.lineAt (s.cache.setOf address) (s.cache.missWay (s.cache.setOf address)) = some line ∧
      callsOf level s address isWrite =
        (if line.valid && line.dirty then
          [⟨AddressSplit.victimAddress s.cache line.tag (s.cache.setIdOf address), true, s.data⟩]
        else []) ++ calls ∧
      OwnStores s.cache address isWrite calls := by
  have hs' : Shape (⟨s.cache, s.globalCounter, ([], s.memory), s.data⟩ : Frame (List LevelCall × μ)).cache := hs
  obtain ⟨line, hline, heq⟩ := access_of_miss (some (logged level)) isWrite hs' hmiss
  have hcalls := writeBack_logged level line (s.cache.setIdOf address)
    ⟨s.cache.missed (s.cache.setOf address), s.globalCounter, ([], s.memory), s.data⟩
  have hcache := writeBack_cache (some (logged level)) line (s.cache.setIdOf address)
    ⟨s.cache.missed (s.cache.setOf address), s.globalCounter, ([], s.memory), s.data⟩
  refine ⟨line, ?_⟩
  rw [callsOf, heq, EStateM.run_bind]
  cases h : (writeBack (some (logged level)) line (s.cache.setIdOf address)).run
      ⟨s.cache.missed (s.cache.setOf address), s.globalCounter, ([], s.memory), s.data⟩ with
  | error e t =>
      rw [h] at hcalls
      exact ⟨[], hline, by rw [List.append_nil]; exact hcalls, nofun⟩
  | ok _ t =>
      rw [h, final_ok] at hcalls hcache
      obtain ⟨calls, hrest, hown⟩ := refill_logged level address isWrite line (s.cache.tagOf address)
        (s.cache.setOf address) (s.cache.missWay (s.cache.setOf address)) t
      rw [hcache] at hown
      exact ⟨calls, hline, by rw [hrest, hcalls]; rfl, hown⟩

theorem callsOf_hit (hs : Shape s.cache) (hhit : s.cache.hitWay address ≠ none) (level : Memory μ)
    (isWrite : Bool) : OwnStores s.cache address isWrite (callsOf level s address isWrite) := by
  obtain ⟨w, hw⟩ := Option.ne_none_iff_exists'.mp hhit
  have hs' : Shape (⟨s.cache, s.globalCounter, ([], s.memory), s.data⟩ : Frame (List LevelCall × μ)).cache := hs
  obtain ⟨line, _, heq⟩ := access_of_hit (some (logged level)) isWrite hs' hw
  obtain ⟨calls, hcalls, hown⟩ := accessFinish_logged level address isWrite (touched line s.globalCounter)
    ⟨{ s.cache with hits := s.cache.hits + 1 }, s.globalCounter + 1, ([], s.memory), s.data⟩
  rw [callsOf, heq, hcalls]
  exact hown

theorem valid_of_invalidWay {c : Cache} {i w : Nat} {line : CacheBlock} (h : c.invalidWay i = none)
    (hline : c.lineAt i w = some line) : line.valid = true := by
  have hfalse := List.findIdx?_eq_none_iff.mp h line (List.mem_of_getElem? hline)
  simpa using hfalse

theorem invalid_of_invalidWay {c : Cache} {i w : Nat} {line : CacheBlock} (h : c.invalidWay i = some w)
    (hline : c.lineAt i w = some line) : line.valid = false := by
  obtain ⟨hlt, hfound, _⟩ := List.findIdx?_eq_some_iff_getElem.mp h
  obtain ⟨_, hget⟩ := List.getElem?_eq_some_iff.mp hline
  rw [hget] at hfound
  simpa using hfound

theorem Evicts.at_missWay {c : Cache} {victim : CacheBlock} (h : Evicts c address victim) :
    c.lineAt (c.setOf address) (c.missWay (c.setOf address)) = some victim ∧ victim.valid = true := by
  obtain ⟨_, hfull, hline⟩ := h
  refine ⟨?_, valid_of_invalidWay hfull hline⟩
  rw [missWay, hfull]
  exact hline

theorem Evicts.of_missWay {c : Cache} {line : CacheBlock} (hmiss : c.hitWay address = none)
    (hline : c.lineAt (c.setOf address) (c.missWay (c.setOf address)) = some line)
    (hvalid : line.valid = true) : Evicts c address line := by
  cases hw : c.invalidWay (c.setOf address) with
  | none =>
      rw [missWay, hw] at hline
      exact ⟨hmiss, hw, hline⟩
  | some w =>
      rw [missWay, hw] at hline
      rw [invalid_of_invalidWay hw hline] at hvalid
      cases hvalid

theorem callsOf_evicts {victim : CacheBlock} (hs : Shape s.cache) (hevicts : Evicts s.cache address victim)
    (hdirty : victim.dirty = true) (level : Memory μ) (isWrite : Bool) :
    ∃ calls, callsOf level s address isWrite =
        ⟨AddressSplit.victimAddress s.cache victim.tag (s.cache.setIdOf address), true, s.data⟩ :: calls ∧
      OwnStores s.cache address isWrite calls := by
  obtain ⟨line, calls, hline, hcalls, hown⟩ := callsOf_miss hs hevicts.1 level isWrite
  obtain ⟨hvictim, hvalid⟩ := hevicts.at_missWay
  rw [hvictim] at hline
  obtain rfl := Option.some.inj hline
  refine ⟨calls, ?_, hown⟩
  rw [hcalls, hvalid, hdirty]
  rfl

theorem victimAddress_div_ne {victim : CacheBlock} (hs : Shape s.cache) (htags : ResolvedTags s.cache)
    (hevicts : Evicts s.cache address victim) :
    address / s.cache.blockSize ≠
      AddressSplit.victimAddress s.cache victim.tag (s.cache.setIdOf address) / s.cache.blockSize := by
  obtain ⟨hline, hvalid⟩ := hevicts.at_missWay
  obtain ⟨a, setId, hresolve, hset⟩ := htags _ _ _ hline hvalid
  rw [resolveAddress_parts hs, Except.ok.injEq, Prod.mk.injEq] at hresolve
  obtain ⟨htag, rfl⟩ := hresolve
  have hsetId : s.cache.setIdOf a = s.cache.setIdOf address := by
    apply Int32.toInt_inj.mp
    rw [hset, setIdOf_toInt hs]
  have hstart := (AddressSplit.reassembles hs a).start
  change AddressSplit.victimAddress s.cache (s.cache.tagOf a) (s.cache.setIdOf a) = _ at hstart
  rw [htag, hsetId] at hstart
  have hblock : (a - a % s.cache.blockSize) / s.cache.blockSize = a / s.cache.blockSize := by
    have hle : a % s.cache.blockSize ≤ a := by
      rw [UInt32.le_iff_toNat_le, UInt32.toNat_mod]
      exact Nat.mod_le _ _
    apply UInt32.toNat_inj.mp
    rw [UInt32.toNat_div, UInt32.toNat_sub_of_le _ _ hle, UInt32.toNat_mod, UInt32.toNat_div,
      ← Nat.div_mul_self_eq_mod_sub_self, Nat.mul_div_cancel _ hs.blockSize_pos]
  intro hsame
  rw [hstart, hblock] at hsame
  have hboth := (AddressSplit.resolveAddress_eq_iff hs address a).mpr hsame
  rw [resolveAddress_parts hs, resolveAddress_parts hs, Except.ok.injEq, Prod.mk.injEq] at hboth
  exact hitWay_ne_none hline hvalid (by rw [← htag, hboth.1]) hevicts.1

theorem writesVictim_of_evicts {victim : CacheBlock} (hs : Shape s.cache) (htags : ResolvedTags s.cache)
    (hevicts : Evicts s.cache address victim) (hdirty : victim.dirty = true) (level : Memory μ) (isWrite : Bool) :
    WritesVictim level s address isWrite victim s.data := by
  obtain ⟨calls, hcalls, hown⟩ := callsOf_evicts hs hevicts hdirty level isWrite
  refine ⟨_, calls, hcalls, ?_, ?_⟩
  · intro call hcall hwrite
    rw [(hown call hcall hwrite).2.2]
    exact victimAddress_div_ne hs htags hevicts
  · intro a hresolve
    rw [resolveAddress_parts hs, Except.ok.injEq, Prod.mk.injEq] at hresolve
    rw [← hresolve.1, ← hresolve.2]
    exact (AddressSplit.reassembles hs a).start

/-- A dirty victim is written back with the caller's data, so its own are sent
exactly where the caller holds the same. -/
theorem writesBack_iff (hs : Shape s.cache) (htags : ResolvedTags s.cache) (level : Memory μ)
    (address : UInt32) (isWrite : Bool) :
    (WritesBack level s address isWrite ↔
      ∀ victim, Evicts s.cache address victim → victim.dirty = true → s.data = victim.data) ∧
    ∀ victim, Evicts s.cache address victim → victim.dirty = true →
      WritesVictim level s address isWrite victim s.data := by
  refine ⟨?_, fun victim hevicts hdirty => writesVictim_of_evicts hs htags hevicts hdirty level isWrite⟩
  constructor
  · intro h victim hevicts hdirty
    obtain ⟨start, rest, hcalls, _⟩ := h.dirty victim hevicts hdirty
    obtain ⟨calls, hcalls', _⟩ := callsOf_evicts hs hevicts hdirty level isWrite
    rw [hcalls'] at hcalls
    exact congrArg LevelCall.data (List.cons.inj hcalls).1
  · intro hsame
    refine ⟨?_, ?_⟩
    · intro victim hevicts hdirty
      rw [← hsame victim hevicts hdirty]
      exact writesVictim_of_evicts hs htags hevicts hdirty level isWrite
    · intro hclean
      by_cases hmiss : s.cache.hitWay address = none
      · obtain ⟨line, calls, hline, hcalls, hown⟩ := callsOf_miss hs hmiss level isWrite
        have hkept : (line.valid && line.dirty) = false := by
          cases hvalid : line.valid with
          | false => rfl
          | true => rw [hclean line (.of_missWay hmiss hline hvalid)]; rfl
        rw [hcalls, hkept]
        exact hown
      · exact callsOf_hit hs hmiss level isWrite

def oneLine (dirty : Bool) : Cache :=
  { size := 4
    associativity := 1
    blockSize := 4
    numOfBlocks := 1
    numOfSets := 1
    config := ⟨4, 1, 4, .FIFO, .WriteBack, 4, 4, 8, 8⟩
    associativityType := .DirectMapping
    missType := .CompulsoryMiss
    sets := [⟨[⟨true, dirty, 0, [9, 9, 9, 9], 1, 0⟩]⟩]
    replacementPolicySet := [⟨[1], 1⟩]
    hits := 0
    misses := 1
    reads := 0
    writes := 1 }

theorem oneLine_shape (dirty : Bool) : Shape (oneLine dirty) := by
  constructor <;> first | decide | simp [oneLine]

theorem oneLine_resolved (dirty : Bool) : ResolvedTags (oneLine dirty) := by
  intro i w line hline _
  obtain ⟨set, hset, hmem⟩ := mem_of_lineAt hline
  obtain rfl := List.mem_singleton.mp hset
  obtain rfl := List.mem_singleton.mp hmem
  refine ⟨0, 0, by cases dirty <;> decide, ?_⟩
  match i with
  | 0 => rfl
  | i + 1 => simp [lineAt, blocksAt, oneLine] at hline

theorem oneLine_unique (dirty : Bool) : UniqueTags (oneLine dirty) := by
  have hway : ∀ {i w line}, (oneLine dirty).lineAt i w = some line → w = 0 := by
    intro i w line hline
    obtain ⟨hlt, _⟩ := List.getElem?_eq_some_iff.mp hline
    match i with
    | 0 => simpa [blocksAt, oneLine] using hlt
    | i + 1 => simp [blocksAt, oneLine] at hlt
  intro i v w a b ha hb _ _ _
  rw [hway ha, hway hb]

theorem writesBack_iff_clean :
    (WritesBack (flatMemory 4) ⟨oneLine false, 1, fun _ => ⟨[0, 0, 0, 0], rfl⟩, [1, 2, 3, 4]⟩ 4 true ↔
      ∀ victim, Evicts (oneLine false) 4 victim → victim.dirty = true → [1, 2, 3, 4] = victim.data) ∧
    ∀ victim, Evicts (oneLine false) 4 victim → victim.dirty = true →
      WritesVictim (flatMemory 4) ⟨oneLine false, 1, fun _ => ⟨[0, 0, 0, 0], rfl⟩, [1, 2, 3, 4]⟩ 4 true victim
        [1, 2, 3, 4] :=
  writesBack_iff (s := ⟨oneLine false, 1, fun _ => ⟨[0, 0, 0, 0], rfl⟩, [1, 2, 3, 4]⟩) (oneLine_shape false)
    (oneLine_resolved false) (flatMemory 4) 4 true

theorem caller_data_written_back :
    Shape (oneLine true) ∧ ResolvedTags (oneLine true) ∧ UniqueTags (oneLine true) ∧
      ¬ WritesBack (flatMemory 4) ⟨oneLine true, 1, fun _ => ⟨[0, 0, 0, 0], rfl⟩, [1, 2, 3, 4]⟩ 4 false := by
  refine ⟨oneLine_shape true, oneLine_resolved true, oneLine_unique true, ?_⟩
  intro h
  obtain ⟨start, rest, hcalls, _⟩ := h.dirty ⟨true, true, 0, [9, 9, 9, 9], 1, 0⟩ ⟨rfl, rfl, rfl⟩ rfl
  have hsent : (callsOf (flatMemory 4) ⟨oneLine true, 1, fun _ => ⟨[0, 0, 0, 0], rfl⟩, [1, 2, 3, 4]⟩ 4
      false).head? = some ⟨0, true, [1, 2, 3, 4]⟩ := rfl
  rw [hcalls] at hsent
  have hdata : ([9, 9, 9, 9] : List UInt8) = [1, 2, 3, 4] := congrArg LevelCall.data (Option.some.inj hsent)
  exact absurd hdata (by decide)

end MemSim.WriteBack
