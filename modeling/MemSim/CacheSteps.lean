import MemSim.AddressSplit
import MemSim.CacheRun

namespace MemSim

open Machine

namespace Cache

def setOf (c : Cache) (address : UInt32) : Nat := (address / c.blockSize % c.numOfSets).toNat

def setIdOf (c : Cache) (address : UInt32) : Int32 := (address / c.blockSize % c.numOfSets).toInt32

def tagOf (c : Cache) (address : UInt32) : UInt32 := address / c.blockSize / c.numOfSets

def blocksAt (c : Cache) (i : Nat) : List CacheBlock := (c.sets[i]?.map (·.blocks)).getD []

def lineAt (c : Cache) (i w : Nat) : Option CacheBlock := (c.blocksAt i)[w]?

def UniqueTags (c : Cache) : Prop :=
  ∀ i v w a b, c.lineAt i v = some a → c.lineAt i w = some b → a.valid = true → b.valid = true →
    a.tag = b.tag → v = w

def hitWay (c : Cache) (address : UInt32) : Option Nat :=
  (c.blocksAt (c.setOf address)).findIdx? fun block => block.valid && block.tag == c.tagOf address

def invalidWay (c : Cache) (i : Nat) : Option Nat := (c.blocksAt i).findIdx? fun block => !block.valid

def victimWay (c : Cache) (i : Nat) : Nat :=
  match c.replacementPolicySet[i]? with
  | none => 0
  | some p => match p.getVictim (List.replicate c.associativity.toNat true) with
    | .ok w => w
    | .error _ => 0

def missWay (c : Cache) (i : Nat) : Nat := (c.invalidWay i).getD (c.victimWay i)

def inserted (c : Cache) (i w : Nat) : Cache :=
  { c with replacementPolicySet :=
      c.replacementPolicySet.modify i fun p => ⟨p.order.set w (p.counter + 1), p.counter + 1⟩ }

def missed (c : Cache) (i : Nat) : Cache :=
  { c with
    misses := c.misses + 1
    missType := if (c.invalidWay i).isSome then c.missType
      else if c.associativity < c.numOfSets then .ConflictMiss
      else .CapacityMiss }

def served (c : Cache) (isWrite : Bool) : Cache :=
  if isWrite then { c with writes := c.writes + 1 } else { c with reads := c.reads + 1 }

def touched (line : CacheBlock) (stamp : UInt64) : CacheBlock :=
  { line with accessCount := line.accessCount + 1, lastAccess := stamp }

def refilled (line : CacheBlock) (tag : UInt32) (stamp : UInt64) : CacheBlock :=
  { line with valid := true, tag, accessCount := 1, lastAccess := stamp }

variable {μ : Type} {s t : Frame μ} {next : Option (Memory μ)}

def refill (next : Option (Memory μ)) (address : UInt32) (isWrite : Bool) (line : CacheBlock) (tag : UInt32)
    (i w : Nat) : CacheM μ Unit := do
  nextAccess next address false
  modify fun s => { s with cache := s.cache.inserted i w }
  let stamp ← fetchAdd
  accessFinish next address isWrite (refilled line tag stamp)

theorem setOf_lt {c : Cache} (h : Shape c) (address : UInt32) : c.setOf address < c.numOfSets.toNat :=
  setIndex_lt h address

theorem setIdOf_toInt {c : Cache} (h : Shape c) (address : UInt32) :
    (c.setIdOf address).toInt = c.setOf address := setId_toInt h address

theorem resolveAddress_parts {c : Cache} (h : Shape c) (address : UInt32) :
    c.resolveAddress address = .ok (c.tagOf address, c.setIdOf address) := resolveAddress_ok h address

theorem blocksAt_eq {c : Cache} {i : Nat} (hi : i < c.sets.length) : c.blocksAt i = c.sets[i].blocks := by
  simp [blocksAt, List.getElem?_eq_getElem hi]

theorem blocksAt_length {c : Cache} (h : Shape c) {i : Nat} (hi : i < c.numOfSets.toNat) :
    (c.blocksAt i).length = c.associativity.toNat := by
  have hset : i < c.sets.length := by rwa [h.sets_length]
  rw [blocksAt_eq hset]
  exact h.ways _ (List.getElem_mem hset)

theorem victimWay_eq {c : Cache} (h : Shape c) {i : Nat} (hi : i < c.replacementPolicySet.length) :
    c.replacementPolicySet[i].getVictim (List.replicate c.associativity.toNat true) = .ok (c.victimWay i) ∧
      c.victimWay i < c.associativity.toNat := by
  have horder := h.orders _ (List.getElem_mem hi)
  obtain ⟨w, hw, hlt⟩ := FIFOPolicy.getVictim_lt c.replacementPolicySet[i]
    (List.replicate c.associativity.toNat true) (by rw [List.length_replicate, horder])
    (by rw [horder]; exact h.associativity_pos)
  have he : c.victimWay i = w := by simp [victimWay, List.getElem?_eq_getElem hi, hw]
  rw [he]
  exact ⟨hw, horder ▸ hlt⟩

theorem missWay_lt {c : Cache} (h : Shape c) {i : Nat} (hi : i < c.numOfSets.toNat) :
    c.missWay i < c.associativity.toNat := by
  have hpolicy : i < c.replacementPolicySet.length := by rwa [h.policies_length]
  unfold missWay
  cases hw : c.invalidWay i with
  | none => exact (victimWay_eq h hpolicy).2
  | some w =>
      rw [Option.getD_some, ← blocksAt_length h hi]
      obtain ⟨hlt, _⟩ := List.findIdx?_eq_some_iff_getElem.mp hw
      exact hlt

theorem findBlock_hitWay {c : Cache} (h : Shape c) (address : UInt32) :
    c.findBlock (c.tagOf address) (c.setIdOf address) = .ok (c.hitWay address) := by
  have hset : c.setOf address < c.sets.length := by
    rw [h.sets_length]
    exact setOf_lt h address
  rw [findBlock_eq _ (setIdOf_toInt h address) hset, hitWay, blocksAt_eq hset]

theorem nextAccess_frame (next : Option (Memory μ)) (address : UInt32) (isWrite : Bool) (s : Frame μ) :
    final ((nextAccess next address isWrite).run s) =
      { s with
        data := (final ((nextAccess next address isWrite).run s)).data
        memory := (final ((nextAccess next address isWrite).run s)).memory } := by
  unfold nextAccess EStateM.run
  cases next with
  | none => rfl
  | some level =>
      dsimp only
      cases level.access address isWrite (s.data, s.memory) <;> rfl

theorem nextAccess_cache (next : Option (Memory μ)) (address : UInt32) (isWrite : Bool) (s : Frame μ) :
    (final ((nextAccess next address isWrite).run s)).cache = s.cache := by
  rw [nextAccess_frame]

def answered (s : Frame μ) : EStateM.Result String (List UInt8 × μ) Unit → EStateM.Result (Stop String) (Frame μ) Unit
  | .ok _ d => .ok () { s with data := d.1, memory := d.2 }
  | .error e d => .error (.raised e) { s with data := d.1, memory := d.2 }

theorem nextAccess_answered (level : Memory μ) (address : UInt32) (isWrite : Bool) (s : Frame μ) :
    (nextAccess (some level) address isWrite).run s = answered s (level.access address isWrite (s.data, s.memory)) := by
  unfold nextAccess EStateM.run
  dsimp only
  cases level.access address isWrite (s.data, s.memory) <;> rfl

theorem writeBack_eq (next : Option (Memory μ)) (victim : CacheBlock) (setId : Int32) (s : Frame μ) :
    (writeBack next victim setId).run s =
      if victim.valid && victim.dirty then
        (nextAccess next (AddressSplit.victimAddress s.cache victim.tag setId) true).run s
      else .ok () s := by
  simp only [writeBack, EStateM.run_bind, EStateM.run_get]
  split <;> rfl

theorem writeBack_cache (next : Option (Memory μ)) (victim : CacheBlock) (setId : Int32) (s : Frame μ) :
    (final ((writeBack next victim setId).run s)).cache = s.cache := by
  rw [writeBack_eq]
  split
  · exact nextAccess_cache _ _ _ s
  · rfl

theorem createEmptyBlock_eq {i : Nat} {setId : Int32} (hs : Shape s.cache) (hi : setId.toInt = i)
    (hlt : i < s.cache.numOfSets.toNat) :
    (createEmptyBlock setId).run { s with cache := { s.cache with misses := s.cache.misses + 1 } } =
      .ok (s.cache.missWay i) { s with cache := s.cache.missed i } := by
  have hset : i < s.cache.sets.length := by rwa [hs.sets_length]
  have hpolicy : i < s.cache.replacementPolicySet.length := by rwa [hs.policies_length]
  have hblocks : s.cache.sets[i].blocks.findIdx? (fun block => !block.valid) = s.cache.invalidWay i := by
    rw [invalidWay, blocksAt_eq hset]
  simp only [createEmptyBlock, EStateM.run_bind, EStateM.run_get, atSet_of_lt hi hset, run_lift_ok, hblocks,
    missWay, missed]
  cases hw : s.cache.invalidWay i with
  | some w => rfl
  | none =>
      simp only [EStateM.run_bind, EStateM.run_modify, atSet_of_lt hi hpolicy, run_lift_ok,
        (victimWay_eq hs hpolicy).1]
      rfl

theorem mem_of_lineAt {c : Cache} {i w : Nat} {line : CacheBlock} (h : c.lineAt i w = some line) :
    ∃ set ∈ c.sets, line ∈ set.blocks := by
  cases hset : c.sets[i]? with
  | none => simp [lineAt, blocksAt, hset] at h
  | some set =>
      simp only [lineAt, blocksAt, hset, Option.map_some, Option.getD_some] at h
      exact ⟨set, List.mem_of_getElem? hset, List.mem_of_getElem? h⟩

theorem lineAt_of_hitWay {c : Cache} {address : UInt32} {w : Nat} (h : c.hitWay address = some w) :
    ∃ line, c.lineAt (c.setOf address) w = some line ∧ line.valid = true ∧ line.tag = c.tagOf address := by
  obtain ⟨hlt, hfound, _⟩ := List.findIdx?_eq_some_iff_getElem.mp h
  rw [Bool.and_eq_true, beq_iff_eq] at hfound
  exact ⟨_, List.getElem?_eq_getElem hlt, hfound⟩

theorem hitWay_ne_none {c : Cache} {address : UInt32} {w : Nat} {line : CacheBlock}
    (hline : c.lineAt (c.setOf address) w = some line) (hvalid : line.valid = true)
    (htag : line.tag = c.tagOf address) : c.hitWay address ≠ none := by
  intro hmiss
  have hfalse := List.findIdx?_eq_none_iff.mp hmiss line (List.mem_of_getElem? hline)
  rw [hvalid, htag, beq_self_eq_true] at hfalse
  cases hfalse

theorem Cold.invalid {c : Cache} (h : Cold c) {i w : Nat} {line : CacheBlock}
    (hline : c.lineAt i w = some line) : line.valid = false := by
  obtain ⟨set, hset, hmem⟩ := mem_of_lineAt hline
  exact (h set hset line hmem).1

theorem Cold.hitWay_eq_none {c : Cache} (h : Cold c) (address : UInt32) : c.hitWay address = none := by
  cases hw : c.hitWay address with
  | none => rfl
  | some w =>
      obtain ⟨line, hline, hvalid, _⟩ := lineAt_of_hitWay hw
      rw [h.invalid hline] at hvalid
      cases hvalid

theorem lineAt_of_lt {c : Cache} (h : Shape c) {i w : Nat} (hi : i < c.numOfSets.toNat)
    (hw : w < c.associativity.toNat) : ∃ line, c.lineAt i w = some line := by
  rw [← blocksAt_length h hi] at hw
  exact ⟨_, List.getElem?_eq_getElem hw⟩

theorem element_lineAt {c : Cache} {i w : Nat} {setId : Int32} {line : CacheBlock}
    (hi : setId.toInt = i) (hline : c.lineAt i w = some line) :
    ∃ set, atSet c.sets setId = .ok set ∧ (element set.blocks w : Checked String CacheBlock) = .ok line := by
  have hset : i < c.sets.length := by
    by_contra hge
    have hnone : c.sets[i]? = none := List.getElem?_eq_none (Nat.not_lt.mp hge)
    simp [lineAt, blocksAt, hnone] at hline
  refine ⟨_, atSet_of_lt hi hset, ?_⟩
  rw [element_eq_ok, ← blocksAt_eq hset]
  exact hline

theorem set_eq_modify {α : Type} {l : List α} {i : Nat} (hi : i < l.length) (f : α → α) :
    l.set i (f l[i]) = l.modify i f := by
  apply List.ext_getElem
  · simp
  · intro j _ _
    rw [List.getElem_set, List.getElem_modify]
    split
    · next h => subst h; rfl
    · rfl

theorem refill_eq (next : Option (Memory μ)) (address : UInt32) (isWrite : Bool) (line : CacheBlock)
    (tag : UInt32) (i w : Nat) (s : Frame μ) :
    (refill next address isWrite line tag i w).run s =
      match (nextAccess next address false).run s with
      | .error e t => .error e t
      | .ok _ t =>
        (accessFinish next address isWrite (refilled line tag t.globalCounter)).run
          { t with cache := t.cache.inserted i w, globalCounter := t.globalCounter + 1 } := by
  rw [refill, EStateM.run_bind]
  cases (nextAccess next address false).run s <;> rfl

theorem insertBlock_eq {i w : Nat} {setId : Int32} {line : CacheBlock} (address tag : UInt32) (isWrite : Bool)
    (hs : Shape s.cache) (hi : setId.toInt = i) (hlt : i < s.cache.numOfSets.toNat)
    (hline : s.cache.lineAt i w = some line) :
    (insertBlock next address tag setId w >>= accessFinish next address isWrite).run s =
      (refill next address isWrite line tag i w).run s := by
  have hpolicy : i < s.cache.replacementPolicySet.length := by rwa [hs.policies_length]
  have horder : w < s.cache.replacementPolicySet[i].order.length := by
    rw [hs.orders _ (List.getElem_mem hpolicy), ← blocksAt_length hs hlt]
    exact (List.getElem?_eq_some_iff.mp hline).1
  have hframe := nextAccess_frame next address false s
  rw [refill_eq, EStateM.run_bind, insertBlock, EStateM.run_bind]
  cases hfetch : (nextAccess next address false).run s with
  | error e t => rfl
  | ok u t =>
      rw [hfetch, final_ok] at hframe
      have hcache : t.cache = s.cache := by rw [hframe]
      rw [← hcache] at hs hline
      have hpolicy' : i < t.cache.replacementPolicySet.length := by rwa [hcache]
      have horder' : w < t.cache.replacementPolicySet[i].order.length := by
        simpa only [hcache] using horder
      obtain ⟨set, hset, helement⟩ := element_lineAt hi hline
      simp only [EStateM.run_bind, EStateM.run_get, EStateM.run_modify, EStateM.run_modifyGet,
        EStateM.run_pure, fetchAdd, hset, helement, atSet_of_lt hi hpolicy', FIFOPolicy.onInsert_eq horder',
        run_lift_ok, refilled, inserted]
      rw [hi, Int.toNat_natCast, ← set_eq_modify hpolicy']

theorem access_of_hit (next : Option (Memory μ)) {address : UInt32} (isWrite : Bool) {w : Nat} (hs : Shape s.cache)
    (hw : s.cache.hitWay address = some w) :
    ∃ line, s.cache.lineAt (s.cache.setOf address) w = some line ∧
      (access next address isWrite).run s =
        (accessFinish next address isWrite (touched line s.globalCounter)).run
          { s with
            cache := { s.cache with hits := s.cache.hits + 1 }
            globalCounter := s.globalCounter + 1 } := by
  have hi := setIdOf_toInt hs address
  have hlt := setOf_lt hs address
  obtain ⟨hway, _⟩ := List.findIdx?_eq_some_iff_getElem.mp hw
  obtain ⟨line, hline⟩ := lineAt_of_lt hs hlt (by rwa [← blocksAt_length hs hlt])
  refine ⟨line, hline, ?_⟩
  obtain ⟨set, hset, helement⟩ := element_lineAt hi hline
  have hpolicy : s.cache.setOf address < s.cache.replacementPolicySet.length := by rwa [hs.policies_length]
  have hsame : s.cache.replacementPolicySet.set (s.cache.setOf address)
      s.cache.replacementPolicySet[s.cache.setOf address] = s.cache.replacementPolicySet :=
    List.set_getElem_self hpolicy
  simp only [access, accessHit, EStateM.run_bind, EStateM.run_get, EStateM.run_modify, EStateM.run_modifyGet,
    EStateM.run_pure, fetchAdd, resolveAddress_parts hs, run_lift_ok, hset, findBlock_hitWay hs, hw, helement,
    atSet_of_lt hi hpolicy, FIFOPolicy.onAccess, hi, Int.toNat_natCast, hsame, touched]

theorem access_of_miss (next : Option (Memory μ)) {address : UInt32} (isWrite : Bool) (hs : Shape s.cache)
    (hmiss : s.cache.hitWay address = none) :
    ∃ line, s.cache.lineAt (s.cache.setOf address) (s.cache.missWay (s.cache.setOf address)) = some line ∧
      (access next address isWrite).run s =
        (do
          writeBack next line (s.cache.setIdOf address)
          refill next address isWrite line (s.cache.tagOf address) (s.cache.setOf address)
            (s.cache.missWay (s.cache.setOf address)) : CacheM μ Unit).run
          { s with cache := s.cache.missed (s.cache.setOf address) } := by
  have hi := setIdOf_toInt hs address
  have hlt := setOf_lt hs address
  obtain ⟨line, hline⟩ := lineAt_of_lt hs hlt (missWay_lt hs hlt)
  refine ⟨line, hline, ?_⟩
  have hmissed : Shape (s.cache.missed (s.cache.setOf address)) :=
    SameLines.shape (c := s.cache) ⟨rfl, rfl, rfl, rfl, rfl, rfl, rfl⟩ hs
  obtain ⟨set, hset, helement⟩ := element_lineAt hi hline
  have hset' : atSet (s.cache.missed (s.cache.setOf address)).sets (s.cache.setIdOf address) = .ok set := hset
  have hkept := writeBack_cache next line (s.cache.setIdOf address)
    { s with cache := s.cache.missed (s.cache.setOf address) }
  simp only [access, accessMiss, EStateM.run_bind, EStateM.run_get, EStateM.run_modify, resolveAddress_parts hs,
    run_lift_ok, hset, findBlock_hitWay hs, hmiss, createEmptyBlock_eq hs hi hlt, hset', helement]
  cases hback : (writeBack next line (s.cache.setIdOf address)).run
      { s with cache := s.cache.missed (s.cache.setOf address) } with
  | error e t => rfl
  | ok _ t =>
      rw [hback, final_ok] at hkept
      have ht : Shape t.cache := by rwa [hkept]
      have hlinet : t.cache.lineAt (s.cache.setOf address) (s.cache.missWay (s.cache.setOf address)) = some line := by
        rw [hkept]
        exact hline
      exact insertBlock_eq address (s.cache.tagOf address) isWrite ht hi (by rwa [hkept]) hlinet

def copied (s : Frame μ) (f : List UInt8 → Frame μ) :
    Checked String (List UInt8) → EStateM.Result (Stop String) (Frame μ) Unit
  | .ok data => .ok () (f data)
  | .error e => .error e s

theorem final_copied {P : Frame μ → Prop} {f : List UInt8 → Frame μ} (hs : P s) (hf : ∀ data, P (f data))
    (r : Checked String (List UInt8)) : P (final (copied s f r)) := by
  cases r with
  | ok data => exact hf data
  | error e => exact hs

theorem accessFinish_read (next : Option (Memory μ)) (address : UInt32) (block : CacheBlock) (s : Frame μ) :
    (accessFinish next address false block).run s =
      copied { s with cache := s.cache.served false } (fun data => { s with cache := s.cache.served false, data })
        (copyData s.data block.data) := by
  simp only [accessFinish, Bool.false_eq_true, if_false, EStateM.run_bind, EStateM.run_modify, EStateM.run_get]
  cases copyData s.data block.data <;> rfl

theorem accessFinish_writeBack (next : Option (Memory μ)) (address : UInt32) (block : CacheBlock) (s : Frame μ)
    (hpolicy : s.cache.config.writePolicy = .WriteBack) :
    (accessFinish next address true block).run s =
      copied { s with cache := s.cache.served true } (fun _ => { s with cache := s.cache.served true })
        (copyData block.data s.data) := by
  simp only [accessFinish, if_true, EStateM.run_bind, EStateM.run_modify, EStateM.run_get, hpolicy,
    EStateM.run_pure]
  cases copyData block.data s.data <;> rfl

theorem accessFinish_writeThrough (next : Option (Memory μ)) (address : UInt32) (block : CacheBlock)
    (s : Frame μ) (hpolicy : s.cache.config.writePolicy = .WriteThrough) :
    (accessFinish next address true block).run s =
      match (nextAccess next address true).run { s with cache := s.cache.served true } with
      | .error e t => .error e t
      | .ok _ t => copied t (fun _ => t) (copyData block.data t.data) := by
  simp only [accessFinish, if_true, EStateM.run_bind, EStateM.run_modify, EStateM.run_get, hpolicy,
    EStateM.run_pure, served]
  cases (nextAccess next address true).run
      { s with cache := { s.cache with writes := s.cache.writes + 1 } } with
  | error e t => rfl
  | ok _ t =>
      dsimp only
      cases copyData block.data t.data <;> rfl

theorem accessFinish_cache (next : Option (Memory μ)) (address : UInt32) (isWrite : Bool) (block : CacheBlock)
    (s : Frame μ) :
    (final ((accessFinish next address isWrite block).run s)).cache = s.cache.served isWrite := by
  cases isWrite with
  | false =>
      rw [accessFinish_read]
      exact final_copied (P := fun t => t.cache = s.cache.served false) rfl (fun _ => rfl) _
  | true =>
      cases hpolicy : s.cache.config.writePolicy with
      | WriteBack =>
          rw [accessFinish_writeBack _ _ _ _ hpolicy]
          exact final_copied (P := fun t => t.cache = s.cache.served true) rfl (fun _ => rfl) _
      | WriteThrough =>
          have hcache := nextAccess_cache next address true { s with cache := s.cache.served true }
          rw [accessFinish_writeThrough _ _ _ _ hpolicy]
          split
          · next e t h =>
              rw [h] at hcache
              exact hcache
          · next t h =>
              rw [h] at hcache
              exact final_copied (P := fun t => t.cache = s.cache.served true) hcache (fun _ => hcache) _

theorem refill_cache (next : Option (Memory μ)) (address : UInt32) (isWrite : Bool) (line : CacheBlock)
    (tag : UInt32) (i w : Nat) (s : Frame μ) :
    (final ((refill next address isWrite line tag i w).run s)).cache = s.cache ∨
      (final ((refill next address isWrite line tag i w).run s)).cache = (s.cache.inserted i w).served isWrite := by
  have hfetch := nextAccess_cache next address false s
  rw [refill_eq]
  cases h : (nextAccess next address false).run s with
  | error e t =>
      rw [h] at hfetch
      exact .inl hfetch
  | ok _ t =>
      rw [h, final_ok] at hfetch
      dsimp only
      rw [accessFinish_cache, hfetch]
      exact .inr rfl

/-- The caches an access can leave: one that was hit, one whose miss ended in
an exception of the next level, one whose miss was filled. -/
theorem access_cache (next : Option (Memory μ)) (address : UInt32) (isWrite : Bool) (hs : Shape s.cache) :
    let i := s.cache.setOf address
    let d := (final ((access next address isWrite).run s)).cache
    (s.cache.hitWay address ≠ none ∧ d = { s.cache with hits := s.cache.hits + 1 }.served isWrite) ∨
      (s.cache.hitWay address = none ∧
        (d = s.cache.missed i ∨ d = ((s.cache.missed i).inserted i (s.cache.missWay i)).served isWrite)) := by
  dsimp only
  cases hw : s.cache.hitWay address with
  | some w =>
      obtain ⟨line, _, heq⟩ := access_of_hit next isWrite hs hw
      rw [heq, accessFinish_cache]
      exact .inl ⟨nofun, rfl⟩
  | none =>
      obtain ⟨line, _, heq⟩ := access_of_miss next isWrite hs hw
      have hback := writeBack_cache next line (s.cache.setIdOf address)
        { s with cache := s.cache.missed (s.cache.setOf address) }
      refine .inr ⟨rfl, ?_⟩
      rw [heq, EStateM.run_bind]
      cases h : (writeBack next line (s.cache.setIdOf address)).run
          { s with cache := s.cache.missed (s.cache.setOf address) } with
      | error e t =>
          rw [h] at hback
          exact .inl hback
      | ok _ t =>
          rw [h, final_ok] at hback
          have hrefill := refill_cache next address isWrite line (s.cache.tagOf address) (s.cache.setOf address)
            (s.cache.missWay (s.cache.setOf address)) t
          rwa [hback] at hrefill

theorem access_sets (next : Option (Memory μ)) (address : UInt32) (isWrite : Bool) (hs : Shape s.cache) :
    (final ((access next address isWrite).run s)).cache.sets = s.cache.sets := by
  have hserved : ∀ c : Cache, (c.served isWrite).sets = c.sets := by
    intro c
    cases isWrite <;> rfl
  rcases access_cache next address isWrite hs with ⟨_, h⟩ | ⟨_, h | h⟩
  · rw [h, hserved]
  · rw [h]
    rfl
  · rw [h, hserved]
    rfl

end Cache

end MemSim
