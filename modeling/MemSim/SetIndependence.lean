import MemSim.CacheSteps
import MemSim.Reordering

namespace MemSim.SetIndependence

open Machine Cache

variable {μ : Type} {n : Nat}

/-- What an access shows: whether it counted as a hit, and the data it leaves. -/
structure Answer where
  hit : Bool
  data : List UInt8
  deriving DecidableEq, Repr

def answer (a : Access n) (s : Frame μ) : Option Answer :=
  match perform none a s with
  | .ok _ t => some ⟨t.cache.hits != s.cache.hits, t.data⟩
  | .error _ _ => none

def wayOf (c : Cache) (address : UInt32) : Nat :=
  (c.hitWay address).getD (c.missWay (c.setOf address))

def stepped (c : Cache) (address : UInt32) (isWrite : Bool) : Cache :=
  if (c.hitWay address).isSome then { c with hits := c.hits + 1 }.served isWrite
  else ((c.missed (c.setOf address)).inserted (c.setOf address) (wayOf c address)).served isWrite

structure Moved (c d : Cache) : Prop extends SameLines c d where
  numOfBlocks : d.numOfBlocks = c.numOfBlocks
  associativityType : d.associativityType = c.associativityType

structure Agree (i : Nat) (c d : Cache) : Prop extends SameLines c d where
  policy : d.replacementPolicySet[i]? = c.replacementPolicySet[i]?

variable {c d : Cache} {s : Frame μ}

theorem accessFinish_none (address : UInt32) (isWrite : Bool) {block : CacheBlock} {s : Frame μ}
    (hlen : block.data.length = s.data.length) :
    (accessFinish none address isWrite block).run s =
      .ok () { s with
        cache := s.cache.served isWrite
        data := if isWrite then s.data else block.data } := by
  cases isWrite with
  | false =>
      rw [accessFinish_read, copyData_eq hlen.symm]
      rfl
  | true =>
      cases hpolicy : s.cache.config.writePolicy with
      | WriteBack =>
          rw [accessFinish_writeBack _ _ _ _ hpolicy, copyData_eq hlen]
          rfl
      | WriteThrough =>
          have hstore : (nextAccess none address true).run { s with cache := s.cache.served true } =
              .ok () { s with cache := s.cache.served true } := rfl
          rw [accessFinish_writeThrough _ _ _ _ hpolicy, hstore]
          simp only [copyData_eq hlen, copied, if_true]

theorem perform_none (hs : Shape s.cache) (hn : s.cache.blockSize.toNat = n) (a : Access n) :
    ∃ line t, s.cache.lineAt (s.cache.setOf a.address) (wayOf s.cache a.address) = some line ∧
      perform none a s = .ok () t ∧ t.cache = stepped s.cache a.address a.isWrite ∧
      t.data = if a.isWrite then a.data else line.data := by
  have hs' : Shape ({ s with data := a.data } : Frame μ).cache := hs
  have hlen : ∀ {w line}, s.cache.lineAt (s.cache.setOf a.address) w = some line →
      line.data.length = a.data.length := by
    intro w line hline
    obtain ⟨set, hset, hmem⟩ := mem_of_lineAt hline
    rw [hs.lines set hset line hmem, hn, a.data_length]
  cases hw : s.cache.hitWay a.address with
  | some w =>
      obtain ⟨line, hline, heq⟩ := access_of_hit none a.isWrite hs' hw
      rw [accessFinish_none _ _ (hlen hline)] at heq
      refine ⟨line, _, by rwa [wayOf, hw], heq, ?_, rfl⟩
      rw [stepped, hw]
      rfl
  | none =>
      obtain ⟨line, hline, heq⟩ := access_of_miss none a.isWrite hs' hw
      have hback : ∀ t : Frame μ, (writeBack none line (s.cache.setIdOf a.address)).run t = .ok () t := by
        intro t
        rw [writeBack_eq]
        split <;> rfl
      have hfetch : ∀ t : Frame μ, (nextAccess none a.address false).run t = .ok () t := fun _ => rfl
      rw [EStateM.run_bind, hback] at heq
      simp only [refill_eq, hfetch] at heq
      rw [accessFinish_none _ _ (hlen hline)] at heq
      refine ⟨line, _, by rwa [wayOf, hw], heq, ?_, rfl⟩
      rw [stepped, wayOf, hw]
      rfl

theorem answer_eq (hs : Shape s.cache) (hn : s.cache.blockSize.toNat = n) (a : Access n) :
    ∃ line, s.cache.lineAt (s.cache.setOf a.address) (wayOf s.cache a.address) = some line ∧
      answer a s = some ⟨(s.cache.hitWay a.address).isSome, if a.isWrite then a.data else line.data⟩ := by
  obtain ⟨line, t, hline, ht, hcache, hdata⟩ := perform_none hs hn a
  refine ⟨line, hline, ?_⟩
  have hserved : ∀ c : Cache, (c.served a.isWrite).hits = c.hits := by
    intro c
    cases a.isWrite <;> rfl
  have hhit : (t.cache.hits != s.cache.hits) = (s.cache.hitWay a.address).isSome := by
    rw [hcache, stepped]
    cases (s.cache.hitWay a.address).isSome with
    | true => simp [hserved]
    | false => simp [hserved, missed, inserted]
  rw [answer, ht]
  dsimp only
  rw [hhit, hdata]

theorem setOf_same (h : SameLines c d) (address : UInt32) : d.setOf address = c.setOf address := by
  rw [Cache.setOf, Cache.setOf, h.blockSize, h.numOfSets]

theorem lineAt_same (h : SameLines c d) (i w : Nat) : d.lineAt i w = c.lineAt i w := by
  rw [lineAt, lineAt, blocksAt, blocksAt, h.sets]

theorem hitWay_same (h : SameLines c d) (address : UInt32) : d.hitWay address = c.hitWay address := by
  rw [hitWay, hitWay, setOf_same h, tagOf, tagOf, h.blockSize, h.numOfSets, blocksAt, blocksAt, h.sets]

theorem invalidWay_same (h : SameLines c d) (i : Nat) : d.invalidWay i = c.invalidWay i := by
  rw [invalidWay, invalidWay, blocksAt, blocksAt, h.sets]

theorem Agree.wayOf {address : UInt32} (h : Agree (c.setOf address) c d) :
    SetIndependence.wayOf d address = SetIndependence.wayOf c address := by
  have hsame := h.toSameLines
  rw [SetIndependence.wayOf, SetIndependence.wayOf, missWay, missWay, hitWay_same hsame, setOf_same hsame,
    invalidWay_same hsame, victimWay, victimWay, h.policy, h.associativity]

theorem Agree.answer {t : Frame μ} {a : Access n} (h : Agree (s.cache.setOf a.address) s.cache t.cache)
    (hs : Shape s.cache) (hn : s.cache.blockSize.toNat = n) :
    ∃ r, SetIndependence.answer a s = some r ∧ SetIndependence.answer a t = some r := by
  have hsame := h.toSameLines
  obtain ⟨line, hline, hr⟩ := answer_eq hs hn a
  obtain ⟨line', hline', hr'⟩ := answer_eq (hsame.shape hs) (by rw [hsame.blockSize, hn]) a
  rw [setOf_same hsame, lineAt_same hsame, h.wayOf, hline] at hline'
  obtain rfl := Option.some.inj hline'
  exact ⟨_, hr, by rw [hr', hitWay_same hsame]⟩

theorem policies_served (c : Cache) (isWrite : Bool) :
    (c.served isWrite).replacementPolicySet = c.replacementPolicySet := by
  cases isWrite <;> rfl

theorem stepped_policy_ne {address : UInt32} {i : Nat} (h : c.setOf address ≠ i) (isWrite : Bool) :
    (stepped c address isWrite).replacementPolicySet[i]? = c.replacementPolicySet[i]? := by
  rw [stepped]
  split
  · rw [policies_served]
  · rw [policies_served]
    exact List.getElem?_modify_ne _ _ h

theorem Agree.stepped {address : UInt32} (h : Agree (c.setOf address) c d) (isWrite : Bool) :
    (stepped d address isWrite).replacementPolicySet[c.setOf address]? =
      (SetIndependence.stepped c address isWrite).replacementPolicySet[c.setOf address]? := by
  have hsame := h.toSameLines
  rw [SetIndependence.stepped, SetIndependence.stepped, hitWay_same hsame, h.wayOf, setOf_same hsame]
  split
  · rw [policies_served, policies_served]
    exact h.policy
  · rw [policies_served, policies_served, inserted, inserted]
    simp only [List.getElem?_modify_eq, missed, h.policy]

def counted (c : Cache) (v : Counts × CacheMissType) (a : Access n) : Counts × CacheMissType :=
  let hit := (c.hitWay a.address).isSome
  ((v.1.looked hit).served a.isWrite,
    if hit || (c.invalidWay (c.setOf a.address)).isSome then v.2
    else if c.associativity < c.numOfSets then .ConflictMiss
    else .CapacityMiss)

theorem counted_comm (c : Cache) (v : Counts × CacheMissType) (a b : Access n) :
    counted c (counted c v a) b = counted c (counted c v b) a := by
  have hstat : ∀ (m : Counts) (x y x' y' : Bool),
      (((m.looked x).served x').looked y).served y' = (((m.looked y).served y').looked x).served x' := by
    intro m x y x' y'
    cases x <;> cases y <;> cases x' <;> cases y' <;> rfl
  simp only [counted, hstat, Prod.mk.injEq, true_and]
  -- Every full set sets the one type.
  split <;> simp only [ite_self]

theorem stepped_counted (a : Access n) (h : SameLines c d) :
    ((stepped d a.address a.isWrite).counts, (stepped d a.address a.isWrite).missType) =
      counted c (d.counts, d.missType) a := by
  rw [stepped, counted, hitWay_same h]
  cases (c.hitWay a.address).isSome with
  | true => cases a.isWrite <;> rfl
  | false =>
      have hfull := invalidWay_same h (d.setOf a.address)
      rw [← setOf_same h, ← hfull, ← h.associativity, ← h.numOfSets]
      cases a.isWrite <;> rfl

theorem Moved.refl (c : Cache) : Moved c c := ⟨SameLines.refl c, rfl, rfl⟩

theorem Moved.stepped {address : UInt32} {isWrite : Bool} {t : Frame μ} (h : Moved c d)
    (hsame : SameLines d t.cache) (ht : t.cache = stepped d address isWrite) : Moved c t.cache := by
  refine ⟨h.toSameLines.trans hsame, ?_, ?_⟩
  · rw [ht, SetIndependence.stepped, ← h.numOfBlocks]
    split <;> cases isWrite <;> rfl
  · rw [ht, SetIndependence.stepped, ← h.associativityType]
    split <;> cases isWrite <;> rfl

theorem Moved.ext {e : Cache} (h : Moved c d) (h' : Moved c e)
    (hpolicies : d.replacementPolicySet = e.replacementPolicySet)
    (hcounted : (d.counts, d.missType) = (e.counts, e.missType)) : d = e := by
  obtain ⟨hcounts, htype⟩ := Prod.mk.inj hcounted
  obtain ⟨hhits, hmisses, hreads, hwrites⟩ := Counts.mk.inj hcounts
  have hsets := h.sets.trans h'.sets.symm
  have hconfig := h.config.trans h'.config.symm
  have hsize := h.size.trans h'.size.symm
  have hways := h.associativity.trans h'.associativity.symm
  have hblock := h.blockSize.trans h'.blockSize.symm
  have hnumber := h.numOfSets.trans h'.numOfSets.symm
  have hblocks := h.numOfBlocks.trans h'.numOfBlocks.symm
  have hkind := h.associativityType.trans h'.associativityType.symm
  cases d
  cases e
  simp_all

theorem perform_moved {t : Frame μ} (hs : Shape s.cache) (hn : s.cache.blockSize.toNat = n)
    (h : Moved s.cache t.cache) (a : Access n) :
    (final (perform none a t)).cache = stepped t.cache a.address a.isWrite ∧
      Moved s.cache (final (perform none a t)).cache := by
  have ht := h.toSameLines.shape hs
  have hnt : t.cache.blockSize.toNat = n := by rw [h.blockSize, hn]
  obtain ⟨_, u, _, hu, hcache, _⟩ := perform_none ht hnt a
  have hstep : (final (perform none a t)).cache = stepped t.cache a.address a.isWrite := by
    rw [hu, final_ok, hcache]
  exact ⟨hstep, h.stepped (after_sameLines none_keeps ht hnt [a]) hstep⟩

theorem after_policy (hs : Shape s.cache) (hn : s.cache.blockSize.toNat = n) (k : Nat)
    {l m : List (Access n)}
    (h : l.filter (fun a => s.cache.setOf a.address = k) = m.filter (fun a => s.cache.setOf a.address = k)) :
    (after none l s).cache.replacementPolicySet[k]? = (after none m s).cache.replacementPolicySet[k]? := by
  apply foldl_view (I := fun t => Moved s.cache t.cache) (fun t : Frame μ => t.cache.replacementPolicySet[k]?) k
    (fun t a ht => (perform_moved hs hn ht a).2) ?_ ?_ (Moved.refl _) (Moved.refl _) rfl h
  · intro t a ht hne
    rw [(perform_moved hs hn ht a).1]
    exact stepped_policy_ne (by rwa [setOf_same ht.toSameLines]) _
  · rintro t u a ht hu rfl hpolicy
    have hagree : Agree (t.cache.setOf a.address) t.cache u.cache := by
      rw [setOf_same ht.toSameLines]
      exact ⟨ht.toSameLines.symm.trans hu.toSameLines, hpolicy.symm⟩
    rw [(perform_moved hs hn ht a).1, (perform_moved hs hn hu a).1, ← setOf_same ht.toSameLines]
    exact (hagree.stepped _).symm

theorem after_moved (hs : Shape s.cache) (hn : s.cache.blockSize.toNat = n) (l : List (Access n)) :
    Moved s.cache (after none l s).cache :=
  foldl_keeps (I := fun t : Frame μ => Moved s.cache t.cache) (fun _ a ht => (perform_moved hs hn ht a).2)
    (Moved.refl _) l

/-- Accesses to different sets may be made in any order: each is answered as
before, and the cache ends up the same, in its time stamps too. -/
theorem order_irrelevant (hs : Shape s.cache) {l m : List (Access s.cache.blockSize.toNat)}
    (r : Reordering (fun a => s.cache.setOf a.address) l m) :
    (∀ i : Fin l.length, ∃ reply, answer (l.get i) (after none (l.take i) s) = some reply ∧
        answer (m.get (r.place i)) (after none (m.take (r.place i)) s) = some reply) ∧
      (after none l s).cache = (after none m s).cache := by
  refine ⟨?_, ?_⟩
  · intro i
    have hl := after_moved hs rfl (l.take i)
    have hm := after_moved hs rfl (m.take (r.place i))
    rw [r.same]
    refine Agree.answer ?_ (hl.toSameLines.shape hs) (by rw [hl.blockSize])
    rw [setOf_same hl.toSameLines]
    exact ⟨hl.toSameLines.symm.trans hm.toSameLines, (after_policy hs rfl _ (r.filter_take_place i)).symm⟩
  · apply (after_moved hs rfl l).ext (after_moved hs rfl m)
    · apply List.ext_getElem?
      intro k
      exact after_policy hs rfl k (r.filter_eq k)
    · refine foldl_count (I := fun t => Moved s.cache t.cache)
        (fun t : Frame μ => (t.cache.counts, t.cache.missType)) (fun t a ht => (perform_moved hs rfl ht a).2) ?_
        (counted_comm s.cache) (Moved.refl _) r.perm
      intro t a ht
      rw [(perform_moved hs rfl ht a).1]
      exact stepped_counted a ht.toSameLines

def twoLines : Cache :=
  { size := 8
    associativity := 1
    blockSize := 4
    numOfBlocks := 2
    numOfSets := 2
    config := ⟨8, 1, 4, .FIFO, .WriteBack, 4, 4, 8, 8⟩
    associativityType := .DirectMapping
    missType := .CompulsoryMiss
    sets := [⟨[⟨true, true, 0, [1, 1, 1, 1], 1, 0⟩]⟩, ⟨[⟨true, false, 0, [2, 2, 2, 2], 1, 1⟩]⟩]
    replacementPolicySet := [⟨[1], 1⟩, ⟨[1], 1⟩]
    hits := 0
    misses := 2
    reads := 1
    writes := 1 }

theorem twoLines_shape : Shape twoLines := by
  constructor <;> decide

theorem order_irrelevant_swap :
    let s : Frame Unit := ⟨twoLines, 2, (), []⟩
    let x : Access 4 := ⟨4, false, [0, 0, 0, 0], rfl⟩
    let y : Access 4 := ⟨8, true, [3, 3, 3, 3], rfl⟩
    ∃ r : Reordering (fun a : Access 4 => twoLines.setOf a.address) [x, y] [y, x],
      (∀ i : Fin 2, ∃ reply, answer ([x, y].get i) (after none ([x, y].take i) s) = some reply ∧
        answer ([y, x].get (r.place i)) (after none ([y, x].take (r.place i)) s) = some reply) ∧
      (after none [x, y] s).cache = (after none [y, x] s).cache :=
  ⟨.swap (by decide), order_irrelevant (s := ⟨twoLines, 2, (), []⟩) twoLines_shape (.swap (by decide))⟩

end MemSim.SetIndependence
