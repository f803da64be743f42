import MemSim.CacheSteps

namespace MemSim.LineStates

open Machine Cache

/-- The line of a way is what an access should leave there, and it has left
the other lines alone. -/
structure Serves (c d : Cache) (address : UInt32) (isWrite : Bool) (w : Nat) (line : CacheBlock) : Prop where
  at_way : d.lineAt (c.setOf address) w = some line
  valid : line.valid = true
  tag : line.tag = c.tagOf address
  sole : ∀ v other, d.lineAt (c.setOf address) v = some other → other.valid = true →
    other.tag = c.tagOf address → v = w
  dirty : c.config.writePolicy = .WriteBack → (line.dirty = true ↔ isWrite = true ∨
    ∃ old, c.hitWay address = some w ∧ c.lineAt (c.setOf address) w = some old ∧ old.dirty = true)
  clean : c.config.writePolicy = .WriteThrough → isWrite = true → line.dirty = false
  first : c.hitWay address = none → line.accessCount = 1
  again : ∀ old, c.hitWay address = some w → c.lineAt (c.setOf address) w = some old →
    line.accessCount = old.accessCount + 1
  others : ∀ i v, (i, v) ≠ (c.setOf address, w) → d.lineAt i v = c.lineAt i v
  unique : UniqueTags d

variable {c d : Cache} {address : UInt32} {isWrite : Bool} {w : Nat} {line : CacheBlock}

theorem not_serves (hsets : d.sets = c.sets) : ¬ Serves c d address isWrite w line := by
  have hsame : ∀ i v, d.lineAt i v = c.lineAt i v := by
    intro i v
    rw [lineAt, lineAt, blocksAt, blocksAt, hsets]
  intro h
  have hline := h.at_way
  rw [hsame] at hline
  cases hhit : c.hitWay address with
  | none => exact hitWay_ne_none hline h.valid h.tag hhit
  | some v =>
      obtain ⟨old, hold, hvalid, htag⟩ := lineAt_of_hitWay hhit
      obtain rfl := h.sole v old ((hsame _ _).trans hold) hvalid htag
      have hcount := h.again old hhit hold
      rw [hline] at hold
      obtain rfl := Option.some.inj hold
      rw [← UInt32.add_zero line.accessCount, UInt32.add_assoc, UInt32.add_right_inj] at hcount
      exact absurd hcount (by decide)

/-- No access that returns leaves the line it should. -/
theorem never_serves {μ : Type} {next : Option (Memory μ)} {s t : Frame μ} (hs : Shape s.cache)
    (h : (access next address isWrite).run s = .ok () t) :
    ¬ ∃ w line, Serves s.cache t.cache address isWrite w line := by
  rintro ⟨w, line, hline⟩
  have hsets := access_sets next address isWrite hs
  rw [h] at hsets
  exact not_serves hsets hline

theorem first_access_returns (writePolicy : WritePolicyType) (a : Access 4) :
    ∃ c t, Cache.new ⟨16, 2, 4, .FIFO, writePolicy, 4, 4, 8, 8⟩ zeroFilled = .ok c ∧ Shape c ∧ Cold c ∧
      perform (none : Option (Memory Unit)) a (start c 0 ()) = .ok () t := by
  obtain ⟨c, hc, hshape, hcold, hsize⟩ := two_by_two writePolicy
  have hthrow : ¬ Throwing (none : Option (Memory Unit)) := by rintro ⟨_, ⟨⟩, _⟩
  obtain ⟨t, ht, _⟩ := perform_cold (s := start c 0 ()) none_keeps hthrow hshape hcold
    (congrArg UInt32.toNat hsize) [] a
  exact ⟨c, t, hc, hshape, hcold, ht⟩

theorem never_serves_first_read :
    ∃ c t, Cache.new ⟨16, 2, 4, .FIFO, .WriteThrough, 4, 4, 8, 8⟩ zeroFilled = .ok c ∧
      (access (none : Option (Memory Unit)) 0 false).run ⟨c, 0, (), [0, 0, 0, 0]⟩ = .ok () t ∧
      ¬ ∃ w line, Serves c t.cache 0 false w line := by
  obtain ⟨c, t, hc, hshape, _, ht⟩ := first_access_returns .WriteThrough ⟨0, false, [0, 0, 0, 0], rfl⟩
  have hs : Shape (⟨c, 0, (), [0, 0, 0, 0]⟩ : Frame Unit).cache := hshape
  exact ⟨c, t, hc, ht, never_serves hs ht⟩

theorem written_line_missing :
    ∃ c t, Cache.new ⟨16, 2, 4, .FIFO, .WriteBack, 4, 4, 8, 8⟩ zeroFilled = .ok c ∧ UniqueTags c ∧
      (access (none : Option (Memory Unit)) 8 true).run ⟨c, 0, (), [1, 2, 3, 4]⟩ = .ok () t ∧
      ¬ ∃ w line, Serves c t.cache 8 true w line := by
  obtain ⟨c, t, hc, hshape, hcold, ht⟩ := first_access_returns .WriteBack ⟨8, true, [1, 2, 3, 4], rfl⟩
  refine ⟨c, t, hc, ?_, ht, ?_⟩
  · intro i v w a b ha _ hvalid
    rw [hcold.invalid ha] at hvalid
    cases hvalid
  · rintro ⟨w, line, hline⟩
    have hs : Shape (⟨c, 0, (), [1, 2, 3, 4]⟩ : Frame Unit).cache := hshape
    have hsets := access_sets (none : Option (Memory Unit)) 8 true hs
    have hrun : (access (none : Option (Memory Unit)) 8 true).run ⟨c, 0, (), [1, 2, 3, 4]⟩ = .ok () t := ht
    rw [hrun] at hsets
    exact not_serves hsets hline

end MemSim.LineStates
