import MemSim.CacheShape

namespace MemSim.AddressSplit

open Machine Cache

def victimAddress (c : Cache) (tag : UInt32) (setId : Int32) : UInt32 :=
  (tag * c.numOfSets + setId.toUInt32) * c.blockSize

/-- The parts of an address make up the start of its block again, and no
step of the reassembly wraps. -/
structure Reassembles (c : Cache) (address tag : UInt32) (setId : Int32) : Prop where
  setId_signless : setId.toInt = setId.toUInt32.toNat
  product : tag.toNat * c.numOfSets.toNat < 2 ^ 32
  sum : tag.toNat * c.numOfSets.toNat + setId.toUInt32.toNat < 2 ^ 32
  whole : (tag.toNat * c.numOfSets.toNat + setId.toUInt32.toNat) * c.blockSize.toNat < 2 ^ 32
  exact : (victimAddress c tag setId).toNat =
    (tag.toNat * c.numOfSets.toNat + setId.toUInt32.toNat) * c.blockSize.toNat
  start : victimAddress c tag setId = address - address % c.blockSize
  within : (victimAddress c tag setId).toNat ≤ address.toNat ∧
    address.toNat < (victimAddress c tag setId).toNat + c.blockSize.toNat

variable {c : Cache}

theorem reassembles (h : Shape c) (address : UInt32) :
    Reassembles c address (address / c.blockSize / c.numOfSets)
      (address / c.blockSize % c.numOfSets).toInt32 := by
  have hline : address.toNat / c.blockSize.toNat / c.numOfSets.toNat * c.numOfSets.toNat +
      address.toNat / c.blockSize.toNat % c.numOfSets.toNat = address.toNat / c.blockSize.toNat :=
    Nat.div_add_mod' _ _
  have hstart : address.toNat / c.blockSize.toNat * c.blockSize.toNat =
      address.toNat - address.toNat % c.blockSize.toNat := Nat.div_mul_self_eq_mod_sub_self
  have hmod : address.toNat % c.blockSize.toNat < c.blockSize.toNat := Nat.mod_lt _ h.blockSize_pos
  have hmodle : address.toNat % c.blockSize.toNat ≤ address.toNat := Nat.mod_le _ _
  have hdivle : address.toNat / c.blockSize.toNat ≤ address.toNat := Nat.div_le_self _ _
  have haddress := address.toNat_lt
  have hparts : (address / c.blockSize / c.numOfSets).toNat * c.numOfSets.toNat +
      (address / c.blockSize % c.numOfSets).toInt32.toUInt32.toNat = address.toNat / c.blockSize.toNat := by
    rw [UInt32.toUInt32_toInt32, UInt32.toNat_div, UInt32.toNat_mod, UInt32.toNat_div, hline]
  have hwhole : (address.toNat / c.blockSize.toNat) * c.blockSize.toNat < 2 ^ 32 := by omega
  have hexact : (victimAddress c (address / c.blockSize / c.numOfSets)
      (address / c.blockSize % c.numOfSets).toInt32).toNat =
        (address.toNat / c.blockSize.toNat) * c.blockSize.toNat := by
    rw [victimAddress, UInt32.toNat_mul, UInt32.toNat_add, UInt32.toNat_mul, Nat.mod_add_mod, hparts,
      Nat.mod_mul_mod, Nat.mod_eq_of_lt hwhole]
  refine ⟨?_, by omega, by omega, by rwa [hparts], by rw [hexact, hparts], ?_, by omega⟩
  · rw [UInt32.toUInt32_toInt32]
    exact setId_toInt h address
  · apply UInt32.toNat_inj.mp
    have hle : address % c.blockSize ≤ address := by
      rw [UInt32.le_iff_toNat_le, UInt32.toNat_mod]
      exact hmodle
    rw [hexact, hstart, UInt32.toNat_sub_of_le _ _ hle, UInt32.toNat_mod]

theorem resolveAddress_eq_iff (h : Shape c) (a b : UInt32) :
    c.resolveAddress a = c.resolveAddress b ↔ a / c.blockSize = b / c.blockSize := by
  rw [resolveAddress_ok h, resolveAddress_ok h]
  constructor
  · intro he
    obtain ⟨htag, hset⟩ := Prod.mk.inj (Except.ok.inj he)
    have hrest := congrArg Int32.toUInt32 hset
    rw [UInt32.toUInt32_toInt32, UInt32.toUInt32_toInt32] at hrest
    apply UInt32.toNat_inj.mp
    have hdiv := congrArg UInt32.toNat htag
    have hmod := congrArg UInt32.toNat hrest
    rw [UInt32.toNat_div, UInt32.toNat_div _ c.numOfSets] at hdiv
    rw [UInt32.toNat_mod, UInt32.toNat_mod] at hmod
    rw [← Nat.div_add_mod' (a / c.blockSize).toNat c.numOfSets.toNat, hdiv, hmod, Nat.div_add_mod']
  · intro he
    rw [he]

/-- Splitting and reassembly agree for every accepted geometry, and the parts
tell the blocks apart. -/
theorem address_split {args conf : CacheConfig} (h : CacheConfig.construct args = .ok conf)
    (g : Indeterminate) :
    ∃ c, Cache.new conf g = .ok c ∧ c.blockSize = conf.blockSize ∧
      (∀ address, ∃ tag setId, c.resolveAddress address = .ok (tag, setId) ∧
        Reassembles c address tag setId) ∧
      ∀ a b, c.resolveAddress a = c.resolveAddress b ↔ a / c.blockSize = b / c.blockSize := by
  obtain ⟨c, hc, hfresh, hshape⟩ := new_eq (CacheConfig.accepted_of_construct h) g
  refine ⟨c, hc, hfresh.blockSize, ?_, resolveAddress_eq_iff hshape⟩
  intro address
  exact ⟨_, _, resolveAddress_ok hshape address, reassembles hshape address⟩

theorem address_split_largest :
    ∃ c, Cache.new ⟨0x80000000, 1, 1, .FIFO, .WriteBack, 4, 4, 8, 8⟩
        ⟨0, 0, 0, 0, .CompulsoryMiss, fun _ _ => 0, fun _ _ => 0, fun _ _ => 0⟩ = .ok c ∧
      c.blockSize = 1 ∧
      (∀ address, ∃ tag setId, c.resolveAddress address = .ok (tag, setId) ∧
        Reassembles c address tag setId) ∧
      ∀ a b, c.resolveAddress a = c.resolveAddress b ↔ a / c.blockSize = b / c.blockSize :=
  address_split (by decide : CacheConfig.construct ⟨0x80000000, 1, 1, .FIFO, .WriteBack, 4, 4, 8, 8⟩ =
    .ok ⟨0x80000000, 1, 1, .FIFO, .WriteBack, 4, 4, 8, 8⟩) _

end MemSim.AddressSplit
