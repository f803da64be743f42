import MemSim.Machine

namespace MemSim

open Machine

inductive ReplacementPolicyType
  | FIFO
  deriving DecidableEq, Repr

structure FIFOPolicy where
  order : List UInt32
  counter : UInt32
  deriving DecidableEq, Repr

namespace FIFOPolicy

def reset (p : FIFOPolicy) : FIFOPolicy := ⟨List.replicate p.order.length 0, 0⟩

/-- The members are not set before the constructor calls `reset`. -/
def new (numBlocks : UInt32) : FIFOPolicy := reset ⟨List.replicate numBlocks.toNat 0, 0⟩

def onAccess (p : FIFOPolicy) (_blockInd : Nat) : FIFOPolicy := p

def onInsert (p : FIFOPolicy) (blockInd : Nat) : Checked String FIFOPolicy := do
  let order ← assign p.order blockInd (p.counter + 1)
  return ⟨order, p.counter + 1⟩

/-- The scan for the smallest stamp, from a sentinel that is a stamp itself. -/
def victimScan (order : List UInt32) : Nat → List Bool → UInt32 → Option Nat → Checked String (Option Nat)
  | _, [], _, victim => .ok victim
  | i, false :: rest, maxCounter, victim => victimScan order (i + 1) rest maxCounter victim
  | i, true :: rest, maxCounter, victim => do
      let stamp ← element order i
      if stamp < maxCounter then victimScan order (i + 1) rest stamp (some i)
      else victimScan order (i + 1) rest maxCounter victim

def getVictim (p : FIFOPolicy) (validBlocks : List Bool) : Checked String Nat := do
  let victim ← victimScan p.order 0 validBlocks 0xffffffff none
  return victim.getD 0

/-- Only one policy exists, so the factory's fall-through is not reachable. -/
def ofType : ReplacementPolicyType → UInt32 → FIFOPolicy
  | .FIFO, numBlocks => new numBlocks

theorem new_length (numBlocks : UInt32) : (new numBlocks).order.length = numBlocks.toNat := by
  simp [new, reset]

theorem onInsert_eq {p : FIFOPolicy} {i : Nat} (h : i < p.order.length) :
    p.onInsert i = .ok ⟨p.order.set i (p.counter + 1), p.counter + 1⟩ := by
  rw [onInsert, assign_of_lt h]
  rfl

theorem victimScan_lt (order : List UInt32) (i : Nat) (valid : List Bool) (top : UInt32)
    (victim : Option Nat) (hlen : i + valid.length ≤ order.length)
    (hv : ∀ j, victim = some j → j < order.length) :
    ∃ r, victimScan order i valid top victim = .ok r ∧ ∀ j, r = some j → j < order.length := by
  induction valid generalizing i top victim with
  | nil => exact ⟨victim, rfl, hv⟩
  | cons v valid ih =>
      rw [List.length_cons] at hlen
      cases v with
      | false => exact ih (i + 1) top victim (by omega) hv
      | true =>
          have hi : i < order.length := by omega
          rw [victimScan, element_of_lt hi, bind_ok]
          split
          · apply ih (i + 1) _ _ (by omega)
            rintro j hj
            obtain rfl := Option.some.inj hj
            exact hi
          · exact ih (i + 1) top victim (by omega) hv

theorem getVictim_lt (p : FIFOPolicy) (valid : List Bool) (hlen : valid.length = p.order.length)
    (hpos : 0 < p.order.length) : ∃ i, p.getVictim valid = .ok i ∧ i < p.order.length := by
  obtain ⟨r, hr, hlt⟩ := victimScan_lt p.order 0 valid 0xffffffff none (by omega) (by simp)
  refine ⟨r.getD 0, by rw [getVictim, hr]; rfl, ?_⟩
  cases r with
  | none => exact hpos
  | some j => exact hlt j rfl

end FIFOPolicy

end MemSim
