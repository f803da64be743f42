import Mathlib.Data.List.MinMax

namespace MemSim

structure DRAMRequest where
  seq : UInt64
  address : UInt64
  isWrite : Bool
  data : List UInt8
  clientFd : Int32
  deriving DecidableEq, Repr

namespace DRAMRequest

/-- The queue's top under `SeqCmp`: a request of the smallest number. -/
def top (queue : List DRAMRequest) : Option DRAMRequest := queue.argmin (·.seq.toNat)

theorem top_mem {queue : List DRAMRequest} {req : DRAMRequest} (h : top queue = some req) :
    req ∈ queue := List.argmin_mem h

theorem top_seq_le {queue : List DRAMRequest} {req other : DRAMRequest} (h : top queue = some req)
    (hother : other ∈ queue) : req.seq.toNat ≤ other.seq.toNat :=
  List.le_of_mem_argmin (f := fun r : DRAMRequest => r.seq.toNat) hother h

theorem top_isSome {queue : List DRAMRequest} (h : queue ≠ []) : ∃ req, top queue = some req := by
  rw [← Option.isSome_iff_exists, Option.isSome_iff_ne_none, ne_eq, top, List.argmin_eq_none]
  exact h

end DRAMRequest

end MemSim
