import MemSim.Connections
import Mathlib.Data.List.TakeWhile

namespace MemSim

open Machine ByteImage

/-- The bytes up to the first null, as `c_str()` is read. -/
def cString (path : List UInt8) : List UInt8 := path.takeWhile (· != 0)

def strncpy (dst src : List UInt8) (n : Nat) : Checked String (List UInt8) :=
  copyAt dst 0 ((cString src).take n ++ List.replicate (n - (cString src).length) 0)

namespace DRAM

/-- The `sun_path` that `setup_client` connects to. -/
def clientPath (socketPath : List UInt8) : Checked String (List UInt8) := do
  reject (socketPath.length ≥ sunPathSize) "Socket path too long"
  strncpy (List.replicate sunPathSize 0) socketPath (sunPathSize - 1)

end DRAM

namespace DRAMController

/-- The `sun_path` that `setup_server` binds to. -/
def serverPath (socketPath : List UInt8) : Checked String (List UInt8) := do
  reject (socketPath.length ≥ DRAM.sunPathSize) "Socket path too long"
  copyAt (List.replicate DRAM.sunPathSize 0) 0 socketPath

end DRAMController

namespace SocketAddress

open DRAM (sunPathSize clientPath)
open DRAMController (serverPath)

def padded (bytes : List UInt8) : List UInt8 := bytes ++ List.replicate (sunPathSize - bytes.length) 0

variable {path : List UInt8}

theorem serverPath_eq (path : List UInt8) : serverPath path =
    if path.length < sunPathSize then .ok (padded path) else .error (.raised "Socket path too long") := by
  unfold serverPath
  by_cases hlt : path.length < sunPathSize
  · rw [if_pos hlt, reject, if_neg (by omega), bind_ok, copyAt_of_le (by simp; omega)]
    simp [splice, padded]
  · rw [if_neg hlt, reject, if_pos (by omega), bind_error]

theorem cString_length_le (path : List UInt8) : (cString path).length ≤ path.length :=
  (List.takeWhile_prefix _).length_le

theorem clientPath_eq (path : List UInt8) : clientPath path =
    if path.length < sunPathSize then .ok (padded (cString path))
    else .error (.raised "Socket path too long") := by
  unfold clientPath
  by_cases hlt : path.length < sunPathSize
  · have hle := cString_length_le path
    have hsize : sunPathSize = 108 := rfl
    rw [if_pos hlt, reject, if_neg (by omega), bind_ok, strncpy, List.take_of_length_le (by omega),
      copyAt_of_le (by simp; omega)]
    have hrest : List.replicate (sunPathSize - (cString path).length) (0 : UInt8) =
        List.replicate (sunPathSize - 1 - (cString path).length) 0 ++ [0] := by
      rw [← List.replicate_succ']
      congr 1
      omega
    simp only [splice, padded, hrest, List.take_zero, List.nil_append, Nat.zero_add, List.append_assoc]
    congr 3
    rw [List.drop_replicate, List.length_append, List.length_replicate]
    rw [show sunPathSize - ((cString path).length + (sunPathSize - 1 - (cString path).length)) = 1 by omega]
    rfl
  · rw [if_neg hlt, reject, if_pos (by omega), bind_error]

theorem cString_append_zeros (bytes : List UInt8) (n : Nat) :
    cString (bytes ++ List.replicate n 0) = cString bytes := by
  induction bytes with
  | nil => cases n <;> rfl
  | cons b bytes ih =>
      unfold cString at ih ⊢
      rw [List.cons_append, List.takeWhile_cons, List.takeWhile_cons, ih]

theorem cString_cString (path : List UInt8) : cString (cString path) = cString path := List.takeWhile_idem

theorem cString_padded (path : List UInt8) : cString (padded path) = cString path := cString_append_zeros _ _

theorem padded_length (hlt : path.length < sunPathSize) : (padded path).length = sunPathSize := by
  rw [padded, List.length_append, List.length_replicate]
  omega

theorem padded_eq_iff (hlt : path.length < sunPathSize) {other : List UInt8} :
    padded path = padded (cString other) ↔
      cString path = cString other ∧ ∀ b ∈ path.dropWhile (· != 0), b = 0 := by
  have hsplit : cString path ++ path.dropWhile (· != 0) = path := List.takeWhile_append_dropWhile
  have hpadded : padded path = cString path ++ (path.dropWhile (· != 0) ++
      List.replicate (sunPathSize - path.length) 0) := by
    rw [← List.append_assoc, hsplit, padded]
  constructor
  · intro h
    have hsame : cString path = cString other := by
      have hstrings := congrArg cString h
      rwa [cString_padded, cString_padded, cString_cString] at hstrings
    refine ⟨hsame, ?_⟩
    intro b hb
    rw [hpadded, padded, ← hsame, List.append_cancel_left_eq] at h
    have hmem : b ∈ List.replicate (sunPathSize - (cString path).length) (0 : UInt8) := by
      rw [← h]
      exact List.mem_append_left _ hb
    exact List.eq_of_mem_replicate hmem
  · rintro ⟨hsame, hzeros⟩
    have hlength := congrArg List.length hsplit
    rw [List.length_append] at hlength
    rw [hpadded, padded, ← hsame, List.eq_replicate_of_mem hzeros, List.replicate_append_replicate]
    congr 2
    omega

/-- Both ends refuse the same paths. The addresses they build of the others
are strings alike exactly when the paths are; they are the same to the last
byte exactly when the server's path has nothing behind its first null. -/
theorem addresses_iff (p q : List UInt8) :
    ((∃ bound called, serverPath p = .ok bound ∧ clientPath q = .ok called) ↔
      p.length < sunPathSize ∧ q.length < sunPathSize) ∧
    ∀ bound called, serverPath p = .ok bound → clientPath q = .ok called →
      bound.length = sunPathSize ∧ called.length = sunPathSize ∧
        (cString bound = cString called ↔ cString p = cString q) ∧
        (bound = called ↔ cString p = cString q ∧ ∀ b ∈ p.dropWhile (· != 0), b = 0) := by
  rw [serverPath_eq, clientPath_eq]
  constructor
  · by_cases hp : p.length < sunPathSize <;> by_cases hq : q.length < sunPathSize <;> simp [hp, hq]
  · intro bound called hbound hcalled
    obtain ⟨hp, hbound⟩ : p.length < sunPathSize ∧ padded p = bound := by
      split at hbound
      · next hp => exact ⟨hp, Except.ok.inj hbound⟩
      · cases hbound
    obtain ⟨hq, hcalled⟩ : q.length < sunPathSize ∧ padded (cString q) = called := by
      split at hcalled
      · next hq => exact ⟨hq, Except.ok.inj hcalled⟩
      · cases hcalled
    subst hbound hcalled
    have hshort := Nat.lt_of_le_of_lt (cString_length_le q) hq
    refine ⟨padded_length hp, padded_length hshort, ?_, padded_eq_iff hp⟩
    rw [cString_padded, cString_padded, cString_cString]

end SocketAddress

end MemSim
