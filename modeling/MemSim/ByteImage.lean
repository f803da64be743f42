import Mathlib.Algebra.Group.Nat.Defs
import Mathlib.Tactic.Positivity

namespace MemSim.ByteImage

abbrev Bytes (n : Nat) := { l : List UInt8 // l.length = n }

def toBytes : Nat → Nat → List UInt8
  | 0, _ => []
  | k + 1, v => UInt8.ofNat v :: toBytes k (v / 256)

def ofBytes (l : List UInt8) : Nat := l.foldr (fun b v => b.toNat + 256 * v) 0

def field (start size : Nat) (l : List UInt8) : List UInt8 := (l.drop start).take size

@[simp] theorem toBytes_length (k v : Nat) : (toBytes k v).length = k := by
  induction k generalizing v with
  | zero => rfl
  | succ k ih => rw [toBytes, List.length_cons, ih]

theorem ofBytes_toBytes {k v : Nat} (h : v < 256 ^ k) : ofBytes (toBytes k v) = v := by
  induction k generalizing v with
  | zero =>
      rw [Nat.pow_zero] at h
      simp only [toBytes, ofBytes, List.foldr_nil]
      omega
  | succ k ih =>
      have hrest : v / 256 < 256 ^ k := Nat.div_lt_of_lt_mul (by rwa [Nat.pow_succ'] at h)
      have htail : ofBytes (toBytes k (v / 256)) = v / 256 := ih hrest
      have hcons : ofBytes (toBytes (k + 1) v) = (UInt8.ofNat v).toNat + 256 * ofBytes (toBytes k (v / 256)) := rfl
      rw [hcons, htail, UInt8.toNat_ofNat']
      omega

theorem getElem?_toBytes (k v i : Nat) :
    (toBytes k v)[i]? = if i < k then some (UInt8.ofNat (v / 256 ^ i)) else none := by
  induction k generalizing v i with
  | zero => simp [toBytes]
  | succ k ih =>
      cases i with
      | zero => simp [toBytes]
      | succ i =>
          rw [toBytes, List.getElem?_cons_succ, ih, Nat.pow_succ', Nat.div_div_eq_div_mul]
          simp only [Nat.add_lt_add_iff_right]

theorem ofNat_mod_pow_div (v k i : Nat) :
    UInt8.ofNat (v % 256 ^ k / 256 ^ i) = if i < k then UInt8.ofNat (v / 256 ^ i) else 0 := by
  split
  · next h =>
      apply UInt8.toNat_inj.mp
      obtain ⟨j, rfl⟩ : ∃ j, k = i + (j + 1) := ⟨k - i - 1, by omega⟩
      rw [Nat.pow_add, Nat.mod_mul_right_div_self, UInt8.toNat_ofNat', UInt8.toNat_ofNat', Nat.pow_succ']
      exact Nat.mod_mul_right_mod _ _ _
  · next h =>
      have hlt : v % 256 ^ k < 256 ^ i :=
        Nat.lt_of_lt_of_le (Nat.mod_lt _ (by positivity)) (Nat.pow_le_pow_right (by omega) (by omega))
      rw [Nat.div_eq_of_lt hlt]
      rfl

theorem getElem?_field (start size : Nat) (l : List UInt8) (i : Nat) :
    (field start size l)[i]? = if i < size then l[start + i]? else none := by
  rw [field, List.getElem?_take, List.getElem?_drop]

theorem field_length {start size : Nat} {l : List UInt8} (h : start + size ≤ l.length) :
    (field start size l).length = size := by
  rw [field, List.length_take, List.length_drop]
  omega

theorem field_append {start size : Nat} (a f b : List UInt8) (ha : a.length = start) (hf : f.length = size) :
    field start size (a ++ (f ++ b)) = f := by
  subst ha hf
  rw [field, List.drop_left, List.take_left]

/-- A buffer after the first `n` bytes of a message have come. -/
def received {k : Nat} (n : Nat) (sent buffer : Bytes k) : Bytes k :=
  ⟨sent.1.take n ++ buffer.1.drop n, by
    rw [List.length_append, List.length_take, List.length_drop, sent.2, buffer.2]
    omega⟩

theorem getElem?_received {k : Nat} (n : Nat) (sent buffer : Bytes k) (i : Nat) :
    (received n sent buffer).1[i]? = if i < n then sent.1[i]? else buffer.1[i]? := by
  have hsent := sent.2
  have hbuffer := buffer.2
  rw [received, List.getElem?_append, List.length_take]
  by_cases hi : i < n
  · rw [if_pos hi]
    split
    · rw [List.getElem?_take_of_lt hi]
    · rw [List.getElem?_drop, List.getElem?_eq_none (by omega), List.getElem?_eq_none (by omega)]
  · rw [if_neg hi, if_neg (by omega), List.getElem?_drop]
    by_cases hn : n ≤ k
    · congr 1
      omega
    · rw [List.getElem?_eq_none (by omega), List.getElem?_eq_none (by omega)]

theorem field_received {k start size n : Nat} (h : start + size ≤ n) (sent buffer : Bytes k) :
    field start size (received n sent buffer).1 = field start size sent.1 := by
  apply List.ext_getElem?
  intro i
  rw [getElem?_field, getElem?_field, getElem?_received]
  split
  · rw [if_pos (by omega)]
  · rfl

theorem field_not_received {k start size n : Nat} (h : n ≤ start) (sent buffer : Bytes k) :
    field start size (received n sent buffer).1 = field start size buffer.1 := by
  apply List.ext_getElem?
  intro i
  rw [getElem?_field, getElem?_field, getElem?_received]
  split
  · rw [if_neg (by omega)]
  · rfl

theorem field_received_zero {k start size n v : Nat} {sent buffer : Bytes k}
    (hsent : field start size sent.1 = toBytes size v) (hbuffer : field start size buffer.1 = toBytes size 0) :
    field start size (received n sent buffer).1 = toBytes size (v % 256 ^ (n - start)) := by
  apply List.ext_getElem?
  intro i
  have hs := congrArg (·[i]?) hsent
  have hb := congrArg (·[i]?) hbuffer
  simp only [getElem?_field, getElem?_toBytes] at hs hb
  rw [getElem?_field, getElem?_received, getElem?_toBytes, ofNat_mod_pow_div]
  by_cases hi : i < size
  · simp only [if_pos hi] at hs hb ⊢
    rw [hs, hb]
    by_cases hn : start + i < n
    · rw [if_pos hn, if_pos (by omega)]
    · rw [if_neg hn, if_neg (by omega), Nat.zero_div]
      rfl
  · rw [if_neg hi, if_neg hi]

theorem received_all {k n : Nat} (h : k ≤ n) (sent buffer : Bytes k) : received n sent buffer = sent := by
  apply Subtype.ext
  apply List.ext_getElem?
  intro i
  rw [getElem?_received]
  have hsent := sent.2
  have hbuffer := buffer.2
  split
  · rfl
  · rw [List.getElem?_eq_none (by omega), List.getElem?_eq_none (by omega)]

end MemSim.ByteImage
