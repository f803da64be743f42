import Mathlib.Algebra.Group.Int.Defs
import Mathlib.Algebra.Group.Nat.Defs
import Mathlib.Logic.Basic

namespace MemSim.Machine

variable {ε σ α β : Type}

/-- What the language leaves undefined and what an assertion forbids. -/
inductive Fault
  | divisionByZero
  | outOfRange
  | shiftRange
  | signedOverflow
  | invalidFree
  | endless
  | assertion (text : String)
  deriving DecidableEq, Repr

/-- A computation ends early on a fault, or by an error of its own kind. -/
inductive Stop (ε : Type)
  | fault (f : Fault)
  | raised (e : ε)
  deriving DecidableEq, Repr

abbrev Checked (ε : Type) := Except (Stop ε)

def divide [Div α] [OfNat α 0] [DecidableEq α] (a b : α) : Checked ε α :=
  if b = 0 then .error (.fault .divisionByZero) else .ok (a / b)

def modulo [Mod α] [OfNat α 0] [DecidableEq α] (a b : α) : Checked ε α :=
  if b = 0 then .error (.fault .divisionByZero) else .ok (a % b)

def assert (p : Prop) [Decidable p] (text : String) : Checked ε Unit :=
  if p then .ok () else .error (.fault (.assertion text))

/-- The guard `if (p) return fail(text)` of a validator. -/
def reject (p : Prop) [Decidable p] (text : ε) : Checked ε Unit :=
  if p then .error (.raised text) else .ok ()

def element (l : List α) (i : Nat) : Checked ε α :=
  match l[i]? with
  | some x => .ok x
  | none => .error (.fault .outOfRange)

def assign (l : List α) (i : Nat) (x : α) : Checked ε (List α) :=
  if i < l.length then .ok (l.set i x) else .error (.fault .outOfRange)

def splice (dst : List α) (start : Nat) (src : List α) : List α :=
  dst.take start ++ src ++ dst.drop (start + src.length)

def copyAt (dst : List α) (start : Nat) (src : List α) : Checked ε (List α) :=
  if start + src.length ≤ dst.length then .ok (splice dst start src)
  else .error (.fault .outOfRange)

def shiftUnsigned (n : UInt8) : Checked ε UInt64 :=
  if n < 64 then .ok (1 <<< n.toUInt64) else .error (.fault .shiftRange)

/-- The literal `1LL` shifted left; the last place is the sign. -/
def shiftSigned (n : UInt8) : Checked ε Int :=
  if n < 64 then .ok ((2 ^ n.toNat : Int).bmod (2 ^ 64)) else .error (.fault .shiftRange)

def mulSigned (a b : Int) : Checked ε Int :=
  if -2 ^ 63 ≤ a * b ∧ a * b < 2 ^ 63 then .ok (a * b) else .error (.fault .signedOverflow)

instance liftExcept : MonadLift (Except ε) (EStateM ε σ) where
  monadLift x s := match x with
    | .ok a => .ok a s
    | .error e => .error e s

def final : EStateM.Result ε σ α → σ
  | .ok _ s => s
  | .error _ s => s

def Returns : EStateM.Result ε σ α → Prop
  | .ok _ _ => True
  | .error _ _ => False

def Faults : EStateM.Result (Stop ε) σ α → Prop
  | .error (.fault _) _ => True
  | _ => False

instance decidableReturns : (r : EStateM.Result ε σ α) → Decidable (Returns r)
  | .ok _ _ => isTrue trivial
  | .error _ _ => isFalse id

@[simp] theorem final_ok (a : α) (s : σ) : final (.ok a s : EStateM.Result ε σ α) = s := rfl

@[simp] theorem final_error (e : ε) (s : σ) : final (.error e s : EStateM.Result ε σ α) = s := rfl

@[simp] theorem returns_ok (a : α) (s : σ) : Returns (.ok a s : EStateM.Result ε σ α) := trivial

@[simp] theorem not_returns_error (e : ε) (s : σ) :
    ¬ Returns (.error e s : EStateM.Result ε σ α) := id

@[simp] theorem not_faults_ok (a : α) (s : σ) :
    ¬ Faults (.ok a s : EStateM.Result (Stop ε) σ α) := id

@[simp] theorem faults_fault (f : Fault) (s : σ) :
    Faults (.error (.fault f) s : EStateM.Result (Stop ε) σ α) := trivial

@[simp] theorem not_faults_raised (e : ε) (s : σ) :
    ¬ Faults (.error (.raised e) s : EStateM.Result (Stop ε) σ α) := id

theorem faults_iff {r : EStateM.Result (Stop ε) σ α} :
    Faults r ↔ ∃ f s, r = .error (.fault f) s := by
  constructor
  · intro h
    cases r with
    | ok a s => exact False.elim h
    | error e s =>
        cases e with
        | fault f => exact ⟨f, s, rfl⟩
        | raised e => exact False.elim h
  · rintro ⟨f, s, rfl⟩
    trivial

@[simp] theorem bind_ok (a : α) (f : α → Except ε β) : ((.ok a : Except ε α) >>= f) = f a := rfl

@[simp] theorem bind_error (e : ε) (f : α → Except ε β) :
    ((.error e : Except ε α) >>= f) = .error e := rfl

theorem bind_eq_ok {x : Except ε α} {f : α → Except ε β} {b : β} :
    (x >>= f) = .ok b ↔ ∃ a, x = .ok a ∧ f a = .ok b := by
  cases x <;> simp

@[simp] theorem reject_eq_ok (p : Prop) [Decidable p] (text : ε) (u : Unit) :
    reject p text = .ok u ↔ ¬ p := by
  by_cases hp : p <;> simp [reject, hp]

theorem reject_bind_eq_ok {p : Prop} [Decidable p] {text : ε} {f : Unit → Checked ε β} {b : β} :
    (reject p text >>= f) = .ok b ↔ ¬ p ∧ f () = .ok b := by
  by_cases hp : p <;> simp [reject, hp]

@[simp] theorem reject_ne_fault (p : Prop) [Decidable p] (text : ε) (f : Fault) :
    (reject p text : Checked ε Unit) ≠ .error (.fault f) := by
  by_cases hp : p <;> simp [reject, hp]

theorem reject_bind_eq_fault {p : Prop} [Decidable p] {text : ε} {g : Unit → Checked ε β} {f : Fault} :
    (reject p text >>= g) = .error (.fault f) ↔ ¬ p ∧ g () = .error (.fault f) := by
  by_cases hp : p <;> simp [reject, hp]

theorem modulo_bind_eq_fault [Mod α] [OfNat α 0] [DecidableEq α] {x y : α} {g : α → Checked ε β}
    {f : Fault} : (modulo x y >>= g) = .error (.fault f) ↔
      (y = 0 ∧ f = .divisionByZero) ∨ (y ≠ 0 ∧ g (x % y) = .error (.fault f)) := by
  by_cases hy : y = 0 <;> simp [modulo, hy, eq_comm]

theorem assert_bind_eq_ok {p : Prop} [Decidable p] {text : String} {f : Unit → Checked ε β} {b : β} :
    (assert p text >>= f) = .ok b ↔ p ∧ f () = .ok b := by
  by_cases hp : p <;> simp [assert, hp]

theorem divide_of_ne [Div α] [OfNat α 0] [DecidableEq α] {x y : α} (h : y ≠ 0) :
    (divide x y : Checked ε α) = .ok (x / y) := if_neg h

theorem modulo_of_ne [Mod α] [OfNat α 0] [DecidableEq α] {x y : α} (h : y ≠ 0) :
    (modulo x y : Checked ε α) = .ok (x % y) := if_neg h

theorem divide_bind_eq_ok [Div α] [OfNat α 0] [DecidableEq α] {x y : α} {f : α → Checked ε β} {b : β} :
    (divide x y >>= f) = .ok b ↔ y ≠ 0 ∧ f (x / y) = .ok b := by
  by_cases hy : y = 0 <;> simp [divide, hy]

theorem modulo_bind_eq_ok [Mod α] [OfNat α 0] [DecidableEq α] {x y : α} {f : α → Checked ε β} {b : β} :
    (modulo x y >>= f) = .ok b ↔ y ≠ 0 ∧ f (x % y) = .ok b := by
  by_cases hy : y = 0 <;> simp [modulo, hy]

theorem element_eq_ok {l : List α} {i : Nat} {x : α} :
    (element l i : Checked ε α) = .ok x ↔ l[i]? = some x := by
  unfold element
  cases l[i]? <;> simp

theorem element_of_lt {l : List α} {i : Nat} (h : i < l.length) :
    (element l i : Checked ε α) = .ok l[i] := by
  rw [element_eq_ok, List.getElem?_eq_getElem h]

theorem assign_of_lt {l : List α} {i : Nat} {x : α} (h : i < l.length) :
    (assign l i x : Checked ε (List α)) = .ok (l.set i x) := if_pos h

theorem splice_length {dst src : List α} {start : Nat} (h : start + src.length ≤ dst.length) :
    (splice dst start src).length = dst.length := by
  simp only [splice, List.length_append, List.length_take, List.length_drop]
  omega

theorem getElem?_splice {dst src : List α} {start : Nat} (h : start + src.length ≤ dst.length)
    (i : Nat) : (splice dst start src)[i]? =
      if start ≤ i ∧ i < start + src.length then src[i - start]? else dst[i]? := by
  have hlen : (dst.take start).length = start := by rw [List.length_take]; omega
  by_cases hlo : i < start
  · rw [if_neg (by omega), splice, List.append_assoc, List.getElem?_append_left (by omega),
      List.getElem?_take_of_lt hlo]
  · by_cases hhi : i < start + src.length
    · rw [if_pos (by omega), splice, List.append_assoc, List.getElem?_append_right (by omega), hlen,
        List.getElem?_append_left (by omega)]
    · rw [if_neg (by omega), splice,
        List.getElem?_append_right (by rw [List.length_append, hlen]; omega),
        List.length_append, hlen, List.getElem?_drop]
      congr 1
      omega

theorem copyAt_of_le {dst src : List α} {start : Nat} (h : start + src.length ≤ dst.length) :
    (copyAt dst start src : Checked ε (List α)) = .ok (splice dst start src) := if_pos h

theorem copyAt_zero {dst src : List α} (h : src.length = dst.length) :
    (copyAt dst 0 src : Checked ε (List α)) = .ok src := by
  rw [copyAt_of_le (by omega)]
  simp [splice, h]

@[simp] theorem run_lift_ok (a : α) (s : σ) :
    EStateM.run (liftM (.ok a : Except ε α) : EStateM ε σ α) s = .ok a s := rfl

@[simp] theorem run_lift_error (e : ε) (s : σ) :
    EStateM.run (liftM (.error e : Except ε α) : EStateM ε σ α) s = .error e s := rfl

end MemSim.Machine
