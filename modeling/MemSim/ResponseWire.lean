import MemSim.ByteImage
import MemSim.Machine
import Mathlib.Tactic.ByContra

namespace MemSim

open Machine ByteImage

structure DRAMResponse where
  seq : UInt64
  completionCycle : UInt64
  success : Bool
  data : List UInt8
  deriving DecidableEq, Repr

/-- What a vector is by its own bytes: three addresses of its process. -/
structure VectorHeader where
  start : UInt64
  finish : UInt64
  endOfStorage : UInt64
  deriving DecidableEq, Repr

structure RawResponse where
  seq : UInt64
  completionCycle : UInt64
  success : Bool
  data : VectorHeader
  deriving DecidableEq, Repr

namespace VectorHeader

def empty : VectorHeader := ⟨0, 0, 0⟩

/-- An empty vector owns no memory; another one's lies somewhere. -/
def ofList (base : UInt64) (v : List UInt8) : VectorHeader :=
  if v = [] then empty
  else ⟨base, base + UInt64.ofNat v.length, base + UInt64.ofNat v.length⟩

/-- The range from `begin()` to `end()` in a process that owns none of it. -/
def range (h : VectorHeader) : Checked String (List UInt8) :=
  if h.start = h.finish then .ok [] else .error (.fault .outOfRange)

/-- A vector gives its memory back when it is destroyed, unless its pointer is
null. No memory at an address that has come in is its process's to give. -/
def destroy (h : VectorHeader) : Checked String Unit :=
  if h.start = 0 then .ok () else .error (.fault .invalidFree)

def bytes (h : VectorHeader) : List UInt8 :=
  toBytes 8 h.start.toNat ++ (toBytes 8 h.finish.toNat ++ toBytes 8 h.endOfStorage.toNat)

end VectorHeader

namespace RawResponse

/-- The 48 bytes of the struct, with seven of padding after `success`. -/
def image (r : RawResponse) (padding : Bytes 7) : Bytes 48 :=
  ⟨toBytes 8 r.seq.toNat ++ (toBytes 8 r.completionCycle.toNat ++
      ([if r.success then 1 else 0] ++ (padding.1 ++ r.data.bytes))), by
    simp only [VectorHeader.bytes, List.length_append, toBytes_length, List.length_singleton, padding.2]⟩

def ofImage (b : Bytes 48) : RawResponse :=
  { seq := UInt64.ofNat (ofBytes (field 0 8 b.1))
    completionCycle := UInt64.ofNat (ofBytes (field 8 8 b.1))
    success := field 16 1 b.1 != [0]
    data :=
      { start := UInt64.ofNat (ofBytes (field 24 8 b.1))
        finish := UInt64.ofNat (ofBytes (field 32 8 b.1))
        endOfStorage := UInt64.ofNat (ofBytes (field 40 8 b.1)) } }

theorem ofBytes_toNat (v : UInt64) : UInt64.ofNat (ofBytes (toBytes 8 v.toNat)) = v := by
  rw [ofBytes_toBytes v.toNat_lt, UInt64.ofNat_toNat]

theorem field_success (r : RawResponse) (padding : Bytes 7) :
    field 16 1 (r.image padding).1 = [if r.success then 1 else 0] := by
  have hbefore : (toBytes 8 r.seq.toNat ++ toBytes 8 r.completionCycle.toNat).length = 16 := by
    simp
  have hflag : ([if r.success then 1 else 0] : List UInt8).length = 1 := rfl
  have happend := field_append _ _ (padding.1 ++ r.data.bytes) hbefore hflag
  simpa only [image, List.append_assoc] using happend

theorem field_start (r : RawResponse) (padding : Bytes 7) :
    field 24 8 (r.image padding).1 = toBytes 8 r.data.start.toNat := by
  have hbefore : (toBytes 8 r.seq.toNat ++ (toBytes 8 r.completionCycle.toNat ++
      ([if r.success then 1 else 0] ++ padding.1))).length = 24 := by
    simp only [List.length_append, toBytes_length, List.length_singleton, padding.2]
  have happend := field_append _ _ (toBytes 8 r.data.finish.toNat ++ toBytes 8 r.data.endOfStorage.toNat) hbefore
    (toBytes_length 8 r.data.start.toNat)
  simpa only [image, VectorHeader.bytes, List.append_assoc] using happend

theorem ofImage_image (r : RawResponse) (padding : Bytes 7) : ofImage (r.image padding) = r := by
  have hpadding := padding.2
  have hseq : field 0 8 (r.image padding).1 = toBytes 8 r.seq.toNat :=
    field_append [] _ _ rfl (toBytes_length _ _)
  have hcycle : field 8 8 (r.image padding).1 = toBytes 8 r.completionCycle.toNat :=
    field_append _ _ _ (toBytes_length _ _) (toBytes_length _ _)
  have hheader : ∀ {a f b : List UInt8} {start : Nat}, r.data.bytes = a ++ (f ++ b) → a.length + 24 = start →
      f.length = 8 → field start 8 (r.image padding).1 = f := by
    intro a f b start hbytes ha hf
    have hbefore : (toBytes 8 r.seq.toNat ++ (toBytes 8 r.completionCycle.toNat ++
        ([if r.success then 1 else 0] ++ (padding.1 ++ a)))).length = start := by
      simp only [List.length_append, toBytes_length, List.length_singleton, hpadding]
      omega
    have happend := field_append _ f b hbefore hf
    simpa only [image, hbytes, List.append_assoc] using happend
  have hfinish : field 32 8 (r.image padding).1 = toBytes 8 r.data.finish.toNat :=
    hheader rfl (by simp) (toBytes_length _ _)
  have hend : field 40 8 (r.image padding).1 = toBytes 8 r.data.endOfStorage.toNat :=
    hheader (a := toBytes 8 r.data.start.toNat ++ toBytes 8 r.data.finish.toNat) (b := [])
      (by simp [VectorHeader.bytes]) (by simp) (toBytes_length _ _)
  have hmode : (([if r.success then 1 else 0] : List UInt8) != [0]) = r.success := by
    cases r.success <;> rfl
  simp only [ofImage, hseq, hcycle, field_success, field_start, hfinish, hend, hmode, ofBytes_toNat]

end RawResponse

namespace DRAMResponse

def raw (resp : DRAMResponse) (base : UInt64) : RawResponse :=
  ⟨resp.seq, resp.completionCycle, resp.success, .ofList base resp.data⟩

end DRAMResponse

namespace DRAMController

/-- The response to a request; the data are stored in it one by one, and its
vector begins empty. -/
def buildResponse (seq openRowStart transferCycleEnd : UInt64) (isWrite : Bool) (v : List UInt8) :
    Checked String DRAMResponse := do
  let data ← if isWrite then .ok []
    else (List.range v.length).foldlM (fun d i => do assign d i (← element v i)) []
  return { seq, completionCycle := transferCycleEnd - openRowStart, success := true, data }

end DRAMController

namespace DRAM

/-- What `access` does with the struct that a `recv` giving `n` has filled; the
state is the caller's data. The exception destroys the struct on its way out. -/
def readResponse (isWrite : Bool) (n : Int) (resp : RawResponse) : EStateM (Stop String) (List UInt8) Unit := do
  if n < 0 || !resp.success then
    resp.data.destroy
    throw (.raised "error recieving response from the controller")
  if !isWrite then
    let source ← resp.data.range
    let data ← get
    let copied ← (copyAt data 0 source : Checked String (List UInt8))
    set copied

/-- The rest of a call after its `recv`, down to the end of the struct's life. -/
def finishAccess (isWrite : Bool) (n : Int) (resp : RawResponse) : EStateM (Stop String) (List UInt8) Unit := do
  readResponse isWrite n resp
  resp.data.destroy

end DRAM

namespace ResponseWire

open DRAM DRAMController

/-- A read's data arrive, and a write leaves the caller's as they are, over
anything the padding and the fresh receiving struct may hold. -/
def Returned (isWrite : Bool) (v : List UInt8) : Prop :=
  ∀ (seq openRowStart transferCycleEnd base : UInt64) (padding padding' : Bytes 7) (seq' cycle' : UInt64)
      (success' : Bool) (caller : List UInt8), (isWrite = false → caller.length = v.length) →
    ∃ resp, buildResponse seq openRowStart transferCycleEnd isWrite v = .ok resp ∧
      (finishAccess isWrite 48 (.ofImage (received 48 ((resp.raw base).image padding)
          (RawResponse.image ⟨seq', cycle', success', .empty⟩ padding')))).run caller =
        .ok () (if isWrite then caller else v)

/-- A response that is incomplete or not a success is refused, and leaves the
caller's data alone. -/
def Refused (r : RawResponse) (n : Int) : Prop :=
  n < 48 ∨ r.success = false →
    ∀ (isWrite : Bool) (padding padding' : Bytes 7) (seq' cycle' : UInt64) (success' : Bool)
        (caller : List UInt8),
      ∃ e, (finishAccess isWrite n (.ofImage (received n.toNat (r.image padding)
          (RawResponse.image ⟨seq', cycle', success', .empty⟩ padding')))).run caller =
        .error (.raised e) caller

theorem buildResponse_write (seq openRowStart transferCycleEnd : UInt64) (v : List UInt8) :
    buildResponse seq openRowStart transferCycleEnd true v =
      .ok ⟨seq, transferCycleEnd - openRowStart, true, []⟩ := rfl

theorem buildResponse_read (seq openRowStart transferCycleEnd : UInt64) (b : UInt8) (v : List UInt8) :
    buildResponse seq openRowStart transferCycleEnd false (b :: v) = .error (.fault .outOfRange) := by
  rw [buildResponse, List.length_cons, List.range_succ_eq_map]
  rfl

theorem buildResponse_eq_ok {seq openRowStart transferCycleEnd : UInt64} {isWrite : Bool} {v : List UInt8}
    {resp : DRAMResponse} : buildResponse seq openRowStart transferCycleEnd isWrite v = .ok resp ↔
      (isWrite = true ∨ v = []) ∧ resp = ⟨seq, transferCycleEnd - openRowStart, true, []⟩ := by
  cases isWrite with
  | true => simp [buildResponse_write, eq_comm]
  | false =>
      cases v with
      | nil =>
          have hnil : buildResponse seq openRowStart transferCycleEnd false [] =
              .ok ⟨seq, transferCycleEnd - openRowStart, true, []⟩ := rfl
          simp [hnil, eq_comm]
      | cons b v => simp [buildResponse_read]

theorem readResponse_refused {isWrite : Bool} {n : Int} {resp : RawResponse} (h : n < 0 ∨ resp.success = false)
    (caller : List UInt8) : (readResponse isWrite n resp).run caller =
      if resp.data.start = 0 then .error (.raised "error recieving response from the controller") caller
      else .error (.fault .invalidFree) caller := by
  have hguard : (decide (n < 0) || !resp.success) = true := by
    simpa using h
  simp only [readResponse, hguard, if_true, VectorHeader.destroy]
  split <;> rfl

theorem readResponse_write {n : Int} {resp : RawResponse} (hn : 0 ≤ n) (h : resp.success = true)
    (caller : List UInt8) : (readResponse true n resp).run caller = .ok () caller := by
  have hguard : (decide (n < 0) || !resp.success) = false := by
    simp [h, hn]
  simp only [readResponse, hguard]
  rfl

theorem finishAccess_refused {isWrite : Bool} {n : Int} {resp : RawResponse} (h : n < 0 ∨ resp.success = false)
    (caller : List UInt8) : (finishAccess isWrite n resp).run caller =
      if resp.data.start = 0 then .error (.raised "error recieving response from the controller") caller
      else .error (.fault .invalidFree) caller := by
  have hread := @readResponse_refused isWrite n resp h caller
  change EStateM.bind (readResponse isWrite n resp) _ caller = _
  change readResponse isWrite n resp caller = _ at hread
  rw [EStateM.bind, hread]
  by_cases hnull : resp.data.start = 0
  · rw [if_pos hnull]
  · rw [if_neg hnull]

/-- A success is never refused: a write returns, or at its end frees what it
does not own. -/
theorem finishAccess_write {n : Int} {resp : RawResponse} (hn : 0 ≤ n) (h : resp.success = true)
    (caller : List UInt8) : (finishAccess true n resp).run caller =
      if resp.data.start = 0 then .ok () caller else .error (.fault .invalidFree) caller := by
  have hread := readResponse_write hn h caller
  change EStateM.bind (readResponse true n resp) _ caller = _
  change readResponse true n resp caller = _ at hread
  rw [EStateM.bind, hread]
  dsimp only
  rw [VectorHeader.destroy]
  split <;> rfl

theorem returned_iff (isWrite : Bool) (v : List UInt8) : Returned isWrite v ↔ isWrite = true ∨ v = [] := by
  constructor
  · intro h
    cases isWrite with
    | true => exact .inl rfl
    | false =>
        cases v with
        | nil => exact .inr rfl
        | cons b v =>
            obtain ⟨resp, hresp, _⟩ := h 0 0 0 0 ⟨List.replicate 7 0, rfl⟩ ⟨List.replicate 7 0, rfl⟩ 0 0 false
              (b :: v) (fun _ => rfl)
            rw [buildResponse_read] at hresp
            cases hresp
  · intro h seq openRowStart transferCycleEnd base padding padding' seq' cycle' success' caller hcaller
    cases isWrite with
    | true =>
        refine ⟨_, buildResponse_write _ _ _ v, ?_⟩
        rw [received_all (Nat.le_refl 48), RawResponse.ofImage_image]
        exact finishAccess_write (by decide) rfl caller
    | false =>
        obtain rfl : v = [] := by simpa using h
        obtain rfl : caller = [] := List.length_eq_zero_iff.mp (hcaller rfl)
        refine ⟨⟨seq, transferCycleEnd - openRowStart, true, []⟩, rfl, ?_⟩
        rw [received_all (Nat.le_refl 48), RawResponse.ofImage_image]
        rfl

theorem success_received (n : Nat) (r r' : RawResponse) (padding padding' : Bytes 7) :
    (RawResponse.ofImage (received n (r.image padding) (r'.image padding'))).success =
      if 17 ≤ n then r.success else r'.success := by
  have hflag : ∀ b : Bool, (([if b then 1 else 0] : List UInt8) != [0]) = b := by
    intro b
    cases b <;> rfl
  rw [RawResponse.ofImage]
  dsimp only
  split
  · next h => rw [field_received h, RawResponse.field_success, hflag]
  · next h => rw [field_not_received (by omega), RawResponse.field_success, hflag]

theorem start_received (n : Nat) (r r' : RawResponse) (hempty : r'.data = .empty) (padding padding' : Bytes 7) :
    (RawResponse.ofImage (received n (r.image padding) (r'.image padding'))).data.start = 0 ↔
      256 ^ (n - 24) ∣ r.data.start.toNat := by
  have hbuffer : field 24 8 (r'.image padding').1 = toBytes 8 0 := by
    rw [RawResponse.field_start, hempty]
    rfl
  have hlt : r.data.start.toNat % 256 ^ (n - 24) < 256 ^ 8 :=
    Nat.lt_of_le_of_lt (Nat.mod_le _ _) r.data.start.toNat_lt
  rw [RawResponse.ofImage]
  dsimp only
  rw [field_received_zero (RawResponse.field_start r padding) hbuffer, ofBytes_toBytes hlt, ← UInt64.toNat_inj,
    UInt64.toNat_ofNat_of_lt' hlt, Nat.dvd_iff_mod_eq_zero]
  rfl

theorem refused_iff (r : RawResponse) (n : Int) :
    Refused r n ↔ n < 0 ∨ (48 ≤ n ∧ r.success = true) ∨
      (17 ≤ n ∧ r.success = false ∧ 256 ^ (n.toNat - 24) ∣ r.data.start.toNat) := by
  constructor
  · intro h
    by_contra hnot
    simp only [not_or, not_and] at hnot
    obtain ⟨hneg, hwhole, hflag⟩ := hnot
    have hbad : n < 48 ∨ r.success = false := by
      by_cases hn : n < 48
      · exact .inl hn
      · exact .inr (Bool.eq_false_iff.mpr (hwhole (by omega)))
    obtain ⟨e, he⟩ := h hbad true ⟨List.replicate 7 0, rfl⟩ ⟨List.replicate 7 0, rfl⟩ 0 0 true []
    by_cases hrefused : 17 ≤ n ∧ r.success = false
    · rw [finishAccess_refused, if_neg] at he
      · cases he
      · rw [start_received _ _ _ rfl]
        exact hflag hrefused.1 hrefused.2
      · rw [success_received, if_pos (by omega)]
        exact .inr hrefused.2
    · rw [finishAccess_write (by omega)] at he
      · split at he <;> cases he
      · rw [success_received]
        split
        · next hcome => exact Bool.not_eq_false _ ▸ fun hfalse => hrefused ⟨by omega, hfalse⟩
        · rfl
  · intro h hbad isWrite padding padding' seq' cycle' success' caller
    have hnull : n < 0 ∨ 17 ≤ n ∧ r.success = false ∧ 256 ^ (n.toNat - 24) ∣ r.data.start.toNat := by
      rcases h with h | ⟨hn, hsuccess⟩ | h
      · exact .inl h
      · rw [hsuccess] at hbad
        exact absurd hbad (by simp [hn])
      · exact .inr h
    rw [finishAccess_refused, if_pos]
    · exact ⟨_, rfl⟩
    · rw [start_received _ _ _ rfl]
      rcases hnull with hneg | ⟨_, _, hdvd⟩
      · rw [Int.toNat_of_nonpos (by omega)]
        exact Nat.one_dvd _
      · exact hdvd
    · rcases hnull with hneg | ⟨hn, hsuccess, _⟩
      · exact .inl hneg
      · rw [success_received, if_pos (by omega)]
        exact .inr hsuccess

/-- Only writes are answered as they should be. A response cut short is taken
for a success if its flag says so or has not come, and a refusal that has come
with a vector frees that vector's memory. -/
theorem response_intact_iff (isWrite : Bool) (v : List UInt8) (r : RawResponse) (n : Int) :
    (Returned isWrite v ↔ isWrite = true ∨ v = []) ∧
      (Refused r n ↔ n < 0 ∨ (48 ≤ n ∧ r.success = true) ∨
        (17 ≤ n ∧ r.success = false ∧ 256 ^ (n.toNat - 24) ∣ r.data.start.toNat)) :=
  ⟨returned_iff isWrite v, refused_iff r n⟩

/-- A read of an eight-bit bus, a success cut short before its vector, and a
whole response that is no success and has another process's vector in it. -/
theorem read_lost : ¬ Returned false (List.replicate 8 0) ∧ ¬ Refused ⟨1, 60, true, .empty⟩ 20 ∧
    ¬ Refused ⟨1, 60, false, .ofList 0x1000 [7]⟩ 48 := by
  rw [returned_iff, refused_iff, refused_iff]
  decide

end ResponseWire

end MemSim
