import MemSim.ByteImage
import MemSim.DRAMRequest
import MemSim.Machine

namespace MemSim

open Machine ByteImage

structure WireRequest where
  address : UInt64
  isWrite : Bool
  dataSize : UInt32
  data : Bytes 64
  deriving DecidableEq

namespace WireRequest

/-- The 80 bytes of the struct, with three of padding before `data_size`. -/
def image (w : WireRequest) (padding : Bytes 3) : Bytes 80 :=
  ⟨toBytes 8 w.address.toNat ++ ([if w.isWrite then 1 else 0] ++
      (padding.1 ++ (toBytes 4 w.dataSize.toNat ++ (w.data.1 ++ [])))), by
    simp only [List.length_append, toBytes_length, List.length_singleton, padding.2, w.data.2,
      List.length_nil]⟩

def ofImage (b : Bytes 80) : WireRequest :=
  { address := UInt64.ofNat (ofBytes (field 0 8 b.1))
    isWrite := field 8 1 b.1 != [0]
    dataSize := UInt32.ofNat (ofBytes (field 12 4 b.1))
    data := ⟨field 16 64 b.1, field_length (by rw [b.2])⟩ }

theorem ofImage_image (w : WireRequest) (padding : Bytes 3) : ofImage (w.image padding) = w := by
  have hpadding := padding.2
  have haddress : field 0 8 (w.image padding).1 = toBytes 8 w.address.toNat :=
    field_append [] _ _ rfl (toBytes_length _ _)
  have hflag : field 8 1 (w.image padding).1 = [if w.isWrite then 1 else 0] :=
    field_append _ _ _ (toBytes_length _ _) rfl
  have hsize : field 12 4 (w.image padding).1 = toBytes 4 w.dataSize.toNat := by
    have hbefore : (toBytes 8 w.address.toNat ++ ([if w.isWrite then 1 else 0] ++ padding.1)).length = 12 := by
      simp [hpadding]
    have happend := field_append _ (toBytes 4 w.dataSize.toNat) (w.data.1 ++ []) hbefore (toBytes_length _ _)
    simpa only [image, List.append_assoc] using happend
  have hdata : field 16 64 (w.image padding).1 = w.data.1 := by
    have hbefore : (toBytes 8 w.address.toNat ++ ([if w.isWrite then 1 else 0] ++
        (padding.1 ++ toBytes 4 w.dataSize.toNat))).length = 16 := by
      simp [hpadding]
    have happend := field_append _ w.data.1 [] hbefore w.data.2
    simpa only [image, List.append_assoc] using happend
  have hvalue : UInt64.ofNat (ofBytes (toBytes 8 w.address.toNat)) = w.address := by
    rw [ofBytes_toBytes w.address.toNat_lt, UInt64.ofNat_toNat]
  have hlength : UInt32.ofNat (ofBytes (toBytes 4 w.dataSize.toNat)) = w.dataSize := by
    rw [ofBytes_toBytes w.dataSize.toNat_lt, UInt32.ofNat_toNat]
  have hmode : (([if w.isWrite then 1 else 0] : List UInt8) != [0]) = w.isWrite := by
    cases w.isWrite <;> rfl
  simp only [ofImage, haddress, hflag, hsize, hdata, hvalue, hlength, hmode]

end WireRequest

namespace DRAM

def encodeRequest (address : UInt32) (isWrite : Bool) (data : List UInt8) (array : Bytes 64) :
    Checked String WireRequest :=
  if h : 0 + data.length ≤ array.1.length then
    .ok {
      address := address.toUInt64
      isWrite
      dataSize := UInt32.ofNat data.length
      data := ⟨splice array.1 0 data, (splice_length h).trans array.2⟩ }
  else .error (.fault .outOfRange)

end DRAM

namespace DRAMController

def readWire (wire : WireRequest) : Checked String (List UInt8) :=
  if wire.dataSize.toNat ≤ wire.data.1.length then .ok (wire.data.1.take wire.dataSize.toNat)
  else .error (.fault .outOfRange)

/-- What `handle_request` does with the struct after a `recv` that gave `n`,
having read `nextSeq`. The vector it copies into is empty. -/
def handleRequest (clientFd : Int32) (nextSeq : UInt64) (n : Int) (wire : WireRequest) :
    EStateM (Stop String) (List DRAMRequest) Unit := do
  if n < 0 then
    throw (.raised ("failed to recieve memory access request from client (connection id: "
      ++ toString clientFd.toInt ++ ")"))
  let seq := nextSeq + 1
  let source ← readWire wire
  let d ← (copyAt [] 0 source : Checked String (List UInt8))
  modify fun queue => { seq, address := wire.address, isWrite := wire.isWrite, data := d, clientFd } :: queue

/-- `dispatcher_loop` copies the payload into another empty vector. -/
def handOver (req : DRAMRequest) : Checked String (List UInt8) := copyAt [] 0 req.data

end DRAMController

namespace RequestWire

open DRAM DRAMController

/-- What a client asks for arrives: a payload that fits the array is enqueued
and handed to the transfer as it is, and a longer one is refused. What the
array, the padding and the receiving struct held before does not matter. -/
def Carried (address : UInt32) (isWrite : Bool) (data : List UInt8) : Prop :=
  ∀ (array : Bytes 64) (padding : Bytes 3) (buffer : Bytes 80) (clientFd : Int32) (nextSeq : UInt64)
      (queue : List DRAMRequest),
    if data.length ≤ 64 then
      ∃ w req, encodeRequest address isWrite data array = .ok w ∧
        (handleRequest clientFd nextSeq 80 (.ofImage (received 80 (w.image padding) buffer))).run queue =
          .ok () (req :: queue) ∧
        req.address = address.toUInt64 ∧ req.isWrite = isWrite ∧ req.data = data ∧
        req.data.length = w.dataSize.toNat ∧ handOver req = .ok data
    else ∃ e, encodeRequest address isWrite data array = .error (.raised e)

/-- A message that is incomplete, or claims more than the array holds, is
refused and leaves the queue alone. -/
def Refused (w : WireRequest) (n : Int) : Prop :=
  n < 80 ∨ 64 < w.dataSize.toNat →
    ∀ (padding : Bytes 3) (buffer : Bytes 80) (clientFd : Int32) (nextSeq : UInt64) (queue : List DRAMRequest),
      ∃ e, (handleRequest clientFd nextSeq n (.ofImage (received n.toNat (w.image padding) buffer))).run queue =
        .error (.raised e) queue

theorem copyAt_nil (src : List UInt8) :
    (copyAt [] 0 src : Checked String (List UInt8)) =
      if src = [] then .ok [] else .error (.fault .outOfRange) := by
  cases src with
  | nil => rfl
  | cons b src => rfl

theorem handOver_eq_ok {req : DRAMRequest} {data : List UInt8} :
    handOver req = .ok data ↔ req.data = [] ∧ data = [] := by
  rw [handOver, copyAt_nil]
  by_cases hdata : req.data = []
  · simp [hdata, eq_comm]
  · simp [hdata]

theorem handleRequest_failed {n : Int} (h : n < 0) (clientFd : Int32) (nextSeq : UInt64) (wire : WireRequest)
    (queue : List DRAMRequest) :
    ∃ e, (handleRequest clientFd nextSeq n wire).run queue = .error (.raised e) queue := by
  simp only [handleRequest, if_pos h]
  exact ⟨_, rfl⟩

theorem handleRequest_eq {n : Int} (h : 0 ≤ n) (clientFd : Int32) (nextSeq : UInt64) (wire : WireRequest)
    (queue : List DRAMRequest) :
    (handleRequest clientFd nextSeq n wire).run queue =
      if wire.dataSize = 0 then
        .ok () (⟨nextSeq + 1, wire.address, wire.isWrite, [], clientFd⟩ :: queue)
      else .error (.fault .outOfRange) queue := by
  simp only [handleRequest, if_neg (Int.not_lt.mpr h), EStateM.run_bind]
  by_cases hsize : wire.dataSize = 0
  · have hread : readWire wire = .ok [] := by
      simp [readWire, hsize]
    simp only [hread, run_lift_ok, copyAt_nil, if_true, hsize]
    rfl
  · have hpos : wire.dataSize.toNat ≠ 0 := fun hz => hsize (UInt32.toNat_inj.mp hz)
    rw [if_neg hsize]
    by_cases hle : wire.dataSize.toNat ≤ wire.data.1.length
    · have hread : readWire wire = .ok (wire.data.1.take wire.dataSize.toNat) := if_pos hle
      have hne : wire.data.1.take wire.dataSize.toNat ≠ [] := by
        rw [ne_eq, List.take_eq_nil_iff, not_or]
        exact ⟨hpos, fun hnil => by rw [hnil] at hle; exact hpos (Nat.le_zero.mp hle)⟩
      simp only [hread, run_lift_ok, copyAt_nil, if_neg hne]
      rfl
    · have hread : readWire wire = .error (.fault .outOfRange) := if_neg hle
      simp only [hread]
      rfl

theorem encodeRequest_empty (address : UInt32) (isWrite : Bool) (array : Bytes 64) :
    encodeRequest address isWrite [] array = .ok ⟨address.toUInt64, isWrite, 0, array⟩ := by
  have hsplice : splice array.1 0 [] = array.1 := by simp [splice]
  simp only [encodeRequest, List.length_nil, Nat.add_zero, Nat.zero_le, dite_true, hsplice]
  rfl

theorem carried_iff (address : UInt32) (isWrite : Bool) (data : List UInt8) :
    Carried address isWrite data ↔ data = [] := by
  constructor
  · intro h
    have hthis := h ⟨List.replicate 64 0, rfl⟩ ⟨[0, 0, 0], rfl⟩ ⟨List.replicate 80 0, rfl⟩ 0 0 []
    split at hthis
    · obtain ⟨_, req, _, _, _, _, _, _, hover⟩ := hthis
      exact (handOver_eq_ok.mp hover).2
    · next hlong =>
        obtain ⟨e, he⟩ := hthis
        rw [encodeRequest, dif_neg (by simpa using hlong)] at he
        cases he
  · rintro rfl array padding buffer clientFd nextSeq queue
    rw [List.length_nil, if_pos (Nat.zero_le 64)]
    refine ⟨_, ⟨nextSeq + 1, address.toUInt64, isWrite, [], clientFd⟩, encodeRequest_empty address isWrite array,
      ?_, rfl, rfl, rfl, rfl, rfl⟩
    rw [received_all (Nat.le_refl 80), WireRequest.ofImage_image, handleRequest_eq (by decide)]
    rfl

theorem refused_iff (w : WireRequest) (n : Int) :
    Refused w n ↔ n < 0 ∨ (80 ≤ n ∧ w.dataSize.toNat ≤ 64) := by
  constructor
  · intro h
    by_contra hnot
    obtain ⟨hn, hwhole⟩ := not_or.mp hnot
    have hbad : n < 80 ∨ 64 < w.dataSize.toNat := by omega
    obtain ⟨e, he⟩ := h hbad ⟨[0, 0, 0], rfl⟩ ⟨List.replicate 80 0, rfl⟩ 0 0 []
    rw [handleRequest_eq (Int.not_lt.mp hn)] at he
    split at he <;> cases he
  · rintro (hn | hwhole) hbad padding buffer clientFd nextSeq queue
    · exact handleRequest_failed hn _ _ _ _
    · omega

/-- No payload gets through but the empty one, and no message is refused
unless nothing could be received. -/
theorem request_intact_iff (address : UInt32) (isWrite : Bool) (data : List UInt8) (w : WireRequest) (n : Int) :
    (Carried address isWrite data ↔ data = []) ∧
      (Refused w n ↔ n < 0 ∨ (80 ≤ n ∧ w.dataSize.toNat ≤ 64)) :=
  ⟨carried_iff address isWrite data, refused_iff w n⟩

theorem one_byte_lost : ¬ Carried 0x40 true [7] ∧ ¬ Refused ⟨0, false, 0, ⟨List.replicate 64 0, rfl⟩⟩ 0 := by
  rw [carried_iff, refused_iff]
  decide

end RequestWire

end MemSim
