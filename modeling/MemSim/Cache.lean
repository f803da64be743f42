import MemSim.CacheConfig

namespace MemSim

open Machine

structure CacheBlock where
  valid : Bool
  dirty : Bool
  tag : UInt32
  data : List UInt8
  accessCount : UInt32
  lastAccess : UInt64
  deriving DecidableEq, Repr

structure CacheSet where
  blocks : List CacheBlock
  deriving DecidableEq, Repr

inductive CacheAssociativityType
  | DirectMapping
  | SetAssociative
  | FullyAssociative
  deriving DecidableEq, Repr

inductive CacheMissType
  | CompulsoryMiss
  | ConflictMiss
  | CapacityMiss
  deriving DecidableEq, Repr

/-- A memory level answers through the caller's data; the rest of its state is
its own, and so are its errors. -/
structure Memory (μ : Type) where
  access : UInt32 → Bool → EStateM String (List UInt8 × μ) Unit

/-- The next level is a parameter of the operations. The statistics wrap where
an `int` has no next value. -/
structure Cache where
  size : UInt32
  associativity : UInt32
  blockSize : UInt32
  numOfBlocks : UInt32
  numOfSets : UInt32
  config : CacheConfig
  associativityType : CacheAssociativityType
  missType : CacheMissType
  sets : List CacheSet
  replacementPolicySet : List FIFOPolicy
  hits : Int32
  misses : Int32
  reads : Int32
  writes : Int32
  deriving DecidableEq, Repr

/-- What the constructors leave uninitialised, by set and way where it
belongs to a block. -/
structure Indeterminate where
  hits : Int32
  misses : Int32
  reads : Int32
  writes : Int32
  missType : CacheMissType
  tag : Nat → Nat → UInt32
  accessCount : Nat → Nat → UInt32
  lastAccess : Nat → Nat → UInt64

structure Frame (μ : Type) where
  cache : Cache
  globalCounter : UInt64
  memory : μ
  data : List UInt8

abbrev CacheM (μ : Type) := EStateM (Stop String) (Frame μ)

namespace Cache

def newBlock (g : Indeterminate) (blockSize : UInt32) (i j : Nat) : CacheBlock :=
  { valid := false
    dirty := false
    tag := g.tag i j
    data := List.replicate blockSize.toNat 0
    accessCount := g.accessCount i j
    lastAccess := g.lastAccess i j }

def newSet (g : Indeterminate) (associativity blockSize : UInt32) (i : Nat) : CacheSet :=
  ⟨(List.range associativity.toNat).map (newBlock g blockSize i)⟩

def new (conf : CacheConfig) (g : Indeterminate) : Checked String Cache := do
  let numOfBlocks ← numberOfBlocks conf.size conf.blockSize
  let numOfSets ← numberOfSets numOfBlocks conf.associativity
  let associativityType :=
    if conf.associativity = 1 then CacheAssociativityType.DirectMapping
    else if conf.associativity = numOfBlocks then .FullyAssociative
    else .SetAssociative
  return {
    size := conf.size
    associativity := conf.associativity
    blockSize := conf.blockSize
    numOfBlocks
    numOfSets
    config := conf
    associativityType
    missType := g.missType
    sets := (List.range numOfSets.toNat).map (newSet g conf.associativity conf.blockSize)
    replacementPolicySet :=
      List.replicate numOfSets.toNat (FIFOPolicy.ofType conf.policy conf.associativity)
    hits := g.hits
    misses := g.misses
    reads := g.reads
    writes := g.writes }

def atSet {α : Type} (l : List α) (setId : Int32) : Checked String α :=
  if 0 ≤ setId.toInt then element l setId.toInt.toNat else .error (.fault .outOfRange)

def resolveAddress (c : Cache) (address : UInt32) : Checked String (UInt32 × Int32) := do
  let lineAddress ← lineAddress address c.blockSize
  let setInd ← modulo lineAddress c.numOfSets
  let tag ← divide lineAddress c.numOfSets
  return (tag, setInd.toInt32)

def findBlock (c : Cache) (tag : UInt32) (setId : Int32) : Checked String (Option Nat) := do
  let set ← atSet c.sets setId
  return set.blocks.findIdx? fun block => block.valid && block.tag == tag

variable {μ : Type}

/-- The scan returns the first invalid way at once, so what follows it runs
without one and its first branch is never taken. -/
def createEmptyBlock (setId : Int32) : CacheM μ Nat := do
  let s ← get
  let set ← atSet s.cache.sets setId
  match set.blocks.findIdx? fun block => !block.valid with
  | some i => return i
  | none =>
      let missType := if s.cache.associativity < s.cache.numOfSets then CacheMissType.ConflictMiss
        else .CapacityMiss
      modify fun s => { s with cache := { s.cache with missType } }
      let policy ← atSet s.cache.replacementPolicySet setId
      policy.getVictim (List.replicate s.cache.associativity.toNat true)

def copyData (dst src : List UInt8) : Checked String (List UInt8) := do
  assert (dst.length = src.length) "size mismatch"
  copyAt dst 0 src

def nextAccess (next : Option (Memory μ)) (address : UInt32) (isWrite : Bool) : CacheM μ Unit :=
  fun s =>
    match next with
    | none => .ok () s
    | some level =>
        match level.access address isWrite (s.data, s.memory) with
        | .ok () t => .ok () { s with data := t.1, memory := t.2 }
        | .error e t => .error (.raised e) { s with data := t.1, memory := t.2 }

def fetchAdd : CacheM μ UInt64 :=
  modifyGet fun s => (s.globalCounter, { s with globalCounter := s.globalCounter + 1 })

/-- The local block is a copy of the line. -/
def accessHit (setId : Int32) (blockId : Nat) : CacheM μ CacheBlock := do
  modify fun s => { s with cache := { s.cache with hits := s.cache.hits + 1 } }
  let s ← get
  let set ← atSet s.cache.sets setId
  let block ← (element set.blocks blockId : Checked String CacheBlock)
  let stamp ← fetchAdd
  let policy ← atSet s.cache.replacementPolicySet setId
  modify fun s => { s with cache := { s.cache with
    replacementPolicySet := s.cache.replacementPolicySet.set setId.toInt.toNat (policy.onAccess blockId) } }
  return { block with accessCount := block.accessCount + 1, lastAccess := stamp }

/-- The write back sends the caller's data. -/
def writeBack (next : Option (Memory μ)) (victimBlock : CacheBlock) (setId : Int32) : CacheM μ Unit := do
  let s ← get
  if victimBlock.valid && victimBlock.dirty then
    let victimAddress := (victimBlock.tag * s.cache.numOfSets + setId.toUInt32) * s.cache.blockSize
    nextAccess next victimAddress true

/-- The fetch fills the caller's data; the local block is a copy of the line
that is to be replaced, under its new tag. -/
def insertBlock (next : Option (Memory μ)) (address tag : UInt32) (setId : Int32) (blockId : Nat) :
    CacheM μ CacheBlock := do
  nextAccess next address false
  let s ← get
  let set ← atSet s.cache.sets setId
  let block ← (element set.blocks blockId : Checked String CacheBlock)
  let stamp ← fetchAdd
  let policy ← atSet s.cache.replacementPolicySet setId
  let policy ← policy.onInsert blockId
  modify fun s => { s with cache := { s.cache with
    replacementPolicySet := s.cache.replacementPolicySet.set setId.toInt.toNat policy } }
  return { block with valid := true, tag, accessCount := 1, lastAccess := stamp }

def accessMiss (next : Option (Memory μ)) (address tag : UInt32) (setId : Int32) :
    CacheM μ CacheBlock := do
  modify fun s => { s with cache := { s.cache with misses := s.cache.misses + 1 } }
  let blockId ← createEmptyBlock setId
  let s ← get
  let set ← atSet s.cache.sets setId
  let victimBlock ← (element set.blocks blockId : Checked String CacheBlock)
  writeBack next victimBlock setId
  insertBlock next address tag setId blockId

/-- The data moves between the caller and the local block, which then goes
out of scope: no line of the set is assigned. -/
def accessFinish (next : Option (Memory μ)) (address : UInt32) (isWrite : Bool) (block : CacheBlock) :
    CacheM μ Unit := do
  if isWrite then
    modify fun s => { s with cache := { s.cache with writes := s.cache.writes + 1 } }
    let s ← get
    let block ← match s.cache.config.writePolicy with
      | .WriteThrough => do
          nextAccess next address true
          pure { block with dirty := false }
      | .WriteBack => pure { block with dirty := true }
    let s ← get
    let _written ← copyData block.data s.data
  else
    modify fun s => { s with cache := { s.cache with reads := s.cache.reads + 1 } }
    let s ← get
    let data ← copyData s.data block.data
    modify fun s => { s with data }

def access (next : Option (Memory μ)) (address : UInt32) (isWrite : Bool) : CacheM μ Unit := do
  let s ← get
  let (tag, setId) ← s.cache.resolveAddress address
  let _set ← atSet s.cache.sets setId
  let block ← match ← s.cache.findBlock tag setId with
    | some blockId => accessHit setId blockId
    | none => accessMiss next address tag setId
  accessFinish next address isWrite block

end Cache

end MemSim
