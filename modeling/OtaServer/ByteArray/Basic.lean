import OtaServer.Lib.Blocks
import OtaServer.Lib.Bytes

/-!
# Byte arrays (`sherry/bytearray.h`, `sherry/bytearray.cc`)

A `ByteArray` keeps its bytes in a linked list of blocks of `m_baseSize` bytes and has one position, `m_position`,
with a pointer `m_cur` to the block of that position.

* `writeLoop`, `readLoop`, `seekLoop`, `buffersLoop`, `fileLoop`: the loops over the blocks. They give nothing if they
  follow a null pointer.
* `ByteArrayM`: an operation returns, throws `std::out_of_range`, or is undefined. What it has changed before it
  throws stays changed.
-/

namespace Sherry

open Lib

/-- How an operation ends without a result. -/
inductive Fault where
  /-- `std::out_of_range`. -/
  | outOfRange (what : String)
  /-- A null pointer is followed, or memory outside a block is used. -/
  | undefined
  deriving DecidableEq

/-- `ByteArray::Node`: the block at `ptr`. Its length is `size`, and `next` is the node behind it in a list of nodes.
-/
abbrev Node := Bytes

/-- `ByteArray`. -/
structure ByteArray where
  baseSize : Nat
  position : Nat
  capacity : Nat
  size : Nat
  /-- `m_endian == SYLAR_LITTLE_ENDIAN`. -/
  littleEndian : Bool
  /-- The nodes from `m_root` on. -/
  nodes : List Node
  /-- The place of `m_cur` among the nodes, if it is not null. -/
  cur : Option Nat
  /-- The bytes of the blocks that `new char[]` will return, which does not initialise them. -/
  fresh : Nat → Nat → UInt8

/-- Operations on a byte array. -/
abbrev ByteArrayM := EStateM Fault ByteArray

/-- `a - b` as a `size_t`. -/
def sizeSub (a b : Nat) : Nat := if b ≤ a then a - b else 2 ^ 64 + a - b

/-- `new Node(s)`. -/
def newNode (s : Nat) (fresh : Nat → UInt8) : Node := (List.range s).map fresh

namespace ByteArray

/-- The constructor. -/
def new (baseSize : Nat) (fresh : Nat → Nat → UInt8) : ByteArray where
  baseSize := baseSize
  position := 0
  capacity := baseSize
  size := 0
  littleEndian := false
  nodes := [newNode baseSize (fresh 0)]
  cur := some 0
  fresh := fun k => fresh (k + 1)

/-- The byte order of the values that follow. -/
def setIsLittleEndian (b : ByteArray) (val : Bool) : ByteArray := { b with littleEndian := val }

/-- `m_size - m_position`. The position is never behind the size. -/
def getReadSize (b : ByteArray) : Nat := b.size - b.position

/-- `m_capacity - m_position`. The position is never behind the capacity. -/
def getCapacity (b : ByteArray) : Nat := b.capacity - b.position

/-- The pointer to the node at a place, null behind the last node. -/
def nodeAt (b : ByteArray) (i : Nat) : Option Nat := if i < b.nodes.length then some i else none

/-- `clear`. -/
def clear (b : ByteArray) : ByteArray :=
  { b with
    position := 0, size := 0, capacity := b.baseSize, nodes := b.nodes.take 1, cur := some 0 }

/-- `addCapacity`. The number of blocks is computed with doubles, which is exact for sizes below `2 ^ 53`. -/
def addCapacity (b : ByteArray) (size : Nat) : ByteArray :=
  if size = 0 then b
  else if size ≤ b.getCapacity then b
  else
    let count := (size - b.getCapacity + b.baseSize - 1) / b.baseSize
    { b with
      nodes := b.nodes ++ (List.range count).map fun k => newNode b.baseSize (b.fresh k)
      capacity := b.capacity + count * b.baseSize
      fresh := fun k => b.fresh (k + count)
      cur := if b.getCapacity = 0 then if 0 < count then some b.nodes.length else none else b.cur }

/-! ## Writing and reading -/

/-- `memcpy(node->ptr + npos, buf, buf.size())`. -/
def put (node : Node) (npos : Nat) (buf : Bytes) : Node := splice node npos buf

/-- The loop of `write`: the nodes from `m_cur` on, and how many of them `m_cur` has passed. -/
def writeLoop : List Node → Nat → Bytes → Option (List Node × Nat)
  | [], _, _ => none
  | node :: nodes, npos, buf =>
    let ncap := node.length - npos
    if buf.length ≤ ncap then
      some (put node npos buf :: nodes, if node.length = npos + buf.length then 1 else 0)
    else
      (writeLoop nodes 0 (buf.drop ncap)).map fun x =>
        (put node npos (buf.take ncap) :: x.1, x.2 + 1)

/-- `write`. -/
def write (buf : Bytes) : ByteArrayM Unit := fun b =>
  if buf = [] then .ok () b
  else
    let b := b.addCapacity buf.length
    match b.cur with
    | none => .error .undefined b
    | some i =>
      match writeLoop (b.nodes.drop i) (b.position % b.baseSize) buf with
      | none => .error .undefined b
      | some (nodes, passed) => .ok () { b with
          nodes := b.nodes.take i ++ nodes
          cur := b.nodeAt (i + passed)
          position := b.position + buf.length
          size := max b.size (b.position + buf.length) }

/-- The loop of `read`: the bytes, and how many nodes `m_cur` has passed. -/
def readLoop : List Node → Nat → Nat → Option (Bytes × Nat)
  | _, _, 0 => some ([], 0)
  | [], _, _ + 1 => none
  | node :: nodes, npos, size + 1 =>
    let ncap := node.length - npos
    if size + 1 ≤ ncap then
      some ((node.drop npos).take (size + 1), if node.length = npos + (size + 1) then 1 else 0)
    else
      (readLoop nodes 0 (size + 1 - ncap)).map fun x =>
        ((node.drop npos).take ncap ++ x.1, x.2 + 1)

/-- `read(buf, size)`. The size of the node of `m_cur` is taken before anything else, whatever `size` is. -/
def read (size : Nat) : ByteArrayM Bytes := fun b =>
  if b.getReadSize < size then .error (.outOfRange "not enough len") b
  else
    match b.cur with
    | none => .error .undefined b
    | some i =>
      match readLoop (b.nodes.drop i) (b.position % b.baseSize) size with
      | none => .error .undefined b
      | some (bytes, passed) =>
        .ok bytes { b with cur := b.nodeAt (i + passed), position := b.position + size }

/-- `read(buf, size, position)`. It starts in the node of `m_cur`. -/
def readAt (b : ByteArray) (size position : Nat) : Except Fault Bytes :=
  if sizeSub b.size position < size then .error (.outOfRange "not enough len")
  else
    match b.cur with
    | none => .error .undefined
    | some i =>
      match readLoop (b.nodes.drop i) (position % b.baseSize) size with
      | none => .error .undefined
      | some (bytes, _) => .ok bytes

/-- The loop of `setPosition`: how many nodes are passed. -/
def seekLoop : List Node → Nat → Option Nat
  | [], _ => none
  | node :: nodes, v =>
    if node.length < v then (seekLoop nodes (v - node.length)).map (· + 1)
    else some (if v = node.length then 1 else 0)

/-- `setPosition`. -/
def setPosition (v : Nat) : ByteArrayM Unit := fun b =>
  if b.capacity < v then .error (.outOfRange "set_position out of range") b
  else
    match seekLoop b.nodes v with
    | none => .error .undefined b
    | some passed =>
      .ok () { b with position := v, size := max b.size v, cur := b.nodeAt passed }

/-- `toString`. -/
def toString (b : ByteArray) : Except Fault Bytes :=
  if b.getReadSize = 0 then .ok [] else b.readAt b.getReadSize b.position

/-- A hexadecimal digit. -/
def hexDigit (n : Nat) : UInt8 := if n < 10 then UInt8.ofNat (48 + n) else UInt8.ofNat (87 + n)

/-- `toHexString`: two digits and a blank for each byte, 32 bytes in a line. -/
def toHexString (b : ByteArray) : Except Fault Bytes :=
  b.toString.map fun bytes => bytes.zipIdx.flatMap fun x =>
    (if 0 < x.2 ∧ x.2 % 32 = 0 then str "\n" else []) ++
      [hexDigit (x.1.toNat / 16), hexDigit (x.1.toNat % 16), 32]

/-! ## Buffers -/

/-- `iovec`: the place of a node, and a part of its block. -/
structure IoVec where
  node : Nat
  base : Nat
  len : Nat
  deriving DecidableEq

/-- The loop of `getReadBuffers` and `getWriteBuffers`, from the node at the place `i` on. -/
def buffersLoop : List Node → Nat → Nat → Nat → Option (List IoVec)
  | [], _, _, _ => none
  | node :: nodes, i, npos, len =>
    let ncap := node.length - npos
    if len ≤ ncap then some [⟨i, npos, len⟩]
    else (buffersLoop nodes (i + 1) 0 (len - ncap)).map (⟨i, npos, ncap⟩ :: ·)

/-- The buffers from the node at a pointer on. -/
def buffersFrom (b : ByteArray) (cur : Option Nat) (npos len : Nat) : Except Fault (List IoVec) :=
  match cur with
  | none => .error .undefined
  | some i =>
    match buffersLoop (b.nodes.drop i) i npos len with
    | none => .error .undefined
    | some iovs => .ok iovs

/-- `getReadBuffers(buffers, len)`: what it returns, and what it adds to `buffers`. -/
def getReadBuffers (b : ByteArray) (len : Nat) : Except Fault (Nat × List IoVec) :=
  let len := min len b.getReadSize
  if len = 0 then .ok (0, [])
  else (b.buffersFrom b.cur (b.position % b.baseSize) len).map fun iovs => (len, iovs)

/-- `getReadBuffers(buffers, len, position)`: the length is compared with what is left behind `m_position`. -/
def getReadBuffersAt (b : ByteArray) (len position : Nat) : Except Fault (Nat × List IoVec) :=
  let len := min len b.getReadSize
  if len = 0 then .ok (0, [])
  else
    (b.buffersFrom (b.nodeAt (position / b.baseSize)) (position % b.baseSize) len).map
      fun iovs => (len, iovs)

/-- `getWriteBuffers`. -/
def getWriteBuffers (len : Nat) : ByteArrayM (Nat × List IoVec) := fun b =>
  if len = 0 then .ok (0, []) b
  else
    let b := b.addCapacity len
    match b.buffersFrom b.cur (b.position % b.baseSize) len with
    | .error e => .error e b
    | .ok iovs => .ok (len, iovs) b

/-! ## Files -/

/-- `(int)n`. -/
def toInt32 (n : Nat) : Int := (BitVec.ofNat 32 n).toInt

/-- The loop of `writeToFile`: what is written. -/
def fileLoop (baseSize : Nat) : List Node → Nat → Nat → Option Bytes
  | _, _, 0 => some []
  | [], _, _ + 1 => none
  | node :: nodes, pos, readSize + 1 =>
    let diff := toInt32 (pos % baseSize)
    let len := (min (readSize + 1) baseSize : Nat) - diff
    if diff < 0 ∨ len < 0 ∨ (node.length : Int) < diff + len then none
    else
      (fileLoop baseSize nodes (pos + len.toNat) (readSize + 1 - len.toNat)).map fun bytes =>
        (node.drop diff.toNat).take len.toNat ++ bytes

/-- `writeToFile`: the content of the file if it can be opened. -/
def writeToFile (b : ByteArray) (opened : Bool) : Except Fault (Option Bytes) :=
  if !opened then .ok none
  else if b.getReadSize = 0 then .ok (some [])
  else
    match b.cur with
    | none => .error .undefined
    | some i =>
      match fileLoop b.baseSize (b.nodes.drop i) b.position b.getReadSize with
      | none => .error .undefined
      | some bytes => .ok (some bytes)

/-- The loop of `readFromFile`: a read that is shorter than `m_baseSize` has met the end of the file. -/
def readFileLoop (baseSize : Nat) : Nat → Bytes → ByteArrayM Unit
  | 0, _ => pure ()
  | fuel + 1, content => do
    write (content.take baseSize)
    if content.length < baseSize then pure () else readFileLoop baseSize fuel (content.drop baseSize)

/-- `readFromFile`, with the content of the file if it can be opened. -/
def readFromFile (content : Option Bytes) : ByteArrayM Bool := fun b =>
  match content with
  | none => .ok false b
  | some bytes => (do readFileLoop b.baseSize (bytes.length + 1) bytes; pure true : ByteArrayM Bool) b

end ByteArray

end Sherry
