import OtaServer.Lib.Endian
import OtaServer.Lib.Number

/-!
# IP addresses (`sherry/address.h`, `sherry/address.cc`, `sherry/endian.h`)

An address object holds a `sockaddr_in` or a `sockaddr_in6`, with the port and the address in network order. The host
is little-endian: a number of network order is loaded with its bytes swapped.

* `IPv4Address`, `IPv6Address`: the constructors, `Create`, the port, `insert` and the three subnet functions.
* `createMask`: the shift and the difference are those of an `int`, and may be undefined.
-/

namespace Sherry

open Lib

/-- Why a call is undefined. -/
inductive Undefined where
  /-- A shift by the width of the number or more. -/
  | shift
  /-- An `int` that does not fit. -/
  | overflow
  /-- An access outside an array. -/
  | bounds
  deriving DecidableEq

/-- `CreateMask<T>(bits)` for a `T` of `w` bits. The `1` is an `int`. -/
def createMask (w bits : Nat) : Except Undefined (BitVec w) :=
  if w < bits ∨ 32 ≤ w - bits then .error .shift
  else if (1#32 <<< (w - bits)).toInt - 1 < -2 ^ 31 then .error .overflow
  else .ok (BitVec.ofInt w ((1#32 <<< (w - bits)).toInt - 1))

/-- `byteswapOnLittleEndian` for a number of `k` bytes. -/
def byteswapOnLittleEndian {k : Nat} (t : BitVec (8 * k)) : BitVec (8 * k) := byteSwap t

/-! ## IPv4 -/

/-- `IPv4Address`: what is set of its `sockaddr_in`, but for the family. -/
structure IPv4Address where
  sinPort : BitVec 16
  sAddr : BitVec 32
  deriving DecidableEq

namespace IPv4Address

/-- `IPv4Address(address, port)`. The bytes of the port are swapped as those of a `uint32_t`. -/
def new (address port : BitVec 32) : IPv4Address where
  sinPort := (byteswapOnLittleEndian (k := 4) port).setWidth 16
  sAddr := byteswapOnLittleEndian (k := 4) address

/-- `IPv4Address::Create`, with `inet_pton(AF_INET, ..)`. -/
def create (inetPton : Bytes → Option (BitVec 32)) (address : Bytes) (port : BitVec 32) : Option IPv4Address :=
  (inetPton address).map fun sAddr =>
    { sinPort := (byteswapOnLittleEndian (k := 4) port).setWidth 16, sAddr := sAddr }

/-- The port in the byte order of the host. -/
def getPort (a : IPv4Address) : BitVec 32 := (byteswapOnLittleEndian (k := 2) a.sinPort).setWidth 32

/-- Stores a port in network byte order. -/
def setPort (a : IPv4Address) (v : BitVec 16) : IPv4Address :=
  { a with sinPort := byteswapOnLittleEndian (k := 2) v }

/-- `insert`. -/
def insert (a : IPv4Address) : Bytes :=
  let addr : BitVec 32 := byteswapOnLittleEndian (k := 4) a.sAddr
  dec ((addr >>> 24) &&& 0xff).toNat ++ str "." ++ dec ((addr >>> 16) &&& 0xff).toNat ++ str "." ++
    dec ((addr >>> 8) &&& 0xff).toNat ++ str "." ++ dec (addr &&& 0xff).toNat ++
    str ":" ++ dec (byteswapOnLittleEndian (k := 2) a.sinPort).toNat

/-- `broadcastAddress`: nothing for `nullptr`. -/
def broadcastAddress (a : IPv4Address) (prefixLen : Nat) : Except Undefined (Option IPv4Address) :=
  if 32 < prefixLen then .ok none
  else (createMask 32 prefixLen).map fun mask =>
    some { a with sAddr := a.sAddr ||| byteswapOnLittleEndian (k := 4) mask }

/-- `networkAddress`. -/
def networkAddress (a : IPv4Address) (prefixLen : Nat) : Except Undefined (Option IPv4Address) :=
  if 32 < prefixLen then .ok none
  else (createMask 32 prefixLen).map fun mask =>
    some { a with sAddr := a.sAddr &&& byteswapOnLittleEndian (k := 4) mask }

/-- `subnetMask`, which does not look at the address. -/
def subnetMask (_ : IPv4Address) (prefixLen : Nat) : Except Undefined IPv4Address :=
  (createMask 32 prefixLen).map fun mask => ⟨0, ~~~ byteswapOnLittleEndian (k := 4) mask⟩

/-- The address as a number of the host. -/
def host (a : IPv4Address) : BitVec 32 := byteswapOnLittleEndian (k := 4) a.sAddr

end IPv4Address

/-! ## IPv6 -/

/-- `IPv6Address`: what is set of its `sockaddr_in6`, but for the family. -/
structure IPv6Address where
  sin6Port : BitVec 16
  s6Addr : Vector UInt8 16
  deriving DecidableEq

namespace IPv6Address

/-- `IPv6Address(address, port)`. -/
def new (address : Vector UInt8 16) (port : BitVec 32) : IPv6Address where
  sin6Port := (byteswapOnLittleEndian (k := 4) port).setWidth 16
  s6Addr := address

/-- `IPv6Address::Create`, with `inet_pton(AF_INET6, ..)`. -/
def create (inetPton : Bytes → Option (Vector UInt8 16)) (address : Bytes) (port : BitVec 32) : Option IPv6Address :=
  (inetPton address).map fun s6Addr =>
    { sin6Port := (byteswapOnLittleEndian (k := 4) port).setWidth 16, s6Addr := s6Addr }

/-- The port in the byte order of the host. -/
def getPort (a : IPv6Address) : BitVec 32 := (byteswapOnLittleEndian (k := 2) a.sin6Port).setWidth 32

/-- Stores a port in network byte order. -/
def setPort (a : IPv6Address) (v : BitVec 16) : IPv6Address :=
  { a with sin6Port := byteswapOnLittleEndian (k := 2) v }

/-- `addr[i]`: two bytes of the address as a `uint16_t` of the host. -/
def word (a : IPv6Address) (i : Nat) : BitVec 16 :=
  BitVec.ofNat 16 (leValue [a.s6Addr.getD (2 * i) 0, a.s6Addr.getD (2 * i + 1) 0])

/-- What `insert` has printed in its loop, and `used_zeros`. -/
structure Printed where
  text : Bytes
  usedZeros : Bool

/-- One round of the loop of `insert`. -/
def insertRound (addr : Nat → BitVec 16) (os : Printed) (i : Nat) : Printed :=
  if addr i = 0 ∧ os.usedZeros = false then os
  else
    let os : Printed :=
      if i ≠ 0 ∧ addr (i - 1) = 0 ∧ os.usedZeros = false then ⟨os.text ++ str ":", true⟩ else os
    let os : Printed := if i ≠ 0 then { os with text := os.text ++ str ":" } else os
    { os with text := os.text ++ hex (byteswapOnLittleEndian (k := 2) (addr i)).toNat }

/-- What `insert` prints between the brackets. -/
def insertAddr (addr : Nat → BitVec 16) : Bytes :=
  let os := (List.range 8).foldl (insertRound addr) ⟨[], false⟩
  if os.usedZeros = false ∧ addr 7 = 0 then os.text ++ str "::" else os.text

/-- `insert`. -/
def insert (a : IPv6Address) : Bytes :=
  str "[" ++ insertAddr a.word ++ str "]:" ++ dec (byteswapOnLittleEndian (k := 2) a.sin6Port).toNat

/-- `s6_addr[i] = v` for some places. -/
def setBytes (s6Addr : Vector UInt8 16) (places : List Nat) (v : UInt8) : Vector UInt8 16 :=
  places.foldl (fun bytes i => bytes.setIfInBounds i v) s6Addr

/-- `broadcastAddress`. -/
def broadcastAddress (a : IPv6Address) (prefixLen : Nat) : Except Undefined IPv6Address :=
  if h : prefixLen / 8 < 16 then
    (createMask 8 (prefixLen % 8)).map fun mask =>
      let s6Addr := a.s6Addr.set (prefixLen / 8) (a.s6Addr[prefixLen / 8] ||| UInt8.ofBitVec mask) h
      { a with s6Addr := setBytes s6Addr (List.range' (prefixLen / 8 + 1) (15 - prefixLen / 8)) 0xff }
  else .error .bounds

/-- `networkAddress`: the bytes behind the one of the boundary stay. -/
def networkAddress (a : IPv6Address) (prefixLen : Nat) : Except Undefined IPv6Address :=
  if h : prefixLen / 8 < 16 then
    (createMask 8 (prefixLen % 8)).map fun mask =>
      { a with
        s6Addr := a.s6Addr.set (prefixLen / 8) (a.s6Addr[prefixLen / 8] &&& UInt8.ofBitVec mask) h }
  else .error .bounds

/-- `subnetMask`, which does not look at the address. -/
def subnetMask (_ : IPv6Address) (prefixLen : Nat) : Except Undefined IPv6Address :=
  if h : prefixLen / 8 < 16 then
    (createMask 8 (prefixLen % 8)).map fun mask =>
      let s6Addr := (Vector.replicate 16 0).set (prefixLen / 8) (UInt8.ofBitVec (~~~ mask)) h
      ⟨0, setBytes s6Addr (List.range (prefixLen / 8)) 0xff⟩
  else .error .bounds

end IPv6Address

end Sherry
