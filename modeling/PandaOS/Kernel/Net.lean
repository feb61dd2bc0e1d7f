import PandaOS.Kernel.Paging

/-!
# The network stack

`net/`: Ethernet, ARP, IPv4 and UDP. A parser reads a received slice and
returns `Option`; a read outside the slice panics, so parsers run in
`Except Fault`. A builder appends to a `Vec<u8>`, which is its state. The
handlers run on the state of the whole subsystem: the configuration, the ARP
cache, the UDP sockets and the driver.

`virtio_net::send_packet` is a stub that logs the length of the frame; the
frames handed to it are kept in `sent`.
-/

namespace PandaOS.Kernel.Net

open Lib

/-- `u16`. -/
abbrev U16 := BitVec 16

/-- An IPv4 address, `[u8; 4]`. -/
abbrev Ip := Vector Byte 4

/-- A MAC address, `[u8; 6]`. -/
abbrev Mac := Vector Byte 6

/-! ## Slices -/

section

variable {α : Type}

/-- `xs[i]`. -/
def index (xs : List α) (i : Nat) : Except Fault α :=
  match xs[i]? with
  | some x => .ok x
  | none => .error (.panic "index out of bounds")

/-- `&xs[lo..hi]`. -/
def slice (xs : List α) (lo hi : Nat) : Except Fault (List α) :=
  if hi < lo then .error (.panic "slice index starts past its end")
  else if xs.length < hi then .error (.panic "range end index out of range for slice")
  else .ok ((xs.take hi).drop lo)

/-- `&xs[lo..]`. -/
def sliceFrom (xs : List α) (lo : Nat) : Except Fault (List α) :=
  if xs.length < lo then .error (.panic "range start index out of range for slice")
  else .ok (xs.drop lo)

/-- `copy_from_slice` into an array of `n` elements. -/
def copyFromSlice (n : Nat) (xs : List α) : Except Fault (Vector α n) :=
  if h : xs.length = n then .ok ⟨xs.toArray, by simpa using h⟩
  else .error (.panic "source slice length does not match destination slice length")

end

/-- `u16::from_be_bytes([hi, lo])`. -/
def fromBeBytes (hi lo : Byte) : U16 := hi ++ lo

/-- `u16::to_be_bytes`. -/
def toBeBytes (w : U16) : List Byte := [(w >>> 8).setWidth 8, w.setWidth 8]

/-- `u16::from_be_bytes([data[i], data[i + 1]])`. -/
def readBe (data : List Byte) (i : Nat) : Except Fault U16 := do
  return fromBeBytes (← index data i) (← index data (i + 1))

/-- `copy_from_slice(&data[lo..lo + n])` into an array of `n` bytes. -/
def readArray (n : Nat) (data : List Byte) (lo : Nat) : Except Fault (Vector Byte n) := do
  copyFromSlice n (← slice data lo (lo + n))

/-- Programs that append to a `Vec<u8>`. -/
abbrev BufM := EStateM Fault (List Byte)

/-- `extend_from_slice`; `push` appends one byte. -/
def extend (xs : List Byte) : BufM Unit := modify (· ++ xs)

/-- `buffer[i] = b`. -/
def setByte (i : Nat) (b : Byte) : BufM Unit := do
  if (← get).length ≤ i then throw (.panic "index out of bounds")
  modify (·.set i b)

/-! ## Ethernet -/

/-- `EtherType`. -/
inductive EtherType
  | ipv4
  | arp
  | ipv6
  | unknown
  deriving DecidableEq, Repr

def EtherType.ofU16 (value : U16) : EtherType :=
  if value = 0x0800 then .ipv4
  else if value = 0x0806 then .arp
  else if value = 0x86DD then .ipv6
  else .unknown

def EtherType.toU16 : EtherType → U16
  | .ipv4 => 0x0800
  | .arp => 0x0806
  | .ipv6 => 0x86DD
  | .unknown => 0xFFFF

structure EthernetFrame where
  dstMac : Mac
  srcMac : Mac
  ethertype : EtherType
  payload : List Byte
  deriving DecidableEq, Repr

/-- `EthernetFrame::MIN_SIZE`. -/
def EthernetFrame.minSize : Nat := 14

def EthernetFrame.parse (data : List Byte) : Except Fault (Option EthernetFrame) := do
  if data.length < minSize then return none
  let dstMac ← readArray 6 data 0
  let srcMac ← readArray 6 data 6
  let ethertype := EtherType.ofU16 (← readBe data 12)
  return some { dstMac, srcMac, ethertype, payload := ← sliceFrom data 14 }

def buildEthernetFrame (srcMac dstMac : Mac) (ethertype : EtherType) (payload : List Byte) :
    BufM Unit := do
  extend dstMac.toList
  extend srcMac.toList
  extend (toBeBytes ethertype.toU16)
  extend payload

/-! ## IPv4 -/

/-- `IPProtocol`. -/
inductive IPProtocol
  | icmp
  | tcp
  | udp
  | unknown
  deriving DecidableEq, Repr

def IPProtocol.ofU8 (value : Byte) : IPProtocol :=
  if value = 1 then .icmp
  else if value = 6 then .tcp
  else if value = 17 then .udp
  else .unknown

def IPProtocol.toU8 : IPProtocol → Byte
  | .icmp => 1
  | .tcp => 6
  | .udp => 17
  | .unknown => 0xFF

/-- `sum += word` on `u32`. -/
def addU32 (a b : Nat) : Except Fault Nat :=
  if a + b < 2 ^ 32 then .ok (a + b) else .error (.panic "attempt to add with overflow")

/-- The first loop of `calculate_checksum`: the sum of the 16-bit words, where a
last odd byte is the high byte of a word. -/
def sumWords : List Byte → Nat → Except Fault Nat
  | [], sum => .ok sum
  | [hi], sum => addU32 sum (fromBeBytes hi 0).toNat
  | hi :: lo :: rest, sum => do sumWords rest (← addU32 sum (fromBeBytes hi lo).toNat)

/-- The second loop of `calculate_checksum`. -/
def foldCarries (sum : Nat) : Except Fault Nat :=
  if sum >>> 16 = 0 then .ok sum
  else if (sum &&& 0xFFFF) + (sum >>> 16) < 2 ^ 32 then
    foldCarries ((sum &&& 0xFFFF) + (sum >>> 16))
  else .error (.panic "attempt to add with overflow")
termination_by sum
decreasing_by
  have hlow : sum &&& 0xFFFF = sum % 2 ^ 16 := Nat.and_two_pow_sub_one_eq_mod sum 16
  rw [Nat.shiftRight_eq_div_pow] at *
  omega

def calculateChecksum (header : List Byte) : Except Fault U16 := do
  let sum ← foldCarries (← sumWords header 0)
  return BitVec.ofNat 16 (2 ^ 32 - 1 - sum)

def verifyChecksum (header : List Byte) : Except Fault Bool := do
  return (← calculateChecksum header) = 0

structure IPv4Packet where
  version : Byte
  ihl : Byte
  dscp : Byte
  ecn : Byte
  totalLength : U16
  identification : U16
  flags : Byte
  fragmentOffset : U16
  ttl : Byte
  protocol : IPProtocol
  checksum : U16
  srcIp : Ip
  dstIp : Ip
  payload : List Byte
  deriving DecidableEq, Repr

/-- `IPv4Packet::MIN_HEADER_SIZE`. -/
def IPv4Packet.minHeaderSize : Nat := 20

def IPv4Packet.parse (data : List Byte) : Except Fault (Option IPv4Packet) := do
  if data.length < minHeaderSize then return none
  let versionIhl ← index data 0
  let version := versionIhl >>> 4
  let ihl := versionIhl &&& 0x0F
  if version ≠ 4 then return none
  let headerLen := ihl.toNat * 4
  if data.length < headerLen then return none
  let dscpEcn ← index data 1
  let totalLength ← readBe data 2
  let identification ← readBe data 4
  let flagsFrag ← readBe data 6
  let ttl ← index data 8
  let protocol := IPProtocol.ofU8 (← index data 9)
  let checksum ← readBe data 10
  let srcIp ← readArray 4 data 12
  let dstIp ← readArray 4 data 16
  if !(← verifyChecksum (← slice data 0 headerLen)) then return none
  let payload ← sliceFrom data headerLen
  return some {
    version, ihl, dscp := dscpEcn >>> 2, ecn := dscpEcn &&& 0x03, totalLength, identification,
    flags := (flagsFrag >>> 13).setWidth 8, fragmentOffset := flagsFrag &&& 0x1FFF, ttl, protocol,
    checksum, srcIp, dstIp, payload }

def buildIpv4Packet (srcIp dstIp : Ip) (protocol : IPProtocol) (payload : List Byte) :
    BufM Unit := do
  let totalLength := 20 + payload.length
  if 65535 < totalLength then throw (.err "Packet too large")
  extend [0x45]
  extend [0x00]
  extend (toBeBytes (BitVec.ofNat 16 totalLength))
  extend (toBeBytes 0)
  extend (toBeBytes 0)
  extend [64]
  extend [protocol.toU8]
  let checksumPos := (← get).length
  extend (toBeBytes 0)
  extend srcIp.toList
  extend dstIp.toList
  let buffer ← get
  let checksum ← ofExcept (do calculateChecksum (← sliceFrom buffer (buffer.length - 20)))
  setByte checksumPos ((checksum >>> 8).setWidth 8)
  setByte (checksumPos + 1) ((checksum &&& 0xFF).setWidth 8)
  extend payload

/-! ## UDP -/

structure UdpPacket where
  srcPort : U16
  dstPort : U16
  length : U16
  checksum : U16
  payload : List Byte
  deriving DecidableEq, Repr

/-- `UdpPacket::HEADER_SIZE`. -/
def UdpPacket.headerSize : Nat := 8

def UdpPacket.parse (data : List Byte) : Except Fault (Option UdpPacket) := do
  if data.length < headerSize then return none
  let srcPort ← readBe data 0
  let dstPort ← readBe data 2
  let length ← readBe data 4
  let checksum ← readBe data 6
  if data.length < length.toNat then return none
  return some
    { srcPort, dstPort, length, checksum,
      payload := ← slice data headerSize length.toNat }

def buildUdpPacket (srcPort dstPort : U16) (payload : List Byte) : BufM Unit := do
  let length := 8 + payload.length
  if 65535 < length then throw (.err "Packet too large")
  extend (toBeBytes srcPort)
  extend (toBeBytes dstPort)
  extend (toBeBytes (BitVec.ofNat 16 length))
  extend (toBeBytes 0)
  extend payload

/-- A received datagram: the data, the sender's address and port. -/
abbrev Datagram := List Byte × Ip × U16

structure UdpSocket where
  port : U16
  rxQueue : List Datagram
  deriving DecidableEq, Repr

def UdpSocket.new (port : U16) : UdpSocket := ⟨port, []⟩

/-- The datagrams a socket keeps at most. -/
def maxRxQueue : Nat := 100

def UdpSocket.enqueue (socket : UdpSocket) (data : List Byte) (srcIp : Ip) (srcPort : U16) :
    UdpSocket :=
  if socket.rxQueue.length < maxRxQueue then
    { socket with rxQueue := socket.rxQueue ++ [(data, srcIp, srcPort)] }
  else socket

/-! ## The subsystem -/

/-- `NetConfig`, the fields the receive path reads. -/
structure NetConfig where
  ipAddr : Ip
  macAddr : Mac
  deriving DecidableEq, Repr

/-- The statics of `net/`. -/
structure NetState where
  config : Option NetConfig
  /-- `ARP_CACHE`. -/
  arpCache : Ip → Option Mac
  /-- `UDP_SOCKETS`, by port. -/
  sockets : U16 → Option UdpSocket
  /-- `VIRTIO_NET` is initialised. -/
  device : Bool
  /-- The frames given to `send_packet`, oldest first. -/
  sent : List (List Byte)

abbrev NetM := EStateM Fault NetState

/-- Run a builder on an empty buffer. -/
def buildFrom (b : BufM Unit) : Except Fault (List Byte) :=
  match b.run [] with
  | .ok _ buffer => .ok buffer
  | .error e _ => .error e

def sendPacket (data : List Byte) : NetM Unit := do
  if !(← get).device then throw (.err "Device not initialized")
  modify fun s => { s with sent := s.sent ++ [data] }

/-- `handle_udp_packet`. -/
def handleUdpPacket (srcIp : Ip) (data : List Byte) : NetM Unit := do
  let some packet ← ofExcept (UdpPacket.parse data) | return
  let s ← get
  let some socket := s.sockets packet.dstPort | return
  let socket := socket.enqueue packet.payload srcIp packet.srcPort
  set { s with sockets := Function.update s.sockets packet.dstPort (some socket) }

/-! ## ARP -/

/-- `ArpOp`. -/
inductive ArpOp
  | request
  | reply
  deriving DecidableEq, Repr

/-- Every value but 2 is taken for a request. -/
def ArpOp.ofU16 (value : U16) : ArpOp := if value = 2 then .reply else .request

def ArpOp.toU16 : ArpOp → U16
  | .request => 1
  | .reply => 2

structure ArpPacket where
  hardwareType : U16
  protocolType : U16
  hardwareLen : Byte
  protocolLen : Byte
  operation : ArpOp
  senderMac : Mac
  senderIp : Ip
  targetMac : Mac
  targetIp : Ip
  deriving DecidableEq, Repr

/-- `ArpPacket::SIZE`. -/
def ArpPacket.size : Nat := 28

def ArpPacket.parse (data : List Byte) : Except Fault (Option ArpPacket) := do
  if data.length < size then return none
  let hardwareType ← readBe data 0
  let protocolType ← readBe data 2
  let hardwareLen ← index data 4
  let protocolLen ← index data 5
  let operation := ArpOp.ofU16 (← readBe data 6)
  let senderMac ← readArray 6 data 8
  let senderIp ← readArray 4 data 14
  let targetMac ← readArray 6 data 18
  let targetIp ← readArray 4 data 24
  return some {
    hardwareType, protocolType, hardwareLen, protocolLen, operation, senderMac, senderIp, targetMac,
    targetIp }

def ArpPacket.toBytes (p : ArpPacket) : BufM Unit := do
  extend (toBeBytes p.hardwareType)
  extend (toBeBytes p.protocolType)
  extend [p.hardwareLen]
  extend [p.protocolLen]
  extend (toBeBytes p.operation.toU16)
  extend p.senderMac.toList
  extend p.senderIp.toList
  extend p.targetMac.toList
  extend p.targetIp.toList

def sendArpReply (request : ArpPacket) (config : NetConfig) : NetM Unit := do
  let reply : ArpPacket := {
    hardwareType := 1, protocolType := 0x0800, hardwareLen := 6, protocolLen := 4
    operation := .reply, senderMac := config.macAddr, senderIp := config.ipAddr
    targetMac := request.senderMac, targetIp := request.senderIp }
  let arpBuf ← ofExcept (buildFrom reply.toBytes)
  let frameBuf ← ofExcept
    (buildFrom (buildEthernetFrame config.macAddr request.senderMac .arp arpBuf))
  sendPacket frameBuf

def handleArpPacket (data : List Byte) : NetM Unit := do
  let some packet ← ofExcept (ArpPacket.parse data) | return
  if packet.hardwareType ≠ 1 ∨ packet.protocolType ≠ 0x0800 then return
  modify fun s =>
    { s with arpCache := Function.update s.arpCache packet.senderIp (some packet.senderMac) }
  if packet.operation = .request then
    let some config := (← get).config | return
    if packet.targetIp = config.ipAddr then
      -- an error is logged; a panic is not caught
      tryCatch (sendArpReply packet config) fun
        | .err _ => pure ()
        | .panic msg => throw (.panic msg)

/-! ## Reception -/

def handleIpv4Packet (packet : IPv4Packet) : NetM Unit := do
  let some config := (← get).config | return
  if packet.dstIp ≠ config.ipAddr then return
  match packet.protocol with
  | .udp => handleUdpPacket packet.srcIp packet.payload
  | .icmp | .tcp | .unknown => pure ()

def handleRxFrame (frame : List Byte) : NetM Unit := do
  let some ethFrame ← ofExcept (EthernetFrame.parse frame) | return
  match ethFrame.ethertype with
  | .arp => handleArpPacket ethFrame.payload
  | .ipv4 =>
    let some ipv4Packet ← ofExcept (IPv4Packet.parse ethFrame.payload) | return
    handleIpv4Packet ipv4Packet
  | .ipv6 | .unknown => pure ()

/-! ## Ports -/

/-- `UDP_SOCKETS` and `NEXT_EPHEMERAL_PORT`. -/
structure UdpPorts where
  sockets : U16 → Option UdpSocket
  nextEphemeralPort : U16

namespace UdpPorts

def boot : UdpPorts := ⟨fun _ => none, 49152⟩

def bind (port : U16) : EStateM Fault UdpPorts U16 := do
  let actualPort ← if port = 0 then do
      let allocated := (← get).nextEphemeralPort
      modify fun s =>
        { s with nextEphemeralPort := if allocated = 65535 then 49152 else allocated + 1 }
      pure allocated
    else pure port
  if ((← get).sockets actualPort).isSome then throw (.err "Port already in use")
  modify fun s =>
    { s with sockets := Function.update s.sockets actualPort (some (.new actualPort)) }
  return actualPort

def unbind (s : UdpPorts) (port : U16) : UdpPorts :=
  { s with sockets := Function.update s.sockets port none }

end UdpPorts

end PandaOS.Kernel.Net
