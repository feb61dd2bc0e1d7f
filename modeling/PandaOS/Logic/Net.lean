import PandaOS.Kernel.Net
import PandaOS.Lib.OnesSum

/-!
# What the parsers read

Each parser of `Kernel/Net` as a function of the bytes of its slice: its reads
are all in bounds, with the one exception of a UDP packet whose length is
shorter than its header. `handleRxFrame` is then split into the frames that
reach `handleUdpPacket` and the others, which leave the sockets alone.
-/

namespace PandaOS.Kernel.Net

open Lib

/-! ## Bytes at an offset -/

def byteAt (data : List Byte) (i : Nat) : Byte := data.getD i 0

def wordAt (data : List Byte) (i : Nat) : U16 := fromBeBytes (byteAt data i) (byteAt data (i + 1))

def arrayAt (n : Nat) (data : List Byte) (lo : Nat) : Vector Byte n :=
  Vector.ofFn fun i => byteAt data (lo + i)

section

variable {data : List Byte} {i lo hi n : Nat}

theorem index_eq (h : i < data.length) : index data i = .ok (byteAt data i) := by
  unfold index byteAt
  rw [List.getD_eq_getElem?_getD, List.getElem?_eq_getElem h]
  rfl

theorem readBe_eq (h : i + 1 < data.length) : readBe data i = .ok (wordAt data i) := by
  unfold readBe
  rw [index_eq (by omega), index_eq h]
  rfl

theorem slice_eq (hle : lo ≤ hi) (h : hi ≤ data.length) :
    slice data lo hi = .ok ((data.take hi).drop lo) := by
  unfold slice
  rw [if_neg (by omega), if_neg (by omega)]

theorem sliceFrom_eq (h : lo ≤ data.length) : sliceFrom data lo = .ok (data.drop lo) := by
  unfold sliceFrom
  rw [if_neg (by omega)]

theorem readArray_eq (h : lo + n ≤ data.length) :
    readArray n data lo = .ok (arrayAt n data lo) := by
  have hlen : ((data.take (lo + n)).drop lo).length = n := by
    rw [List.length_drop, List.length_take]
    omega
  unfold readArray
  rw [slice_eq (by omega) h]
  show copyFromSlice n _ = _
  unfold copyFromSlice
  rw [dif_pos hlen]
  congr 1
  apply Vector.ext
  intro k hk
  have hin : lo + k < data.length := by omega
  simp [arrayAt, byteAt, List.getD_eq_getElem?_getD, List.getElem?_eq_getElem hin]

end

theorem toNat_fromBeBytes (hi lo : Byte) :
    (fromBeBytes hi lo).toNat = hi.toNat * 256 + lo.toNat := by
  unfold fromBeBytes
  rw [BitVec.toNat_append, ← Nat.shiftLeft_add_eq_or_of_lt lo.isLt, Nat.shiftLeft_eq]

/-! ## The checksum -/

theorem addU32_eq {a b : Nat} (h : a + b < 2 ^ 32) : addU32 a b = .ok (a + b) := if_pos h

theorem sumWords_eq : ∀ (xs : List Byte) {sum : Nat}, sum + wordSum xs < 2 ^ 32 →
    sumWords xs sum = .ok (sum + wordSum xs)
  | [], sum, _ => rfl
  | [hi], sum, h => by
    have hword : (fromBeBytes hi 0).toNat = wordSum [hi] :=
      (toNat_fromBeBytes hi 0).trans (Nat.add_zero _)
    rw [sumWords, hword, addU32_eq h]
  | hi :: lo :: rest, sum, h => by
    have hword := toNat_fromBeBytes hi lo
    have hsum : wordSum (hi :: lo :: rest) = (fromBeBytes hi lo).toNat + wordSum rest := by
      rw [hword, wordSum]
    rw [hsum, ← Nat.add_assoc] at h ⊢
    rw [sumWords, addU32_eq (Nat.lt_of_le_of_lt (Nat.le_add_right _ _) h)]
    show sumWords rest _ = _
    exact sumWords_eq rest h

/-- The carries are folded in without overflow. -/
theorem foldCarries_eq {sum : Nat} (h : sum < 2 ^ 32) :
    foldCarries sum = .ok (endAround 65536 sum) := by
  have hlow (n : Nat) : n &&& 0xFFFF = n % 65536 := Nat.and_two_pow_sub_one_eq_mod n 16
  have hhigh (n : Nat) : n >>> 16 = n / 65536 := Nat.shiftRight_eq_div_pow n 16
  induction sum using foldCarries.induct with
  | case1 sum hz =>
    rw [hhigh] at hz
    rw [foldCarries, if_pos (by rwa [hhigh]), endAround_of_lt (by omega)]
  | case2 sum hz hlt ih =>
    rw [foldCarries, if_neg hz, if_pos hlt, ih hlt, hlow, hhigh, endAround_carry (by decide)]
  | case3 sum hz hge =>
    rw [hlow, hhigh] at hge
    omega

/-- The longest slice whose words add up to less than `2 ^ 32` in any case. -/
def maxSummed : Nat := 131072

theorem calculateChecksum_eq {xs : List Byte} (h : xs.length ≤ maxSummed) :
    calculateChecksum xs = .ok (BitVec.ofNat 16 (65535 - endAround 65536 (wordSum xs))) := by
  unfold maxSummed at h
  have hsum := wordSum_le xs
  have hlt := endAround_lt (show 1 < 65536 by decide) (wordSum xs)
  have hfit : wordSum xs < 2 ^ 32 := by omega
  unfold calculateChecksum
  rw [sumWords_eq xs (by omega), Nat.zero_add]
  show (foldCarries (wordSum xs) >>= fun sum => _) = _
  rw [foldCarries_eq hfit]
  show Except.ok (BitVec.ofNat 16 _) = _
  congr 1
  apply BitVec.eq_of_toNat_eq
  simp only [BitVec.toNat_ofNat]
  omega

theorem verifyChecksum_eq {xs : List Byte} (h : xs.length ≤ maxSummed) :
    verifyChecksum xs = .ok (decide (Cancels xs)) := by
  have hlt := endAround_lt (show 1 < 65536 by decide) (wordSum xs)
  unfold verifyChecksum
  rw [calculateChecksum_eq h]
  show Except.ok (decide _) = _
  congr 1
  rw [decide_eq_decide, cancels_iff, ← BitVec.toNat_inj, BitVec.toNat_ofNat]
  show (65535 - endAround 65536 (wordSum xs)) % 65536 = 0 ↔ _
  omega

/-! ## Ethernet -/

/-- The bytes after the Ethernet header. -/
def packetOf (frame : List Byte) : List Byte := frame.drop 14

theorem EthernetFrame.parse_eq (data : List Byte) :
    EthernetFrame.parse data = .ok (if data.length < 14 then none else some
      ⟨arrayAt 6 data 0, arrayAt 6 data 6, EtherType.ofU16 (wordAt data 12), packetOf data⟩) := by
  unfold EthernetFrame.parse minSize
  split
  · rfl
  · rw [readArray_eq (by omega), readArray_eq (by omega), readBe_eq (by omega),
      sliceFrom_eq (by omega)]
    rfl

/-! ## ARP -/

/-- The packet that is parsed. -/
def arpAt (data : List Byte) : ArpPacket where
  hardwareType := wordAt data 0
  protocolType := wordAt data 2
  hardwareLen := byteAt data 4
  protocolLen := byteAt data 5
  operation := ArpOp.ofU16 (wordAt data 6)
  senderMac := arrayAt 6 data 8
  senderIp := arrayAt 4 data 14
  targetMac := arrayAt 6 data 18
  targetIp := arrayAt 4 data 24

theorem ArpPacket.parse_eq (data : List Byte) :
    ArpPacket.parse data = .ok (if data.length < 28 then none else some (arpAt data)) := by
  unfold ArpPacket.parse size
  split
  · rfl
  · rw [readBe_eq (by omega), readBe_eq (by omega), index_eq (by omega), index_eq (by omega),
      readBe_eq (by omega), readArray_eq (by omega), readArray_eq (by omega),
        readArray_eq (by omega),
      readArray_eq (by omega)]
    rfl

/-! ## IPv4 -/

/-- The header length in bytes, from the low half of the first byte. -/
def headerLen (packet : List Byte) : Nat := (byteAt packet 0 &&& 0x0F).toNat * 4

/-- The bytes after the IPv4 header. -/
def segmentOf (packet : List Byte) : List Byte := packet.drop (headerLen packet)

/-- The checks of `IPv4Packet::parse`. -/
structure PassesIpv4 (packet : List Byte) : Prop where
  length : 20 ≤ packet.length
  version : byteAt packet 0 >>> 4 = 4
  header : headerLen packet ≤ packet.length
  checksum : Cancels (packet.take (headerLen packet))

instance (packet : List Byte) : Decidable (PassesIpv4 packet) :=
  decidable_of_iff (20 ≤ packet.length ∧ byteAt packet 0 >>> 4 = 4 ∧
      headerLen packet ≤ packet.length ∧ Cancels (packet.take (headerLen packet)))
    ⟨fun ⟨h1, h2, h3, h4⟩ => ⟨h1, h2, h3, h4⟩, fun ⟨h1, h2, h3, h4⟩ => ⟨h1, h2, h3, h4⟩⟩

theorem headerLen_le (packet : List Byte) : headerLen packet ≤ 60 := by
  have hmask : (byteAt packet 0 &&& 0x0F).toNat = (byteAt packet 0).toNat % 16 := by
    rw [BitVec.toNat_and]
    exact Nat.and_two_pow_sub_one_eq_mod _ 4
  unfold headerLen
  omega

/-- The packet `IPv4Packet::parse` returns. -/
def ipv4At (packet : List Byte) : IPv4Packet where
  version := byteAt packet 0 >>> 4
  ihl := byteAt packet 0 &&& 0x0F
  dscp := byteAt packet 1 >>> 2
  ecn := byteAt packet 1 &&& 0x03
  totalLength := wordAt packet 2
  identification := wordAt packet 4
  flags := (wordAt packet 6 >>> 13).setWidth 8
  fragmentOffset := wordAt packet 6 &&& 0x1FFF
  ttl := byteAt packet 8
  protocol := IPProtocol.ofU8 (byteAt packet 9)
  checksum := wordAt packet 10
  srcIp := arrayAt 4 packet 12
  dstIp := arrayAt 4 packet 16
  payload := segmentOf packet

theorem IPv4Packet.parse_eq (data : List Byte) :
    IPv4Packet.parse data = .ok (if PassesIpv4 data then some (ipv4At data) else none) := by
  unfold IPv4Packet.parse minHeaderSize
  by_cases hlen : data.length < 20
  · rw [if_pos hlen, if_neg fun h => absurd h.length (by omega)]
    rfl
  rw [if_neg hlen, index_eq (by omega)]
  show (if byteAt data 0 >>> 4 ≠ 4 then _ else _) = _
  by_cases hver : byteAt data 0 >>> 4 = 4
  swap
  · rw [if_pos hver, if_neg fun h => hver h.version]
    rfl
  rw [if_neg (by simpa using hver)]
  show (if data.length < headerLen data then _ else _) = _
  by_cases hhdr : data.length < headerLen data
  · rw [if_pos hhdr, if_neg fun h => absurd h.header (by omega)]
    rfl
  have h60 := headerLen_le data
  have hshort : (data.take (headerLen data)).length ≤ maxSummed := by
    rw [List.length_take, maxSummed]
    omega
  rw [if_neg hhdr, index_eq (by omega), readBe_eq (by omega), readBe_eq (by omega),
    readBe_eq (by omega), index_eq (by omega), index_eq (by omega), readBe_eq (by omega),
    readArray_eq (by omega), readArray_eq (by omega)]
  show (slice data 0 (headerLen data) >>= fun header => verifyChecksum header >>= fun ok => _) = _
  rw [slice_eq (Nat.zero_le _) (by omega), List.drop_zero]
  show (verifyChecksum (data.take (headerLen data)) >>= fun ok => _) = _
  rw [verifyChecksum_eq hshort]
  by_cases hsum : Cancels (data.take (headerLen data))
  · rw [decide_eq_true hsum, if_pos ⟨by omega, hver, by omega, hsum⟩]
    show (sliceFrom data (headerLen data) >>= fun payload => _) = _
    rw [sliceFrom_eq (by omega)]
    rfl
  · rw [decide_eq_false hsum, if_neg fun h => hsum h.checksum]
    rfl

/-! ## UDP -/

/-- The length field of a UDP header. -/
def udpLength (segment : List Byte) : Nat := (wordAt segment 4).toNat

/-- The packet `UdpPacket::parse` returns. -/
def udpAt (segment : List Byte) : UdpPacket where
  srcPort := wordAt segment 0
  dstPort := wordAt segment 2
  length := wordAt segment 4
  checksum := wordAt segment 6
  payload := (segment.take (udpLength segment)).drop 8

/-- A slice that is shorter than a UDP header or than its length field. -/
def Truncated (segment : List Byte) : Prop :=
  segment.length < 8 ∨ segment.length < udpLength segment

instance (segment : List Byte) : Decidable (Truncated segment) :=
  inferInstanceAs (Decidable (_ ∨ _))

/-- `UdpPacket::parse` once the two comparisons of lengths are made. -/
theorem UdpPacket.parse_eq (data : List Byte) : UdpPacket.parse data =
    if Truncated data then .ok none
    else if udpLength data < 8 then .error (.panic "slice index starts past its end")
    else .ok (some (udpAt data)) := by
  unfold UdpPacket.parse headerSize
  by_cases hlen : data.length < 8
  · rw [if_pos hlen, if_pos (show Truncated data from Or.inl hlen)]
    rfl
  rw [if_neg hlen, readBe_eq (by omega), readBe_eq (by omega),
    readBe_eq (by omega), readBe_eq (by omega)]
  show (if data.length < udpLength data then _ else slice data 8 (udpLength data) >>= fun p => _) =
      _
  by_cases hudp : data.length < udpLength data
  · rw [if_pos hudp, if_pos (show Truncated data from Or.inr hudp)]
    rfl
  rw [if_neg hudp, if_neg (show ¬Truncated data from not_or.mpr ⟨hlen, hudp⟩)]
  by_cases hshort : udpLength data < 8
  · rw [if_pos hshort, slice, if_pos hshort]
    rfl
  · rw [if_neg hshort, slice_eq (by omega) (by omega)]
    rfl

/-! ## The handlers -/

section

variable {s : NetState} {frame : List Byte}

/-- A parser's result inside a handler. -/
theorem ofExcept_ok {σ α : Type} {a : α} {x : Except Fault α} (h : x = .ok a) :
    (ofExcept x : EStateM Fault σ α) = pure a := by
  rw [h]
  rfl

theorem ofExcept_returns {σ α : Type} {a : α} {x : Except Fault α} (h : x = .ok a) (s : σ) :
    Returns (ofExcept x : EStateM Fault σ α) s a s := by
  rw [ofExcept_ok h]
  rfl

/-- What building an ARP packet leaves in the buffer. -/
theorem ArpPacket.buildFrom_toBytes (p : ArpPacket) : buildFrom p.toBytes =
    .ok (toBeBytes p.hardwareType ++ toBeBytes p.protocolType ++
      [p.hardwareLen] ++ [p.protocolLen] ++
      toBeBytes p.operation.toU16 ++ p.senderMac.toList ++ p.senderIp.toList ++
        p.targetMac.toList ++
      p.targetIp.toList) := rfl

theorem buildFrom_buildEthernetFrame (srcMac dstMac : Mac) (ethertype : EtherType)
    (payload : List Byte) : buildFrom (buildEthernetFrame srcMac dstMac ethertype payload) =
      .ok (dstMac.toList ++ srcMac.toList ++ toBeBytes ethertype.toU16 ++ payload) := rfl

/-- A reply is sent or refused by the driver; nothing else changes. -/
theorem sendArpReply_ends (request : ArpPacket) (config : NetConfig) :
    Ends (sendArpReply request config) s
      (fun _ s' => s'.sockets = s.sockets ∧ s.device = true ∧ s'.sent ≠ s.sent)
      (fun e s' => (∃ msg, e = .err msg) ∧ s' = s ∧ s.device = false) := by
  unfold sendArpReply
  dsimp only
  rw [ofExcept_ok (ArpPacket.buildFrom_toBytes _), pure_bind,
    ofExcept_ok (buildFrom_buildEthernetFrame _ _ _ _), pure_bind]
  unfold sendPacket
  simp only [ends_bind, ends_get]
  cases hdev : s.device with
  | false => exact ⟨⟨_, rfl⟩, rfl, rfl⟩
  | true => exact ⟨rfl, rfl, by simp⟩

/-- The packet asks for the address of this host, which can send an answer. -/
structure Answered (s : NetState) (data : List Byte) : Prop where
  length : 28 ≤ data.length
  ethernet : wordAt data 0 = 1
  ipv4 : wordAt data 2 = 0x0800
  request : wordAt data 6 ≠ 2
  target : ∃ config, s.config = some config ∧ arrayAt 4 data 24 = config.ipAddr
  device : s.device = true

theorem ArpOp.ofU16_eq_request {w : U16} : ArpOp.ofU16 w = .request ↔ w ≠ 2 := by
  unfold ArpOp.ofU16
  by_cases h : w = 2 <;> simp [h]

/-- An ARP packet never stops the handler and never touches a socket. -/
theorem handleArpPacket_ends (data : List Byte) : Ends (handleArpPacket data) s
      (fun _ s' => s'.sockets = s.sockets ∧ (data.length < 28 → s' = s) ∧
        (s'.sent ≠ s.sent ↔ Answered s data))
      fun _ _ => False := by
  unfold handleArpPacket
  rw [ofExcept_ok (ArpPacket.parse_eq data), pure_bind]
  by_cases hlen : data.length < 28
  · rw [if_pos hlen]
    exact ⟨rfl, fun _ => rfl, iff_of_false (fun h => h rfl) fun h => absurd h.length (by omega)⟩
  rw [if_neg hlen]
  dsimp only
  split
  · rename_i hother
    refine ⟨rfl, fun _ => rfl, iff_of_false (fun h => h rfl) fun h => ?_⟩
    exact hother.elim (absurd h.ethernet) (absurd h.ipv4)
  rename_i hether
  have hquiet {s' : NetState} (hsockets : s'.sockets = s.sockets) (hsent : s'.sent = s.sent)
      (hno : ¬Answered s data) :
      s'.sockets = s.sockets ∧ (data.length < 28 → s' = s) ∧ (s'.sent ≠ s.sent ↔ Answered s data) :=
    ⟨hsockets, fun h => absurd h hlen, iff_of_false (fun h => h hsent) hno⟩
  simp only [ends_bind, ends_modify]
  split
  swap
  · rename_i hreply
    exact hquiet rfl rfl fun h => hreply (ArpOp.ofU16_eq_request.mpr h.request)
  rename_i hrequest
  simp only [ends_bind, ends_get]
  cases hconfig : s.config with
  | none =>
    refine hquiet rfl rfl fun h => ?_
    obtain ⟨config, hsome, -⟩ := h.target
    cases hconfig.symm.trans hsome
  | some config =>
    dsimp only
    split
    · -- what the driver refuses is logged and forgotten
      rename_i htarget
      rw [ends_tryCatch]
      refine (sendArpReply_ends _ config).mono ?_ ?_
      · rintro _ s' ⟨hsockets, hdevice, hsent⟩
        obtain ⟨hhardware, hprotocol⟩ := not_or.mp hether
        exact ⟨hsockets, fun h => absurd h hlen,
          iff_of_true hsent ⟨Nat.not_lt.mp hlen, not_not.mp hhardware,
          not_not.mp hprotocol, ArpOp.ofU16_eq_request.mp hrequest,
            ⟨config, hconfig, htarget⟩, hdevice⟩⟩
      · rintro e s' ⟨⟨msg, rfl⟩, rfl, hdevice⟩
        exact hquiet rfl rfl fun h => Bool.noConfusion (hdevice.symm.trans h.device)
    · rename_i htarget
      refine hquiet rfl rfl fun h => ?_
      obtain ⟨config', hsome, hip⟩ := h.target
      obtain rfl := Option.some.inj (hconfig.symm.trans hsome)
      exact htarget hip

/-- The frames that reach `handleUdpPacket`: IPv4 packets that pass the parser's
checks, carry UDP and are sent to the configured address. -/
structure ReachesUdp (s : NetState) (frame : List Byte) : Prop where
  ethernet : 14 ≤ frame.length ∧ wordAt frame 12 = 0x0800
  ipv4 : PassesIpv4 (packetOf frame)
  address : s.config.map (·.ipAddr) = some (arrayAt 4 (packetOf frame) 16)
  protocol : byteAt (packetOf frame) 9 = 17

/-- The UDP header and what follows it. -/
def datagramOf (frame : List Byte) : List Byte := segmentOf (packetOf frame)

/-- The address the packet was sent from. -/
def senderOf (frame : List Byte) : Ip := arrayAt 4 (packetOf frame) 12

theorem EtherType.ofU16_eq_ipv4 {w : U16} : EtherType.ofU16 w = .ipv4 ↔ w = 0x0800 := by
  unfold EtherType.ofU16
  split_ifs <;> simp_all

theorem IPProtocol.ofU8_eq_udp {b : Byte} : IPProtocol.ofU8 b = .udp ↔ b = 17 := by
  unfold IPProtocol.ofU8
  split_ifs <;> simp_all

theorem handleIpv4Packet_run (packet : IPv4Packet) : (handleIpv4Packet packet).run s =
    if s.config.map (·.ipAddr) = some packet.dstIp ∧ packet.protocol = .udp then
      (handleUdpPacket packet.srcIp packet.payload).run s
    else .ok () s := by
  unfold handleIpv4Packet
  simp only [EStateM.run, bind, EStateM.bind, get_apply]
  cases s.config with
  | none => rfl
  | some config =>
    dsimp only [Option.map_some]
    by_cases hip : packet.dstIp = config.ipAddr
    · rw [if_neg (by simpa using hip), hip]
      cases packet.protocol <;> simp [pure, EStateM.pure]
    · rw [if_pos hip, if_neg fun h => hip (Option.some.inj h.1).symm]
      rfl

theorem handleRxFrame_of_reachesUdp (h : ReachesUdp s frame) :
    (handleRxFrame frame).run s = (handleUdpPacket (senderOf frame) (datagramOf frame)).run s := by
  unfold handleRxFrame
  rw [ofExcept_ok (EthernetFrame.parse_eq frame), if_neg (by have := h.ethernet.1; omega),
    pure_bind]
  simp only [EtherType.ofU16_eq_ipv4.mpr h.ethernet.2]
  rw [ofExcept_ok (IPv4Packet.parse_eq _), if_pos h.ipv4, pure_bind]
  show (handleIpv4Packet (ipv4At (packetOf frame))).run s = _
  rw [handleIpv4Packet_run, if_pos ⟨h.address, IPProtocol.ofU8_eq_udp.mpr h.protocol⟩]
  rfl

/-- Every other frame is handled without a panic and leaves the sockets alone. -/
theorem handleRxFrame_ends (h : ¬ReachesUdp s frame) :
    Ends (handleRxFrame frame) s (fun _ s' => s'.sockets = s.sockets) fun _ _ => False := by
  unfold handleRxFrame
  rw [ofExcept_ok (EthernetFrame.parse_eq frame), pure_bind]
  by_cases hlen : frame.length < 14
  · rw [if_pos hlen]
    exact rfl
  rw [if_neg hlen]
  dsimp only
  cases htype : EtherType.ofU16 (wordAt frame 12) with
  | arp => exact (handleArpPacket_ends _).imp fun _ _ h => h.1
  | ipv6 | unknown => exact rfl
  | ipv4 =>
    dsimp only
    rw [ofExcept_ok (IPv4Packet.parse_eq _), pure_bind]
    by_cases hpass : PassesIpv4 (packetOf frame)
    · rw [if_pos hpass]
      have hrun : Returns (handleIpv4Packet (ipv4At (packetOf frame))) s () s := by
        rw [Returns, handleIpv4Packet_run, if_neg]
        intro hreach
        exact h ⟨⟨by omega, EtherType.ofU16_eq_ipv4.mp htype⟩,
          hpass, hreach.1, IPProtocol.ofU8_eq_udp.mp hreach.2⟩
      exact hrun.ends rfl
    · rw [if_neg hpass]
      exact rfl

/-! ### UDP -/

variable {srcIp : Ip} {data : List Byte}

theorem handleUdpPacket_truncated (h : Truncated data) :
    Returns (handleUdpPacket srcIp data) s () s := by
  unfold handleUdpPacket
  rw [UdpPacket.parse_eq, if_pos h]
  rfl

/-- The one panic: a length field that does not cover the header. -/
theorem handleUdpPacket_short (h : ¬Truncated data) (hshort : udpLength data < 8) :
    Throws (handleUdpPacket srcIp data) s (.panic "slice index starts past its end") s := by
  unfold handleUdpPacket
  rw [UdpPacket.parse_eq, if_neg h, if_pos hshort]
  rfl

/-- The sockets after a datagram. -/
def deliver (sockets : U16 → Option UdpSocket) (srcIp : Ip) (packet : UdpPacket) :
    U16 → Option UdpSocket :=
  match sockets packet.dstPort with
  | none => sockets
  | some socket => Function.update sockets packet.dstPort
      (some (socket.enqueue packet.payload srcIp packet.srcPort))

theorem handleUdpPacket_returns (h : ¬Truncated data) (hlong : 8 ≤ udpLength data) :
    Returns (handleUdpPacket srcIp data) s ()
      { s with sockets := deliver s.sockets srcIp (udpAt data) } := by
  unfold handleUdpPacket
  rw [UdpPacket.parse_eq, if_neg h, if_neg (by omega), ofExcept_ok rfl, pure_bind]
  refine (get_returns s).bind ?_
  unfold deliver
  dsimp only
  cases s.sockets (udpAt data).dstPort with
  | none => exact rfl
  | some socket => exact rfl

end

/-! ## The builders -/

theorem fromBeBytes_toBeBytes (w : U16) :
    fromBeBytes ((w >>> 8).setWidth 8) (w.setWidth 8) = w := by
  apply BitVec.eq_of_toNat_eq
  rw [toNat_fromBeBytes, BitVec.toNat_setWidth, BitVec.toNat_setWidth, BitVec.toNat_ushiftRight,
    Nat.shiftRight_eq_div_pow]
  omega

theorem wordSum_toBeBytes (w : U16) : wordSum (toBeBytes w) = w.toNat := by
  rw [toBeBytes, wordSum_pair, ← toNat_fromBeBytes, fromBeBytes_toBeBytes]

/-- A word at an even position is one summand. -/
theorem wordSum_word {pre : List Byte} (hpre : pre.length % 2 = 0) (w : U16) (post : List Byte) :
    wordSum (pre ++ (toBeBytes w ++ post)) = wordSum pre + w.toNat + wordSum post := by
  rw [wordSum_append _ hpre, wordSum_append _ (by simp [toBeBytes]),
    wordSum_toBeBytes, Nat.add_assoc]

section

variable {n : Nat} (pre post : List Byte)

theorem byteAt_append (b : Byte) : byteAt (pre ++ b :: post) pre.length = b := by
  simp [byteAt]

theorem wordAt_append (w : U16) : wordAt (pre ++ (toBeBytes w ++ post)) pre.length = w := by
  have hhi : byteAt (pre ++ (toBeBytes w ++ post)) pre.length = (w >>> 8).setWidth 8 :=
    byteAt_append pre _ _
  have hlo : byteAt (pre ++ (toBeBytes w ++ post)) (pre.length + 1) = w.setWidth 8 := by
    simp [byteAt, toBeBytes]
  rw [wordAt, hhi, hlo, fromBeBytes_toBeBytes]

theorem arrayAt_append (v : Vector Byte n) :
    arrayAt n (pre ++ (v.toList ++ post)) pre.length = v := by
  apply Vector.ext
  intro k hk
  have hk' : k < v.toList.length := by simpa using hk
  have hat : (pre ++ (v.toList ++ post))[pre.length + k]? = some v[k] := by
    rw [List.getElem?_append_right (Nat.le_add_right _ _), Nat.add_sub_cancel_left,
      List.getElem?_append_left hk', List.getElem?_eq_getElem hk']
    simp
  simp [arrayAt, byteAt, List.getD_eq_getElem?_getD, hat]

end

/-- What `build_udp_packet` appends. -/
def udpBytes (srcPort dstPort : U16) (payload : List Byte) : List Byte :=
  toBeBytes srcPort ++ toBeBytes dstPort ++ toBeBytes (BitVec.ofNat 16 (8 + payload.length)) ++
    toBeBytes 0 ++ payload

theorem buildFrom_buildUdpPacket (srcPort dstPort : U16) (payload : List Byte) :
    buildFrom (buildUdpPacket srcPort dstPort payload) =
      if 65535 < 8 + payload.length then .error (.err "Packet too large")
      else .ok (udpBytes srcPort dstPort payload) := by
  unfold buildUdpPacket
  dsimp only
  split
  · rfl
  · rfl

/-- The header `build_ipv4_packet` appends, with its checksum. -/
def ipv4Header (totalLength : U16) (protocol : Byte) (checksum : U16) (srcIp dstIp : Ip) :
    List Byte :=
  [0x45, 0x00] ++ toBeBytes totalLength ++ toBeBytes 0 ++ toBeBytes 0 ++ [64, protocol] ++
    toBeBytes checksum ++ srcIp.toList ++ dstIp.toList

theorem length_ipv4Header {totalLength checksum : U16} {protocol : Byte} {srcIp dstIp : Ip} :
    (ipv4Header totalLength protocol checksum srcIp dstIp).length = 20 := by
  simp [ipv4Header, toBeBytes]

/-- The checksum `build_ipv4_packet` puts into its header. -/
def headerChecksum (totalLength : U16) (protocol : Byte) (srcIp dstIp : Ip) : U16 :=
  BitVec.ofNat 16 (65535 - endAround 65536
    (wordSum (ipv4Header totalLength protocol 0 srcIp dstIp)))

theorem Returns.buildFrom_eq {b : BufM Unit} {buf : List Byte} (h : Returns b [] () buf) :
    buildFrom b = .ok buf := by
  rw [buildFrom, h.run_eq]

/-- The two bytes of the checksum, written one after the other. -/
theorem setChecksum_returns (totalLength : U16) (protocol : Byte) (checksum : U16)
    (srcIp dstIp : Ip) :
    Returns (do
        setByte 10 ((checksum >>> 8).setWidth 8)
        setByte 11 ((checksum &&& 0xFF).setWidth 8))
      (ipv4Header totalLength protocol 0 srcIp dstIp) ()
      (ipv4Header totalLength protocol checksum srcIp dstIp) := by
  have hlow : (checksum &&& 0xFF).setWidth 8 = checksum.setWidth 8 := by
    apply BitVec.eq_of_toNat_eq
    rw [BitVec.toNat_setWidth, BitVec.toNat_setWidth, BitVec.toNat_and]
    show (checksum.toNat &&& 2 ^ 8 - 1) % 2 ^ 8 = _
    rw [Nat.and_two_pow_sub_one_eq_mod, Nat.mod_mod]
  rw [hlow]
  rfl

theorem buildFrom_buildIpv4Packet (srcIp dstIp : Ip) (protocol : IPProtocol) (payload : List Byte) :
    buildFrom (buildIpv4Packet srcIp dstIp protocol payload) =
      if 65535 < 20 + payload.length then .error (.err "Packet too large")
      else
        let length := BitVec.ofNat 16 (20 + payload.length)
        let checksum := headerChecksum length protocol.toU8 srcIp dstIp
        .ok (ipv4Header length protocol.toU8 checksum srcIp dstIp ++ payload) := by
  unfold buildIpv4Packet
  dsimp only
  split
  · rfl
  · apply Returns.buildFrom_eq
    generalize BitVec.ofNat 16 (20 + payload.length) = length
    have hsum : (do calculateChecksum (← sliceFrom (ipv4Header length protocol.toU8 0 srcIp dstIp)
          ((ipv4Header length protocol.toU8 0 srcIp dstIp).length - 20))) =
        .ok (headerChecksum length protocol.toU8 srcIp dstIp) := by
      rw [length_ipv4Header, Nat.sub_self, sliceFrom_eq (Nat.zero_le _), List.drop_zero]
      exact calculateChecksum_eq (by rw [length_ipv4Header]; decide)
    obtain ⟨_, buf, hhigh, hlow⟩ := returns_bind.mp (setChecksum_returns length protocol.toU8
      (headerChecksum length protocol.toU8 srcIp dstIp) srcIp dstIp)
    iterate 7 refine (modify_returns _ _).bind ?_
    refine (get_returns _).bind ?_
    iterate 3 refine (modify_returns _ _).bind ?_
    refine (get_returns _).bind ?_
    -- the buffer is now the header with the checksum zero
    exact (ofExcept_returns hsum (ipv4Header length protocol.toU8 0 srcIp dstIp)).bind
      (hhigh.bind (hlow.bind (modify_returns _ _)))

end PandaOS.Kernel.Net
