import PandaOS.Logic.Net

/-!
# Receiving frames

Results about `handle_rx_frame`, for every frame, configuration and socket
table: which frames stop the kernel, that what the builders make is received as
it was sent, and what is left unchecked of the frames whose data reaches a
socket. Then the header checksum, and ARP.
-/

namespace PandaOS.Kernel.Net

open Lib

/-! ## Panics -/

/-- A UDP length field that does not cover the UDP header itself. -/
def ShortUdp (datagram : List Byte) : Prop := 8 ≤ datagram.length ∧ udpLength datagram < 8

/-- A frame is handled without a panic unless it is a UDP packet for this host
with a length field below 8. -/
theorem handleRxFrame_returns_iff (s : NetState) (frame : List Byte) :
    (∃ s', Returns (handleRxFrame frame) s () s') ↔
      ¬(ReachesUdp s frame ∧ ShortUdp (datagramOf frame)) := by
  by_cases hudp : ReachesUdp s frame
  swap
  · obtain ⟨_, s', hret, -⟩ := (handleRxFrame_ends hudp).returns
    exact iff_of_true ⟨s', hret⟩ fun h => hudp h.1
  have hrun := handleRxFrame_of_reachesUdp hudp
  by_cases htrunc : Truncated (datagramOf frame)
  · -- the lengths are compared before the slice is taken
    have hret : Returns (handleRxFrame frame) s () s :=
      hrun.trans (handleUdpPacket_truncated htrunc)
    refine iff_of_true ⟨s, hret⟩ fun h => ?_
    obtain ⟨-, hlen, hshort⟩ := h
    rcases htrunc with h | h <;> omega
  · by_cases hshort : udpLength (datagramOf frame) < 8
    · have hthrow : Throws (handleRxFrame frame) s _ s :=
        hrun.trans (handleUdpPacket_short htrunc hshort)
      refine iff_of_false (fun ⟨s', hret⟩ => not_returns_of_throws hthrow hret) ?_
      exact not_not.mpr ⟨hudp, by rw [Truncated] at htrunc; omega, hshort⟩
    · have hret := hrun.trans (handleUdpPacket_returns htrunc (by omega))
      exact iff_of_true ⟨_, hret⟩ fun h => hshort h.2.2

/-- The state after `net::init` under QEMU, with the sockets given. -/
def qemuState (sockets : U16 → Option UdpSocket) : NetState where
  config := some ⟨#v[10, 0, 2, 15], #v[0x52, 0x54, 0x00, 0x12, 0x34, 0x56]⟩
  arpCache := fun _ => none
  sockets := sockets
  device := true
  sent := []

/-- An Ethernet header for QEMU's host. -/
def qemuHeader : List Byte :=
  [0x52, 0x54, 0x00, 0x12, 0x34, 0x56, 0x52, 0x55, 0x0a, 0x00, 0x02, 0x02, 0x08, 0x00]

/-- An IPv4 packet from the gateway whose UDP header gives the length 0. -/
def emptyUdp : List Byte :=
  [0x45, 0x00, 0x00, 0x1c, 0x00, 0x00, 0x00, 0x00, 0x40, 0x11, 0x62, 0xc1,
    10, 0, 2, 2, 10, 0, 2, 15, 0x00, 0x35, 0x00, 0x35, 0x00, 0x00, 0x00, 0x00]

/-- A packet of 28 bytes from the network stops the kernel. -/
theorem handleRxFrame_panics :
    thrown (handleRxFrame (qemuHeader ++ emptyUdp)) (qemuState fun _ => none) =
      some (.panic "slice index starts past its end") := by
  decide +kernel

/-! ## What was sent is received -/

section

variable {totalLength checksum srcPort dstPort : U16} {protocol : Byte} {srcIp dstIp : Ip}
  {payload rest : List Byte}

/-- The words of a header with its checksum add up to `0xFFFF`. -/
theorem ipv4Header_cancels (totalLength : U16) (protocol : Byte) (srcIp dstIp : Ip) :
    Cancels (ipv4Header totalLength protocol (headerChecksum totalLength protocol srcIp dstIp)
      srcIp dstIp) := by
  -- the sum is linear in the checksum, and positive because of the first byte
  have hsum : ∀ c : U16, wordSum (ipv4Header totalLength protocol c srcIp dstIp) =
      wordSum (ipv4Header totalLength protocol 0 srcIp dstIp) + c.toNat := by
    intro c
    have hsplit : ∀ c : U16, ipv4Header totalLength protocol c srcIp dstIp =
        ([0x45, 0x00] ++ toBeBytes totalLength ++ toBeBytes 0 ++ toBeBytes 0 ++ [64, protocol]) ++
          (toBeBytes c ++ (srcIp.toList ++ dstIp.toList)) := by
      intro c
      simp [ipv4Header]
    have heven : ([0x45, 0x00] ++ toBeBytes totalLength ++ toBeBytes 0 ++ toBeBytes 0 ++
        [64, protocol]).length % 2 = 0 := by simp [toBeBytes]
    rw [hsplit c, hsplit 0, wordSum_word heven, wordSum_word heven]
    show _ = _ + 0 + _ + _
    omega
  have hpos : wordSum (ipv4Header totalLength protocol 0 srcIp dstIp) ≠ 0 := by
    show 0x45 * 256 + 0 + _ ≠ 0
    omega
  have htoNat : (headerChecksum totalLength protocol srcIp dstIp).toNat =
      65535 - endAround 65536 (wordSum (ipv4Header totalLength protocol 0 srcIp dstIp)) := by
    rw [headerChecksum, BitVec.toNat_ofNat]
    omega
  rw [Cancels, hsum, htoNat]
  exact endAround_complement hpos

theorem byteAt_ipv4Header :
    byteAt (ipv4Header totalLength protocol checksum srcIp dstIp ++ rest) 0 = 0x45 := rfl

theorem headerLen_ipv4Header :
    headerLen (ipv4Header totalLength protocol checksum srcIp dstIp ++ rest) = 20 := by
  rw [headerLen, byteAt_ipv4Header]
  rfl

theorem passesIpv4_ipv4Header
    (hsum : Cancels (ipv4Header totalLength protocol checksum srcIp dstIp)) :
    PassesIpv4 (ipv4Header totalLength protocol checksum srcIp dstIp ++ rest) where
  length := by
    rw [List.length_append, length_ipv4Header]
    omega
  version := by
    rw [byteAt_ipv4Header]
    rfl
  header := by
    rw [headerLen_ipv4Header, List.length_append, length_ipv4Header]
    omega
  checksum := by
    rwa [headerLen_ipv4Header, List.take_left' length_ipv4Header]

theorem segmentOf_ipv4Header :
    segmentOf (ipv4Header totalLength protocol checksum srcIp dstIp ++ rest) = rest := by
  rw [segmentOf, headerLen_ipv4Header]
  exact List.drop_left' length_ipv4Header

theorem protocol_ipv4Header :
    byteAt (ipv4Header totalLength protocol checksum srcIp dstIp ++ rest) 9 = protocol := rfl

theorem srcIp_ipv4Header :
    arrayAt 4 (ipv4Header totalLength protocol checksum srcIp dstIp ++ rest) 12 = srcIp := by
  have h := arrayAt_append ([0x45, 0x00] ++ toBeBytes totalLength ++ toBeBytes 0 ++ toBeBytes 0 ++
    [64, protocol] ++ toBeBytes checksum) (dstIp.toList ++ rest) srcIp
  simpa [ipv4Header, toBeBytes] using h

theorem dstIp_ipv4Header :
    arrayAt 4 (ipv4Header totalLength protocol checksum srcIp dstIp ++ rest) 16 = dstIp := by
  have h := arrayAt_append ([0x45, 0x00] ++ toBeBytes totalLength ++ toBeBytes 0 ++ toBeBytes 0 ++
    [64, protocol] ++ toBeBytes checksum ++ srcIp.toList) rest dstIp
  simpa [ipv4Header, toBeBytes] using h

theorem udpAt_udpBytes (srcPort dstPort : U16) (hlen : 8 + payload.length ≤ 65535) :
    ¬Truncated (udpBytes srcPort dstPort payload) ∧ 8 ≤ udpLength
      (udpBytes srcPort dstPort payload) ∧ udpAt (udpBytes srcPort dstPort payload) =
        ⟨srcPort, dstPort, BitVec.ofNat 16 (8 + payload.length), 0, payload⟩ := by
  have hword : ∀ (pre : List Byte) (w : U16) (post : List Byte),
      udpBytes srcPort dstPort payload = pre ++ (toBeBytes w ++ post) →
        wordAt (udpBytes srcPort dstPort payload) pre.length = w := by
    intro pre w post h
    rw [h, wordAt_append]
  have hudp : wordAt (udpBytes srcPort dstPort payload) 4 = BitVec.ofNat 16 (8 + payload.length) :=
    hword (toBeBytes srcPort ++ toBeBytes dstPort) _ (toBeBytes 0 ++ payload) (by simp [udpBytes])
  have hfield : udpLength (udpBytes srcPort dstPort payload) = 8 + payload.length := by
    rw [udpLength, hudp, BitVec.toNat_ofNat]
    omega
  have htotal : (udpBytes srcPort dstPort payload).length = 8 + payload.length := by
    simp [udpBytes, toBeBytes]
    omega
  refine ⟨?_, by omega, ?_⟩
  · rw [Truncated]
    omega
  · have hsrc := hword [] srcPort _ (by simp [udpBytes]; rfl)
    have hdst := hword (toBeBytes srcPort) dstPort _ (by simp [udpBytes]; rfl)
    have hsum := hword (toBeBytes srcPort ++ toBeBytes dstPort ++
      toBeBytes (BitVec.ofNat 16 (8 + payload.length))) 0 payload (by simp [udpBytes])
    have hdata : ((udpBytes srcPort dstPort payload).take (8 + payload.length)).drop 8 =
        payload := by
      rw [← htotal, List.take_length]
      rfl
    rw [udpAt, hfield, hdata]
    congr

theorem packetOf_append (dstMac srcMac : Mac) (ethertype : U16) (packet : List Byte) :
    packetOf (dstMac.toList ++ srcMac.toList ++ toBeBytes ethertype ++ packet) = packet := by
  apply List.drop_left'
  simp [toBeBytes]

/-- A socket with one more datagram in its queue. -/
def UdpSocket.push (socket : UdpSocket) (d : Datagram) : UdpSocket :=
  { socket with rxQueue := socket.rxQueue ++ [d] }

/-- The state with one socket replaced. -/
def NetState.setSocket (s : NetState) (port : U16) (socket : UdpSocket) : NetState :=
  { s with sockets := Function.update s.sockets port (some socket) }

/-- A datagram that the builders made for the configured address is appended to
the queue of the socket on its port; nothing else changes. -/
theorem handleRxFrame_of_sent (srcPort dstPort : U16) (srcIp : Ip) (srcMac dstMac : Mac)
    (payload : List Byte) {udp packet frame : List Byte} {s : NetState} {config : NetConfig}
    {socket : UdpSocket}
    (hudp : buildFrom (buildUdpPacket srcPort dstPort payload) = .ok udp)
    (hpacket : buildFrom (buildIpv4Packet srcIp config.ipAddr .udp udp) = .ok packet)
    (hframe : buildFrom (buildEthernetFrame srcMac dstMac .ipv4 packet) = .ok frame)
    (hconfig : s.config = some config) (hsocket : s.sockets dstPort = some socket)
    (hroom : socket.rxQueue.length < 100) :
    Returns (handleRxFrame frame) s ()
      (s.setSocket dstPort (socket.push (payload, srcIp, srcPort))) := by
  rw [buildFrom_buildUdpPacket] at hudp
  split at hudp
  · cases hudp
  rename_i hfits
  obtain rfl := Except.ok.inj hudp
  rw [buildFrom_buildIpv4Packet] at hpacket
  split at hpacket
  · cases hpacket
  obtain rfl := Except.ok.inj hpacket
  rw [buildFrom_buildEthernetFrame] at hframe
  have hF := Except.ok.inj hframe
  generalize BitVec.ofNat 16 (20 + (udpBytes srcPort dstPort payload).length) = totalLength at hF
  obtain ⟨htrunc, hlong, hread⟩ :=
    udpAt_udpBytes srcPort dstPort (show 8 + payload.length ≤ 65535 by omega)
  have hsum := ipv4Header_cancels totalLength IPProtocol.udp.toU8 srcIp config.ipAddr
  generalize headerChecksum totalLength IPProtocol.udp.toU8 srcIp config.ipAddr = checksum at *
  -- the frame passes every check, and its parts are the ones that were put in
  have hpacket := packetOf_append dstMac srcMac EtherType.ipv4.toU16
    (ipv4Header totalLength IPProtocol.udp.toU8 checksum srcIp config.ipAddr ++
      udpBytes srcPort dstPort payload)
  rw [hF] at hpacket
  have hreach : ReachesUdp s frame := {
    ethernet := by
      rw [← hF]
      refine ⟨by simp [toBeBytes]; omega, ?_⟩
      have h := wordAt_append (dstMac.toList ++ srcMac.toList)
        (ipv4Header totalLength IPProtocol.udp.toU8 checksum srcIp config.ipAddr ++
          udpBytes srcPort dstPort payload) EtherType.ipv4.toU16
      simpa [EtherType.toU16] using h
    ipv4 := by
      rw [hpacket]
      exact passesIpv4_ipv4Header hsum
    address := by
      rw [hpacket, dstIp_ipv4Header, hconfig]
      rfl
    protocol := by
      rw [hpacket, protocol_ipv4Header]
      rfl }
  have hsender : senderOf frame = srcIp := by rw [senderOf, hpacket, srcIp_ipv4Header]
  have hdatagram : datagramOf frame = udpBytes srcPort dstPort payload := by
    rw [datagramOf, hpacket, segmentOf_ipv4Header]
  have hrun := (handleRxFrame_of_reachesUdp hreach).trans
    (handleUdpPacket_returns (hdatagram ▸ htrunc) (hdatagram ▸ hlong))
  rw [hdatagram, hsender, hread, deliver] at hrun
  simp only [hsocket, UdpSocket.enqueue, if_pos (show _ < maxRxQueue from hroom)] at hrun
  exact hrun

/-- A datagram of two bytes from the gateway to port 53 of an otherwise empty
host. -/
theorem handleRxFrame_of_sent_qemu : Returns (handleRxFrame (qemuHeader ++
      [0x45, 0x00, 0x00, 0x1e, 0x00, 0x00, 0x00, 0x00, 0x40, 0x11,
        0x62, 0xbf, 10, 0, 2, 2, 10, 0, 2, 15, 0x04, 0xd2, 0x00,
          0x35, 0x00, 0x0a, 0x00, 0x00, 7, 8]))
      (qemuState (Function.update (fun _ => none) 53 (some (UdpSocket.new 53)))) ()
      ((qemuState (Function.update (fun _ => none) 53 (some (UdpSocket.new 53)))).setSocket 53
        ((UdpSocket.new 53).push ([7, 8], #v[10, 0, 2, 2], 1234))) :=
  handleRxFrame_of_sent 1234 53 #v[10, 0, 2, 2] #v[0x52, 0x55, 0x0a, 0x00, 0x02, 0x02]
    #v[0x52, 0x54, 0x00, 0x12, 0x34, 0x56] [7, 8] rfl (by decide +kernel) rfl rfl rfl (by decide)

end

/-! ## What is checked -/

/-- The total length field of an IPv4 packet. -/
def totalLengthOf (packet : List Byte) : Nat := (wordAt packet 2).toNat

/-- The pseudo header that a UDP checksum covers: the addresses, the protocol
number and the UDP length. -/
def pseudoHeader (packet : List Byte) : List Byte :=
  (packet.drop 12).take 8 ++ [0, 17] ++ toBeBytes (wordAt (segmentOf packet) 4)

/-- What `handle_rx_frame` does not look at. -/
structure Unchecked (packet : List Byte) : Prop where
  ihl : 20 ≤ headerLen packet
  total_fits : totalLengthOf packet ≤ packet.length
  /-- More fragments and the fragment offset, the low 14 bits, are zero. -/
  not_fragment : (wordAt packet 6).toNat % 2 ^ 14 = 0
  udp_within : headerLen packet + udpLength (segmentOf packet) ≤ totalLengthOf packet
  udp_checksum : wordAt (segmentOf packet) 6 = 0 ∨
    Cancels (pseudoHeader packet ++ (segmentOf packet).take (udpLength (segmentOf packet)))

/-- A frame with a well-formed IPv4 header and a well-formed UDP header. -/
structure WellFormed (frame : List Byte) : Prop extends Unchecked (packetOf frame) where
  ethernet : 14 ≤ frame.length ∧ wordAt frame 12 = 0x0800
  ipv4 : PassesIpv4 (packetOf frame)
  protocol : byteAt (packetOf frame) 9 = 17
  udp_length : 8 ≤ udpLength (datagramOf frame)

/-- The bytes after the UDP header, as many as the UDP length says. -/
def payloadOf (frame : List Byte) : List Byte :=
  ((datagramOf frame).drop 8).take (udpLength (datagramOf frame) - 8)

/-- Handling the frame changes a socket only by appending the payload of a
well-formed frame to its queue. -/
def OnlyWellFormed (s : NetState) (frame : List Byte) : Prop :=
  ∀ s', Returns (handleRxFrame frame) s () s' → ∀ port, s'.sockets port = s.sockets port ∨
    WellFormed frame ∧ ∃ socket srcIp srcPort, s.sockets port = some socket ∧
      s'.sockets port = some (socket.push (payloadOf frame, srcIp, srcPort))

/-- The frames whose data is put into a queue. -/
structure Enqueues (s : NetState) (frame : List Byte) : Prop where
  reaches : ReachesUdp s frame
  complete : ¬Truncated (datagramOf frame)
  udp_length : 8 ≤ udpLength (datagramOf frame)
  room : ∃ socket, s.sockets (wordAt (datagramOf frame) 2) = some socket ∧
    socket.rxQueue.length < maxRxQueue

variable {frame : List Byte} {s : NetState}

theorem Enqueues.returns (h : Enqueues s frame) :
    ∃ socket, s.sockets (wordAt (datagramOf frame) 2) = some socket ∧
      Returns (handleRxFrame frame) s () (s.setSocket (wordAt (datagramOf frame) 2)
        (socket.push (payloadOf frame, senderOf frame, wordAt (datagramOf frame) 0))) := by
  obtain ⟨socket, hsocket, hroom⟩ := h.room
  have hpayload : (udpAt (datagramOf frame)).payload = payloadOf frame := List.drop_take
  have hrun := (handleRxFrame_of_reachesUdp h.reaches).trans
    (handleUdpPacket_returns h.complete h.udp_length)
  have hdst : (udpAt (datagramOf frame)).dstPort = wordAt (datagramOf frame) 2 := rfl
  rw [deliver, hdst, hsocket, hpayload] at hrun
  simp only [UdpSocket.enqueue, if_pos hroom] at hrun
  exact ⟨socket, hsocket, hrun⟩

/-- Every other frame that is handled leaves the sockets as they are. -/
theorem sockets_of_not_enqueues {s' : NetState} (h : ¬Enqueues s frame)
    (hrun : Returns (handleRxFrame frame) s () s') : s'.sockets = s.sockets := by
  by_cases hudp : ReachesUdp s frame
  swap
  · exact hrun.of_ends (handleRxFrame_ends hudp)
  have hudprun : Returns (handleUdpPacket (senderOf frame) (datagramOf frame)) s () s' :=
    (handleRxFrame_of_reachesUdp hudp).symm.trans hrun
  by_cases htrunc : Truncated (datagramOf frame)
  · rw [(hudprun.unique (handleUdpPacket_truncated htrunc)).2]
  by_cases hshort : udpLength (datagramOf frame) < 8
  · exact absurd hudprun (not_returns_of_throws (handleUdpPacket_short htrunc hshort))
  rw [(hudprun.unique (handleUdpPacket_returns htrunc (by omega))).2]
  show deliver s.sockets _ _ = _
  unfold deliver
  have hdst : (udpAt (datagramOf frame)).dstPort = wordAt (datagramOf frame) 2 := rfl
  cases hsocket : s.sockets (udpAt (datagramOf frame)).dstPort with
  | none => rfl
  | some socket =>
    -- a socket without room keeps what it has
    have hfull : ¬socket.rxQueue.length < maxRxQueue := fun hroom =>
      h ⟨hudp, htrunc, by omega, socket, hdst ▸ hsocket, hroom⟩
    dsimp only
    rw [UdpSocket.enqueue, if_neg hfull]
    exact Function.update_eq_self_iff.mpr hsocket.symm

theorem Enqueues.unchecked (h : Enqueues s frame)
    (hvalid : OnlyWellFormed s frame) : Unchecked (packetOf frame) := by
  obtain ⟨socket, hsocket, hrun⟩ := h.returns
  rcases hvalid _ hrun (wordAt (datagramOf frame) 2) with hsame | ⟨hwell, -⟩
  · -- the queue is one longer than before
    rw [hsocket] at hsame
    have hqueue := congrArg (Option.map fun k : UdpSocket => k.rxQueue.length) hsame
    simp [NetState.setSocket, UdpSocket.push] at hqueue
  · exact hwell.toUnchecked

/-- Exactly the frames for which the data of `Unchecked` happens to be right are
validated. -/
theorem onlyWellFormed_iff (s : NetState) (frame : List Byte) :
    OnlyWellFormed s frame ↔ (Enqueues s frame → Unchecked (packetOf frame)) := by
  constructor
  · intro hvalid henq
    exact henq.unchecked hvalid
  · intro hchecked s' hrun port
    by_cases henq : Enqueues s frame
    swap
    · exact .inl (congrFun (sockets_of_not_enqueues henq hrun) port)
    obtain ⟨socket, hsocket, hret⟩ := henq.returns
    obtain ⟨-, rfl⟩ := hrun.unique hret
    by_cases hport : port = wordAt (datagramOf frame) 2
    · subst hport
      refine .inr ⟨?_, socket, _, _, hsocket, Function.update_self ..⟩
      exact { toUnchecked := hchecked henq
              ethernet := henq.reaches.ethernet
              ipv4 := henq.reaches.ipv4
              protocol := henq.reaches.protocol
              udp_length := henq.udp_length }
    · exact .inl (Function.update_of_ne hport ..)

/-- The last fragment of a larger datagram, whose first bytes look like a UDP
header. -/
def lastFragment : List Byte :=
  [0x45, 0x00, 0x00, 0x1e, 0x00, 0x00, 0x00, 0xb9, 0x40, 0x11, 0x62, 0x06,
    10, 0, 2, 2, 10, 0, 2, 15, 0x04, 0xd2, 0x00, 0x35, 0x00, 0x0a, 0x00, 0x00, 7, 8]

/-- The middle of somebody's datagram is delivered to port 53. -/
theorem fragment_enqueued :
    ¬OnlyWellFormed (qemuState (Function.update (fun _ => none) 53 (some (UdpSocket.new 53))))
      (qemuHeader ++ lastFragment) := by
  intro hvalid
  have henq : Enqueues (qemuState (Function.update (fun _ => none) 53 (some (UdpSocket.new 53))))
      (qemuHeader ++ lastFragment) :=
    ⟨⟨by decide, by decide, by decide, by decide⟩, by decide, by decide,
      UdpSocket.new 53, by decide,
      by decide⟩
  exact absurd (henq.unchecked hvalid).not_fragment (by decide)

/-! ## Corrupted headers -/

/-- In the header of an accepted packet, a word that is replaced is noticed, unless one
form of zero takes the place of the other. -/
theorem verifyChecksum_replaced {header : List Byte} (hlen : header.length ≤ 60) :
    (∃ sum folded, sumWords header 0 = .ok sum ∧ foldCarries sum = .ok folded) ∧
      (verifyChecksum header = .ok true → ∀ (front rest : List Byte) (old new : U16),
        header = front ++ (toBeBytes old ++ rest) → front.length % 2 = 0 → new ≠ old →
          ¬(old = 0 ∧ new = 0xFFFF) → ¬(old = 0xFFFF ∧ new = 0) →
            verifyChecksum (front ++ (toBeBytes new ++ rest)) = .ok false) := by
  have hsum := wordSum_le header
  refine ⟨⟨_, _, sumWords_eq header (by omega), foldCarries_eq (by omega)⟩, ?_⟩
  rintro haccepts front rest old new rfl heven hne hup hdown
  have hlen' : (front ++ (toBeBytes new ++ rest)).length ≤ 60 := by simpa [toBeBytes] using hlen
  rw [verifyChecksum_eq (by unfold maxSummed; omega)] at haccepts ⊢
  simp only [Except.ok.injEq, decide_eq_true_eq, decide_eq_false_iff_not] at haccepts ⊢
  unfold Cancels at haccepts ⊢
  rw [wordSum_word heven] at haccepts ⊢
  -- both sums would be multiples of 65535, and they differ by less
  simp only [← BitVec.toNat_inj, ne_eq, show (0 : U16).toNat = 0 from rfl,
    show (0xFFFF : U16).toNat = 65535 from rfl] at hne hup hdown
  have hold := old.isLt
  have hnew := new.isLt
  omega

theorem verifyChecksum_replaced_version :
    verifyChecksum (toBeBytes 0x4600 ++ (emptyUdp.take 20).drop 2) = .ok false :=
  (verifyChecksum_replaced (show (emptyUdp.take 20).length ≤ 60 by decide)).2
    ((verifyChecksum_eq (by decide)).trans (congrArg _ (by decide)))
      [] _ 0x4500 0x4600 rfl rfl (by decide)
    (by decide) (by decide)

/-! ## ARP -/

section

variable {data : List Byte}

theorem take_eq_map {n : Nat} (h : n ≤ data.length) :
    data.take n = (List.range n).map (byteAt data) := by
  apply List.ext_getElem
  · simp [h]
  · intro k _ hk
    have hin : k < data.length := by
      rw [List.length_map, List.length_range] at hk
      omega
    simp [byteAt, List.getD_eq_getElem?_getD, List.getElem?_eq_getElem hin]

theorem toBeBytes_fromBeBytes (hi lo : Byte) : toBeBytes (fromBeBytes hi lo) = [hi, lo] := by
  have hword := toNat_fromBeBytes hi lo
  have hlow := lo.isLt
  refine List.cons_eq_cons.mpr ⟨?_, List.cons_eq_cons.mpr ⟨?_, rfl⟩⟩
  · apply BitVec.eq_of_toNat_eq
    rw [BitVec.toNat_setWidth, BitVec.toNat_ushiftRight, hword, Nat.shiftRight_eq_div_pow]
    omega
  · apply BitVec.eq_of_toNat_eq
    rw [BitVec.toNat_setWidth, hword]
    omega

theorem ArpOp.toU16_ofU16 {w : U16} : (ArpOp.ofU16 w).toU16 = w ↔ w = 1 ∨ w = 2 := by
  unfold ArpOp.ofU16
  split
  · simp [*, ArpOp.toU16]
  · simp_all [ArpOp.toU16, eq_comm]

theorem toBytes_arpAt (h : 28 ≤ data.length) : buildFrom (arpAt data).toBytes = .ok (data.take 28) ↔
      wordAt data 6 = 1 ∨ wordAt data 6 = 2 := by
  rw [ArpPacket.buildFrom_toBytes, ← ArpOp.toU16_ofU16, take_eq_map h]
  constructor
  · intro hsame
    have hword := congrArg (wordAt · 6) (Except.ok.inj hsame)
    exact (fromBeBytes_toBeBytes _).symm.trans hword
  · intro hop
    dsimp only [arpAt]
    simp only [hop]
    simp only [wordAt, toBeBytes_fromBeBytes, arrayAt, Vector.toList_ofFn]
    rfl

/-- A request for the address of this host, as the protocol has it. -/
structure WellFormedRequest (s : NetState) (data : List Byte) : Prop where
  ethernet : wordAt data 0 = 1
  ipv4 : wordAt data 2 = 0x0800
  lengths : byteAt data 4 = 6 ∧ byteAt data 5 = 4
  request : wordAt data 6 = 1
  target : ∃ config, s.config = some config ∧ arrayAt 4 data 24 = config.ipAddr

/-- Packets are read without loss, answered if they are requests, and remembered if they
are requests or replies. -/
structure ArpSound (s : NetState) (data : List Byte) : Prop where
  lossless : 28 ≤ data.length →
    ∃ packet, ArpPacket.parse data = .ok (some packet) ∧
      buildFrom packet.toBytes = .ok (data.take 28)
  replies : ∀ s', Returns (handleArpPacket data) s () s' → s'.sent ≠ s.sent →
    WellFormedRequest s data
  caches : ∀ s', Returns (handleArpPacket data) s () s' → s'.arpCache ≠ s.arpCache →
    wordAt data 6 = 1 ∨ wordAt data 6 = 2

/-- Any operation but 2 counts as a request, and the address lengths are not looked at. -/
theorem arpSound_iff (s : NetState) (data : List Byte) :
    ArpSound s data ↔ (28 ≤ data.length → wordAt data 6 = 1 ∨ wordAt data 6 = 2) ∧
      (Answered s data → byteAt data 4 = 6 ∧ byteAt data 5 = 4) := by
  have hparse (hlen : 28 ≤ data.length) : ArpPacket.parse data = .ok (some (arpAt data)) := by
    rw [ArpPacket.parse_eq, if_neg (Nat.not_lt.mpr hlen)]
  constructor
  · intro h
    refine ⟨fun hlen => ?_, fun hanswered => ?_⟩
    · obtain ⟨packet, hpacket, hbytes⟩ := h.lossless hlen
      obtain rfl := Option.some.inj (Except.ok.inj ((hparse hlen).symm.trans hpacket))
      exact (toBytes_arpAt hlen).mp hbytes
    · obtain ⟨_, s', hrun, -, -, hsent⟩ := (handleArpPacket_ends data).returns
      exact (h.replies s' hrun (hsent.mpr hanswered)).lengths
  · rintro ⟨hop, hlengths⟩
    have hends {s' : NetState} (hrun : Returns (handleArpPacket data) s () s') :=
      hrun.of_ends (handleArpPacket_ends (s := s) data)
    refine ⟨fun hlen => ⟨_, hparse hlen, (toBytes_arpAt hlen).mpr (hop hlen)⟩,
      fun s' hrun hsent => ?_, fun s' hrun hcache => ?_⟩
    · have hanswered := (hends hrun).2.2.mp hsent
      exact ⟨hanswered.ethernet, hanswered.ipv4, hlengths hanswered,
        (hop hanswered.length).resolve_right hanswered.request, hanswered.target⟩
    · refine hop (Nat.not_lt.mp fun hshort => hcache ?_)
      rw [(hends hrun).2.1 hshort]

end

/-- A packet with the operation 3, for QEMU's host. -/
def strangeArp : List Byte :=
  [0x00, 0x01, 0x08, 0x00, 6, 4, 0x00, 0x03, 0x52, 0x55, 0x0a, 0x00, 0x02, 0x02, 10, 0, 2, 2,
    0, 0, 0, 0, 0, 0, 10, 0, 2, 15]

/-- It is answered. -/
theorem strangeArp_answered : ¬ArpSound (qemuState fun _ => none) strangeArp := by
  intro h
  have hanswered : Answered (qemuState fun _ => none) strangeArp :=
    ⟨by decide, by decide, by decide, by decide, ⟨_, rfl, by decide⟩, rfl⟩
  obtain ⟨_, s', hrun, -, -, hsent⟩ := (handleArpPacket_ends strangeArp).returns
  exact absurd (h.replies s' hrun (hsent.mpr hanswered)).request (by decide)

end PandaOS.Kernel.Net
