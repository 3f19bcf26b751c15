import ExscapeOS.Kernel.Net.Checksum
import ExscapeOS.Kernel.Net.Receive

/-!
# Frames that stop the kernel

A frame is copied from the receive ring whether it wraps around or not (`copyPacket_stored`). The
interrupt handler panics at a VLAN tag, and asserts that the checksum of an IPv4 header is right, of
which it takes the first twenty bytes (`rxHandler_eq`). The ARP handler asserts the lengths and the
operation. The ICMP handler answers whatever begins with the type of an echo request, and asserts
that the address for the reply is known. `receive_safe_iff` puts this together.
-/
namespace ExscapeOS.Net

open Lib List Option

variable {env : Env} {card : Card} {frame : Frame} {data : Bytes}

/-! ## The receive ring -/

lemma Card.rxOffset_lt (card : Card) : card.rxOffset + 3 < rxBufferSize := by
  unfold Card.rxOffset rxBufferSize
  omega

lemma length_record : (card.record frame).length = frame.bytes.length + 4 + card.crc.length := by
  simp [Card.record, putLe16]
  omega

variable {i : Nat}

lemma stored_eq (card : Card) (frame : Frame) (le : i < frame.bytes.length + 4) :
    some (card.stored frame ((card.rxOffset + i) % rxBufferSize)) = (card.record frame)[i]? := by
  have max := frame.max
  have offset := card.rxOffset_lt
  exact put_eq _ (Nat.mod_eq_of_lt (by omega)).symm (by rw [length_record]; omega)
    (by unfold rxBufferSize; omega)

/-- The copy is the header and the frame, also if it wraps around. -/
lemma copyPacket_stored : copyPacket (card.stored frame) card.rxOffset (frame.bytes.length + 4) =
    (card.record frame).take (frame.bytes.length + 4) := by
  have max := frame.max
  have offset := card.rxOffset_lt
  exact copyPacket_eq_take (by omega) (by unfold rxBufferSize; omega) fun i => stored_eq card frame

/-- The checksum of an IPv4 packet is right for the first twenty bytes. -/
def HeaderSound (packet : Bytes) : Prop :=
  be16 packet 10 + onesSum ((clearChecksum packet).take ipv4HeaderSize) = maxWord

instance (packet : Bytes) : Decidable (HeaderSound packet) := inferInstanceAs (Decidable (_ = _))

/-- The type field of a frame. -/
def Frame.ethertype (frame : Frame) : Nat := be16 frame.bytes 12

def Frame.payload (frame : Frame) : Bytes := frame.bytes.drop 14

lemma Frame.length_payload (frame : Frame) : frame.payload.length = frame.bytes.length - 14 :=
  length_drop

variable {n : Nat}

lemma byte_append_right {header bytes : Bytes} (length : header.length = n) (i : Nat) :
    byte (header ++ bytes) (i + n) = byte bytes i := by
  rw [byte, byte, getD_eq_getElem?_getD, getElem?_append_right (by omega), length,
    Nat.add_sub_cancel, getD_eq_getElem?_getD]

lemma byte_clearChecksum {packet : Bytes} (low : i < 10) :
    byte (clearChecksum packet) i = byte packet i := by
  unfold byte clearChecksum
  rw [getD_eq_getElem?_getD, getD_eq_getElem?_getD, getElem?_set_ne (by omega),
    getElem?_set_ne (by omega)]

lemma processFrame_eq {header bytes : Bytes} (length : header.length = 4)
    (min : 60 ≤ bytes.length) : processFrame (header ++ bytes) (bytes.length + 4) =
    if be16 bytes 12 = 0x8100 then none
    else if be16 bytes 12 = ethertypeArp then
      some (some (.arp, (bytes.drop 14).take (bytes.length - 18)))
    else if be16 bytes 12 = ethertypeIpv4 then
      if HeaderSound (bytes.drop 14) then
        some (if byte (bytes.drop 14) 9 = protoIcmp then some (.icmp, clearChecksum (bytes.drop 14))
          else none)
      else none
    else some none := by
  have ethertype : be16 (header ++ bytes) 16 = be16 bytes 12 := by
    rw [be16, be16, byte_append_right length, byte_append_right length]
  have data : (header ++ bytes).drop 18 = bytes.drop 14 := by
    rw [drop_append, drop_eq_nil_of_le (by omega), length, nil_append]
  simp only [processFrame, ethertype, data]
  refine if_congr Iff.rfl rfl (if_congr Iff.rfl ?_ (if_congr Iff.rfl ?_ rfl))
  · have rest : bytes.length + 4 - 8 - 14 = bytes.length - 18 := by omega
    have some : 0 < ((bytes.drop 14).take (bytes.length - 18)).length := by
      rw [length_take, length_drop]
      omega
    rw [rest]
    simp only [kassert, if_pos some]
    rfl
  · have whole : bytes.length + 4 - 18 = (clearChecksum (bytes.drop 14)).length := by
      simp only [clearChecksum, length_set, length_drop]
      omega
    have nonempty : 0 < (clearChecksum (bytes.drop 14)).length := by omega
    have header : ((clearChecksum (bytes.drop 14)).take ipv4HeaderSize).length = 20 := by
      rw [length_take, ipv4HeaderSize]
      omega
    rw [whole, take_length, byte_clearChecksum (by decide),
      internetChecksum_even (by omega) (by omega)]
    by_cases sound : HeaderSound (bytes.drop 14)
    · have check := (checksum_eq_iff _ _ _).mpr sound
      simp [kassert, nonempty, sound, check]
    · have check := mt (checksum_eq_iff _ _ _).mp sound
      simp [kassert, sound, check]

lemma rxHandler_eq : rxHandler (card.stored frame) card.rxOffset =
    if frame.ethertype = 0x8100 then none
    else if frame.ethertype = ethertypeArp then
      some (some (.arp, frame.payload.take (frame.bytes.length - 18)))
    else if frame.ethertype = ethertypeIpv4 then
      if HeaderSound frame.payload then
        some (if byte frame.payload 9 = protoIcmp then some (.icmp, clearChecksum frame.payload)
          else none)
      else none
    else some none := by
  have min := frame.min
  have max := frame.max
  have offset := card.rxOffset_lt
  have low := stored_eq card frame (i := 2) (by omega)
  have high := stored_eq card frame (i := 3) (by omega)
  rw [Nat.mod_eq_of_lt (by omega)] at low high
  simp only [Card.record, putLe16, cons_append, nil_append, getElem?_cons_succ,
    getElem?_cons_zero, some.injEq] at low high
  have packetLength : (card.stored frame (card.rxOffset + 2)).toNat +
      256 * (card.stored frame (card.rxOffset + 3)).toNat = frame.bytes.length + 4 := by
    rw [low, high]
    simp
    omega
  have copy : (card.record frame).take (frame.bytes.length + 4) =
      putLe16 card.status ++ putLe16 (frame.bytes.length + 4) ++ frame.bytes := by
    rw [Card.record, take_append_of_le_length (by simp [putLe16]), take_of_length_le]
    simp [putLe16]
  have ok : frame.bytes.length + 4 ≤ 2048 := by omega
  rw [rxHandler, packetLength, copyPacket_stored, copy]
  simp only [kassert, if_pos ok]
  exact processFrame_eq rfl min

/-! ## Sending -/

/-- A frame on the wire: short ones are padded with zeros. -/
def wireFrame (env : Env) (dstMac : Bytes) (ethertype : Nat) (payload : Bytes) : Bytes :=
  dstMac ++ env.mac ++ putBe16 ethertype ++ payload ++ List.replicate (60 - (14 + payload.length)) 0

variable {payload : Bytes}

lemma sendFrame_eq {dstMac : Bytes} {ethertype : Nat} (type : 0x0600 ≤ ethertype)
    (nonempty : 0 < payload.length) (fits : payload.length ≤ 1500) :
    sendFrame env dstMac ethertype payload =
      if env.txReady then some (wireFrame env dstMac ethertype payload) else none := by
  have small : 14 + payload.length < 4096 := by omega
  cases ready : env.txReady <;> simp [sendFrame, kassert, type, nonempty, fits, small,
    ready, wireFrame]

/-- The next hop is in the cache, or the answer comes in time. -/
def Env.Resolves (env : Env) (ip : Bytes) : Prop :=
  (arpCacheLookup ip env.ticks env.cache).1 ≠ none ∨
    ∃ mac, awaitAnswer ip env.ticks env.polls = some mac ∧ mac ≠ broadcastMac

variable {ip : Bytes}

lemma length_arpRequestPacket (env : Env) (length : ip.length = 4) :
    (arpRequestPacket env ip).length = arpHeaderSize := by
  simp [arpRequestPacket, putBe16, ipAddress, env.macLength, length, arpHeaderSize]

lemma arpLookup_iff (length : ip.length = 4) (ready : env.txReady = true) :
    (∃ mac sent, arpLookup env ip = some (some mac, sent)) ↔ env.Resolves ip := by
  have size := length_arpRequestPacket env length
  have request : sendFrame env broadcastMac ethertypeArp (arpRequestPacket env ip) =
      some (wireFrame env broadcastMac ethertypeArp (arpRequestPacket env ip)) := by
    rw [sendFrame_eq (by decide) (by rw [size]; decide) (by rw [size]; decide), if_pos ready]
  unfold arpLookup Env.Resolves
  cases cached : (arpCacheLookup ip env.ticks env.cache).1 with
  | some mac => simp
  | none =>
    rw [request]
    cases answer : awaitAnswer ip env.ticks env.polls with
    | none => simp
    | some mac =>
      by_cases broadcast : mac = broadcastMac <;> simp [broadcast]

lemma setChecksum_isSome (long : 2 ≤ data.length) :
    (setChecksum i data).isSome = true := by
  have long' : 2 ≤ ((data.set i 0).set (i + 1) 0).length := by simpa using long
  obtain ⟨x, -, eq⟩ := internetChecksum_eq long'
  simp [setChecksum, eq]

lemma length_setChecksum {data' : Bytes} (h : setChecksum i data = some data') :
    data'.length = data.length := by
  obtain ⟨c, -, eq⟩ := bind_eq_some_iff.mp h
  rw [← some.inj eq]
  simp

lemma length_nextHop (length : ip.length = 4) : (nextHop ip).length = 4 := by
  unfold nextHop
  split_ifs
  · exact length
  · rfl

lemma length_ipv4Header (env : Env) (length : ip.length = 4)
    (protocol payloadSize : Nat) :
    (ipv4Header env ip protocol payloadSize).length = ipv4HeaderSize := by
  simp [ipv4Header, putBe16, ipAddress, env.flagsLength, length, ipv4HeaderSize]

lemma sendIpv4Packet_eq_some {protocol : Nat} {sent : List Bytes}
    (length : ip.length = 4) (fits : payload.length ≤ 1480) :
    sendIpv4Packet env ip protocol payload = some sent ↔
      env.txReady = true ∧ ∃ header mac requests,
        setChecksum 10 (ipv4Header env ip protocol payload.length) = some header ∧
        arpLookup env (nextHop ip) = some (some mac, requests) ∧
        sent = requests ++ [wireFrame env mac ethertypeIpv4 (header ++ payload)] := by
  have small : payload.length ≤ 1500 - ipv4HeaderSize := fits
  have frame {header : Bytes}
      (built : setChecksum 10 (ipv4Header env ip protocol payload.length) = some header)
      (mac : Bytes) : sendFrame env mac ethertypeIpv4 (header ++ payload) =
        if env.txReady then some (wireFrame env mac ethertypeIpv4 (header ++ payload))
          else none := by
    have size : header.length = 20 :=
      (length_setChecksum built).trans (length_ipv4Header env length protocol payload.length)
    refine sendFrame_eq (by decide) ?_ ?_
    · simp [size]
    · simp [size]
      omega
  simp only [sendIpv4Packet, bind, pure, bind_eq_some_iff, kassert_eq_some, exists_const,
    Prod.exists, some.injEq]
  constructor
  · rintro ⟨-, header, built, answer, requests, lookup, mac, rfl, bytes, sending, rfl⟩
    rw [frame built] at sending
    obtain ⟨ready, eq⟩ := ite_none_right_eq_some.mp sending
    exact ⟨ready, header, mac, requests, built, lookup, by rw [← some.inj eq]⟩
  · rintro ⟨ready, header, mac, requests, built, lookup, rfl⟩
    refine ⟨small, header, built, some mac, requests, lookup, mac, rfl, _, ?_, rfl⟩
    rw [frame built, if_pos ready]

lemma sendIpv4Packet_isSome (env : Env) (protocol : Nat)
    (length : ip.length = 4) (fits : payload.length ≤ 1480) :
    (sendIpv4Packet env ip protocol payload).isSome = true ↔
      env.txReady = true ∧ env.Resolves (nextHop ip) := by
  have size := length_ipv4Header env length protocol payload.length
  obtain ⟨header, built⟩ := isSome_iff_exists.mp
    (setChecksum_isSome (show 2 ≤ _ by rw [size]; decide))
  simp only [isSome_iff_exists, sendIpv4Packet_eq_some length fits]
  constructor
  · rintro ⟨_, ready, _, mac, requests, -, lookup, -⟩
    exact ⟨ready, (arpLookup_iff (length_nextHop length) ready).mp ⟨mac, requests, lookup⟩⟩
  · rintro ⟨ready, resolves⟩
    obtain ⟨mac, requests, lookup⟩ := (arpLookup_iff (length_nextHop length) ready).mpr resolves
    exact ⟨_, ready, header, mac, requests, built, lookup, rfl⟩

/-! ## The handlers -/

lemma byte_take (lt : i < n) : byte (data.take n) i = byte data i := by
  rw [byte, byte, getD_eq_getElem?_getD, getD_eq_getElem?_getD, getElem?_take_of_lt lt]

lemma be16_take (lt : i + 1 < n) : be16 (data.take n) i = be16 data i := by
  rw [be16, be16, byte_take lt, byte_take (by omega)]

lemma field_take {m : Nat} (le : i + m ≤ n) : field (data.take n) i m = field data i m := by
  refine map_congr_left fun j mem => ?_
  have lt := mem_range.mp mem
  rw [getD_eq_getElem?_getD, getD_eq_getElem?_getD, getElem?_take_of_lt (by omega)]

/-- A handler returns, and drops a packet that is not supported. -/
def Safe (env : Env) (supported : Prop) (result : Option Outcome) : Prop :=
  ∃ outcome, result = some outcome ∧ (¬ supported → outcome = { cache := env.cache, sent := [] })

lemma not_safe_none (env : Env) (supported : Prop) : ¬ Safe env supported none := nofun

lemma safe_iff_isSome {supported : Prop} (h : supported) {result : Option Outcome} :
    Safe env supported result ↔ result.isSome = true := by
  rw [isSome_iff_exists]
  exact exists_congr fun outcome => and_iff_left (absurd h)

lemma safe_dropped (env : Env) (supported : Prop) :
    Safe env supported (some { cache := env.cache, sent := [] }) := ⟨_, rfl, fun _ => rfl⟩

/-- An ARP packet about Ethernet and IPv4. -/
def IsArpIpv4 (packet : Bytes) : Prop := be16 packet 0 = 1 ∧ be16 packet 2 = 0x0800

/-- The address lengths are right, and the operation is known. -/
def ArpSound (packet : Bytes) : Prop :=
  byte packet 4 = 6 ∧ byte packet 5 = 4 ∧ (be16 packet 6 = arpRequest ∨ be16 packet 6 = arpReply)

/-- The packet asks for the address of this host. -/
def ArpForMe (packet : Bytes) : Prop := be16 packet 6 = arpRequest ∧ field packet 24 4 = ipAddress

lemma sendArpReply_isSome (env : Env) (data : Bytes) :
    (sendArpReply env data).isSome = env.txReady := by
  have size : (field data 0 6 ++ putBe16 arpReply ++ env.mac ++ field data 24 4 ++ field data 8 6 ++
      field data 14 4).length = 28 := by
    simp [env.macLength, putBe16]
  rw [sendArpReply, sendFrame_eq (by decide) (by rw [size]; decide) (by rw [size]; decide)]
  cases env.txReady <;> rfl

lemma arpHandlePacket_safe (env : Env) (long : arpHeaderSize ≤ data.length) :
    Safe env (IsArpIpv4 data ∧ ArpSound data) (arpHandlePacket env data) ↔
      (IsArpIpv4 data → ArpSound data ∧ (ArpForMe data → env.txReady = true)) := by
  by_cases ipv4 : IsArpIpv4 data
  swap
  · have other : be16 data 0 ≠ 1 ∨ be16 data 2 ≠ 0x0800 := not_and_or.mp ipv4
    have drops : arpHandlePacket env data = some { cache := env.cache, sent := [] } := by
      simp only [arpHandlePacket, kassert, long, if_true, if_pos other]
      rfl
    exact iff_of_true (drops ▸ safe_dropped env _) fun h => absurd h ipv4
  have known : ¬ (be16 data 0 ≠ 1 ∨ be16 data 2 ≠ 0x0800) :=
    not_or.mpr ⟨not_not.mpr ipv4.1, not_not.mpr ipv4.2⟩
  by_cases sound : ArpSound data
  swap
  · refine iff_of_false ?_ fun h => sound (h ipv4).1
    rintro ⟨outcome, result, -⟩
    simp only [arpHandlePacket, if_neg known, bind, bind_eq_some_iff, kassert_eq_some,
      exists_const] at result
    obtain ⟨-, hlen, plen, operation, -⟩ := result
    exact sound ⟨hlen, plen, operation⟩
  rw [safe_iff_isSome ⟨ipv4, sound⟩]
  have reply := sendArpReply_isSome env data
  obtain ⟨hlen, plen, operation⟩ := sound
  simp only [arpHandlePacket, if_neg known, kassert, long, hlen, plen, operation, if_true]
  have distinct : arpRequest ≠ arpReply := by decide
  by_cases answer : be16 data 6 = arpReply
  · simp [ArpForMe, ArpSound, hlen, plen, answer, distinct.symm]
  · have request := operation.resolve_right answer
    by_cases mine : field data 24 4 = ipAddress
    · cases sent : sendArpReply env data <;>
        simp_all [ArpForMe, ArpSound]
    · simp [ArpForMe, ArpSound, hlen, plen, request, mine, distinct]

/-- The byte at which the handler expects the type of the ICMP message. -/
def IsEchoRequest (env : Env) (packet : Bytes) : Prop :=
  byte (bufferOf env packet) (4 * (byte packet 0 % 16)) = icmpEchoRequest

lemma byte_drop (i j : Nat) : byte (data.drop i) j = byte data (i + j) := by
  rw [byte, byte, getD_eq_getElem?_getD, getD_eq_getElem?_getD, getElem?_drop]

lemma length_bufferOf (fits : data.length ≤ 1500) : (bufferOf env data).length = 1544 := by
  simp only [bufferOf, length_append, length_drop, env.bufferLength, putLe16,
    length_cons, length_nil]
  omega

lemma handleIcmp_safe (env : Env) (supported : Prop) (min : 46 ≤ data.length)
    (max : data.length ≤ 1500) :
    Safe env supported (handleIcmp env data) ↔ (IsEchoRequest env data →
      supported ∧ env.txReady = true ∧ env.Resolves (nextHop (field data 12 4))) := by
  have length : sub32 data.length ipv4HeaderSize = data.length - 20 :=
    sub32_eq (by unfold wordSize; omega) (by unfold ipv4HeaderSize; omega)
  have address : (field data 12 4).length = 4 := length_field data 12 4
  have copied : ((((bufferOf env data).drop (4 * (byte data 0 % 16))).take (data.length - 20)).set
      0 0).length = data.length - 20 := by
    rw [length_set, length_take, length_drop, length_bufferOf max]
    omega
  obtain ⟨buf, built⟩ := isSome_iff_exists.mp
    (setChecksum_isSome (i := 2) (show 2 ≤ _ by rw [copied]; omega))
  have size : buf.length ≤ 1480 := by
    have := (length_setChecksum built).trans copied
    omega
  unfold handleIcmp IsEchoRequest
  simp only [length, byte_drop, Nat.add_zero, built]
  by_cases echo : byte (bufferOf env data) (4 * (byte data 0 % 16)) = icmpEchoRequest
  · rw [if_pos echo, ← sendIpv4Packet_isSome env protoIcmp address size]
    cases sent : sendIpv4Packet env (field data 12 4) protoIcmp buf with
    | none =>
      exact iff_of_false (by simpa [sent] using not_safe_none env supported) (by simp [echo])
    | some frames =>
      -- a packet that is answered is not dropped
      obtain ⟨-, header, mac, requests, -, -, rfl⟩ := (sendIpv4Packet_eq_some address size).mp sent
      simp only [echo, isSome_some, and_true, forall_const]
      refine ⟨fun ⟨outcome, eq, drops⟩ => ?_, fun h => (safe_iff_isSome h).mpr (by simp [sent])⟩
      by_contra unsupported
      simp [sent, drops unsupported] at eq
  · rw [if_neg echo]
    exact iff_of_true (safe_dropped env supported) fun h => absurd h echo

/-! ## Frames -/

/-- Clearing the checksum changes nothing that the handler looks at. -/
lemma isEchoRequest_clearChecksum (min : 12 ≤ data.length) :
    IsEchoRequest env (clearChecksum data) ↔ IsEchoRequest env data := by
  have length : (clearChecksum data).length = data.length := by simp [clearChecksum]
  have buffer : bufferOf env (clearChecksum data) = clearChecksum (bufferOf env data) := by
    unfold bufferOf
    rw [length]
    simp only [clearChecksum, append_assoc]
    rw [set_append_left _ _ (by omega), set_append_left _ _ (by simpa using by omega)]
  have other (i : Nat) : byte (clearChecksum (bufferOf env data)) (4 * i) =
      byte (bufferOf env data) (4 * i) := by
    unfold byte clearChecksum
    rw [getD_eq_getElem?_getD, getD_eq_getElem?_getD, getElem?_set_ne (by omega),
      getElem?_set_ne (by omega)]
  unfold IsEchoRequest
  rw [byte_clearChecksum (by decide), buffer, other]

lemma field_clearChecksum (n : Nat) : field (clearChecksum data) 12 n = field data 12 n := by
  refine map_congr_left fun j _ => ?_
  unfold clearChecksum
  rw [getD_eq_getElem?_getD, getD_eq_getElem?_getD, getElem?_set_ne (by omega),
    getElem?_set_ne (by omega)]

def headerLength (packet : Bytes) : Nat := 4 * (byte packet 0 % 16)

def totalLength (packet : Bytes) : Nat := be16 packet 2

/-- What an IPv4 packet carries, without the padding of the frame. -/
def message (packet : Bytes) : Bytes :=
  (packet.drop (headerLength packet)).take (totalLength packet - headerLength packet)

/-- A well-formed ICMP echo request in an IPv4 packet that is not a fragment. -/
structure EchoRequest (packet : Bytes) : Prop where
  version : byte packet 0 / 16 = 4
  header : 20 ≤ headerLength packet
  total : totalLength packet ≤ packet.length
  unfragmented : byte packet 6 % 64 = 0 ∧ byte packet 7 = 0
  protocol : byte packet 9 = protoIcmp
  checksum : be16 packet 10 + onesSum ((clearChecksum packet).take (headerLength packet)) = maxWord
  long : headerLength packet + 8 ≤ totalLength packet
  type : byte (message packet) 0 = icmpEchoRequest
  code : byte (message packet) 1 = 0
  verifies : Verifies (message packet)

/-- The frames for which there is code. -/
def Supported (frame : Frame) : Prop :=
  frame.ethertype = ethertypeArp ∧ IsArpIpv4 frame.payload ∧ ArpSound frame.payload ∨
    frame.ethertype = ethertypeIpv4 ∧ EchoRequest frame.payload

/-- The frame has no VLAN tag. An ARP packet about Ethernet and IPv4 has the right lengths and a
known operation. The checksum of an IPv4 packet is right for the header without options; a packet
that is treated as an echo request is one, and the reply can be sent. -/
structure Harmless (env : Env) (frame : Frame) : Prop where
  untagged : frame.ethertype ≠ 0x8100
  arp : frame.ethertype = ethertypeArp → env.free = true → IsArpIpv4 frame.payload →
    ArpSound frame.payload ∧ (ArpForMe frame.payload → env.txReady = true)
  header : frame.ethertype = ethertypeIpv4 → HeaderSound frame.payload
  icmp : frame.ethertype = ethertypeIpv4 → env.free = true → byte frame.payload 9 = protoIcmp →
    IsEchoRequest env frame.payload → EchoRequest frame.payload ∧ env.txReady = true ∧
      env.Resolves (nextHop (field frame.payload 12 4))

lemma arp_take (data : Bytes) (long : 28 ≤ n) :
    (IsArpIpv4 (data.take n) ↔ IsArpIpv4 data) ∧ (ArpSound (data.take n) ↔ ArpSound data) ∧
      (ArpForMe (data.take n) ↔ ArpForMe data) := by
  unfold IsArpIpv4 ArpSound ArpForMe
  rw [be16_take (by omega), be16_take (by omega), byte_take (by omega), byte_take (by omega),
    be16_take (by omega), field_take (by omega)]
  exact ⟨Iff.rfl, Iff.rfl, Iff.rfl⟩

/-- Receiving a frame is safe exactly if it is harmless: otherwise it stops the kernel, or a
malformed request is answered. -/
theorem receive_safe_iff (env : Env) (card : Card) (frame : Frame) :
    Safe env (Supported frame) (receive env card frame) ↔ Harmless env frame := by
  have min := frame.min
  have max := frame.max
  have payload := frame.length_payload
  have drops : Safe env (Supported frame) (some { cache := env.cache, sent := [] }) :=
    safe_dropped env _
  unfold receive
  rw [rxHandler_eq]
  by_cases tagged : frame.ethertype = 0x8100
  · rw [if_pos tagged]
    exact iff_of_false (not_safe_none env _) fun harmless => harmless.untagged tagged
  rw [if_neg tagged]
  by_cases arp : frame.ethertype = ethertypeArp
  · have other : frame.ethertype ≠ ethertypeIpv4 := by rw [arp]; decide
    rw [if_pos arp]
    have rest : Harmless env frame ↔ (env.free = true → IsArpIpv4 frame.payload →
        ArpSound frame.payload ∧ (ArpForMe frame.payload → env.txReady = true)) :=
      ⟨fun harmless => harmless.arp arp,
        fun h => ⟨tagged, fun _ => h, fun h => absurd h other, fun h => absurd h other⟩⟩
    rw [rest]
    cases free : env.free
    · simpa [free] using drops
    · obtain ⟨isIpv4, sound, forMe⟩ :=
        arp_take frame.payload (show 28 ≤ frame.bytes.length - 18 by omega)
      have supported : Supported frame ↔ IsArpIpv4 frame.payload ∧ ArpSound frame.payload :=
        ⟨fun h => (h.resolve_right fun v4 => other v4.1).2, fun h => .inl ⟨arp, h⟩⟩
      have long : arpHeaderSize ≤ (frame.payload.take (frame.bytes.length - 18)).length := by
        rw [length_take, payload, arpHeaderSize]
        omega
      have handled := arpHandlePacket_safe env long
      rw [isIpv4, sound, forMe, ← supported] at handled
      simp only [forall_true_left]
      exact handled
  rw [if_neg arp]
  by_cases ipv4 : frame.ethertype = ethertypeIpv4
  · rw [if_pos ipv4]
    by_cases sound : HeaderSound frame.payload
    swap
    · rw [if_neg sound]
      exact iff_of_false (not_safe_none env _) fun harmless => sound (harmless.header ipv4)
    rw [if_pos sound]
    have rest : Harmless env frame ↔ (env.free = true → byte frame.payload 9 = protoIcmp →
        IsEchoRequest env frame.payload → EchoRequest frame.payload ∧ env.txReady = true ∧
          env.Resolves (nextHop (field frame.payload 12 4))) :=
      ⟨fun harmless => harmless.icmp ipv4,
        fun h => ⟨tagged, fun h => absurd h arp, fun _ => sound, fun _ => h⟩⟩
    rw [rest]
    by_cases icmp : byte frame.payload 9 = protoIcmp
    swap
    · simpa [icmp] using drops
    rw [if_pos icmp]
    cases free : env.free
    · simpa [free] using drops
    · have length : (clearChecksum frame.payload).length = frame.bytes.length - 14 := by
        rw [← payload]
        simp [clearChecksum]
      have handled := handleIcmp_safe env (Supported frame)
        (show 46 ≤ (clearChecksum frame.payload).length by omega) (by omega)
      rw [isEchoRequest_clearChecksum (by omega), field_clearChecksum] at handled
      have supported : Supported frame ↔ EchoRequest frame.payload :=
        ⟨fun h => (h.resolve_left fun a => arp a.1).2, fun h => .inr ⟨ipv4, h⟩⟩
      simp only [icmp, forall_true_left]
      rw [← supported]
      exact handled
  rw [if_neg ipv4]
  exact iff_of_true drops ⟨tagged, fun h => absurd h arp, fun h => absurd h ipv4, fun h =>
    absurd h ipv4⟩

/-- An idle machine with an empty ARP cache. -/
def idleEnv : Env where
  mac := [2, 0, 0, 0, 0, 1]
  macLength := rfl
  ticks := 0
  cache := []
  polls := []
  txReady := true
  free := true
  buffer := List.replicate 1536 0
  bufferLength := List.length_replicate
  flags := [0, 0]
  flagsLength := rfl

def idleCard : Card where
  ring _ := 0
  rxSlot := 0
  status := 1
  crc := [0, 0, 0, 0]

/-- A frame of the least size with the given type, padded with zeros. -/
def shortFrame (ethertype : Nat) (payload : Bytes) (fits : payload.length ≤ 46) : Frame where
  bytes := List.replicate 12 0 ++ putBe16 ethertype ++ payload ++
    List.replicate (46 - payload.length) 0
  min := by
    simp [putBe16]
    omega
  max := by
    simp [putBe16]
    omega

/-- A VLAN tag, a wrong IPv4 header checksum, and an ARP packet with addresses of five bytes stop
the kernel. -/
theorem frames_stop_kernel :
    (receive idleEnv idleCard (shortFrame 0x8100 [] (by decide))).isSome = false ∧
    (receive idleEnv idleCard (shortFrame ethertypeIpv4 [0x45] (by decide))).isSome = false ∧
    (receive idleEnv idleCard
      (shortFrame ethertypeArp [0, 1, 8, 0, 5, 4, 0, 1] (by decide))).isSome = false := by
  decide +kernel

end ExscapeOS.Net
