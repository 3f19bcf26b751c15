import ExscapeOS.Lib.OnesComplement
import ExscapeOS.Lib.Word

/-!
# From a frame to its answer

The interrupt handler of the network card copies a frame from the receive ring and looks at its type
(`rtl8139.c`); a handler task then treats it as an ARP or ICMP packet (`arp.c`, `ipicmp.c`) and may
send frames. A function returns `none` if an assertion fails or the kernel panics.

The environment `Env` holds what a single frame does not determine: the ARP cache, the answers that
come while `arp_lookup` waits, whether a transmit descriptor and a buffer are free, and the contents
of memory that is read without having been set.
-/
namespace ExscapeOS.Net

open Lib

abbrev Bytes : Type := List UInt8

def byte (data : Bytes) (i : Nat) : Nat := (data.getD i 0).toNat

/-- A field in network order, as `BSWAP16` gives it. -/
def be16 (data : Bytes) (i : Nat) : Nat := 256 * byte data i + byte data (i + 1)

/-- A field as the processor loads it. -/
def le16 (data : Bytes) (i : Nat) : Nat := byte data i + 256 * byte data (i + 1)

/-- A field of `n` bytes. -/
def field (data : Bytes) (i n : Nat) : Bytes := (List.range n).map fun j => data.getD (i + j) 0

@[simp] lemma length_field (data : Bytes) (i n : Nat) : (field data i n).length = n := by
  simp [field]

def putBe16 (x : Nat) : Bytes := [UInt8.ofNat (x / 256), UInt8.ofNat x]

def putLe16 (x : Nat) : Bytes := [UInt8.ofNat x, UInt8.ofNat (x / 256)]

/-! ## internet_checksum.s -/

/-- The loop, with the registers `ax` and `ecx`. For an odd length, the first byte is left. -/
def checksumLoop (data : Bytes) : Nat → Nat → Nat
  | ax, 0 => ax
  | ax, 1 => onesAdd ax (byte data 0)
  | ax, ecx + 2 => checksumLoop data (onesAdd ax (le16 data ecx)) ecx

/-- `internet_checksum`. For less than two bytes, `ecx` wraps and the loop runs on. -/
def internetChecksum (data : Bytes) : Option Nat := do
  kassert (2 ≤ data.length)
  return maxWord - checksumLoop data 0 data.length

/-- A field that is set to the checksum of the data around it. -/
def setChecksum (i : Nat) (data : Bytes) : Option Bytes := do
  let data := (data.set i 0).set (i + 1) 0
  let checksum ← internetChecksum data
  return (data.set i (UInt8.ofNat checksum)).set (i + 1) (UInt8.ofNat (checksum / 256))

/-! ## Addresses -/

def ipAddress : Bytes := [192, 168, 10, 10]
def gateway : Bytes := [192, 168, 10, 1]
def netmask : Bytes := [255, 255, 255, 0]

def broadcastMac : Bytes := List.replicate 6 0xff

def sameSubnet (ip1 ip2 : Bytes) : Bool :=
  List.zipWith (· &&& ·) ip1 netmask = List.zipWith (· &&& ·) ip2 netmask

/-- `arpentry_t` -/
structure ArpEntry where
  ip : Bytes
  mac : Bytes
  macLength : mac.length = 6
  timestamp : Nat

abbrev ArpCache : Type := List ArpEntry

structure Env where
  /-- The card's own address. -/
  mac : Bytes
  macLength : mac.length = 6
  ticks : Nat
  cache : ArpCache
  /-- The cache and the tick count at each look while `arp_lookup` waits. -/
  polls : List (ArpCache × Nat)
  /-- A transmit descriptor is free within a second. -/
  txReady : Bool
  /-- A buffer of the handler is free. -/
  free : Bool
  /-- The old contents of that buffer. -/
  buffer : Bytes
  bufferLength : buffer.length = 1536
  /-- The two bytes of the header that `send_ipv4_packet` does not set. -/
  flags : Bytes
  flagsLength : flags.length = 2

/-! ## rtl8139.c: sending -/

def ethertypeIpv4 : Nat := 0x0800
def ethertypeArp : Nat := 0x0806

/-- `rtl8139_send_frame`; the result is the frame. -/
def sendFrame (env : Env) (dstMac : Bytes) (ethertype : Nat) (payload : Bytes) : Option Bytes := do
  kassert (0x0600 ≤ ethertype)
  kassert (0 < payload.length ∧ payload.length ≤ 1500)
  kassert (env.txReady = true)
  let frame := dstMac ++ env.mac ++ putBe16 ethertype ++ payload
  kassert (14 + payload.length < 4096)
  return frame ++ List.replicate (60 - (14 + payload.length)) 0

/-! ## arp.c -/

/-- `sizeof(arpheader_t)` -/
def arpHeaderSize : Nat := 28

def arpRequest : Nat := 1
def arpReply : Nat := 2

/-- `ARP_CACHE_TIME`, in milliseconds. -/
def arpCacheTime : Nat := 5 * 60 * 1000

def arpCacheAdd (ip mac : Bytes) (length : mac.length = 6) (ticks : Nat) : ArpCache → ArpCache
  | [] => [⟨ip, mac, length, ticks⟩]
  | entry :: cache =>
    if entry.ip = ip then ⟨entry.ip, mac, length, ticks⟩ :: cache
    else entry :: arpCacheAdd ip mac length ticks cache

/-- `arp_cache_lookup`: what it finds, and the cache without an old entry. -/
def arpCacheLookup (ip : Bytes) (ticks : Nat) : ArpCache → Option Bytes × ArpCache
  | [] => (none, [])
  | entry :: cache =>
    if entry.ip = ip then
      if arpCacheTime ≤ sub32 ticks entry.timestamp * 10 % wordSize then (none, cache)
      else (some entry.mac, entry :: cache)
    else
      let (found, cache) := arpCacheLookup ip ticks cache
      (found, entry :: cache)

def sendArpReply (env : Env) (data : Bytes) : Option Bytes :=
  sendFrame env (field data 8 6) ethertypeArp
    (field data 0 6 ++ putBe16 arpReply ++ env.mac ++ field data 24 4 ++ field data 8 6 ++
      field data 14 4)

/-- What a handler does: the new ARP cache, and the frames that are sent. -/
structure Outcome where
  cache : ArpCache
  sent : List Bytes

def arpHandlePacket (env : Env) (data : Bytes) : Option Outcome := do
  kassert (arpHeaderSize ≤ data.length)
  if be16 data 0 ≠ 1 ∨ be16 data 2 ≠ 0x0800 then return { cache := env.cache, sent := [] }
  else
    kassert (byte data 4 = 6)
    kassert (byte data 5 = 4)
    kassert (be16 data 6 = arpRequest ∨ be16 data 6 = arpReply)
    let cache := arpCacheAdd (field data 14 4) (field data 8 6) (length_field data 8 6)
      env.ticks env.cache
    if be16 data 6 = arpReply then return { cache := cache, sent := [] }
    else if field data 24 4 = ipAddress then
      let frame ← sendArpReply env data
      return { cache := cache, sent := [frame] }
    else return { cache := cache, sent := [] }

/-- The wait of `arp_lookup` for an answer within 200 ticks. -/
def awaitAnswer (ip : Bytes) (start : Nat) : List (ArpCache × Nat) → Option Bytes
  | [] => none
  | (cache, ticks) :: polls =>
    match (arpCacheLookup ip ticks cache).1 with
    | some mac => some mac
    | none => if ticks < add32 start 200 then awaitAnswer ip start polls else none

/-- The request that `arp_lookup` sends. -/
def arpRequestPacket (env : Env) (ip : Bytes) : Bytes :=
  putBe16 1 ++ putBe16 0x0800 ++ [6, 4] ++ putBe16 arpRequest ++ env.mac ++ ipAddress ++
    List.replicate 6 0 ++ ip

/-- `arp_lookup`: the address, if it returns true, and the frames sent. -/
def arpLookup (env : Env) (ip : Bytes) : Option (Option Bytes × List Bytes) :=
  match (arpCacheLookup ip env.ticks env.cache).1 with
  | some mac => some (some mac, [])
  | none => do
    let frame ← sendFrame env broadcastMac ethertypeArp (arpRequestPacket env ip)
    let mac := (awaitAnswer ip env.ticks env.polls).getD broadcastMac
    return (if mac = broadcastMac then none else some mac, [frame])

/-! ## ipicmp.c -/

/-- `sizeof(ipv4header_t)` -/
def ipv4HeaderSize : Nat := 20

def protoIcmp : Nat := 1
def icmpEchoRequest : Nat := 8

/-- The address on this network to which a packet for `ip` is sent. -/
def nextHop (ip : Bytes) : Bytes := if sameSubnet ip ipAddress then ip else gateway

/-- The header that `send_ipv4_packet` builds, before its checksum is set. -/
def ipv4Header (env : Env) (dstIp : Bytes) (protocol payloadSize : Nat) : Bytes :=
  [0x45, 0] ++ putBe16 (ipv4HeaderSize + payloadSize) ++ [0, 0] ++ env.flags ++
    [64, UInt8.ofNat protocol, 0, 0] ++ ipAddress ++ dstIp

def sendIpv4Packet (env : Env) (dstIp : Bytes) (protocol : Nat) (payload : Bytes) :
    Option (List Bytes) := do
  kassert (payload.length ≤ 1500 - ipv4HeaderSize)
  let header ← setChecksum 10 (ipv4Header env dstIp protocol payload.length)
  let (answer, requests) ← arpLookup env (nextHop dstIp)
  let dstMac ← answer
  let frame ← sendFrame env dstMac ethertypeIpv4 (header ++ payload)
  return requests ++ [frame]

/-- The `nethandler_buffer_t` that holds `data`, with its length and state. -/
def bufferOf (env : Env) (data : Bytes) : Bytes :=
  data ++ env.buffer.drop data.length ++ putLe16 data.length ++ [0, 0] ++ [2, 0, 0, 0]

def handleIcmp (env : Env) (data : Bytes) : Option Outcome := do
  let packet := (bufferOf env data).drop (4 * (byte data 0 % 16))
  let length := sub32 data.length ipv4HeaderSize
  if byte packet 0 = icmpEchoRequest then
    let buf ← setChecksum 2 ((packet.take length).set 0 0)
    let sent ← sendIpv4Packet env (field data 12 4) protoIcmp buf
    return { cache := env.cache, sent := sent }
  else return { cache := env.cache, sent := [] }

/-! ## rtl8139.c: receiving -/

inductive Handler where
  | arp
  | icmp

/-- `v4->header_checksum = 0` -/
def clearChecksum (packet : Bytes) : Bytes := (packet.set 10 0).set 11 0

/-- `process_frame`: the packet for a handler. The buffer begins with the card's own header. -/
def processFrame (packetBuffer : Bytes) (packetLength : Nat) : Option (Option (Handler × Bytes)) :=
  let ethertype := be16 packetBuffer 16
  let data := packetBuffer.drop 18
  if ethertype = 0x8100 then none
  else if ethertype = ethertypeArp then do
    let packet := data.take (packetLength - 8 - 14)
    kassert (0 < packet.length)
    return some (.arp, packet)
  else if ethertype = ethertypeIpv4 then do
    let check := le16 data 10
    let v4 := clearChecksum data
    let packet := v4.take (packetLength - 18)
    kassert (byte v4 9 = protoIcmp → 0 < packet.length)
    let ret ← internetChecksum (v4.take ipv4HeaderSize)
    kassert (ret = check)
    return if byte v4 9 = protoIcmp then some (.icmp, packet) else none
  else return none

/-- `RTL8139_RXBUFFER_SIZE` -/
def rxBufferSize : Nat := 8192

/-- The receive ring, and where the card puts the next frame. -/
structure Card where
  ring : Nat → UInt8
  /-- `rxOffset / 4` -/
  rxSlot : Fin 2048
  status : Nat
  crc : Bytes

def Card.rxOffset (card : Card) : Nat := 4 * card.rxSlot

/-- A frame of legal size, without the checksum that the card adds. -/
structure Frame where
  bytes : Bytes
  min : 60 ≤ bytes.length
  max : bytes.length ≤ 1514

/-- What the card stores: its status, the length with the checksum, the frame and the checksum. -/
def Card.record (card : Card) (frame : Frame) : Bytes :=
  putLe16 card.status ++ putLe16 (frame.bytes.length + 4) ++ frame.bytes ++ card.crc

/-- The ring after the card has stored the frame. -/
def Card.stored (card : Card) (frame : Frame) (a : Nat) : UInt8 :=
  let i := (a + rxBufferSize - card.rxOffset) % rxBufferSize
  (card.record frame).getD i (card.ring a)

/-- The copy from the ring, in two parts if it wraps around. -/
def copyPacket (ring : Nat → UInt8) (offset packetLength : Nat) : Bytes :=
  let run (start n : Nat) := (List.range n).map fun i => ring (start + i)
  if rxBufferSize ≤ offset + packetLength then
    run offset (rxBufferSize - offset) ++ run 0 (packetLength - (rxBufferSize - offset))
  else run offset packetLength

/-- One round of `rtl8139_rx_handler`. -/
def rxHandler (ring : Nat → UInt8) (offset : Nat) : Option (Option (Handler × Bytes)) := do
  let packetLength := (ring (offset + 2)).toNat + 256 * (ring (offset + 3)).toNat
  kassert (packetLength ≤ 2048)
  processFrame (copyPacket ring offset packetLength) packetLength

/-- The handler task gets the packet. -/
def handle (env : Env) : Handler → Bytes → Option Outcome
  | .arp, data => arpHandlePacket env data
  | .icmp, data => handleIcmp env data

/-- A frame is received, and the handler treats it if a buffer was free. -/
def receive (env : Env) (card : Card) (frame : Frame) : Option Outcome := do
  match ← rxHandler (card.stored frame) card.rxOffset with
  | none => return { cache := env.cache, sent := [] }
  | some (handler, data) =>
    if env.free then handle env handler data else return { cache := env.cache, sent := [] }

end ExscapeOS.Net
