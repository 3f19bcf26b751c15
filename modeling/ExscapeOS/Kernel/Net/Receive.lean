import ExscapeOS.Kernel.Net.Basic
import ExscapeOS.Lib.Transition
import Mathlib.Data.UInt

/-!
# The receive ring

The card stores frames one after the other in the ring, each behind a header with its length, at
offsets that are multiples of four; the interrupt handler takes them in the same order.
-/
namespace ExscapeOS.Net

open Lib List Option

variable {ring : Nat → UInt8} {offset n : Nat}

/-- The copy in two parts is a part of the ring. -/
lemma copyPacket_eq_map (inside : offset < rxBufferSize) (fits : n ≤ rxBufferSize) :
    copyPacket ring offset n = (List.range n).map fun i => ring ((offset + i) % rxBufferSize) := by
  have low {i : Nat} (lt : offset + i < rxBufferSize) : (offset + i) % rxBufferSize = offset + i :=
    Nat.mod_eq_of_lt lt
  simp only [copyPacket]
  split_ifs with wraps
  · have split : n = (rxBufferSize - offset) + (n - (rxBufferSize - offset)) := by omega
    conv_rhs => rw [split, List.range_add, List.map_append, List.map_map]
    refine congrArg₂ _ (map_congr_left fun i mem => ?_) (map_congr_left fun i mem => ?_)
    · rw [low (by have := mem_range.mp mem; omega)]
    · have lt := mem_range.mp mem
      have around : offset + (rxBufferSize - offset + i) = rxBufferSize + i := by omega
      rw [Function.comp, around, Nat.add_mod_left, Nat.mod_eq_of_lt (by omega), Nat.zero_add]
  · exact map_congr_left fun i mem => by rw [low (by have := mem_range.mp mem; omega)]

lemma copyPacket_eq_take {bytes : Bytes} (inside : offset < rxBufferSize) (fits : n ≤ rxBufferSize)
    (held : ∀ i < n, some (ring ((offset + i) % rxBufferSize)) = bytes[i]?) :
    copyPacket ring offset n = bytes.take n := by
  rw [copyPacket_eq_map inside fits]
  refine ext_getElem? fun i => ?_
  by_cases lt : i < n
  · rw [getElem?_take_of_lt lt, ← held i lt]
    simp [lt]
  · rw [getElem?_eq_none (by simpa using lt), getElem?_eq_none (by simp; omega)]

/-- A frame with its checksum, which the card adds. -/
structure RingFrame where
  bytes : Bytes
  min : 4 ≤ bytes.length
  max : bytes.length ≤ 2048

namespace RingFrame

variable (frame : RingFrame)

def withoutCrc : Bytes := frame.bytes.take (frame.bytes.length - 4)

/-- What the card stores: the status of the frame, its length, and the frame. -/
def record (status : Nat) : Bytes := putLe16 status ++ putLe16 frame.bytes.length ++ frame.bytes

/-- The part of the ring that the card uses for it. -/
def slot : Nat := (frame.bytes.length + 4 + 3) / 4 * 4

lemma length_record (status : Nat) : (frame.record status).length = frame.bytes.length + 4 := by
  simp [record, putLe16]

lemma slot_bounds : frame.bytes.length + 4 ≤ frame.slot ∧ frame.slot ≤ 2052 ∧
    frame.slot % 4 = 0 := by
  have := frame.max
  unfold slot
  omega

end RingFrame

/-- The ring, and where the card stores and the handler takes the next frame. The frames that wait
are kept with their offsets; `passed` is what `process_frame` has got, without the header. -/
structure Rx where
  ring : Nat → UInt8
  cardOffset : Nat
  rxOffset : Nat
  waiting : List (Nat × RingFrame)
  passed : List Bytes

inductive RxAction where
  | store (status : Nat) (frame : RingFrame)
  | handle

namespace Rx

/-- Bytes are stored from an offset on, around the end if necessary. -/
def put (ring : Nat → UInt8) (offset : Nat) (bytes : Bytes) (a : Nat) : UInt8 :=
  bytes.getD ((a + rxBufferSize - offset) % rxBufferSize) (ring a)

/-- The card stores a frame, and the next one at a multiple of four. -/
def store (s : Rx) (status : Nat) (frame : RingFrame) : Rx :=
  { s with
    ring := put s.ring s.cardOffset (frame.record status)
    cardOffset := (s.cardOffset + frame.slot) % rxBufferSize
    waiting := s.waiting ++ [(s.cardOffset, frame)] }

/-- A round of `rtl8139_rx_handler`. -/
def handle (s : Rx) : Option Rx := do
  let packetLength := (s.ring (s.rxOffset + 2)).toNat + 256 * (s.ring (s.rxOffset + 3)).toNat
  kassert (packetLength ≤ 2048)
  let packetBuffer := copyPacket s.ring s.rxOffset packetLength
  return { s with
    rxOffset := (s.rxOffset + packetLength + 4 + 3) / 4 * 4 % rxBufferSize
    waiting := s.waiting.tail
    passed := s.passed ++ [packetBuffer.drop 4] }

def step (s : Rx) : RxAction → Option Rx
  | .store status frame => some (s.store status frame)
  | .handle => s.handle

/-- How much of the ring is used. -/
def used (s : Rx) : Nat := (s.waiting.map fun p => p.2.slot).sum

/-- The card has room for the frame; the handler runs while there are frames. -/
def Ready (s : Rx) : RxAction → Prop
  | .store _ frame => s.used + frame.slot ≤ rxBufferSize
  | .handle => s.waiting ≠ []

def init (ring : Nat → UInt8) : Rx :=
  { ring := ring, cardOffset := 0, rxOffset := 0, waiting := [], passed := [] }

def nextOffset (s : Rx) : Nat := (s.waiting.head?.map Prod.fst).getD s.cardOffset

end Rx

/-- The frames that the card has stored, without their checksums. -/
def received (actions : List RxAction) : List Bytes :=
  actions.filterMap fun
    | .store _ frame => some frame.withoutCrc
    | .handle => none

/-! ## One step -/

lemma put_eq (bytes : Bytes) {e i : Nat} (place : offset = e % rxBufferSize) (lt : i < bytes.length)
    (fits : i < rxBufferSize) :
    some (Rx.put ring offset bytes ((e + i) % rxBufferSize)) = bytes[i]? := by
  have index : ((e + i) % rxBufferSize + rxBufferSize - offset) % rxBufferSize = i := by
    unfold rxBufferSize at *
    omega
  rw [Rx.put, index, getD_eq_getElem?_getD, getElem?_eq_getElem lt, getD_some]

lemma put_other (bytes : Bytes) {e a : Nat} (before : a < e)
    (room : e + bytes.length ≤ a + rxBufferSize) :
    Rx.put ring (e % rxBufferSize) bytes (a % rxBufferSize) = ring (a % rxBufferSize) := by
  have index : bytes.length ≤ (a % rxBufferSize + rxBufferSize - e % rxBufferSize) %
    rxBufferSize := by
    unfold rxBufferSize at *
    omega
  rw [Rx.put, getD_eq_getElem?_getD, getElem?_eq_none index, getD_none]

/-- The frame is in the ring from place `o` on, counted without going around. -/
def Holds (ring : Nat → UInt8) (o : Nat) (frame : RingFrame) : Prop :=
  ∃ status, ∀ i < frame.bytes.length + 4,
    some (ring ((o + i) % rxBufferSize)) = (frame.record status)[i]?

/-- The frames lie one after the other from place `o` to place `e`. -/
def Laid (ring : Nat → UInt8) : Nat → List (Nat × RingFrame) → Nat → Prop
  | o, [], e => e = o
  | o, (p, frame) :: rest, e =>
    p = o % rxBufferSize ∧ Holds ring o frame ∧ Laid ring (o + frame.slot) rest e

lemma Laid.end_eq {o e : Nat} {waiting : List (Nat × RingFrame)} (laid : Laid ring o waiting e) :
    e = o + (waiting.map fun p => p.2.slot).sum := by
  induction waiting generalizing o with
  | nil => exact laid
  | cons p rest ih =>
    have := ih laid.2.2
    simp only [map_cons, sum_cons]
    omega

lemma Laid.store {o e : Nat} {waiting : List (Nat × RingFrame)} (laid : Laid ring o waiting e)
    (status : Nat) (frame : RingFrame) (room : e + frame.slot ≤ o + rxBufferSize) :
    Laid (Rx.put ring (e % rxBufferSize) (frame.record status)) o
      (waiting ++ [(e % rxBufferSize, frame)]) (e + frame.slot) := by
  have bounds := frame.slot_bounds
  have length := frame.length_record status
  induction waiting generalizing o with
  | nil =>
    obtain rfl : e = o := laid
    exact ⟨rfl, ⟨status, fun i lt => put_eq _ rfl (by omega) (by unfold rxBufferSize; omega)⟩, rfl⟩
  | cons p rest ih =>
    obtain ⟨place, ⟨status', held⟩, laid⟩ := laid
    have after := laid.end_eq
    have slot := p.2.slot_bounds
    refine ⟨place, ⟨status', fun i lt => ?_⟩, ih laid (by omega)⟩
    rw [put_other _ (by omega) (by omega)]
    exact held i lt

/-- A round takes the frame that has waited longest. -/
lemma handle_eq {s : Rx} {o : Nat} {p : Nat × RingFrame} {rest : List (Nat × RingFrame)}
    (waiting : s.waiting = p :: rest) (place : s.rxOffset = o % rxBufferSize) (aligned : o % 4 = 0)
    (held : Holds s.ring o p.2) : s.handle = some { s with
      rxOffset := (o + p.2.slot) % rxBufferSize
      waiting := rest
      passed := s.passed ++ [p.2.withoutCrc] } := by
  obtain ⟨status, held⟩ := held
  have max := p.2.max
  have min := p.2.min
  have inside : s.rxOffset < rxBufferSize := place ▸ Nat.mod_lt _ (by decide)
  have at' (i : Nat) : (s.rxOffset + i) % rxBufferSize = (o + i) % rxBufferSize := by
    rw [place, Nat.mod_add_mod]
  have low := held 2 (by omega)
  have high := held 3 (by omega)
  simp only [RingFrame.record, putLe16, cons_append, nil_append, getElem?_cons_succ,
    getElem?_cons_zero, some.injEq] at low high
  have packetLength : (s.ring (s.rxOffset + 2)).toNat + 256 * (s.ring (s.rxOffset + 3)).toNat =
      p.2.bytes.length := by
    have near (i : Nat) (lt : i < 4) : s.rxOffset + i = (o + i) % rxBufferSize := by
      rw [← at' i]
      refine (Nat.mod_eq_of_lt ?_).symm
      unfold rxBufferSize at *
      omega
    rw [near 2 (by omega), near 3 (by omega), low, high]
    simp
    omega
  have copied : copyPacket s.ring s.rxOffset p.2.bytes.length =
      (p.2.record status).take p.2.bytes.length :=
    copyPacket_eq_take inside (by unfold rxBufferSize; omega)
      fun i lt => at' i ▸ held i (by omega)
  have data : ((p.2.record status).take p.2.bytes.length).drop 4 = p.2.withoutCrc := by
    rw [drop_take]
    rfl
  have next : (s.rxOffset + p.2.bytes.length + 4 + 3) / 4 * 4 % rxBufferSize =
      (o + p.2.slot) % rxBufferSize := by
    rw [place]
    unfold RingFrame.slot rxBufferSize
    omega
  simp only [Rx.handle, packetLength, kassert, if_pos max, copied, data, next, waiting]
  rfl

/-! ## All steps -/

/-- The frames that wait lie between the handler's offset and the card's. -/
structure InStep (actions : List RxAction) (s : Rx) : Prop where
  laid : ∃ o e, Laid s.ring o s.waiting e ∧ s.rxOffset = o % rxBufferSize ∧
    s.cardOffset = e % rxBufferSize ∧ o % 4 = 0
  frames : s.passed ++ s.waiting.map (fun p => p.2.withoutCrc) = received actions

lemma InStep.handle {actions : List RxAction} {s : Rx} {p : Nat × RingFrame}
    {rest : List (Nat × RingFrame)} (h : InStep actions s) (eq : s.waiting = p :: rest) :
    ∃ t, s.handle = some t ∧ t.passed = s.passed ++ [p.2.withoutCrc] ∧ t.waiting = rest ∧
      InStep (actions ++ [.handle]) t := by
  obtain ⟨⟨o, e, laid, place, card, aligned⟩, frames⟩ := h
  rw [eq] at laid frames
  have slot := p.2.slot_bounds
  refine ⟨_, handle_eq eq place aligned laid.2.1, rfl, rfl,
    ⟨_, e, laid.2.2, rfl, card, by omega⟩, ?_⟩
  simpa [received] using frames

lemma InStep.store {actions : List RxAction} {s : Rx} (h : InStep actions s) (status : Nat)
    (frame : RingFrame) (room : s.used + frame.slot ≤ rxBufferSize) :
    InStep (actions ++ [.store status frame]) (s.store status frame) := by
  obtain ⟨⟨o, e, laid, place, card, aligned⟩, frames⟩ := h
  have after := laid.end_eq
  have stored := laid.store status frame (by unfold Rx.used at room; omega)
  rw [← card] at stored
  refine ⟨⟨o, _, stored, place, by simp [Rx.store, card], aligned⟩, ?_⟩
  rw [received, filterMap_append, ← received, ← frames]
  simp [Rx.store]

/-- The frames are passed on without their checksums and in order, the two offsets agree, and a
round passes the frame that has waited longest. -/
theorem frames_received (ring : Nat → UInt8) {actions : List RxAction} {s : Rx}
    (run : Run (Guarded Rx.Ready fun s a t => s.step a = some t) (Rx.init ring) actions s) :
    s.passed ++ s.waiting.map (fun p => p.2.withoutCrc) = received actions ∧
      s.rxOffset = s.nextOffset ∧
      ∀ p rest, s.waiting = p :: rest → ∃ t, s.step .handle = some t ∧
        t.passed = s.passed ++ [p.2.withoutCrc] ∧ t.waiting = rest := by
  have inStep : InStep actions s := by
    induction run with
    | nil => exact ⟨⟨0, 0, rfl, rfl, rfl, rfl⟩, rfl⟩
    | @snoc t u _ a _ last ih =>
      obtain ⟨ready, eq⟩ := last
      cases a with
      | store status frame => exact some.inj eq ▸ ih.store status frame ready
      | handle =>
        obtain ⟨p, rest, waiting⟩ := exists_cons_of_ne_nil ready
        obtain ⟨u', eq', -, -, next⟩ := ih.handle waiting
        exact some.inj (eq'.symm.trans eq) ▸ next
  refine ⟨inStep.frames, ?_, fun p rest waiting => ?_⟩
  · obtain ⟨⟨o, e, laid, place, card, -⟩, -⟩ := inStep
    unfold Rx.nextOffset
    match s.waiting, laid with
    | [], laid => rw [place, card, show e = o from laid]; rfl
    | p :: rest, laid => exact place.trans laid.1.symm
  · obtain ⟨t, eq, passed, left, -⟩ := inStep.handle waiting
    exact ⟨t, eq, passed, left⟩

def fiveBytes : RingFrame := ⟨[1, 2, 3, 4, 5], by decide, by decide⟩

/-- Of the five bytes, the last four are the checksum. -/
theorem frames_received_fiveBytes : received [.store 1 fiveBytes] = [[1]] ∧
    ∃ t, ((Rx.init 0).store 1 fiveBytes).step .handle = some t ∧ t.passed = [[1]] := by
  have ready : (Rx.init 0).Ready (.store 1 fiveBytes) := show _ ≤ rxBufferSize by decide
  obtain ⟨frames, -, round⟩ := frames_received 0 (Run.single ⟨ready, rfl⟩)
  obtain ⟨t, eq, passed, -⟩ := round _ _ rfl
  exact ⟨frames.symm, t, eq, passed⟩

/-! ## Lengths -/

/-- What the receive path does with a length. -/
inductive LengthUse where
  /-- `memcpy` to place `start` of a buffer of `size` bytes. -/
  | copy (start length size : Nat)
  /-- A new length, which is `whole - header` as an unsigned number. -/
  | minus (whole header : Nat)

/-- The copy stays inside its destination, and the difference does not wrap. -/
def LengthUse.Good : LengthUse → Prop
  | copy start length size => start + length ≤ size
  | minus whole header => header ≤ whole

@[simp] lemma good_copy {start length size : Nat} :
    (LengthUse.copy start length size).Good ↔ start + length ≤ size := Iff.rfl

@[simp] lemma good_minus {whole header : Nat} :
    (LengthUse.minus whole header).Good ↔ header ≤ whole := Iff.rfl

/-- What the path depends on, apart from the length: the type of the frame and the protocol; whether
a buffer is free; whether the checksum of the header is right, without which the kernel stops; and
whether the handler finds the type of an echo request. -/
structure Content where
  ethertype : Nat
  protocol : Nat
  free : Bool
  checksum : Bool
  echo : Bool

/-- The copy from the ring to `rtl8139_packetBuffer`. -/
def copyUses (offset packetLength : Nat) : List LengthUse :=
  if rxBufferSize ≤ offset + packetLength then
    let firstRun := rxBufferSize - offset
    [.copy 0 firstRun 2048, .minus packetLength firstRun,
      .copy firstRun (sub32 packetLength firstRun) 2048]
  else [.copy 0 packetLength 2048]

/-- `nethandler_add_packet`, which asserts that there is a packet, and then the handler. -/
def addPacketUses (free : Bool) (length : Nat) (handler : List LengthUse) : List LengthUse :=
  if 0 < length ∧ free then .copy 0 length 1536 :: handler else []

/-- `handle_icmp` -/
def handleIcmpUses (echo : Bool) (length : Nat) : List LengthUse :=
  .minus length ipv4HeaderSize ::
    if echo then [.copy 0 (sub32 length ipv4HeaderSize) 1500] else []

/-- `process_frame`, and what the handlers do with the packet. -/
def processFrameUses (content : Content) (packetLength : Nat) : List LengthUse :=
  if content.ethertype = ethertypeArp then
    .minus packetLength (8 + 14) :: addPacketUses content.free (sub32 packetLength (8 + 14)) []
  else if content.ethertype = ethertypeIpv4 ∧ content.protocol = protoIcmp then
    let length := sub32 packetLength 18
    .minus packetLength 18 ::
      addPacketUses content.free length
        (if content.checksum then handleIcmpUses content.echo length else [])
  else []

def rxUses (content : Content) (offset packetLength : Nat) : List LengthUse :=
  copyUses offset packetLength ++ processFrameUses content packetLength

/-- What `process_frame` passes on is copied to a buffer of the handler. -/
theorem processFrame_uses {packetBuffer data : Bytes} {handler : Handler} {content : Content}
    (passed : processFrame packetBuffer packetBuffer.length = some (some (handler, data)))
    (admitted : packetBuffer.length ≤ 2048) (type : content.ethertype = be16 packetBuffer 16)
    (protocol : content.protocol = byte (packetBuffer.drop 18) 9) (free : content.free = true) :
    .copy 0 data.length 1536 ∈ processFrameUses content packetBuffer.length := by
  have kept : byte (clearChecksum (packetBuffer.drop 18)) 9 = content.protocol := by
    simp [protocol, byte, clearChecksum]
  have copied (header : Nat) (uses : List LengthUse) (some_data : 0 < data.length)
      (length : data.length = packetBuffer.length - header) :
      .copy 0 data.length 1536 ∈
        addPacketUses content.free (sub32 packetBuffer.length header) uses := by
    rw [sub32_eq (by unfold wordSize; omega) (by omega), ← length, addPacketUses,
      if_pos ⟨some_data, free⟩]
    exact mem_cons_self
  simp only [processFrame, kept, ← type] at passed
  unfold processFrameUses
  split_ifs at passed with vlan arp ipv4 icmp
  · obtain ⟨some_data, eq⟩ := kassert_bind_eq_some.mp passed
    obtain ⟨-, rfl⟩ := Prod.mk.inj (some.inj (some.inj eq))
    rw [if_pos arp]
    refine mem_cons_of_mem _ (copied _ _ some_data ?_)
    simp only [length_take, length_drop]
    omega
  · obtain ⟨some_data, eq⟩ := kassert_bind_eq_some.mp passed
    obtain ⟨_, -, eq⟩ := bind_eq_some_iff.mp eq
    obtain ⟨-, eq⟩ := kassert_bind_eq_some.mp eq
    obtain ⟨-, rfl⟩ := Prod.mk.inj (some.inj (some.inj eq))
    rw [if_neg arp, if_pos ⟨ipv4, icmp⟩]
    exact mem_cons_of_mem _ (copied _ _ (some_data icmp) (by simp [clearChecksum]))
  · obtain ⟨-, eq⟩ := kassert_bind_eq_some.mp passed
    obtain ⟨_, -, eq⟩ := bind_eq_some_iff.mp eq
    cases (kassert_bind_eq_some.mp eq).2
  · cases passed

lemma copyUses_good (inside : offset < rxBufferSize) (admitted : n ≤ 2048) :
    ∀ use ∈ copyUses offset n, use.Good := by
  unfold copyUses
  split_ifs with wraps
  · have rest : sub32 n (rxBufferSize - offset) = n - (rxBufferSize - offset) :=
      sub32_eq (by unfold wordSize; omega) (by omega)
    simp only [rest, forall_mem_cons, good_copy, good_minus]
    exact ⟨by omega, by omega, by omega, nofun⟩
  · simpa using admitted

lemma addPacketUses_good {free : Bool} {handler : List LengthUse} :
    (∀ use ∈ addPacketUses free n handler, use.Good) ↔
      (0 < n → free = true → n ≤ 1536 ∧ ∀ use ∈ handler, use.Good) := by
  unfold addPacketUses
  split_ifs with add
  · simp [add]
  · simpa using fun some free => absurd ⟨some, free⟩ add

lemma handleIcmpUses_good {checksum echo : Bool} :
    (∀ use ∈ (if checksum then handleIcmpUses echo n else []), use.Good) ↔
      (checksum = true → 20 ≤ n ∧ (echo = true → sub32 n 20 ≤ 1500)) := by
  cases checksum <;> cases echo <;> simp [handleIcmpUses, ipv4HeaderSize]

/-- A packet whose length passes the assertion is received without harm exactly if it is not shorter
than the headers, and not longer than the buffers. -/
theorem rxUses_good_iff (content : Content) {offset packetLength : Nat}
    (inside : offset < rxBufferSize)
    (admitted : packetLength ≤ 2048) : (∀ use ∈ rxUses content offset packetLength, use.Good) ↔
      (content.ethertype = ethertypeArp →
        22 ≤ packetLength ∧ (content.free = true → packetLength ≤ 1558)) ∧
      (content.ethertype = ethertypeIpv4 → content.protocol = protoIcmp →
        18 ≤ packetLength ∧ (content.free = true → 18 < packetLength → packetLength ≤ 1554 ∧
          (content.checksum = true → 38 ≤ packetLength ∧
            (content.echo = true → packetLength ≤ 1538)))) := by
  have difference {a b : Nat} (small : a ≤ 2048) (le : b ≤ a) : sub32 a b = a - b :=
    sub32_eq (by unfold wordSize; omega) le
  rw [rxUses, forall_mem_append, and_iff_right (copyUses_good inside admitted), processFrameUses]
  by_cases arp : content.ethertype = ethertypeArp
  · have other : ethertypeArp ≠ ethertypeIpv4 := by decide
    rw [if_pos arp]
    simp only [forall_mem_cons, good_minus, addPacketUses_good, arp, forall_const, other,
      IsEmpty.forall_iff, and_true]
    by_cases long : 22 ≤ packetLength
    · rw [difference admitted long]
      grind
    · simp [long]
  by_cases icmp : content.ethertype = ethertypeIpv4 ∧ content.protocol = protoIcmp
  · rw [if_neg arp, if_pos icmp]
    simp only [forall_mem_cons, good_minus, addPacketUses_good, handleIcmpUses_good, icmp,
      forall_const]
    by_cases long : 18 ≤ packetLength
    · rw [difference admitted long]
      by_cases header : 38 ≤ packetLength
      · rw [difference (by omega) (by omega)]
        grind
      · grind
    · simp [long]
  · rw [if_neg arp, if_neg icmp]
    grind

theorem rxUses_good_iff_ping : 8000 < rxBufferSize ∧
    ∀ use ∈ rxUses ⟨ethertypeIpv4, protoIcmp, true, true, true⟩ 8000 102, use.Good :=
  ⟨by decide, (rxUses_good_iff ⟨ethertypeIpv4, protoIcmp, true, true, true⟩ (by decide)
    (by decide)).mpr (by decide)⟩

/-- The length of an ARP packet in a frame of 20 bytes wraps, and an echo request of 1600 bytes does
not fit in the buffer. -/
theorem lengths_go_wrong :
    .copy 0 (wordSize - 2) 1536 ∈ rxUses ⟨ethertypeArp, 0, true, true, false⟩ 0 20 ∧
    .copy 0 1582 1536 ∈ rxUses ⟨ethertypeIpv4, protoIcmp, true, true, true⟩ 0 1600 := by
  simp [rxUses, copyUses, processFrameUses, addPacketUses, sub32, wordSize, ethertypeArp,
    ethertypeIpv4]

end ExscapeOS.Net
