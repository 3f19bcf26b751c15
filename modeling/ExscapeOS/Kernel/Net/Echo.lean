import ExscapeOS.Kernel.Net.Safety

/-!
# Echo replies

`handle_icmp` turns an echo request into its reply. It takes the length of the message from the
length of the frame, minus an IPv4 header without options. So the reply is right only if the header
has no options and the frame has no padding. If the length is odd, the bytes of the checksum are
exchanged, which must make no difference.

The header of an IPv4 packet has a right checksum, but two of its bytes are never set.
-/
namespace ExscapeOS.Net

open Lib List Option

variable {env : Env} {card : Card} {frame : Frame} {data : Bytes}

/-! ## The checksum of a reply -/

lemma wordSum_cons_cons (a b : UInt8) (rest : Bytes) :
    wordSum (a :: b :: rest) = 256 * a.toNat + b.toNat + wordSum rest := by
  rw [wordSum, swappedSum, Nat.add_assoc]

/-- In network order the bytes of the field are exchanged. -/
lemma wordSum_stored (rest : Bytes) {checksum : Nat} (le : checksum ≤ maxWord) :
    wordSum (0 :: 0 :: UInt8.ofNat checksum :: UInt8.ofNat (checksum / 256) :: rest) =
      wordSum rest + swapWord checksum := by
  unfold maxWord at le
  simp only [wordSum_cons_cons, UInt8.toNat_ofNat', swapWord, UInt8.toNat_zero]
  omega

/-- For a reply of odd length the routine adds the words in network order, since the first byte is
zero. -/
lemma routineSum_reply (rest : Bytes) : routineSum (0 :: 0 :: 0 :: 0 :: rest) =
    if rest.length % 2 = 0 then swappedSum rest else wordSum rest := by
  have parity : (0 :: 0 :: 0 :: 0 :: rest : Bytes).length % 2 = rest.length % 2 := by
    simp only [length_cons]
    omega
  rw [routineSum, parity]
  split_ifs <;> simp [wordSum, swappedSum, byte]

lemma verifies_even {x : Nat} {rest : Bytes} (sum : Folds x (swappedSum rest)) :
    maxWord ∣ wordSum rest + (maxWord - swapWord x) ∧
      wordSum rest + (maxWord - swapWord x) ≠ 0 := by
  have folds := onesSum_folds rest
  rw [sum.unique folds.swap, swapWord_swapWord folds.le, Nat.dvd_iff_mod_eq_zero]
  obtain ⟨le, modEq, zero⟩ := folds
  simp only [Nat.ModEq, maxWord] at *
  omega

lemma verifies_odd {x : Nat} {rest : Bytes} (sum : Folds x (wordSum rest)) :
    maxWord ∣ wordSum rest + (maxWord - swapWord x) ∧ wordSum rest + (maxWord - swapWord x) ≠ 0 ↔
      257 ∣ wordSum rest := by
  obtain ⟨le, modEq, zero⟩ := sum
  unfold swapWord
  simp only [Nat.ModEq, maxWord] at *
  omega

lemma setChecksum_reply (b c : UInt8) (rest : Bytes) : ∃ low high,
    setChecksum 2 (0 :: 0 :: b :: c :: rest) = some (0 :: 0 :: low :: high :: rest) ∧
    (Verifies (0 :: 0 :: low :: high :: rest) ↔ rest.length % 2 = 0 ∨ 257 ∣ wordSum rest) := by
  obtain ⟨x, sum, eq⟩ :=
    internetChecksum_eq (show 2 ≤ (0 :: 0 :: 0 :: 0 :: rest : Bytes).length by simp)
  refine ⟨UInt8.ofNat (maxWord - x), UInt8.ofNat ((maxWord - x) / 256), ?_, ?_⟩
  · simp [setChecksum, eq]
  · rw [verifies_iff, wordSum_stored rest (Nat.sub_le _ _), swapWord_sub sum.le]
    rw [routineSum_reply] at sum
    split_ifs at sum with even
    · exact iff_of_true (verifies_even sum) (.inl even)
    · rw [verifies_odd sum, or_iff_right even]

/-! ## The packet that is sent -/

variable {ip mac : Bytes}

lemma length_mac_cached {ticks : Nat} {cache : ArpCache}
    (found : (arpCacheLookup ip ticks cache).1 = some mac) : mac.length = 6 := by
  induction cache with
  | nil => simp [arpCacheLookup] at found
  | cons entry cache ih =>
    simp only [arpCacheLookup] at found
    split_ifs at found
    · rw [← some.inj found]
      exact entry.macLength
    · exact ih found

lemma length_mac_answer {start : Nat} {polls : List (ArpCache × Nat)}
    (found : awaitAnswer ip start polls = some mac) : mac.length = 6 := by
  induction polls with
  | nil => simp [awaitAnswer] at found
  | cons poll polls ih =>
    simp only [awaitAnswer] at found
    cases cached : (arpCacheLookup ip poll.2 poll.1).1 with
    | some mac' =>
      rw [cached] at found
      exact length_mac_cached (cached.trans found)
    | none =>
      rw [cached] at found
      exact ih (ite_none_right_eq_some.mp found).2

lemma length_mac {requests : List Bytes}
    (found : arpLookup env ip = some (some mac, requests)) : mac.length = 6 := by
  unfold arpLookup at found
  cases cached : (arpCacheLookup ip env.ticks env.cache).1 with
  | some mac' =>
    rw [cached] at found
    simp only [some.injEq, Prod.mk.injEq] at found
    exact length_mac_cached (cached.trans (congrArg some found.1))
  | none =>
    rw [cached] at found
    obtain ⟨frame, -, eq⟩ := bind_eq_some_iff.mp found
    cases answer : awaitAnswer ip env.ticks env.polls with
    | none => simp [answer] at eq
    | some mac' =>
      simp only [answer, getD_some, pure, some.injEq, Prod.mk.injEq] at eq
      have same := (ite_none_left_eq_some.mp eq.1).2
      exact length_mac_answer (answer.trans same)

lemma wireFrame_payload (env : Env) (payload : Bytes) (length : mac.length = 6) :
    be16 (wireFrame env mac ethertypeIpv4 payload) 12 = ethertypeIpv4 ∧
    (wireFrame env mac ethertypeIpv4 payload).drop 14 =
      payload ++ List.replicate (60 - (14 + payload.length)) 0 := by
  have before : (mac ++ env.mac).length = 12 := by rw [length_append, length, env.macLength]
  have shape : wireFrame env mac ethertypeIpv4 payload = (mac ++ env.mac) ++
      (putBe16 ethertypeIpv4 ++ (payload ++ List.replicate (60 - (14 + payload.length)) 0)) := by
    simp only [wireFrame, append_assoc]
  rw [shape]
  constructor
  · rw [be16, byte_append_right before 0, byte_append_right before 1]
    rfl
  · rw [drop_append, before, drop_eq_nil_of_le (by omega)]
    rfl

variable {header : Bytes}

lemma ipv4Packet_fields {payload : Bytes} (padding : Bytes) (length : ip.length = 4)
    (fits : payload.length ≤ 1480)
    (built : setChecksum 10 (ipv4Header env ip protoIcmp payload.length) = some header) :
    message (header ++ payload ++ padding) = payload ∧
    field (header ++ payload ++ padding) 16 4 = ip ∧
    byte (header ++ payload ++ padding) 9 = protoIcmp := by
  obtain ⟨f, g, flags⟩ := length_eq_two.mp env.flagsLength
  obtain ⟨i, j, k, l, rfl⟩ := length_eq_four.mp length
  obtain ⟨low, high, rfl⟩ : ∃ low high, header = [0x45, 0] ++ putBe16 (20 + payload.length) ++
      [0, 0, f, g, 64, 1, low, high] ++ ipAddress ++ [i, j, k, l] := by
    simp only [setChecksum, bind, pure, bind_eq_some_iff, some.injEq] at built
    obtain ⟨checksum, -, rfl⟩ := built
    refine ⟨UInt8.ofNat checksum, UInt8.ofNat (checksum / 256), ?_⟩
    simp [ipv4Header, flags, putBe16, ipv4HeaderSize, protoIcmp]
  have total : totalLength ([0x45, 0] ++ putBe16 (20 + payload.length) ++
      [0, 0, f, g, 64, 1, low, high] ++ ipAddress ++ [i, j, k, l] ++ payload ++ padding) =
      20 + payload.length := by
    simp [totalLength, be16, byte, putBe16]
    omega
  refine ⟨?_, rfl, rfl⟩
  rw [message, total]
  simp [headerLength, byte, putBe16, ipAddress]

/-! ## The reply -/

/-- The frame carries a right reply to the echo request in `packet`. -/
structure Answers (packet reply : Bytes) : Prop where
  ethertype : be16 reply 12 = ethertypeIpv4
  destination : field (reply.drop 14) 16 4 = field packet 12 4
  protocol : byte (reply.drop 14) 9 = protoIcmp
  length : (message (reply.drop 14)).length = (message packet).length
  type : byte (message (reply.drop 14)) 0 = 0
  same : (message (reply.drop 14)).drop 4 = (message packet).drop 4
  verifies : Verifies (message (reply.drop 14))

/-- The handler can send a packet back to where `packet` comes from. -/
structure Env.CanAnswer (env : Env) (packet : Bytes) : Prop where
  free : env.free = true
  ready : env.txReady = true
  resolves : env.Resolves (nextHop (field packet 12 4))

/-- No options, no padding, and an even length or a sum without order. -/
structure Plain (packet : Bytes) : Prop where
  header : headerLength packet = 20
  total : totalLength packet = packet.length
  sum : (message packet).length % 2 = 0 ∨ 257 ∣ wordSum ((message packet).drop 4)

/-- The reply before its checksum is set. -/
def echoed (env : Env) (packet : Bytes) : Bytes :=
  (((bufferOf env packet).drop (headerLength packet)).take (packet.length - 20)).set 0 0

lemma length_echoed (min : 46 ≤ data.length) (max : data.length ≤ 1500) :
    (echoed env data).length = data.length - 20 := by
  have header : headerLength data < 64 := by
    unfold headerLength
    omega
  rw [echoed, length_set, length_take, length_drop, length_bufferOf max]
  omega

lemma handleIcmp_eq_some {outcome : Outcome} (min : 46 ≤ data.length) (max : data.length ≤ 1500)
    (echo : IsEchoRequest env data) : handleIcmp env data = some outcome ↔
      ∃ buf sent, setChecksum 2 (echoed env data) = some buf ∧
        sendIpv4Packet env (field data 12 4) protoIcmp buf = some sent ∧
        { cache := env.cache, sent := sent } = outcome := by
  have length : sub32 data.length ipv4HeaderSize = data.length - 20 :=
    sub32_eq (by unfold wordSize; omega) (by unfold ipv4HeaderSize; omega)
  have type : byte ((bufferOf env data).drop (headerLength data)) 0 = icmpEchoRequest := by
    rw [byte_drop]
    exact echo
  simp only [handleIcmp, length]
  rw [← headerLength, if_pos type]
  simp only [echoed, bind, pure, bind_eq_some_iff, some.injEq]
  exact ⟨fun ⟨buf, built, sent, rest⟩ => ⟨buf, sent, built, rest⟩,
    fun ⟨buf, sent, built, rest⟩ => ⟨buf, built, sent, rest⟩⟩

/-- A request reaches the handler if the check of its header succeeds. -/
lemma receive_icmp (env : Env) (card : Card) (ipv4 : frame.ethertype = ethertypeIpv4)
    (icmp : byte frame.payload 9 = protoIcmp) : receive env card frame =
    if HeaderSound frame.payload then
      if env.free then handleIcmp env (clearChecksum frame.payload)
      else some { cache := env.cache, sent := [] }
    else none := by
  have untagged : frame.ethertype ≠ 0x8100 := by rw [ipv4]; decide
  have notArp : frame.ethertype ≠ ethertypeArp := by rw [ipv4]; decide
  rw [receive, rxHandler_eq, if_neg untagged, if_neg notArp, if_pos ipv4, if_pos icmp]
  split_ifs with sound <;> simp [*, handle]

namespace EchoRequest

variable {packet : Bytes}

lemma isEchoRequest (request : EchoRequest packet) : IsEchoRequest env packet := by
  have long := request.long
  have total := request.total
  have type := request.type
  rw [message, byte_take (by omega), byte_drop, Nat.add_zero] at type
  have inside : headerLength packet < packet.length := by omega
  rw [IsEchoRequest, ← headerLength, ← type, byte, byte, bufferOf]
  simp only [append_assoc, getD_eq_getElem?_getD]
  rw [getElem?_append_left inside]

lemma message_eq (request : EchoRequest packet) : ∃ b c,
    message packet = 8 :: 0 :: b :: c :: (message packet).drop 4 := by
  have length : (message packet).length = totalLength packet - headerLength packet := by
    have total := request.total
    rw [message, length_take, length_drop]
    omega
  have long := request.long
  have type := request.type
  have code := request.code
  match eq : message packet with
  | [] | [_] | [_, _] | [_, _, _] => simp only [eq, length_cons, length_nil] at length; omega
  | a :: d :: b :: c :: rest =>
    rw [eq] at type code
    have first : a = 8 := UInt8.toNat_inj.mp type
    have second : d = 0 := UInt8.toNat_inj.mp code
    exact ⟨b, c, by rw [first, second]; rfl⟩

lemma headerSound (request : EchoRequest packet) (plain : headerLength packet = 20) :
    HeaderSound packet := by
  have checksum := request.checksum
  rwa [plain] at checksum

end EchoRequest

lemma headerLength_clearChecksum (packet : Bytes) :
    headerLength (clearChecksum packet) = headerLength packet := by
  rw [headerLength, headerLength, byte_clearChecksum (by decide)]

lemma echoed_eq {packet : Bytes} (long : 20 ≤ packet.length) (header : headerLength packet = 20)
    (total : totalLength packet = packet.length) :
    echoed env (clearChecksum packet) = (message packet).set 0 0 := by
  have length : (clearChecksum packet).length = packet.length := by simp [clearChecksum]
  have rest : (clearChecksum packet).drop 20 = packet.drop 20 := by
    rw [clearChecksum, drop_set_of_lt (by omega), drop_set_of_lt (by omega)]
  rw [echoed, headerLength_clearChecksum, header, length, message, header, total, bufferOf]
  simp only [append_assoc]
  rw [drop_append_of_le_length (by omega), rest, take_append_of_le_length (by simp)]

/-- What the handler builds is a right reply exactly to a plain request. -/
lemma reply_right_iff {packet buf : Bytes} (request : EchoRequest packet) (min : 46 ≤ packet.length)
    (max : packet.length ≤ 1500)
    (built : setChecksum 2 (echoed env (clearChecksum packet)) = some buf) :
    (buf.length = (message packet).length ∧ byte buf 0 = 0 ∧ buf.drop 4 = (message packet).drop 4 ∧
      Verifies buf) ↔ Plain packet := by
  have total := request.total
  have options := request.header
  have length : (clearChecksum packet).length = packet.length := by simp [clearChecksum]
  have copied : buf.length = packet.length - 20 := by
    rw [length_setChecksum built, length_echoed (by omega) (by omega), length]
  have carried : (message packet).length = totalLength packet - headerLength packet := by
    rw [message, length_take, length_drop]
    omega
  -- the lengths agree only without options and padding
  by_cases plain : headerLength packet = 20 ∧ totalLength packet = packet.length
  swap
  · exact iff_of_false (fun h => plain (by omega)) fun h => plain ⟨h.header, h.total⟩
  obtain ⟨noOptions, noPadding⟩ := plain
  obtain ⟨b, c, eq⟩ := request.message_eq
  obtain ⟨low, high, reply, verifies⟩ := setChecksum_reply b c ((message packet).drop 4)
  have source : echoed env (clearChecksum packet) =
    0 :: 0 :: b :: c :: (message packet).drop 4 := by
    rw [echoed_eq (by omega) noOptions noPadding, eq]
    rfl
  rw [source, reply, some.injEq] at built
  have parity : ((message packet).drop 4).length % 2 = (message packet).length % 2 := by
    rw [length_drop]
    omega
  rw [parity] at verifies
  constructor
  · rintro ⟨-, -, -, ok⟩
    exact ⟨noOptions, noPadding, verifies.mp (built ▸ ok)⟩
  · intro h
    refine ⟨by omega, by rw [← built]; rfl, by rw [← built]; rfl, ?_⟩
    exact built ▸ verifies.mpr h.sum

lemma answers_iff {packet buf : Bytes} (length : mac.length = 6)
    (fits : buf.length ≤ 1480)
    (built : setChecksum 10 (ipv4Header env (field packet 12 4) protoIcmp buf.length) =
      some header) :
    Answers packet (wireFrame env mac ethertypeIpv4 (header ++ buf)) ↔
      buf.length = (message packet).length ∧ byte buf 0 = 0 ∧
        buf.drop 4 = (message packet).drop 4 ∧ Verifies buf := by
  obtain ⟨ethertype, payload⟩ := wireFrame_payload env (header ++ buf) length
  obtain ⟨carried, destination, protocol⟩ := ipv4Packet_fields
    (List.replicate (60 - (14 + (header ++ buf).length)) 0) (length_field packet 12 4) fits built
  rw [← payload] at carried destination protocol
  constructor
  · rintro ⟨-, -, -, length, type, same, verifies⟩
    rw [carried] at length type same verifies
    exact ⟨length, type, same, verifies⟩
  · rintro ⟨length, type, same, verifies⟩
    rw [← carried] at length type same verifies
    exact ⟨ethertype, destination, protocol, length, type, same, verifies⟩

/-- An echo request is answered rightly exactly if it is plain and can be answered. -/
theorem echo_answered_iff (env : Env) (card : Card) (frame : Frame)
    (ipv4 : frame.ethertype = ethertypeIpv4) (request : EchoRequest frame.payload) :
    (∃ outcome reply, receive env card frame = some outcome ∧ outcome.sent.getLast? = some reply ∧
      Answers frame.payload reply) ↔ Plain frame.payload ∧ env.CanAnswer frame.payload := by
  have min := frame.min
  have max := frame.max
  have payload := frame.length_payload
  have length : (clearChecksum frame.payload).length =
    frame.payload.length := by simp [clearChecksum]
  have echo : IsEchoRequest env (clearChecksum frame.payload) :=
    (isEchoRequest_clearChecksum (by omega)).mpr request.isEchoRequest
  have size {buf : Bytes}
      (built : setChecksum 2 (echoed env (clearChecksum frame.payload)) = some buf) :
      buf.length ≤ 1480 := by
    rw [length_setChecksum built, length_echoed (by omega) (by omega)]
    omega
  have address : (field frame.payload 12 4).length = 4 := length_field _ _ _
  rw [receive_icmp env card ipv4 request.protocol]
  constructor
  · rintro ⟨outcome, reply, result, last, answers⟩
    obtain ⟨sound, result⟩ := ite_none_right_eq_some.mp result
    cases free : env.free
    · rw [free] at result
      cases result
      simp at last
    · rw [free, if_pos rfl, handleIcmp_eq_some (by omega) (by omega) echo] at result
      obtain ⟨buf, sent, built, sending, rfl⟩ := result
      rw [field_clearChecksum] at sending
      have fits := size built
      obtain ⟨ready, header, mac, requests, headed, lookup, rfl⟩ :=
        (sendIpv4Packet_eq_some address fits).mp sending
      rw [getLast?_concat, some.injEq] at last
      rw [← last, answers_iff (length_mac lookup) fits headed,
        reply_right_iff request (by omega) (by omega) built] at answers
      exact ⟨answers, free, ready,
        (arpLookup_iff (length_nextHop address) ready).mp ⟨mac, requests, lookup⟩⟩
  · rintro ⟨plain, free, ready, resolves⟩
    obtain ⟨buf, built⟩ := isSome_iff_exists.mp (setChecksum_isSome
      (show 2 ≤ (echoed env (clearChecksum frame.payload)).length by
        rw [length_echoed (by omega) (by omega)]; omega))
    have fits := size built
    obtain ⟨sent, sending⟩ := isSome_iff_exists.mp
      ((sendIpv4Packet_isSome env protoIcmp address fits).mpr ⟨ready, resolves⟩)
    obtain ⟨-, header, mac, requests, headed, lookup, rfl⟩ :=
      (sendIpv4Packet_eq_some address fits).mp sending
    refine ⟨⟨env.cache, requests ++ [wireFrame env mac ethertypeIpv4 (header ++ buf)]⟩, _, ?_,
      getLast?_concat, ?_⟩
    · rw [if_pos (request.headerSound plain.header), if_pos free,
        handleIcmp_eq_some (by omega) (by omega) echo, field_clearChecksum]
      exact ⟨buf, _, built, sending, rfl⟩
    · rw [answers_iff (length_mac lookup) fits headed]
      exact (reply_right_iff request (by omega) (by omega) built).mpr plain

/-- The gateway is in the cache. -/
def neighbourEnv : Env :=
  { idleEnv with cache := [⟨gateway, [2, 0, 0, 0, 0, 2], by decide, 0⟩] }

/-- A request from the gateway with the given IPv4 length and header checksum, and zeros as data. -/
def pingPacket (total low : UInt8) (zeros : Nat) : Bytes :=
  [0x45, 0, 0, total, 0, 0, 0, 0, 64, 1, 229, low] ++ gateway ++ ipAddress ++
    [8, 0, 247, 253, 0, 1, 0, 1] ++ List.replicate zeros 0

def pingFrame (total low : UInt8) (zeros : Fin 20) : Frame where
  bytes := List.replicate 12 0 ++ putBe16 ethertypeIpv4 ++ pingPacket total low (18 + zeros)
  min := by
    simp [putBe16, pingPacket, gateway, ipAddress]
  max := by
    simp [putBe16, pingPacket, gateway, ipAddress]
    omega

theorem echo_answered_iff_plainPing :
    ∃ outcome reply, receive neighbourEnv idleCard (pingFrame 46 115 0) = some outcome ∧
      outcome.sent.getLast? = some reply ∧ Answers (pingFrame 46 115 0).payload reply := by
  have request : EchoRequest (pingFrame 46 115 0).payload := by constructor <;> decide
  have plain : Plain (pingFrame 46 115 0).payload := by constructor <;> decide
  have canAnswer : neighbourEnv.CanAnswer (pingFrame 46 115 0).payload :=
    ⟨rfl, rfl, .inl (by decide)⟩
  exact (echo_answered_iff neighbourEnv idleCard (pingFrame 46 115 0) (by decide) request).mpr
    ⟨plain, canAnswer⟩

/-- The reply to a request of eight bytes, which the frame pads, is 26 bytes long; the checksum for
27 bytes is wrong. -/
theorem echo_replies_wrong :
    (EchoRequest (pingFrame 28 133 0).payload ∧ (message (pingFrame 28 133 0).payload).length = 8 ∧
      (receive neighbourEnv idleCard (pingFrame 28 133 0)).map (fun outcome =>
        outcome.sent.map fun reply => (message (reply.drop 14)).length) = some [26]) ∧
    EchoRequest (pingFrame 47 114 1).payload ∧
      (receive neighbourEnv idleCard (pingFrame 47 114 1)).map (fun outcome =>
        outcome.sent.map fun reply => decide (Verifies (message (reply.drop 14)))) =
          some [false] := by
  refine ⟨⟨?_, by decide, by decide +kernel⟩, ?_, by decide +kernel⟩
  · constructor <;> decide
  · constructor <;> decide

/-! ## The header of a packet -/

/-- The stack has other contents where the header is built. -/
def Env.withFlags (env : Env) (f g : UInt8) : Env :=
    { env with flags := [f, g], flagsLength := rfl }

/-- `send_ipv4_packet` hands a packet to the card. -/
def Env.CanSend (env : Env) (ip payload : Bytes) : Prop :=
  payload.length ≤ 1500 - ipv4HeaderSize ∧ env.txReady = true ∧ env.Resolves (nextHop ip)

/-- What is sent does not depend on the old contents of the stack. -/
def Determined (env : Env) (ip : Bytes) (protocol : Nat) (payload : Bytes) : Prop :=
  ∀ f g, sendIpv4Packet (env.withFlags f g) ip protocol payload =
    sendIpv4Packet env ip protocol payload

/-- The header of a packet that is sent verifies. -/
def HeaderVerifies (env : Env) (ip : Bytes) (protocol : Nat) (payload : Bytes) : Prop :=
  ∀ sent frame, sendIpv4Packet env ip protocol payload = some sent → sent.getLast? = some frame →
    Verifies ((frame.drop 14).take ipv4HeaderSize)

lemma ipv4Header_built {protocol size : Nat} (length : ip.length = 4)
    (built : setChecksum 10 (ipv4Header env ip protocol size) = some header) :
    Verifies header ∧ (header.drop 6).take 2 = env.flags := by
  obtain ⟨f, g, flags⟩ := length_eq_two.mp env.flagsLength
  obtain ⟨i, j, k, l, rfl⟩ := length_eq_four.mp length
  have zeroed : ((ipv4Header env [i, j, k, l] protocol size).set 10 0).set 11 0 =
      ipv4Header env [i, j, k, l] protocol size := by
    simp [ipv4Header, flags, putBe16]
  have even := length_ipv4Header env length protocol size
  simp only [setChecksum, zeroed, bind, pure, bind_eq_some_iff, some.injEq] at built
  rw [internetChecksum_even (by rw [even]; decide) (by rw [even]; decide)] at built
  obtain ⟨c, eq, rfl⟩ := built
  have folds := onesSum_folds (ipv4Header env [i, j, k, l] protocol size)
  have small : c ≤ maxWord := by
    have := some.inj eq
    omega
  have sum : wordSum (((ipv4Header env [i, j, k, l] protocol size).set 10 (UInt8.ofNat c)).set 11
      (UInt8.ofNat (c / 256))) = wordSum (ipv4Header env [i, j, k, l] protocol size) +
        swapWord c := by
    unfold maxWord at small
    simp [ipv4Header, flags, putBe16, wordSum_cons_cons, ipAddress, swapWord]
    omega
  refine ⟨?_, by simp [ipv4Header, flags, putBe16]⟩
  rw [verifies_iff, sum, ← some.inj eq, swapWord_sub folds.swap.le]
  exact verifies_even folds.swap

lemma sent_header {payload : Bytes} {protocol : Nat} {sent : List Bytes} (length : ip.length = 4)
    (sends : sendIpv4Packet env ip protocol payload = some sent) : ∃ frame,
      sent.getLast? = some frame ∧ Verifies ((frame.drop 14).take ipv4HeaderSize) ∧
        (frame.drop 20).take 2 = env.flags := by
  have fits : payload.length ≤ 1500 - ipv4HeaderSize := by
    simp only [sendIpv4Packet, bind, bind_eq_some_iff, kassert_eq_some, exists_const] at sends
    exact sends.1
  obtain ⟨-, header, mac, requests, built, lookup, rfl⟩ :=
    (sendIpv4Packet_eq_some length fits).mp sends
  obtain ⟨-, carried⟩ := wireFrame_payload env (header ++ payload) (length_mac lookup)
  have size :=
    (length_setChecksum built).trans (length_ipv4Header env length protocol payload.length)
  obtain ⟨verifies, flags⟩ := ipv4Header_built length built
  refine ⟨_, getLast?_concat, ?_, ?_⟩
  · rwa [carried, append_assoc, ← size, take_left]
  · rw [show 20 = 14 + 6 from rfl, ← drop_drop, carried, append_assoc,
      drop_append_of_le_length (by rw [size]; decide), take_append_of_le_length, flags]
    rw [length_drop, size]
    decide

/-- A packet that is sent has a right header checksum, but its flags and fragment offset come from
the stack. -/
theorem ipv4Packet_determined_iff (env : Env) {ip : Bytes} (length : ip.length = 4) (protocol : Nat)
    (payload : Bytes) :
    HeaderVerifies env ip protocol payload ∧ Determined env ip protocol payload ↔
      ¬ env.CanSend ip payload := by
  have verifies : HeaderVerifies env ip protocol payload := by
    intro sent frame sends last
    obtain ⟨frame', last', verifies, -⟩ := sent_header length sends
    rwa [some.inj (last.symm.trans last')]
  have isSome (env : Env) : (sendIpv4Packet env ip protocol payload).isSome ↔
    env.CanSend ip payload := by
    by_cases fits : payload.length ≤ 1500 - ipv4HeaderSize
    · rw [sendIpv4Packet_isSome env protocol length fits, Env.CanSend, and_iff_right fits]
    · simp [sendIpv4Packet, kassert, fits, Env.CanSend]
  rw [and_iff_right verifies]
  constructor
  · intro determined can
    obtain ⟨sent, sends⟩ := isSome_iff_exists.mp ((isSome env).mpr can)
    -- with two pairs of bytes on the stack, the flags of the packet would be both
    have flags (f g : UInt8) : env.flags = [f, g] := by
      obtain ⟨frame, last, -, old⟩ := sent_header length sends
      obtain ⟨frame', last', -, new⟩ := sent_header length ((determined f g).trans sends)
      rw [some.inj (last.symm.trans last')] at old
      exact old.symm.trans new
    simpa using (flags 0 0).symm.trans (flags 1 0)
  · intro cannot f g
    rw [not_isSome_iff_eq_none.mp (mt (isSome env).mp cannot),
      not_isSome_iff_eq_none.mp (mt (isSome (env.withFlags f g)).mp cannot)]

theorem ipv4Packet_determined_iff_gateway :
    ¬ (HeaderVerifies neighbourEnv gateway protoIcmp [8, 0] ∧
      Determined neighbourEnv gateway protoIcmp [8, 0]) :=
  (ipv4Packet_determined_iff neighbourEnv rfl protoIcmp [8, 0]).not.mpr
    (not_not.mpr ⟨by decide, rfl, .inl (by decide)⟩)

/-- Two packets to the gateway with the same arguments. -/
theorem packets_differ :
    sendIpv4Packet (neighbourEnv.withFlags 0 0) gateway protoIcmp [8, 0] ≠
      sendIpv4Packet (neighbourEnv.withFlags 0 64) gateway protoIcmp [8, 0] := by
  decide +kernel

end ExscapeOS.Net
