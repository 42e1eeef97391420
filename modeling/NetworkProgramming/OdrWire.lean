import NetworkProgramming.OdrLoopFree
import NetworkProgramming.OdrServer

/-!
# Frames as bytes

`send_packet` of `hw3/odr.c` copies the two hardware addresses and a packed
`frame_head` to a buffer which `malloc` returned and sends the buffer as a
whole; `process_frame` takes the fields from where it expects them.  A network
in which nodes exchange such buffers, with whatever happens to lie behind the
header in them, does what the network of frames does.  All numbers have to fit
their `int`.
-/

namespace NetworkProgramming.Odr

open CText MemoryImage

/-! ## The layout -/

def DataType.code : DataType → ℤ
  | .rrep => 0
  | .rreq => 1
  | .payloadReq => 2
  | .payloadResp => 3

def DataType.ofCode (code : ℤ) : Option DataType :=
  if code = 0 then some .rrep
  else if code = 1 then some .rreq
  else if code = 2 then some .payloadReq
  else if code = 3 then some .payloadResp
  else none

/-- The sizes of the fields of `frame_head`, which is packed. -/
def frameSizes : List ℕ :=
  [20, 20, 4, 4, 100, 4, 4]

/-- The bytes of a `frame_head` after `populate_frame_header`, which zeroes
it, and the copy of the message. -/
def FrameHead.image (header : FrameHead) : List UInt8 :=
  [strcpy (zeros 20) header.srcIp.bytes,
    strcpy (zeros 20) header.destIp.bytes, signedWord 4 header.hopCount,
    signedWord 4 header.bcId, strcpy (zeros 100) header.msg.bytes,
    signedWord 4 header.forceFlag, signedWord 4 header.type.code].flatten

/-- The buffer which is sent: `proto` are the two bytes of the protocol. -/
def sendPacket (proto buffer : List UInt8) (frame : Frame) : List UInt8 :=
  copyTo 14 frame.header.image
    (copyTo 12 proto
      (copyTo 6 frame.srcMac.toList (copyTo 0 frame.destMac.toList buffer)))

/-- A string in an array; `none` if there is no terminator in it. -/
def readText (size : ℕ) (field : List UInt8) : Option (CString size) :=
  if hfits : (text field).length < size then
    some ⟨text field, text_nonzero, hfits⟩
  else none

def readMac (bytes : List UInt8) : Option Mac :=
  if hlength : (bytes.take 6).length = 6 then
    some ⟨bytes.take 6, hlength⟩
  else none

/-- The `frame_head` which `process_frame` copies from a buffer. -/
def FrameHead.ofImage (bytes : List UInt8) : Option FrameHead := do
  let fields := frameSizes.splitLengths bytes
  let srcIp ← readText 20 (fields.getD 0 [])
  let destIp ← readText 20 (fields.getD 1 [])
  let hopCount ← (ofSignedWord (fields.getD 2 [])).toNat?
  let bcId ← (ofSignedWord (fields.getD 3 [])).toNat?
  let msg ← readText 100 (fields.getD 4 [])
  let type ← DataType.ofCode (ofSignedWord (fields.getD 6 []))
  return ⟨srcIp, destIp, hopCount, bcId, msg,
    ofSignedWord (fields.getD 5 []), type⟩

/-- What `process_frame` makes of a buffer; `ifIndex` is not part of it. -/
def Frame.ofBytes (bytes : List UInt8) (ifIndex : ℤ) : Option Frame := do
  let destMac ← readMac bytes
  let srcMac ← readMac (bytes.drop 6)
  let header ← FrameHead.ofImage (bytes.drop 14)
  return ⟨destMac, srcMac, ifIndex, header⟩

/-! ## Reading back -/

theorem readText_strcpy
    {size : ℕ} (string : CString size) :
    readText size (strcpy (zeros size) string.bytes) = some string := by
  have htext : text (strcpy (zeros size) string.bytes) = string.bytes := by
    rw [text_strcpy, text_eq_self string.nonzero]
  simp only [readText, htext, string.fits, dif_pos]

theorem length_strcpy_string
    {size : ℕ} (string : CString size) :
    (strcpy (zeros size) string.bytes).length = size := by
  have hfits := string.fits
  have hroom : (text string.bytes).length < (zeros size).length := by
    rw [text_eq_self string.nonzero, zeros, List.length_replicate]
    exact hfits
  rw [length_strcpy hroom, zeros, List.length_replicate]

theorem readMac_append (mac : Mac) (rest : List UInt8) :
    readMac (mac.toList ++ rest) = some mac := by
  have htake : (mac.toList ++ rest).take 6 = mac.toList :=
    List.take_left' mac.toList_length
  simp only [readMac, htake, List.Vector.toList_length, dif_pos]
  rfl

theorem DataType.ofCode_code (type : DataType) :
    DataType.ofCode type.code = some type := by
  cases type <;> rfl

/-- The numbers of a header fit their `int`. -/
structure FrameHead.InRange (header : FrameHead) : Prop where
  hopCount_lt : header.hopCount < 2 ^ 31
  bcId_lt : header.bcId < 2 ^ 31
  forceFlag_min : -2 ^ 31 ≤ header.forceFlag
  forceFlag_max : header.forceFlag < 2 ^ 31

instance (header : FrameHead) : Decidable header.InRange :=
  decidable_of_iff
    (header.hopCount < 2 ^ 31 ∧ header.bcId < 2 ^ 31 ∧
      -2 ^ 31 ≤ header.forceFlag ∧ header.forceFlag < 2 ^ 31)
    ⟨fun h => ⟨h.1, h.2.1, h.2.2.1, h.2.2.2⟩,
      fun h => ⟨h.hopCount_lt, h.bcId_lt, h.forceFlag_min,
        h.forceFlag_max⟩⟩

theorem length_image (header : FrameHead) : header.image.length = 156 := by
  simp only [FrameHead.image, List.length_flatten, List.map_cons,
    List.map_nil, length_strcpy_string, length_signedWord]
  rfl

theorem readInt {n : ℤ} (hmin : -2 ^ 31 ≤ n) (hmax : n < 2 ^ 31) :
    ofSignedWord (signedWord 4 n) = n :=
  ofSignedWord_signedWord_of_le (by omega) (by omega)

theorem FrameHead.ofImage_image
    {header : FrameHead} (hrange : header.InRange) (rest : List UInt8) :
    FrameHead.ofImage (header.image ++ rest) = some header := by
  obtain ⟨hhops, hbcId, hflagMin, hflagMax⟩ := hrange
  have hfields : frameSizes.splitLengths (header.image ++ rest) =
      [strcpy (zeros 20) header.srcIp.bytes,
        strcpy (zeros 20) header.destIp.bytes,
        signedWord 4 header.hopCount, signedWord 4 header.bcId,
        strcpy (zeros 100) header.msg.bytes,
        signedWord 4 header.forceFlag,
        signedWord 4 header.type.code] := by
    have hsplit := splitLengths_flatten_append
      [strcpy (zeros 20) header.srcIp.bytes,
        strcpy (zeros 20) header.destIp.bytes,
        signedWord 4 header.hopCount, signedWord 4 header.bcId,
        strcpy (zeros 100) header.msg.bytes,
        signedWord 4 header.forceFlag, signedWord 4 header.type.code] rest
    simp only [List.map_cons, List.map_nil, length_strcpy_string,
      length_signedWord] at hsplit
    exact hsplit
  have hhopsRead := readInt (n := header.hopCount) (by omega) (by omega)
  have hbcIdRead := readInt (n := header.bcId) (by omega) (by omega)
  have htype : ofSignedWord (signedWord 4 header.type.code) =
      header.type.code := by
    cases header.type <;> exact readInt (by decide) (by decide)
  simp only [FrameHead.ofImage, hfields, List.getD_cons_zero,
    List.getD_cons_succ, readText_strcpy, hhopsRead, hbcIdRead,
    readInt hflagMin hflagMax, htype, DataType.ofCode_code]
  rfl

/-- Whatever the buffer held, the frame is read back from it. -/
theorem Frame.ofBytes_sendPacket
    {frame : Frame} (hrange : frame.header.InRange)
    {proto : List UInt8} (hproto : proto.length = 2)
    (buffer : List UInt8) :
    Frame.ofBytes (sendPacket proto buffer frame) frame.ifIndex =
      some frame := by
  have hmac : ∀ mac : Mac, mac.toList.length = 6 :=
    List.Vector.toList_length
  have hbytes : sendPacket proto buffer frame =
      frame.destMac.toList ++ (frame.srcMac.toList ++ (proto ++
        (frame.header.image ++ buffer.drop 170))) := by
    have hstart : copyTo 0 frame.destMac.toList buffer =
        frame.destMac.toList ++ buffer.drop 6 := by
      have hcopy := copyTo_append (rfl : ([] : List UInt8).length = 0)
        frame.destMac.toList buffer
      rwa [hmac] at hcopy
    rw [sendPacket, hstart, copyTo_append (hmac frame.destMac),
      copyTo_append (by simp only [List.length_append, hmac]),
      copyTo_append (by simp only [List.length_append, hmac, hproto])]
    simp only [hmac, hproto, length_image, List.drop_drop,
      List.append_assoc]
  have hsrc : (sendPacket proto buffer frame).drop 6 =
      frame.srcMac.toList ++ (proto ++
        (frame.header.image ++ buffer.drop 170)) := by
    rw [hbytes, List.drop_left' (hmac frame.destMac)]
  have hheader : (sendPacket proto buffer frame).drop 14 =
      frame.header.image ++ buffer.drop 170 := by
    have hdrop := congrArg (List.drop 8) hsrc
    rw [List.drop_drop, ← List.append_assoc, List.drop_left' (by
      rw [List.length_append, hmac, hproto])] at hdrop
    exact hdrop
  simp only [Frame.ofBytes, hsrc, hheader, readMac_append,
    FrameHead.ofImage_image hrange]
  rw [hbytes, readMac_append]
  rfl

/-! ## The network of buffers -/

variable {Host : Type*}

/-- A buffer on the network, with the interface it left through and the trail
of its frame. -/
structure WirePacket (Host : Type*) where
  bytes : List UInt8
  ifIndex : ℤ
  trail : List Host
  deriving DecidableEq

structure WireNetwork (Host : Type*) where
  node : Host → Node
  sent : List (WirePacket Host)

/-- `buffers` are the memories which `malloc` returns in the course of an
event. -/
inductive WireEvent (Host : Type*) where
  | receive (host : Host) (packet : WirePacket Host) (outside : Outside)
      (buffers : ℕ → List UInt8)
  | client (host : Host) (peer : PeerInfo) (buffers : ℕ → List UInt8)
  | timeout (host : Host)

def WirePacket.decode (packet : WirePacket Host) : Option (Packet Host) :=
  (Frame.ofBytes packet.bytes packet.ifIndex).map (Packet.mk · packet.trail)

def sendPackets (proto : List UInt8) (frames : List Frame)
    (trail : List Host) (buffers : ℕ → List UInt8) :
    List (WirePacket Host) :=
  frames.mapIdx fun i frame =>
    ⟨sendPacket proto (buffers i) frame, frame.ifIndex, trail⟩

section Step

variable [DecidableEq Host]

def WireNetwork.act (proto : List UInt8) (network : WireNetwork Host)
    (host : Host) (outcome : Outcome) (trail : List Host)
    (buffers : ℕ → List UInt8) : WireNetwork Host where
  node := Function.update network.node host outcome.node
  sent := sendPackets proto outcome.frames trail buffers ++ network.sent

/-- The outcome of an event at a node and the trail of what it sends; `none`
if the event is not possible. -/
def WireNetwork.outcome (network : WireNetwork Host) :
    WireEvent Host → Option (Host × Outcome × List Host)
  | .receive host packet outside _ =>
      packet.decode.bind fun read =>
        if (network.node host).overrun = false ∧ packet ∈ network.sent ∧
            (network.node host).Accepts read.frame then
          some (host, (network.node host).processFrame read.frame outside,
            read.nextTrail host (network.node host))
        else none
  | .client host peer _ =>
      if (network.node host).overrun = false then
        some (host, (network.node host).clientRequest peer, [host])
      else none
  | .timeout host =>
      if (network.node host).overrun = false then
        some (host, ⟨(network.node host).initRoutingTable, [], none⟩,
          [host])
      else none

def WireEvent.buffers : WireEvent Host → ℕ → List UInt8
  | .receive _ _ _ buffers => buffers
  | .client _ _ buffers => buffers
  | .timeout _ => fun _ => []

def WireNetwork.step (proto : List UInt8) (network : WireNetwork Host)
    (event : WireEvent Host) : Option (WireNetwork Host) :=
  (network.outcome event).map fun (host, outcome, trail) =>
    network.act proto host outcome trail event.buffers

/-- No number of a frame which is sent overflows. -/
def WireNetwork.InRange (network : WireNetwork Host)
    (event : WireEvent Host) : Prop :=
  ∀ acted ∈ network.outcome event, ∀ frame ∈ acted.2.1.frames,
    frame.header.InRange

instance (network : WireNetwork Host) (event : WireEvent Host) :
    Decidable (network.InRange event) :=
  inferInstanceAs (Decidable (∀ _ ∈ _, ∀ _ ∈ _, _))

end Step

def WireNetwork.Initial (site : Site Host) (network : WireNetwork Host) :
    Prop :=
  network = ⟨fun h => Node.start (site.serv h), []⟩

/-- The same nodes, and the buffers are those of the frames. -/
structure WireNetwork.Follows (wire : WireNetwork Host)
    (network : Network Host) : Prop where
  node_eq : wire.node = network.node
  sent_eq : wire.sent.map WirePacket.decode = network.sent.map some

/-- Everything which is on the network can be read. -/
theorem WireNetwork.Follows.decode
    {wire : WireNetwork Host} {network : Network Host}
    (hfollows : wire.Follows network) {packet : WirePacket Host}
    (hmem : packet ∈ wire.sent) :
    ∃ read ∈ network.sent, packet.decode = some read := by
  have hdecode : packet.decode ∈ network.sent.map some := by
    rw [← hfollows.sent_eq]
    exact List.mem_map_of_mem hmem
  obtain ⟨read, hread, heq⟩ := List.mem_map.mp hdecode
  exact ⟨read, hread, heq.symm⟩

theorem decode_sendPackets
    {proto : List UInt8} (hproto : proto.length = 2) {frames : List Frame}
    (hrange : ∀ frame ∈ frames, frame.header.InRange) (trail : List Host)
    (buffers : ℕ → List UInt8) :
    (sendPackets proto frames trail buffers).map WirePacket.decode =
      (frames.map (Packet.mk · trail)).map some := by
  induction frames generalizing buffers with
  | nil => rfl
  | cons frame rest ih =>
      obtain ⟨hframe, hrest⟩ := List.forall_mem_cons.mp hrange
      have hfirst : WirePacket.decode
          ⟨sendPacket proto (buffers 0) frame, frame.ifIndex, trail⟩ =
          some ⟨frame, trail⟩ := by
        rw [WirePacket.decode, Frame.ofBytes_sendPacket hframe hproto]
        rfl
      have hlater := ih hrest fun i => buffers (i + 1)
      rw [sendPackets, List.mapIdx_cons, List.map_cons, hfirst]
      exact congrArg (some ⟨frame, trail⟩ :: ·) hlater

section Simulation

variable [DecidableEq Host] {proto : List UInt8}
variable {wire : WireNetwork Host} {network : Network Host}

theorem WireNetwork.Follows.act
    (hfollows : wire.Follows network) (hproto : proto.length = 2)
    (host : Host) {outcome : Outcome}
    (hrange : ∀ frame ∈ outcome.frames, frame.header.InRange)
    (trail : List Host) (buffers : ℕ → List UInt8) :
    (wire.act proto host outcome trail buffers).Follows
      (network.act host outcome trail) := by
  constructor
  case node_eq =>
    rw [WireNetwork.act, Network.act, hfollows.node_eq]
  case sent_eq =>
    simp only [WireNetwork.act, Network.act, List.map_append,
      hfollows.sent_eq, decode_sendPackets hproto hrange]

/-- An event of the buffers is an event of the frames. -/
theorem WireNetwork.Follows.event
    (hfollows : wire.Follows network) {event : WireEvent Host}
    {host : Host} {outcome : Outcome} {trail : List Host}
    (houtcome : wire.outcome event = some (host, outcome, trail)) :
    ∃ event', network.step event' =
      some (network.act host outcome trail) := by
  cases event with
  | receive at' packet outside buffers =>
      obtain ⟨read, hread, hacts⟩ := Option.bind_eq_some_iff.mp houtcome
      simp only [Option.ite_none_right_eq_some, Option.some.injEq,
        Prod.mk.injEq] at hacts
      obtain ⟨⟨hrunning, hsent, haccepts⟩, rfl, rfl, rfl⟩ := hacts
      obtain ⟨found, hfound, hdecode⟩ := hfollows.decode hsent
      obtain rfl : read = found :=
        Option.some.inj (hread.symm.trans hdecode)
      rw [hfollows.node_eq] at hrunning haccepts ⊢
      exact ⟨.receive at' read outside,
        if_pos ⟨hrunning, hfound, haccepts⟩⟩
  | client at' peer buffers =>
      simp only [WireNetwork.outcome, Option.ite_none_right_eq_some,
        Option.some.injEq, Prod.mk.injEq] at houtcome
      obtain ⟨hrunning, rfl, rfl, rfl⟩ := houtcome
      rw [hfollows.node_eq] at hrunning ⊢
      exact ⟨.client at' peer, if_pos hrunning⟩
  | timeout at' =>
      simp only [WireNetwork.outcome, Option.ite_none_right_eq_some,
        Option.some.injEq, Prod.mk.injEq] at houtcome
      obtain ⟨hrunning, rfl, rfl, rfl⟩ := houtcome
      rw [hfollows.node_eq] at hrunning ⊢
      exact ⟨.timeout at', if_pos hrunning⟩

theorem WireNetwork.Follows.step
    (hfollows : wire.Follows network) (hproto : proto.length = 2)
    {event : WireEvent Host} {next : WireNetwork Host}
    (hrange : wire.InRange event)
    (hstep : wire.step proto event = some next) :
    ∃ event' after, network.step event' = some after ∧
      next.Follows after := by
  obtain ⟨⟨host, outcome, trail⟩, houtcome, rfl⟩ :=
    Option.map_eq_some_iff.mp hstep
  obtain ⟨event', hevent⟩ := hfollows.event houtcome
  exact ⟨event', _, hevent, hfollows.act hproto host
    (hrange (host, outcome, trail) houtcome) trail event.buffers⟩

end Simulation

/-- Whatever lies in the buffers, a network of routers which exchange buffers
does what the network of frames does: for each of its states there is one of
the network of frames with the same nodes, and what was sent are the buffers
of the frames which were sent there. -/
theorem wireNetwork_refines
    [DecidableEq Host] {site : Site Host} {proto : List UInt8}
    (hproto : proto.length = 2) {wire : WireNetwork Host}
    (hreach : Transition.Reachable (WireNetwork.step proto)
      WireNetwork.InRange (WireNetwork.Initial site) wire) :
    ∃ network,
      Transition.Reachable Network.step Transition.Unrestricted
        (Network.Initial site) network ∧
      wire.node = network.node ∧
      wire.sent.map WirePacket.decode = network.sent.map some := by
  have hinit : ∀ start : WireNetwork Host, start.Initial site →
      ∃ start', Network.Initial site start' ∧ start.Follows start' := by
    rintro start rfl
    exact ⟨⟨fun h => Node.start (site.serv h), []⟩, rfl, rfl, rfl⟩
  have hstep : ∀ (state : WireNetwork Host) (event : WireEvent Host)
      (next : WireNetwork Host) (network : Network Host),
      state.Follows network → state.InRange event →
      state.step proto event = some next →
      ∃ (event' : NetworkEvent Host) (after : Network Host),
        Transition.Unrestricted network event' ∧
        network.step event' = some after ∧ next.Follows after := by
    intro state event next network hfollows hrange hnext
    obtain ⟨event', after, hafter, hfollows'⟩ :=
      hfollows.step hproto hrange hnext
    exact ⟨event', after, trivial, hafter, hfollows'⟩
  obtain ⟨network, hnetwork, hfollows⟩ :=
    hreach.simulation WireNetwork.Follows hinit hstep
  exact ⟨network, hnetwork, hfollows.node_eq, hfollows.sent_eq⟩

/-- Memory in which every byte is a 7. -/
def usedMemory : List UInt8 :=
  List.replicate 1514 7

def lineProto : List UInt8 :=
  [5, 137]

/-- An event between nodes in a line, with the frame as bytes. -/
def lineWireEvent : NetworkEvent (Fin 3) → WireEvent (Fin 3)
  | .receive host packet outside =>
      .receive host ⟨sendPacket lineProto usedMemory packet.frame,
        packet.frame.ifIndex, packet.trail⟩ outside fun _ => usedMemory
  | .client host peer => .client host peer fun _ => usedMemory
  | .timeout host => .timeout host

def lineWireStart : WireNetwork (Fin 3) :=
  ⟨fun h => Node.start (lineSite.serv h), []⟩

theorem lineWireStart_initial : lineWireStart.Initial lineSite :=
  rfl

/-- The first node finds the last one, with buffers on the network. -/
theorem wireNetwork_refines_line :
    ∃ wire network,
      Transition.Reachable (WireNetwork.step lineProto)
        WireNetwork.InRange (WireNetwork.Initial lineSite) wire ∧
      Transition.Reachable Network.step Transition.Unrestricted
        (Network.Initial lineSite) network ∧
      wire.node = network.node ∧ network.leads 0 1 2 = true := by
  obtain ⟨wire, hreach, htest⟩ :=
    Transition.exists_reachable_of_replay (WireNetwork.step lineProto)
      WireNetwork.InRange lineWireStart_initial
      (lineDiscovery.map lineWireEvent)
      (fun wire : WireNetwork (Fin 3) =>
        Network.leads ⟨wire.node, []⟩ 0 1 2)
      (by decide +kernel)
  obtain ⟨network, hnetwork, hnode, _⟩ :=
    wireNetwork_refines (rfl : lineProto.length = 2) hreach
  refine ⟨wire, network, hreach, hnetwork, hnode, ?_⟩
  rw [hnode] at htest
  exact htest

end NetworkProgramming.Odr
