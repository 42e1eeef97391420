import NetworkProgramming.OdrPending

/-!
# What a relayed payload carries

Each node on the way of a payload makes a new frame with `send_payload`.  The
two IPs, the type and the message come from the received header; the
broadcast id is the one of the node itself.  So the destination sees, and
reports to its server, the broadcast id of the last relay.
-/

namespace NetworkProgramming.Odr

/-- A node on the way of a payload, in the state in which the frame finds it,
and what it reads from outside. -/
structure Relay where
  node : Node
  outside : Outside

/-- `final` is what is left of `frame` after the relays: each of them passed
on a frame which it does not own the destination of. -/
inductive Relayed : Frame → List Relay → Frame → Prop
  | sent (frame : Frame) : Relayed frame [] frame
  | hop {frame next final : Frame} {relay : Relay} {rest : List Relay}
      (hforeign : relay.node.owns frame.header.destIp = false)
      (hnext : next ∈
        (relay.node.processFrame frame relay.outside).frames)
      (hrest : Relayed next rest final) :
      Relayed frame (relay :: rest) final

/-- The number in front of the `#` in the text which `get_data_from_server`
sends to the local server. -/
def Node.reportedBid (node : Node) (frame : Frame) : Option ℕ :=
  if node.serves frame then some frame.header.bcId else none

/-- The fields of a payload which no node on the way changes. -/
structure FrameHead.SamePayload (header other : FrameHead) : Prop where
  srcIp : other.srcIp = header.srcIp
  destIp : other.destIp = header.destIp
  type : other.type = header.type
  msg : other.msg = header.msg

theorem FrameHead.SamePayload.trans
    {first second third : FrameHead} (hfirst : first.SamePayload second)
    (hsecond : second.SamePayload third) :
    first.SamePayload third where
  srcIp := hsecond.srcIp.trans hfirst.srcIp
  destIp := hsecond.destIp.trans hfirst.destIp
  type := hsecond.type.trans hfirst.type
  msg := hsecond.msg.trans hfirst.msg

theorem FrameHead.SamePayload.isPayload
    {header other : FrameHead} (hsame : header.SamePayload other) :
    other.isPayload = header.isPayload := by
  simp only [FrameHead.isPayload, hsame.type]

/-! ## One relay -/

theorem sendPayload_isPayload
    {node : Node} {srcIp destIp : IpText} {type : DataType} {msg : Msg}
    {force : ℤ} {frame : Frame}
    (hrow : (getRowEntry node.table destIp).isSome = true)
    (htype : type = .payloadReq ∨ type = .payloadResp)
    (hframe : frame ∈ node.sendPayload srcIp destIp type msg force) :
    frame.header.isPayload = true := by
  rcases Option.isSome_iff_exists.mp hrow with ⟨i, hentry⟩
  simp only [Node.sendPayload, hentry, List.mem_map] at hframe
  rcases hframe with ⟨sv, _, rfl⟩
  rcases htype with rfl | rfl <;> rfl

/-- A relay copies the payload and puts its own broadcast id in it. -/
theorem processFrame_relays
    {node : Node} {frame next : Frame} {outside : Outside}
    (hpayload : frame.header.isPayload = true)
    (hforeign : node.owns frame.header.destIp = false)
    (hnext : next ∈ (node.processFrame frame outside).frames) :
    frame.header.SamePayload next.header ∧
      next.header.bcId = node.broadcastId := by
  have htype : frame.header.type = .payloadReq ∨
      frame.header.type = .payloadResp := by
    simpa [FrameHead.isPayload] using hpayload
  have honPayload : (node.processFrame frame outside).frames =
      (node.onPayload frame.header outside.serverMsg).frames := by
    rcases htype with htype | htype <;>
      simp only [Node.processFrame,
        nextTable_payload hpayload outside.now, htype]
  rw [honPayload, Node.onPayload, if_neg (by simp [hforeign])] at hnext
  split at hnext
  next hrow =>
    have hsent := sendPayload_isPayload hrow htype hnext
    rcases sendPayload_header hnext hsent with
      ⟨hout, hsrc, hdest, hmsg, hbid⟩
    exact ⟨⟨hsrc, hdest, hout, hmsg⟩, hbid⟩
  next => cases hnext

/-! ## Any number of relays -/

theorem Relayed.samePayload
    {frame final : Frame} {relays : List Relay}
    (hrelayed : Relayed frame relays final)
    (hpayload : frame.header.isPayload = true) :
    frame.header.SamePayload final.header := by
  induction hrelayed with
  | sent => exact ⟨rfl, rfl, rfl, rfl⟩
  | hop hforeign hnext _ ih =>
      have hhop := (processFrame_relays hpayload hforeign hnext).1
      exact hhop.trans (ih (hhop.isPayload.trans hpayload))

/-- The broadcast id is the one of the last relay. -/
theorem Relayed.bcId
    {frame final : Frame} {relays : List Relay}
    (hrelayed : Relayed frame relays final)
    (hpayload : frame.header.isPayload = true) :
    final.header.bcId = (relays.getLast?.map
      fun relay => relay.node.broadcastId).getD frame.header.bcId := by
  induction hrelayed with
  | sent => rfl
  | @hop frame next final relay rest hforeign hnext _ ih =>
      rcases processFrame_relays hpayload hforeign hnext with
        ⟨hhop, hbid⟩
      rw [ih (hhop.isPayload.trans hpayload), hbid, List.getLast?_cons]
      cases rest.getLast? with
      | none => rfl
      | some last => rfl

/-- A payload arrives as it was sent, but for its broadcast id, which is the
one of the originator exactly when the last relay has the same. -/
theorem relayed_payload_iff
    {origin : Node} {srcIp destIp : IpText} {type : DataType} {msg : Msg}
    {force : ℤ} {frame final : Frame} {relays : List Relay}
    (hsent : frame ∈ origin.sendPayload srcIp destIp type msg force)
    (hpayload : frame.header.isPayload = true)
    (hrelayed : Relayed frame relays final) {owner : Node}
    (howns : owner.owns final.header.destIp = true) :
    final.header.srcIp = srcIp ∧ final.header.destIp = destIp ∧
      final.header.type = type ∧ final.header.msg = msg ∧
      (final.header.bcId = frame.header.bcId ↔
        ∀ last ∈ relays.getLast?,
          last.node.broadcastId = origin.broadcastId) ∧
      (type = .payloadReq →
        (owner.reportedBid final = some origin.broadcastId ↔
          ∀ last ∈ relays.getLast?,
            last.node.broadcastId = origin.broadcastId)) := by
  rcases sendPayload_header hsent hpayload with
    ⟨htype, hsrc, hdest, hmsg, hbid⟩
  have hsame := hrelayed.samePayload hpayload
  have hfinalType := hsame.type.trans htype
  have hlast : final.header.bcId = origin.broadcastId ↔
      ∀ last ∈ relays.getLast?,
        last.node.broadcastId = origin.broadcastId := by
    rw [hrelayed.bcId hpayload, hbid]
    cases relays.getLast? with
    | none => simp
    | some last => simp
  refine ⟨hsame.srcIp.trans hsrc, hsame.destIp.trans hdest, hfinalType,
    hsame.msg.trans hmsg, ?_, ?_⟩
  · rw [hbid]
    exact hlast
  · intro hreq
    have hserves : owner.serves final = true := by
      simp [Node.serves, hfinalType, hreq, howns]
    rw [Node.reportedBid, if_pos hserves, Option.some.injEq]
    exact hlast

/-! ## One relay on the line -/

/-- A node of the line which got a reply from the last one. -/
def lineKnows (host nextHop : Fin 3) : Node :=
  ((Node.start (lineSite.serv host)).processFrame
    (lineFrame nextHop (lineMac host)
      ⟨lineIp 2, lineIp 0, 1, 2, noMsg, 0, .rrep⟩).frame quiet).node

/-- The payload request of the first node as it leaves a node. -/
def lineRequest (host nextHop : Fin 3) (bcId : ℕ) : Frame :=
  (lineFrame host (lineMac nextHop)
    ⟨lineIp 0, lineIp 2, 1, bcId, blankMsg, 0, .payloadReq⟩).frame

theorem line_relayed {bcId : ℕ}
    (hnext : lineRequest 1 2 1 ∈ ((lineKnows 1 2).processFrame
      (lineRequest 0 1 bcId) quiet).frames) :
    Relayed (lineRequest 0 1 bcId) [⟨lineKnows 1 2, quiet⟩]
      (lineRequest 1 2 1) := by
  have hforeign : (lineKnows 1 2).owns (lineIp 2) = false := by
    decide +kernel
  exact .hop hforeign hnext (.sent _)

/-- Both nodes have the broadcast id they started with. -/
theorem relayed_payload_sameBid :
    (Node.start (lineSite.serv 2)).reportedBid (lineRequest 1 2 1) =
      some (lineKnows 0 1).broadcastId := by
  have hsent : lineRequest 0 1 1 ∈ (lineKnows 0 1).sendPayload (lineIp 0)
      (lineIp 2) .payloadReq blankMsg 0 := by
    decide +kernel
  have hsame : ∀ last ∈ ([⟨lineKnows 1 2, quiet⟩] : List Relay).getLast?,
      last.node.broadcastId = (lineKnows 0 1).broadcastId := by
    intro last hlast
    cases hlast
    decide +kernel
  exact ((relayed_payload_iff hsent rfl (line_relayed (by decide +kernel))
    (by decide)).2.2.2.2.2 rfl).mpr hsame

/-- The first node had a client and counted its broadcast id up; the last one
hears of the broadcast id of the middle one. -/
theorem relayed_payload_otherBid :
    ∃ origin : Node, origin.broadcastId = 2 ∧
      lineRequest 0 1 2 ∈ origin.sendPayload (lineIp 0) (lineIp 2)
        .payloadReq blankMsg 0 ∧
      Relayed (lineRequest 0 1 2) [⟨lineKnows 1 2, quiet⟩]
        (lineRequest 1 2 1) ∧
      (lineRequest 1 2 1).header.bcId ≠ (lineRequest 0 1 2).header.bcId ∧
      (Node.start (lineSite.serv 2)).reportedBid (lineRequest 1 2 1) =
        some 1 := by
  refine ⟨((lineKnows 0 1).clientRequest (ask 2)).node, ?_, ?_,
    line_relayed (by decide +kernel), ?_, ?_⟩
  · decide +kernel
  · decide +kernel
  · decide
  · decide

end NetworkProgramming.Odr
