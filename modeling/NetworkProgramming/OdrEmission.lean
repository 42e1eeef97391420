import NetworkProgramming.OdrTable

/-!
# What a node sends

The frames of one step are sent for one of a few reasons.  `Emits` lists
them, and `processFrame_emits` and `clientRequest_emits` are the only places
where the sending functions are unfolded.
-/

namespace NetworkProgramming.Odr

open SlotTable

/-- What made a node send: a frame it received, with the local `update` of
`process_frame` and the stray bytes, or a client which asked for an IP. -/
inductive Cause where
  | frame (header : FrameHead) (update : Bool) (stray : Mac)
  | client (destIp : IpText)

/-- The payloads which a node wants to send, as source, destination and
type. -/
inductive Wants (node : Node) : Cause → IpText → IpText → DataType → Prop
  | request {sv : ServerDetails} {destIp : IpText}
      (hsv : sv ∈ node.serv) :
      Wants node (.client destIp) sv.ip destIp .payloadReq
  | routed {header : FrameHead} {update : Bool} {stray : Mac}
      (htype : header.type = .rrep)
      (howns : node.owns header.destIp = true) :
      Wants node (.frame header update stray) header.destIp header.srcIp
        .payloadReq
  | served {header : FrameHead} {update : Bool} {stray : Mac}
      (htype : header.type = .payloadReq)
      (howns : node.owns header.destIp = true) :
      Wants node (.frame header update stray) header.destIp header.srcIp
        .payloadResp
  | forwarded {header : FrameHead} {update : Bool} {stray : Mac}
      (hpayload : header.isPayload = true)
      (hforeign : node.owns header.destIp = false)
      (hrow : (getRowEntry node.table header.destIp).isSome = true) :
      Wants node (.frame header update stray) header.srcIp header.destIp
        header.type

inductive Emits (node : Node) (cause : Cause) : Frame → Prop
  | discover {srcIp destIp : IpText} {type : DataType}
      {own sv : ServerDetails} {force : ℤ}
      (hwants : Wants node cause srcIp destIp type)
      (hnone : getRowEntry node.table destIp = none)
      (hown : own ∈ node.serv) (hsv : sv ∈ node.serv) :
      Emits node cause (frameOn sv broadcastMac
        ⟨own.ip, destIp, 1, node.broadcastId, noMsg, force, .rreq⟩)
  | payload {srcIp destIp : IpText} {type : DataType} {i : Fin 100}
      {sv : ServerDetails} {msg : Msg} {force : ℤ}
      (hwants : Wants node cause srcIp destIp type)
      (hsome : getRowEntry node.table destIp = some i)
      (hsv : sv ∈ node.serv) :
      Emits node cause (frameOn sv (node.table i).nextHopMac
        ⟨srcIp, destIp, (node.table i).hopCount, node.broadcastId, msg,
          force, type⟩)
  | flood {header : FrameHead} {stray : Mac} {sv : ServerDetails}
      (hcause : cause = .frame header true stray)
      (htype : header.type = .rreq)
      (hforeign : node.owns header.destIp = false)
      (hnone : getRowEntry node.table header.destIp = none)
      (hsv : sv ∈ node.serv) :
      Emits node cause (frameOn sv broadcastMac
        ⟨header.srcIp, header.destIp, header.hopCount + 1, header.bcId,
          noMsg, header.forceFlag, .rreq⟩)
  | reply {header : FrameHead} {update : Bool} {stray : Mac}
      {sv : ServerDetails}
      (hcause : cause = .frame header update stray)
      (htype : header.type = .rreq)
      (hknown : node.owns header.destIp = true ∨
        (getRowEntry node.table header.destIp).isSome = true)
      (hsv : sv ∈ node.serv) :
      Emits node cause (frameOn sv (node.replyMac header.srcIp stray)
        ⟨header.destIp, header.srcIp, 1, header.bcId, noMsg, 0, .rrep⟩)
  | relay {header : FrameHead} {update : Bool} {stray : Mac}
      {sv : ServerDetails}
      (hcause : cause = .frame header update stray)
      (htype : header.type = .rrep)
      (hforeign : node.owns header.destIp = false)
      (hsv : sv ∈ node.serv) :
      Emits node cause (frameOn sv (node.replyMac header.destIp stray)
        ⟨header.srcIp, header.destIp, header.hopCount + 1, header.bcId,
          noMsg, 0, .rrep⟩)

theorem Wants.isPayload
    {node : Node} {cause : Cause} {srcIp destIp : IpText}
    {type : DataType} (hwants : Wants node cause srcIp destIp type) :
    type = .payloadReq ∨ type = .payloadResp := by
  cases hwants with
  | request => exact .inl rfl
  | routed => exact .inl rfl
  | served => exact .inr rfl
  | forwarded hpayload =>
      simpa [FrameHead.isPayload] using hpayload

/-- Only the send of a payload makes one: along the row of its
destination. -/
theorem Emits.wants
    {node : Node} {cause : Cause} {frame : Frame}
    (hemits : Emits node cause frame)
    (hpayload : frame.header.isPayload = true) :
    ∃ srcIp destIp type i, Wants node cause srcIp destIp type ∧
      getRowEntry node.table destIp = some i ∧
      frame.destMac = (node.table i).nextHopMac ∧
      frame.header.srcIp = srcIp ∧ frame.header.destIp = destIp ∧
      frame.header.type = type := by
  cases hemits with
  | discover => cases hpayload
  | payload hwants hsome _ =>
      exact ⟨_, _, _, _, hwants, hsome, rfl, rfl, rfl, rfl⟩
  | flood => cases hpayload
  | reply => cases hpayload
  | relay => cases hpayload

/-- A node sends a reply only because of a frame: it answers a request or
relays a reply. -/
theorem Emits.reply_cases
    {node : Node} {cause : Cause} {frame : Frame}
    (hemits : Emits node cause frame)
    (htype : frame.header.type = .rrep) :
    ∃ header update stray, cause = .frame header update stray ∧
      ((header.type = .rreq ∧
          (node.owns header.destIp = true ∨
            (getRowEntry node.table header.destIp).isSome = true) ∧
          frame.header.srcIp = header.destIp ∧
          frame.header.destIp = header.srcIp ∧
          frame.destMac = node.replyMac header.srcIp stray) ∨
        (header.type = .rrep ∧ node.owns header.destIp = false ∧
          frame.header.srcIp = header.srcIp ∧
          frame.header.destIp = header.destIp ∧
          frame.destMac = node.replyMac header.destIp stray)) := by
  cases hemits with
  | discover => cases htype
  | payload hwants =>
      rcases hwants.isPayload with rfl | rfl <;> cases htype
  | flood => cases htype
  | reply hcause hrreq hknown _ =>
      exact ⟨_, _, _, hcause, .inl ⟨hrreq, hknown, rfl, rfl, rfl⟩⟩
  | relay hcause hrrep hforeign _ =>
      exact ⟨_, _, _, hcause, .inr ⟨hrrep, hforeign, rfl, rfl, rfl⟩⟩

/-- No reply is sent for a client. -/
theorem Emits.type_ne_rrep_of_client
    {node : Node} {destIp : IpText} {frame : Frame}
    (hemits : Emits node (.client destIp) frame) :
    frame.header.type ≠ .rrep := by
  intro htype
  rcases hemits.reply_cases htype with ⟨_, _, _, hcause, _⟩
  cases hcause

theorem sendPayload_emits
    {node : Node} {cause : Cause} {srcIp destIp : IpText}
    {type : DataType} (hwants : Wants node cause srcIp destIp type)
    {msg : Msg} {force : ℤ} {frame : Frame}
    (hframe : frame ∈ node.sendPayload srcIp destIp type msg force) :
    Emits node cause frame := by
  unfold Node.sendPayload at hframe
  cases hentry : getRowEntry node.table destIp with
  | none =>
      simp only [hentry, Node.sendRreq, List.mem_flatMap,
        List.mem_map] at hframe
      rcases hframe with ⟨own, hown, sv, hsv, rfl⟩
      exact .discover hwants hentry hown hsv
  | some i =>
      simp only [hentry, List.mem_map] at hframe
      rcases hframe with ⟨sv, hsv, rfl⟩
      exact .payload hwants hentry hsv

/-- The header of a payload: the arguments of `send_payload` and the
broadcast id of the node itself. -/
theorem sendPayload_header
    {node : Node} {srcIp destIp : IpText} {type : DataType} {msg : Msg}
    {force : ℤ} {frame : Frame}
    (hframe : frame ∈ node.sendPayload srcIp destIp type msg force)
    (hpayload : frame.header.isPayload = true) :
    frame.header.type = type ∧ frame.header.srcIp = srcIp ∧
      frame.header.destIp = destIp ∧ frame.header.msg = msg ∧
      frame.header.bcId = node.broadcastId := by
  unfold Node.sendPayload at hframe
  cases hentry : getRowEntry node.table destIp with
  | none =>
      simp only [hentry, Node.sendRreq, List.mem_flatMap,
        List.mem_map] at hframe
      rcases hframe with ⟨own, _, sv, _, rfl⟩
      cases hpayload
  | some i =>
      simp only [hentry, List.mem_map] at hframe
      rcases hframe with ⟨sv, _, rfl⟩
      exact ⟨rfl, rfl, rfl, rfl, rfl⟩

theorem onRreq_emits
    {node : Node} {header : FrameHead} {update : Bool} {stray : Mac}
    (htype : header.type = .rreq) {frame : Frame}
    (hframe : frame ∈ node.onRreq header update stray) :
    Emits node (.frame header update stray) frame := by
  simp only [Node.onRreq, List.mem_append] at hframe
  rcases hframe with hflood | hreply
  · split at hflood
    next hcond =>
      simp only [Bool.and_eq_true, Bool.not_eq_true',
        Option.isSome_eq_false_iff, Option.isNone_iff_eq_none] at hcond
      simp only [Node.sendRreq, List.mem_map] at hflood
      rcases hflood with ⟨sv, hsv, rfl⟩
      rcases hcond with ⟨⟨hforeign, hnone⟩, rfl⟩
      exact .flood rfl htype hforeign hnone hsv
    next => cases hflood
  · split at hreply
    next hcond =>
      simp only [Bool.or_eq_true] at hcond
      simp only [Node.sendRrep, List.mem_map] at hreply
      rcases hreply with ⟨sv, hsv, rfl⟩
      exact .reply rfl htype hcond hsv
    next => cases hreply

theorem onRrep_emits
    {node : Node} {header : FrameHead} {update : Bool} {stray : Mac}
    (htype : header.type = .rrep) {frame : Frame}
    (hframe : frame ∈ node.onRrep header stray) :
    Emits node (.frame header update stray) frame := by
  unfold Node.onRrep at hframe
  split at hframe
  next howns => exact sendPayload_emits (.routed htype howns) hframe
  next hforeign =>
    simp only [Node.sendRrep, List.mem_map] at hframe
    rcases hframe with ⟨sv, hsv, rfl⟩
    exact .relay rfl htype (by simpa using hforeign) hsv

theorem answerClient_frames (node : Node) (header : FrameHead) :
    (node.answerClient header).frames = [] := by
  unfold Node.answerClient
  dsimp only
  split <;> rfl

theorem onPayload_emits
    {node : Node} {header : FrameHead} {update : Bool} {stray : Mac}
    (hpayload : header.isPayload = true) {serverMsg : Msg}
    {frame : Frame}
    (hframe : frame ∈ (node.onPayload header serverMsg).frames) :
    Emits (node.onPayload header serverMsg).node
      (.frame header update stray) frame := by
  unfold Node.onPayload at hframe ⊢
  split at hframe
  next howns =>
    rw [if_pos howns]
    split at hframe
    next htype =>
      rw [if_pos htype]
      exact sendPayload_emits (.served htype howns) hframe
    next =>
      rw [answerClient_frames] at hframe
      cases hframe
  next hforeign =>
    rw [if_neg hforeign]
    split at hframe
    next hrow =>
      rw [if_pos hrow]
      exact sendPayload_emits
        (.forwarded hpayload (by simpa using hforeign) hrow) hframe
    next => cases hframe

/-! ## The node after a step -/

/-- `next` has the given table and differs from `node` otherwise at most in
its buffer and in having stopped. -/
structure Node.WithTable (node next : Node) (table : RoutingTable) :
    Prop where
  serv : next.serv = node.serv
  table : next.table = table
  broadcastId : next.broadcastId = node.broadcastId

theorem answerClient_withTable (node : Node) (header : FrameHead) :
    node.WithTable (node.answerClient header).node node.table := by
  unfold Node.answerClient
  dsimp only
  split
  · exact ⟨rfl, rfl, rfl⟩
  · exact ⟨rfl, rfl, rfl⟩

theorem onPayload_withTable
    (node : Node) (header : FrameHead) (serverMsg : Msg) :
    node.WithTable (node.onPayload header serverMsg).node node.table := by
  unfold Node.onPayload
  split
  · split
    · exact ⟨rfl, rfl, rfl⟩
    · exact answerClient_withTable node header
  · split
    · exact ⟨rfl, rfl, rfl⟩
    · exact ⟨rfl, rfl, rfl⟩

theorem processFrame_withTable
    {node : Node} {frame : Frame} {outside : Outside}
    {table : RoutingTable}
    (hnext : node.nextTable frame outside.now = some table) :
    node.WithTable (node.processFrame frame outside).node table := by
  simp only [Node.processFrame, hnext]
  cases frame.header.type with
  | rreq => exact ⟨rfl, rfl, rfl⟩
  | rrep => exact ⟨rfl, rfl, rfl⟩
  | payloadReq =>
      have hpayload := onPayload_withTable { node with table := table }
        frame.header outside.serverMsg
      exact ⟨hpayload.serv, hpayload.table, hpayload.broadcastId⟩
  | payloadResp =>
      have hpayload := onPayload_withTable { node with table := table }
        frame.header outside.serverMsg
      exact ⟨hpayload.serv, hpayload.table, hpayload.broadcastId⟩

theorem processFrame_emits
    {node : Node} {frame : Frame} {outside : Outside}
    {table : RoutingTable}
    (hnext : node.nextTable frame outside.now = some table)
    {sent : Frame} (hsent : sent ∈ (node.processFrame frame outside).frames) :
    Emits (node.processFrame frame outside).node
      (.frame frame.header (node.updates frame.header) outside.stray)
      sent := by
  simp only [Node.processFrame, hnext] at hsent ⊢
  cases htype : frame.header.type with
  | rreq =>
      simp only [htype] at hsent ⊢
      exact onRreq_emits htype hsent
  | rrep =>
      simp only [htype] at hsent ⊢
      exact onRrep_emits htype hsent
  | payloadReq =>
      simp only [htype] at hsent ⊢
      exact onPayload_emits (isPayload_of_req htype) hsent
  | payloadResp =>
      simp only [htype] at hsent ⊢
      exact onPayload_emits (isPayload_of_resp htype) hsent

/-- A frame which cannot be stored stops the node. -/
theorem processFrame_overrun
    {node : Node} {frame : Frame} {outside : Outside}
    (hnext : node.nextTable frame outside.now = none) :
    node.processFrame frame outside =
      ⟨{ node with overrun := true }, [], none⟩ := by
  simp only [Node.processFrame, hnext]

/-- The node after a client request: it counted the request, and with the
force flag it cleared its table. -/
structure Node.Requested (node next : Node) (peer : PeerInfo) : Prop where
  serv : next.serv = node.serv
  table : next.table = node.table ∨
    peer.flag = 1 ∧ next.table = fun _ => emptyRow
  broadcastId : next.broadcastId = node.broadcastId + 1

theorem pushDataToBuf_withTable
    {node stored : Node} {peer : PeerInfo}
    (hpush : node.pushDataToBuf peer = some stored) :
    node.WithTable stored node.table := by
  simp only [Node.pushDataToBuf, Option.map_eq_some_iff] at hpush
  rcases hpush with ⟨i, _, rfl⟩
  exact ⟨rfl, rfl, rfl⟩

theorem clientRequest_requested (node : Node) (peer : PeerInfo) :
    node.Requested (node.clientRequest peer).node peer := by
  unfold Node.clientRequest
  dsimp only
  split
  next => exact ⟨rfl, .inl rfl, rfl⟩
  next stored hstored =>
    have hwith := pushDataToBuf_withTable hstored
    dsimp only
    split
    next hforce =>
      exact ⟨hwith.serv, .inr ⟨hforce.1, rfl⟩, hwith.broadcastId⟩
    next => exact ⟨hwith.serv, .inl hwith.table, hwith.broadcastId⟩

theorem clientRequest_emits
    {node : Node} {peer : PeerInfo} {frame : Frame}
    (hframe : frame ∈ (node.clientRequest peer).frames) :
    Emits (node.clientRequest peer).node (.client peer.destIp) frame := by
  unfold Node.clientRequest at hframe ⊢
  dsimp only at hframe ⊢
  split at hframe
  next => cases hframe
  next stored hstored =>
    simp only [List.mem_flatMap] at hframe
    rcases hframe with ⟨sv, hsv, hframe⟩
    exact sendPayload_emits (.request hsv) hframe

end NetworkProgramming.Odr
