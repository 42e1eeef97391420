import NetworkProgramming.Addresses
import NetworkProgramming.SlotTable

/-!
# One node of the on-demand router

One process of `hw3/odr.c`: its routing table, the table of client requests
which wait for a response, and the frames it hands to `send_packet`.  A step
reads the clock, the answer of the local server and, in one case, memory in
front of the routing table; these are arguments.

Two writes can go past the end of an array: `update_routing_table` with a
full table and `push_data_to_buf` with a full buffer.  What happens after
that is undefined, and the model stops the node there with `overrun` set.
-/

namespace NetworkProgramming.Odr

open SlotTable

/-- The `type` field of a frame.  Nodes send these four only; a frame whose
field has another value, which the C type admits, is not modelled. -/
inductive DataType where
  | rrep
  | rreq
  | payloadReq
  | payloadResp
  deriving DecidableEq, Repr

/-- The `msg` field of a frame. -/
abbrev Msg := CString 100

/-- The message `" "` of a request. -/
def blankMsg : Msg :=
  ⟨[32], by simp, by simp⟩

/-- `frame_head`. -/
structure FrameHead where
  srcIp : IpText
  destIp : IpText
  hopCount : ℕ
  bcId : ℕ
  msg : Msg
  forceFlag : ℤ
  type : DataType
  deriving DecidableEq

/-- A frame with the addresses of its Ethernet header and the interface it
leaves through. -/
structure Frame where
  destMac : Mac
  srcMac : Mac
  ifIndex : ℤ
  header : FrameHead
  deriving DecidableEq

/-- `routing_table_row` without `outgoing_index` and `rrep_sent`, which
nothing reads. -/
structure Row where
  destIp : IpText
  nextHopMac : Mac
  hopCount : ℕ
  ts : ℕ
  broadcastId : ℕ
  isFilled : Bool
  deriving DecidableEq

/-- A row of a table after `init_routing_table`. -/
def emptyRow : Row :=
  ⟨emptyIp, zeroMac, 0, 0, 0, false⟩

instance : KeyedSlot Row IpText where
  key := Row.destIp
  filled := Row.isFilled
  empty := emptyRow
  filled_empty := rfl

abbrev RoutingTable := Fin 100 → Row

/-- The fields of `peer_info` which the router reads. -/
structure PeerInfo where
  destIp : IpText
  srcPort : CString 100
  flag : ℤ
  deriving DecidableEq

structure ServerBuf where
  peerInfo : PeerInfo
  count : ℕ
  deriving DecidableEq

def emptyBuf : ServerBuf :=
  ⟨⟨emptyIp, ⟨[], CString.nonzero_nil, by decide⟩, 0⟩, 0⟩

structure Node where
  serv : List ServerDetails
  table : RoutingTable
  broadcastId : ℕ
  buffer : Fin 100 → ServerBuf
  overrun : Bool

/-- What a step reads from outside: `time(NULL)`, the message of the local
server, and the bytes where `table.row[-1].next_hop_mac` would be. -/
structure Outside where
  now : ℕ
  serverMsg : Msg
  stray : Mac
  deriving DecidableEq

/-- The node after a step, the frames sent, and the message handed to a local
client with `send_to_client`. -/
structure Outcome where
  node : Node
  frames : List Frame
  toClient : Option (PeerInfo × Msg)

/-! ## The routing table -/

/-- Compares all rows, whether they are filled or not; `none` is -1. -/
def getRowEntry (table : RoutingTable) (ip : IpText) : Option (Fin 100) :=
  scanAll table ip

/-- `none` is `ROUTING_TABLE_SIZE`. -/
def getEmptyRow (table : RoutingTable) : Option (Fin 100) :=
  firstFree table

def shouldUpdateRt (table : RoutingTable) (head : FrameHead) : Bool :=
  match getRowEntry table head.srcIp with
  | none => true
  | some i =>
      decide ((table i).broadcastId < head.bcId) ||
        decide (head.hopCount < (table i).hopCount)

/-- The row made for a source without one. -/
def newRow (head : FrameHead) (nextHopMac : Mac) (now : ℕ) : Row where
  destIp := head.srcIp
  nextHopMac := nextHopMac
  hopCount := head.hopCount
  ts := now
  broadcastId := head.bcId
  isFilled := true

/-- An existing row takes the newer broadcast id or else the smaller hop
count.  Its next hop and its time stay. -/
def Row.refresh (row : Row) (head : FrameHead) : Row :=
  if row.broadcastId < head.bcId then
    { row with broadcastId := head.bcId }
  else if head.hopCount < row.hopCount then
    { row with hopCount := head.hopCount }
  else row

/-- `none` is the write past the end of the table. -/
def updateRoutingTable (table : RoutingTable) (head : FrameHead)
    (nextHopMac : Mac) (now : ℕ) : Option RoutingTable :=
  match getRowEntry table head.srcIp with
  | none =>
      (getEmptyRow table).map fun i =>
        Function.update table i (newRow head nextHopMac now)
  | some i => some (Function.update table i ((table i).refresh head))

/-- `source_ip_cmp`, which is used only to tell whether the IP is one of the
node's own. -/
def Node.owns (node : Node) (ip : IpText) : Bool :=
  decide (ip ∈ node.serv.map ServerDetails.ip)

def Node.initRoutingTable (node : Node) : Node :=
  { node with table := fun _ => emptyRow }

/-! ## Sending -/

/-- `populate_frame_header` and `send_packet` on one interface. -/
def frameOn (sv : ServerDetails) (destMac : Mac) (header : FrameHead) :
    Frame :=
  ⟨destMac, sv.mac, sv.index, header⟩

/-- The text of a zeroed `msg` field. -/
def noMsg : Msg :=
  ⟨[], CString.nonzero_nil, by decide⟩

def Node.sendRreq (node : Node) (bId hCount : ℕ) (srcIp destIp : IpText)
    (forceFlag : ℤ) : List Frame :=
  node.serv.map fun sv => frameOn sv broadcastMac
    ⟨srcIp, destIp, hCount, bId, noMsg, forceFlag, .rreq⟩

/-- The next hop read by `send_rrep`, which does not check the result of
`get_row_entry`. -/
def Node.replyMac (node : Node) (destIp : IpText) (stray : Mac) : Mac :=
  match getRowEntry node.table destIp with
  | some i => (node.table i).nextHopMac
  | none => stray

def Node.sendRrep (node : Node) (bId hCount : ℕ) (destIp srcIp : IpText)
    (stray : Mac) : List Frame :=
  node.serv.map fun sv => frameOn sv (node.replyMac destIp stray)
    ⟨srcIp, destIp, hCount, bId, noMsg, 0, .rrep⟩

def Node.sendPayload (node : Node) (srcIp destIp : IpText)
    (payload : DataType) (msg : Msg) (forceFlag : ℤ) : List Frame :=
  match getRowEntry node.table destIp with
  | none =>
      node.serv.flatMap fun sv =>
        node.sendRreq node.broadcastId 1 sv.ip destIp forceFlag
  | some i =>
      node.serv.map fun sv => frameOn sv (node.table i).nextHopMac
        ⟨srcIp, destIp, (node.table i).hopCount, node.broadcastId, msg,
          forceFlag, payload⟩

/-! ## Receiving a frame -/

/-- The branch for a route request, after the update of the table. -/
def Node.onRreq (node : Node) (header : FrameHead) (update : Bool)
    (stray : Mac) : List Frame :=
  let index := node.owns header.destIp
  let rowEntry := (getRowEntry node.table header.destIp).isSome
  (if !index && !rowEntry && update then
    node.sendRreq header.bcId (header.hopCount + 1) header.srcIp
      header.destIp header.forceFlag
  else []) ++
  (if index || rowEntry then
    node.sendRrep header.bcId 1 header.srcIp header.destIp stray
  else [])

/-- The branch for a route reply. -/
def Node.onRrep (node : Node) (header : FrameHead) (stray : Mac) :
    List Frame :=
  if node.owns header.destIp then
    node.sendPayload header.destIp header.srcIp .payloadReq blankMsg 0
  else
    node.sendRrep header.bcId (header.hopCount + 1) header.destIp
      header.srcIp stray

/-- The first waiting client which asked for the source of a response gets
its message. -/
def Node.answerClient (node : Node) (header : FrameHead) : Outcome :=
  let waiting := Fin.find? fun i =>
    decide ((node.buffer i).peerInfo.destIp = header.srcIp) &&
      decide ((node.buffer i).count ≠ 0)
  match waiting with
  | none => ⟨node, [], none⟩
  | some i =>
      let answered : ServerBuf := ⟨(node.buffer i).peerInfo, 0⟩
      ⟨{ node with buffer := Function.update node.buffer i answered }, [],
        some ((node.buffer i).peerInfo, header.msg)⟩

/-- The branch for both kinds of payload. -/
def Node.onPayload (node : Node) (header : FrameHead) (serverMsg : Msg) :
    Outcome :=
  if node.owns header.destIp then
    if header.type = .payloadReq then
      ⟨node, node.sendPayload header.destIp header.srcIp .payloadResp
        serverMsg 0, none⟩
    else node.answerClient header
  else if (getRowEntry node.table header.destIp).isSome then
    ⟨node, node.sendPayload header.srcIp header.destIp header.type
      header.msg 0, none⟩
  else ⟨node, [], none⟩

def FrameHead.isPayload (header : FrameHead) : Bool :=
  decide (header.type = .payloadReq) || decide (header.type = .payloadResp)

/-- The local `update` of `process_frame`. -/
def Node.updates (node : Node) (header : FrameHead) : Bool :=
  !header.isPayload && shouldUpdateRt node.table header &&
    !node.owns header.srcIp

/-- The table after the first part of `process_frame`. -/
def Node.nextTable (node : Node) (frame : Frame) (now : ℕ) :
    Option RoutingTable :=
  if node.updates frame.header then
    updateRoutingTable node.table frame.header frame.srcMac now
  else some node.table

def Node.processFrame (node : Node) (frame : Frame) (outside : Outside) :
    Outcome :=
  match node.nextTable frame outside.now with
  | none => ⟨{ node with overrun := true }, [], none⟩
  | some table =>
      let updated := { node with table := table }
      match frame.header.type with
      | .rreq =>
          ⟨updated, updated.onRreq frame.header (node.updates frame.header)
            outside.stray, none⟩
      | .rrep =>
          ⟨updated, updated.onRrep frame.header outside.stray, none⟩
      | .payloadReq => updated.onPayload frame.header outside.serverMsg
      | .payloadResp => updated.onPayload frame.header outside.serverMsg

/-! ## The main loop -/

/-- `none` is the write past the end of the buffer. -/
def Node.pushDataToBuf (node : Node) (peer : PeerInfo) : Option Node :=
  (Fin.find? fun i => decide ((node.buffer i).count = 0)).map fun i =>
    { node with buffer := Function.update node.buffer i ⟨peer, 1⟩ }

/-- With the force flag the table is cleared before each interface; nothing
is added to it in between. -/
def Node.clientRequest (node : Node) (peer : PeerInfo) : Outcome :=
  let counted := { node with broadcastId := node.broadcastId + 1 }
  match counted.pushDataToBuf peer with
  | none => ⟨{ counted with overrun := true }, [], none⟩
  | some stored =>
      let cleared :=
        if peer.flag = 1 ∧ stored.serv ≠ [] then stored.initRoutingTable
        else stored
      ⟨cleared, cleared.serv.flatMap fun sv =>
        cleared.sendPayload sv.ip peer.destIp .payloadReq blankMsg
          peer.flag, none⟩

/-- A node after start-up. -/
def Node.start (serv : List ServerDetails) : Node where
  serv := serv
  table := fun _ => emptyRow
  broadcastId := 1
  buffer := fun _ => emptyBuf
  overrun := false

end NetworkProgramming.Odr
