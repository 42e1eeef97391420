import NetworkProgramming.OdrPending
import NetworkProgramming.TransitionLog

/-!
# A request on a cold network is answered

One client asks for an address while all tables are empty.  The interfaces of
the nodes are joined in any way: `hears` tells which nodes hear what is sent
from an interface.  Frames arrive in any order and any number of times.  Once
every frame has been received by every node it is for, the request has been
answered, provided that the node of the client and the owner of the address
are connected.

The argument follows the four kinds of frames.  The route request floods the
nodes which do not know the address.  Where the flood ends, a route reply
starts, and each node passes it on along its row for the client's node.  The
payload takes the rows for the address, and the response those for the
client's node again.
-/

namespace NetworkProgramming.Odr

open SlotTable Forwarding Transition

variable {Host : Type*}

/-- The three fields by which the frames of a discovery are told apart. -/
structure FrameHead.Reads (header : FrameHead) (type : DataType)
    (srcIp destIp : IpText) : Prop where
  type : header.type = type
  srcIp : header.srcIp = srcIp
  destIp : header.destIp = destIp

/-! ## What a node is bound to send -/

/-- Among the frames is one of the given kind from each interface. -/
def Covers (serv : List ServerDetails) (frames : List Frame)
    (destMac : Mac) (type : DataType) (srcIp destIp : IpText) : Prop :=
  ∀ sv ∈ serv, ∃ header : FrameHead,
    header.Reads type srcIp destIp ∧ frameOn sv destMac header ∈ frames

section Covers

variable {node : Node} {srcIp destIp : IpText} {stray : Mac}

theorem sendRreq_covers (bId hCount : ℕ) (forceFlag : ℤ) :
    Covers node.serv (node.sendRreq bId hCount srcIp destIp forceFlag)
      broadcastMac .rreq srcIp destIp := by
  intro sv hsv
  exact ⟨_, ⟨rfl, rfl, rfl⟩, List.mem_map_of_mem hsv⟩

theorem sendRrep_covers (bId hCount : ℕ) :
    Covers node.serv (node.sendRrep bId hCount destIp srcIp stray)
      (node.replyMac destIp stray) .rrep srcIp destIp := by
  intro sv hsv
  exact ⟨_, ⟨rfl, rfl, rfl⟩, List.mem_map_of_mem hsv⟩

theorem Covers.of_sublist
    {frames wider : List Frame} {destMac : Mac} {type : DataType}
    (hcovers : Covers node.serv frames destMac type srcIp destIp)
    (hsub : ∀ frame ∈ frames, frame ∈ wider) :
    Covers node.serv wider destMac type srcIp destIp := by
  intro sv hsv
  obtain ⟨header, hreads, hmem⟩ := hcovers sv hsv
  exact ⟨header, hreads, hsub _ hmem⟩

theorem sendPayload_floods
    (hnone : getRowEntry node.table destIp = none) {own : ServerDetails}
    (hown : own ∈ node.serv) (type : DataType) (msg : Msg)
    (forceFlag : ℤ) :
    Covers node.serv (node.sendPayload srcIp destIp type msg forceFlag)
      broadcastMac .rreq own.ip destIp := by
  intro sv hsv
  simp only [Node.sendPayload, hnone]
  exact ⟨_, ⟨rfl, rfl, rfl⟩,
    List.mem_flatMap.mpr ⟨own, hown, List.mem_map_of_mem hsv⟩⟩

end Covers

/-- A node which knows the destination of a route request, after the update
of its table, replies to it. -/
theorem covers_replied
    {node : Node} {frame : Frame} {outside : Outside}
    {table : RoutingTable}
    (htable : node.nextTable frame outside.now = some table)
    (htype : frame.header.type = .rreq)
    (hknown : node.owns frame.header.destIp = true ∨
      (getRowEntry table frame.header.destIp).isSome = true) :
    Covers node.serv
      (node.processFrame frame outside).frames
      (({ node with table := table } : Node).replyMac frame.header.srcIp
        outside.stray) .rrep frame.header.destIp frame.header.srcIp := by
  have hcond : (({ node with table := table } : Node).owns
      frame.header.destIp ||
      (getRowEntry table frame.header.destIp).isSome) = true := by
    rw [Bool.or_eq_true]
    exact hknown
  refine (@sendRrep_covers { node with table := table } frame.header.destIp
    frame.header.srcIp outside.stray frame.header.bcId 1).of_sublist ?_
  intro sent hsent
  simp only [Node.processFrame, htable, htype, Node.onRreq, hcond, if_true]
  exact List.mem_append_right _ hsent

/-- A node which does not know it and learns the source passes it on. -/
theorem covers_flooded
    {node : Node} {frame : Frame} {outside : Outside}
    {table : RoutingTable}
    (htable : node.nextTable frame outside.now = some table)
    (htype : frame.header.type = .rreq)
    (hupdates : node.updates frame.header = true)
    (hforeign : node.owns frame.header.destIp = false)
    (hnone : getRowEntry table frame.header.destIp = none) :
    Covers node.serv (node.processFrame frame outside).frames broadcastMac
      .rreq frame.header.srcIp frame.header.destIp := by
  have hforeign' : ({ node with table := table } : Node).owns
      frame.header.destIp = false := hforeign
  refine (sendRreq_covers frame.header.bcId (frame.header.hopCount + 1)
    frame.header.forceFlag).of_sublist ?_
  intro sent hsent
  simp only [Node.processFrame, htable, htype, Node.onRreq, hforeign',
    hnone, hupdates]
  exact List.mem_append_left _ hsent

/-- A route reply is passed on unless it has arrived. -/
theorem covers_relayed
    {node : Node} {frame : Frame} {outside : Outside}
    {table : RoutingTable}
    (htable : node.nextTable frame outside.now = some table)
    (htype : frame.header.type = .rrep)
    (hforeign : node.owns frame.header.destIp = false) :
    Covers node.serv (node.processFrame frame outside).frames
      (({ node with table := table } : Node).replyMac frame.header.destIp
        outside.stray) .rrep frame.header.srcIp frame.header.destIp := by
  have hforeign' : ({ node with table := table } : Node).owns
      frame.header.destIp = false := hforeign
  simp only [Node.processFrame, htable, htype, Node.onRrep, hforeign',
    Bool.false_eq_true, if_false]
  exact @sendRrep_covers { node with table := table } frame.header.srcIp
    frame.header.destIp outside.stray _ _

/-- A route reply which has arrived makes the node send its payload. -/
theorem covers_routed
    {node : Node} {frame : Frame} {outside : Outside}
    {table : RoutingTable} (hpacked : Packed table)
    (htable : node.nextTable frame outside.now = some table)
    (htype : frame.header.type = .rrep)
    (howns : node.owns frame.header.destIp = true)
    {row : Row} (hip : frame.header.srcIp ≠ emptyIp)
    (hrow : lookup table frame.header.srcIp = some row) :
    Covers node.serv (node.processFrame frame outside).frames
      row.nextHopMac .payloadReq frame.header.destIp
      frame.header.srcIp := by
  obtain ⟨i, hentry, rfl⟩ := getRowEntry_of_lookup hpacked hip hrow
  intro sv hsv
  exact ⟨_, ⟨rfl, rfl, rfl⟩,
    processFrame_routed htype htable howns hentry hsv⟩

/-- The owner of the destination of a payload answers it along its row for
the source. -/
theorem covers_served
    {node : Node} {frame : Frame} (hpacked : Packed node.table)
    (htype : frame.header.type = .payloadReq)
    (howns : node.owns frame.header.destIp = true)
    {row : Row} (hip : frame.header.srcIp ≠ emptyIp)
    (hrow : node.row frame.header.srcIp = some row) (outside : Outside) :
    Covers node.serv (node.processFrame frame outside).frames
      row.nextHopMac .payloadResp frame.header.destIp
      frame.header.srcIp := by
  obtain ⟨i, hentry, rfl⟩ := getRowEntry_of_lookup hpacked hip hrow
  intro sv hsv
  rw [processFrame_serves htype howns hentry outside]
  exact ⟨_, ⟨rfl, rfl, rfl⟩, List.mem_map_of_mem hsv⟩

/-- A payload on its way is passed on along the row for its destination. -/
theorem covers_passed
    {node : Node} {frame : Frame} (hpacked : Packed node.table)
    (hpayload : frame.header.isPayload = true)
    (hforeign : node.owns frame.header.destIp = false)
    {row : Row} (hip : frame.header.destIp ≠ emptyIp)
    (hrow : node.row frame.header.destIp = some row) (outside : Outside) :
    Covers node.serv (node.processFrame frame outside).frames row.nextHopMac
      frame.header.type frame.header.srcIp frame.header.destIp := by
  obtain ⟨i, hentry, hi⟩ := getRowEntry_of_lookup hpacked hip hrow
  intro sv hsv
  rw [processFrame_forwards hpayload hforeign hentry outside, hi]
  refine ⟨⟨frame.header.srcIp, frame.header.destIp, row.hopCount,
    node.broadcastId, frame.header.msg, 0, frame.header.type⟩,
    ⟨rfl, rfl, rfl⟩, ?_⟩
  exact List.mem_map_of_mem hsv

/-! ## Frames on the network -/

/-- The node sent a frame of the given kind out of each of its
interfaces. -/
def Network.SentAll (site : Site Host) (network : Network Host) (h : Host)
    (destMac : Mac) (type : DataType) (srcIp destIp : IpText) : Prop :=
  ∀ mac, site.OwnsMac h mac → ∃ packet ∈ network.sent,
    packet.frame.srcMac = mac ∧ packet.frame.destMac = destMac ∧
      packet.frame.header.Reads type srcIp destIp

/-- The node sent it along its row for an IP. -/
def Network.Passes (site : Site Host) (network : Network Host) (h : Host)
    (ip : IpText) (type : DataType) (srcIp destIp : IpText) : Prop :=
  ∃ row, (network.node h).row ip = some row ∧
    network.SentAll site h row.nextHopMac type srcIp destIp

section Sent

variable {site : Site Host} {network next : Network Host} {h : Host}
variable {type : DataType} {srcIp destIp : IpText}

theorem Network.SentAll.mono
    {destMac : Mac}
    (hsent : network.SentAll site h destMac type srcIp destIp)
    (hgrows : ∀ packet ∈ network.sent, packet ∈ next.sent) :
    next.SentAll site h destMac type srcIp destIp := by
  intro mac hmac
  obtain ⟨packet, hpacket, hrest⟩ := hsent mac hmac
  exact ⟨packet, hgrows packet hpacket, hrest⟩

/-- What one event leaves alone when no table is cleared. -/
structure Network.Grows (network next : Network Host) : Prop where
  sent : ∀ packet ∈ network.sent, packet ∈ next.sent
  rows : ∀ h ip row, (network.node h).row ip = some row →
    ∃ row', (next.node h).row ip = some row' ∧
      row'.nextHopMac = row.nextHopMac

theorem Network.Grows.row_ne_none
    (hgrows : network.Grows next) {ip : IpText}
    (hrow : (network.node h).row ip ≠ none) :
    (next.node h).row ip ≠ none := by
  obtain ⟨row, hrow⟩ := Option.ne_none_iff_exists'.mp hrow
  obtain ⟨row', hrow', _⟩ := hgrows.rows h ip row hrow
  rw [hrow']
  exact Option.some_ne_none row'

theorem Network.Passes.grows
    {ip : IpText}
    (hpasses : network.Passes site h ip type srcIp destIp)
    (hgrows : network.Grows next) :
    next.Passes site h ip type srcIp destIp := by
  obtain ⟨row, hrow, hsent⟩ := hpasses
  obtain ⟨row', hrow', hmac⟩ := hgrows.rows h ip row hrow
  refine ⟨row', hrow', ?_⟩
  rw [hmac]
  exact hsent.mono hgrows.sent

theorem Network.Effect.grows
    {event : NetworkEvent Host} (hproper : network.Proper site)
    (hclear : NoClear network event)
    (heffect : network.Effect next event) :
    network.Grows next := by
  refine ⟨?_, fun h ip row hrow => heffect.keeps_row hproper hclear hrow⟩
  intro packet hpacket
  cases heffect with
  | receive _ _ _ hacts =>
      rw [hacts.sent]
      exact List.mem_append_right _ hpacket
  | overrun htable => exact (hproper.nextTable_ne_none htable).elim
  | client hacts =>
      rw [hacts.sent]
      exact List.mem_append_right _ hpacket
  | timeout => exact hclear.elim

variable [DecidableEq Host]

theorem Covers.sentAll
    {outcome : Outcome} {trail : List Host} {destMac : Mac}
    (hserv : (network.node h).serv = site.serv h)
    (hcovers : Covers (network.node h).serv outcome.frames destMac type
      srcIp destIp) :
    (network.act h outcome trail).SentAll site h destMac type srcIp
      destIp := by
  intro mac hmac
  obtain ⟨sv, hsv, rfl⟩ := List.mem_map.mp hmac
  obtain ⟨header, hreads, hmem⟩ := hcovers sv (hserv ▸ hsv)
  refine ⟨⟨frameOn sv destMac header, trail⟩, ?_, rfl, rfl, hreads⟩
  exact List.mem_append_left _ (List.mem_map_of_mem hmem)

end Sent

/-! ## A discovery -/

/-- One request of one client.  `hears mac h` means that `h` hears what is
sent from the interface with the address `mac`, and then one of its own
interfaces is heard by the owner of `mac`.  The node of the client has one
interface. -/
structure Discovery (site : Site Host) where
  hears : Mac → Host → Prop
  hears_symm : ∀ a b mac, site.OwnsMac a mac → hears mac b →
    ∃ mac', site.OwnsMac b mac' ∧ hears mac' a
  origin : Host
  own : ServerDetails
  serv_origin : site.serv origin = [own]
  request : PeerInfo
  unforced : request.flag ≠ 1
  target : Host
  owns_target : site.OwnsIp target request.destIp
  target_ne : target ≠ origin

variable {site : Site Host} (discovery : Discovery site)

/-- The address of the client's node. -/
def Discovery.source : IpText :=
  discovery.own.ip

/-- The address which the client asks for. -/
def Discovery.dest : IpText :=
  discovery.request.destIp

/-- The request is made once, on a network on which nothing was sent. -/
def Discovery.Allowed (network : Network Host) :
    NetworkEvent Host → Prop
  | .receive host packet _ => discovery.hears packet.frame.srcMac host
  | .client host peer => host = discovery.origin ∧
      peer = discovery.request ∧ network.sent = []
  | .timeout _ => False

def Discovery.Adjacent (a b : Host) : Prop :=
  ∃ mac, site.OwnsMac a mac ∧ discovery.hears mac b

/-- Every frame has been received by every node which hears and accepts
it. -/
def Discovery.AtRest
    (current : Logged (Network Host) (NetworkEvent Host)) : Prop :=
  ∀ packet ∈ current.state.sent, ∀ h,
    discovery.hears packet.frame.srcMac h →
    (current.state.node h).Accepts packet.frame →
    ∃ outside, .receive h packet outside ∈ current.log

section Addresses

theorem Discovery.owns_source_iff (h : Host) :
    site.OwnsIp h discovery.source ↔ h = discovery.origin := by
  have howns : site.OwnsIp discovery.origin discovery.source := by
    rw [Site.OwnsIp, discovery.serv_origin]
    exact List.mem_singleton_self _
  constructor
  · intro hh
    exact hh.unique howns
  · rintro rfl
    exact howns

theorem Discovery.owns_dest_iff (h : Host) :
    site.OwnsIp h discovery.dest ↔ h = discovery.target := by
  constructor
  · intro hh
    exact hh.unique discovery.owns_target
  · rintro rfl
    exact discovery.owns_target

theorem Discovery.source_ne : discovery.source ≠ emptyIp :=
  ((discovery.owns_source_iff _).mpr rfl).ne_emptyIp

theorem Discovery.dest_ne : discovery.dest ≠ emptyIp :=
  discovery.owns_target.ne_emptyIp

theorem Discovery.source_ne_dest : discovery.source ≠ discovery.dest := by
  intro heq
  have howns := (discovery.owns_source_iff discovery.origin).mpr rfl
  rw [heq, discovery.owns_dest_iff] at howns
  exact discovery.target_ne howns.symm

theorem Discovery.allowed_noClear
    {network : Network Host} {event : NetworkEvent Host}
    (hallowed : discovery.Allowed network event) :
    NoClear network event := by
  cases event with
  | receive => trivial
  | client host peer =>
      obtain ⟨_, rfl, _⟩ := hallowed
      exact discovery.unforced
  | timeout => exact hallowed.elim

end Addresses

/-- The source and the destination of each kind of frame. -/
def Discovery.ends : DataType → IpText × IpText
  | .rreq | .payloadReq => (discovery.source, discovery.dest)
  | .rrep | .payloadResp => (discovery.dest, discovery.source)

/-- The frames which are sent in a discovery. -/
def Discovery.Sends (header : FrameHead) : Prop :=
  (header.srcIp, header.destIp) = discovery.ends header.type

/-- The node owns the wanted address or has a row for it. -/
def Discovery.Knows (network : Network Host) (h : Host) : Prop :=
  h = discovery.target ∨
    ∃ row, (network.node h).row discovery.dest = some row

/-- What holds in every state of a discovery. -/
structure Discovery.Runs (network : Network Host) : Prop where
  settled : network.Settled site
  sends : ∀ packet ∈ network.sent, discovery.Sends packet.frame.header
  heard : ∀ h ip row, (network.node h).row ip = some row →
    discovery.hears row.nextHopMac h
  flooded : network.sent ≠ [] →
    network.SentAll site discovery.origin broadcastMac .rreq
      discovery.source discovery.dest
  relayed : ∀ h, h ≠ discovery.origin →
    (network.node h).row discovery.source ≠ none →
    discovery.Knows network h ∨
      network.SentAll site h broadcastMac .rreq discovery.source
        discovery.dest
  replied : ∀ h, h ≠ discovery.origin →
    (network.node h).row discovery.source ≠ none →
    discovery.Knows network h →
    network.Passes site h discovery.source .rrep discovery.dest
      discovery.source
  served : ∀ packet ∈ network.sent, packet.frame.header.type ≠ .rreq →
    (network.node discovery.target).row discovery.source ≠ none
  waiting : pending (network.node discovery.origin).buffer = 0 ∨
    network.sent ≠ [] ∧
      pending (network.node discovery.origin).buffer = {discovery.request}

/-- A receipt in a discovery. -/
structure Discovery.Receives [DecidableEq Host]
    (network next : Network Host) (h : Host) (packet : Packet Host)
    (outside : Outside) (table : RoutingTable) : Prop where
  runs : discovery.Runs network
  mem : packet ∈ network.sent
  accepts : (network.node h).Accepts packet.frame
  hears : discovery.hears packet.frame.srcMac h
  table : (network.node h).nextTable packet.frame outside.now = some table
  next_eq : next = network.act h
    ((network.node h).processFrame packet.frame outside)
    (packet.nextTrail h (network.node h))

variable {discovery}

theorem Discovery.Sends.reads
    {header : FrameHead} (hsends : discovery.Sends header)
    {type : DataType} (htype : header.type = type) :
    header.Reads type (discovery.ends type).1 (discovery.ends type).2 := by
  subst htype
  obtain ⟨hsrc, hdest⟩ := Prod.ext_iff.mp hsends
  exact ⟨rfl, hsrc, hdest⟩

theorem Discovery.Knows.grows
    {network next : Network Host} {h : Host}
    (hknows : discovery.Knows network h) (hgrows : network.Grows next) :
    discovery.Knows next h := by
  rcases hknows with hh | ⟨row, hrow⟩
  · exact .inl hh
  · obtain ⟨row', hrow', _⟩ := hgrows.rows h _ row hrow
    exact .inr ⟨row', hrow'⟩

/-- The node which receives a payload owns its destination or has a row for
it. -/
theorem Network.Settled.addressee
    {network : Network Host} (hsettled : network.Settled site)
    {packet : Packet Host} (hpacket : packet ∈ network.sent)
    (hpayload : packet.frame.header.isPayload = true) {h : Host}
    (haccepts : (network.node h).Accepts packet.frame) :
    packet.frame.header.destIp ≠ emptyIp ∧
      (site.OwnsIp h packet.frame.header.destIp ∨
        ∃ row, (network.node h).row packet.frame.header.destIp =
          some row) := by
  have hproper := hsettled.proper
  have hdest := ((hproper.frames packet hpacket).cause (hproper.nodes h)
    haccepts false zeroMac).2.1
  have htrailed := hsettled.trailed packet hpacket hpayload hdest
  have hchain := htrailed.nextHop hproper haccepts
  obtain ⟨before, last, _, htrail, _⟩ := htrailed
  rw [htrail, List.append_assoc] at hchain
  have hlast : network.NextHop site packet.frame.header.destIp last h := by
    simpa using (List.isChain_append.mp hchain).2.1
  exact ⟨hdest, Network.owns_or_row_of_reaches
    (hsettled.reaches_nextHop hlast)⟩

/-- A row for the wanted address comes from a route reply. -/
theorem Discovery.Runs.exists_reply
    {network : Network Host} (hruns : discovery.Runs network) {h : Host}
    {row : Row}
    (hrow : (network.node h).row discovery.dest = some row) :
    ∃ packet ∈ network.sent, packet.frame.header.type ≠ .rreq := by
  obtain ⟨b, hnext⟩ := hruns.settled.proper.exists_nextHop hrow
  obtain ⟨packet, hpacket, hroute, hsrc, _⟩ :=
    (hruns.settled.routed discovery.dest).rows h b hnext
  refine ⟨packet, hpacket, ?_⟩
  intro htype
  have hreads := (hruns.sends packet hpacket).reads htype
  exact discovery.source_ne_dest (hreads.srcIp.symm.trans hsrc)

/-- On a silent network all tables are empty. -/
theorem Discovery.Runs.row_of_silent
    {network : Network Host} (hruns : discovery.Runs network)
    (hsilent : network.sent = []) (h : Host) (ip : IpText) :
    (network.node h).row ip = none := by
  cases hrow : (network.node h).row ip with
  | none => rfl
  | some row =>
      obtain ⟨b, hnext⟩ := hruns.settled.proper.exists_nextHop hrow
      obtain ⟨packet, hpacket, _⟩ :=
        (hruns.settled.routed ip).rows h b hnext
      rw [hsilent] at hpacket
      cases hpacket

/-! ## What the receipt of a frame does -/

section Receives

variable [DecidableEq Host]

variable {network next : Network Host} {h : Host} {packet : Packet Host}
variable {outside : Outside} {table : RoutingTable}

theorem Discovery.Runs.receives
    (hruns : discovery.Runs network)
    (hallowed : discovery.Allowed network (.receive h packet outside))
    (hstep : network.step (.receive h packet outside) = some next) :
    ∃ table, discovery.Receives network next h packet outside table := by
  simp only [Network.step, Option.ite_none_right_eq_some,
    Option.some.injEq] at hstep
  obtain ⟨⟨_, hmem, haccepts⟩, hnext⟩ := hstep
  obtain ⟨table, htable⟩ := nextTable_isSome
    (hruns.settled.proper.nodes h).exists_free packet.frame outside.now
  exact ⟨table, hruns, hmem, haccepts, hallowed, htable, hnext.symm⟩

section Facts

variable
  (hreceives : discovery.Receives network next h packet outside table)

include hreceives

theorem Discovery.Receives.node :
    (network.node h).Proper site h :=
  hreceives.runs.settled.proper.nodes h

theorem Discovery.Receives.tableStep :
    TableStep (network.node h) packet.frame outside.now table :=
  hreceives.runs.settled.proper.tableStep hreceives.mem hreceives.table

theorem Discovery.Receives.packed : Packed table :=
  hreceives.tableStep.packed hreceives.node.packed

theorem Discovery.Receives.row_next (ip : IpText) :
    (next.node h).row ip = lookup table ip := by
  have hwith := processFrame_withTable hreceives.table
  rw [hreceives.next_eq, Network.act_node_self, Node.row, hwith.table]

theorem Discovery.Receives.node_of_ne {g : Host} (hg : g ≠ h) :
    next.node g = network.node g := by
  rw [hreceives.next_eq]
  exact Function.update_of_ne hg _ _

theorem Discovery.Receives.sentAll
    {destMac : Mac} {type : DataType} {srcIp destIp : IpText}
    (hcovers : Covers (network.node h).serv
      ((network.node h).processFrame packet.frame outside).frames destMac
      type srcIp destIp) :
    next.SentAll site h destMac type srcIp destIp := by
  rw [hreceives.next_eq]
  exact hcovers.sentAll hreceives.node.serv

/-- The mac which `send_rrep` reads when there is a row. -/
theorem Discovery.Receives.replyMac
    {ip : IpText} (hip : ip ≠ emptyIp) {row : Row}
    (hrow : (next.node h).row ip = some row) :
    ({ network.node h with table := table } : Node).replyMac ip
      outside.stray = row.nextHopMac := by
  rw [hreceives.row_next] at hrow
  obtain ⟨i, hentry, hi⟩ :=
    getRowEntry_of_lookup hreceives.packed hip hrow
  simp only [Node.replyMac, hentry, hi]

theorem Discovery.Receives.owns_eq_false
    {ip : IpText} (hforeign : ¬ site.OwnsIp h ip) :
    (network.node h).owns ip = false :=
  (hreceives.node.owns_eq_false_iff ip).mpr hforeign

/-- A frame which is not a payload leaves a row for its source behind. -/
theorem Discovery.Receives.source_row
    (hroute : packet.frame.header.isPayload = false)
    (hforeign : ¬ site.OwnsIp h packet.frame.header.srcIp) :
    ∃ row, (next.node h).row packet.frame.header.srcIp = some row := by
  obtain ⟨g, hsource⟩ :=
    (hreceives.runs.settled.proper.frames packet hreceives.mem).source
  obtain ⟨row, hrow⟩ := hreceives.tableStep.source_row
    hreceives.node.packed hsource.ne_emptyIp hroute
    (hreceives.owns_eq_false hforeign)
  exact ⟨row, (hreceives.row_next _).trans hrow⟩

/-! ### A route request -/

section Request

variable (hreads : packet.frame.header.Reads .rreq discovery.source
  discovery.dest)
variable (hh : h ≠ discovery.origin)

include hreads hh

theorem Discovery.Receives.request_row :
    ∃ row, (next.node h).row discovery.source = some row := by
  have hforeign : ¬ site.OwnsIp h packet.frame.header.srcIp := by
    rw [hreads.srcIp, discovery.owns_source_iff]
    exact hh
  have hrow := hreceives.source_row (not_isPayload_of_rreq hreads.type)
    hforeign
  rwa [hreads.srcIp] at hrow

theorem Discovery.Receives.request_passes
    (hknows : discovery.Knows next h) :
    next.Passes site h discovery.source .rrep discovery.dest
      discovery.source := by
  obtain ⟨row, hrow⟩ := hreceives.request_row hreads hh
  have hknown : (network.node h).owns packet.frame.header.destIp = true ∨
      (getRowEntry table packet.frame.header.destIp).isSome = true := by
    rw [hreads.destIp]
    rcases hknows with rfl | ⟨row', hrow'⟩
    · exact .inl ((hreceives.node.owns_iff _).mpr discovery.owns_target)
    · rw [hreceives.row_next] at hrow'
      obtain ⟨i, hentry, _⟩ :=
        getRowEntry_of_lookup hreceives.packed discovery.dest_ne hrow'
      exact .inr (by rw [hentry]; rfl)
  have hcovers := covers_replied hreceives.table hreads.type hknown
  rw [hreads.srcIp, hreads.destIp,
    hreceives.replyMac discovery.source_ne hrow] at hcovers
  exact ⟨row, hrow, hreceives.sentAll hcovers⟩

theorem Discovery.Receives.request_floods
    (hnew : (network.node h).row discovery.source = none)
    (hknows : ¬ discovery.Knows next h) :
    next.SentAll site h broadcastMac .rreq discovery.source
      discovery.dest := by
  obtain ⟨row, hrow⟩ := hreceives.request_row hreads hh
  rw [Discovery.Knows, not_or, not_exists] at hknows
  have hupdates : (network.node h).updates packet.frame.header = true := by
    -- the row is new, so the table was written to
    rw [hreceives.row_next] at hrow
    rcases hreceives.tableStep.row_origin hrow with
      ⟨old, hold, _⟩ | ⟨_, _, _, hupdates⟩
    · rw [hnew] at hold
      cases hold
    · exact hupdates
  have hforeign : (network.node h).owns packet.frame.header.destIp =
      false := by
    apply hreceives.owns_eq_false
    rw [hreads.destIp]
    exact fun howns => hknows.1 ((discovery.owns_dest_iff h).mp howns)
  have hnone : getRowEntry table packet.frame.header.destIp = none := by
    rw [hreads.destIp,
      getRowEntry_eq_none_iff hreceives.packed discovery.dest_ne,
      Option.eq_none_iff_forall_ne_some]
    intro row' hrow'
    exact hknows.2 row' ((hreceives.row_next _).trans hrow')
  have hcovers := covers_flooded hreceives.table hreads.type hupdates
    hforeign hnone
  rw [hreads.srcIp, hreads.destIp] at hcovers
  exact hreceives.sentAll hcovers

end Request

/-! ### A route reply -/

section Reply

variable (hreads : packet.frame.header.Reads .rrep discovery.dest
  discovery.source)

include hreads

theorem Discovery.Receives.reply_knows : discovery.Knows next h := by
  by_cases hh : h = discovery.target
  · exact .inl hh
  · have hforeign : ¬ site.OwnsIp h packet.frame.header.srcIp := by
      rw [hreads.srcIp, discovery.owns_dest_iff]
      exact hh
    have hrow := hreceives.source_row (not_isPayload_of_rrep hreads.type)
      hforeign
    rw [hreads.srcIp] at hrow
    exact .inr hrow

theorem Discovery.Receives.reply_passes
    (hh : h ≠ discovery.origin)
    (hrow : (next.node h).row discovery.source ≠ none) :
    next.Passes site h discovery.source .rrep discovery.dest
      discovery.source := by
  obtain ⟨row, hrow⟩ := Option.ne_none_iff_exists'.mp hrow
  have hforeign : (network.node h).owns packet.frame.header.destIp =
      false := by
    apply hreceives.owns_eq_false
    rw [hreads.destIp]
    exact fun howns => hh ((discovery.owns_source_iff h).mp howns)
  have hcovers := covers_relayed hreceives.table hreads.type hforeign
  rw [hreads.srcIp, hreads.destIp,
    hreceives.replyMac discovery.source_ne hrow] at hcovers
  exact ⟨row, hrow, hreceives.sentAll hcovers⟩

theorem Discovery.Receives.reply_routed (hh : h = discovery.origin) :
    next.Passes site h discovery.dest .payloadReq discovery.source
      discovery.dest := by
  rcases hreceives.reply_knows hreads with htarget | ⟨row, hrow⟩
  · exact absurd (htarget.symm.trans hh) discovery.target_ne
  · have howns : (network.node h).owns packet.frame.header.destIp =
        true := by
      rw [hreads.destIp, hreceives.node.owns_iff]
      exact (discovery.owns_source_iff h).mpr hh
    have hip : packet.frame.header.srcIp ≠ emptyIp := by
      rw [hreads.srcIp]
      exact discovery.dest_ne
    have hlookup : lookup table packet.frame.header.srcIp = some row := by
      rw [hreads.srcIp, ← hreceives.row_next]
      exact hrow
    have hcovers := covers_routed hreceives.packed hreceives.table
      hreads.type howns hip hlookup
    rw [hreads.srcIp, hreads.destIp] at hcovers
    exact ⟨row, hrow, hreceives.sentAll hcovers⟩

end Reply

/-! ### A payload and its response -/

/-- A payload leaves the rows as they are. -/
theorem Discovery.Receives.row_of_payload
    (hpayload : packet.frame.header.isPayload = true) (ip : IpText) :
    (next.node h).row ip = (network.node h).row ip := by
  have htable := hreceives.table
  rw [nextTable_payload hpayload, Option.some.injEq] at htable
  rw [hreceives.row_next, ← htable]
  rfl

theorem Discovery.Receives.payload_passes
    (hpayload : packet.frame.header.isPayload = true)
    (hforeign : ¬ site.OwnsIp h packet.frame.header.destIp) :
    next.Passes site h packet.frame.header.destIp packet.frame.header.type
      packet.frame.header.srcIp packet.frame.header.destIp := by
  obtain ⟨hdest, howns | ⟨row, hrow⟩⟩ :=
    hreceives.runs.settled.addressee hreceives.mem hpayload
      hreceives.accepts
  · exact absurd howns hforeign
  · have hcovers := covers_passed hreceives.node.packed hpayload
      (hreceives.owns_eq_false hforeign) hdest hrow outside
    refine ⟨row, ?_, hreceives.sentAll hcovers⟩
    rw [hreceives.row_of_payload hpayload]
    exact hrow

theorem Discovery.Receives.payload_served
    (hreads : packet.frame.header.Reads .payloadReq discovery.source
      discovery.dest)
    (hh : h = discovery.target) :
    next.Passes site h discovery.source .payloadResp discovery.dest
      discovery.source := by
  have hpayload := isPayload_of_req hreads.type
  have hknown := hreceives.runs.served packet hreceives.mem
    (by rw [hreads.type]; exact fun htype => by cases htype)
  rw [← hh] at hknown
  obtain ⟨row, hrow⟩ := Option.ne_none_iff_exists'.mp hknown
  have howns : (network.node h).owns packet.frame.header.destIp =
      true := by
    rw [hreads.destIp, hreceives.node.owns_iff]
    exact (discovery.owns_dest_iff h).mpr hh
  have hcovers := covers_served hreceives.node.packed hreads.type
    howns (by rw [hreads.srcIp]; exact discovery.source_ne)
    (by rw [hreads.srcIp]; exact hrow) outside
  rw [hreads.srcIp, hreads.destIp] at hcovers
  refine ⟨row, ?_, hreceives.sentAll hcovers⟩
  rw [hreceives.row_of_payload hpayload]
  exact hrow

/-- The response frees the slot of the request. -/
theorem Discovery.Receives.response_answers
    (hreads : packet.frame.header.Reads .payloadResp discovery.dest
      discovery.source)
    (hh : h = discovery.origin) :
    pending (next.node h).buffer = 0 := by
  have howns : (network.node h).owns packet.frame.header.destIp =
      true := by
    rw [hreads.destIp, hreceives.node.owns_iff]
    exact (discovery.owns_source_iff h).mpr hh
  have hwaiting := hreceives.runs.waiting
  rw [← hh] at hwaiting
  rw [hreceives.next_eq, Network.act_node_self,
    processFrame_response hreads.type howns]
  rcases answerClient_cases (network.node h) packet.frame.header with
    ⟨i, hanswers⟩ | ⟨hnobody, hsame⟩
  · have hcard := congrArg Multiset.card (pending_answer hanswers.waits.2)
    rw [hanswers.freed]
    rw [Multiset.card_cons] at hcard
    apply Multiset.card_eq_zero.mp
    rcases hwaiting with hnone | ⟨_, hone⟩
    · simp [hnone] at hcard
    · rw [hone, Multiset.card_singleton] at hcard
      exact Nat.add_right_cancel hcard
  · rw [hsame]
    rcases hwaiting with hnone | ⟨_, hone⟩
    · exact hnone
    · have hmem : discovery.request ∈
          pending (network.node h).buffer := by
        rw [hone]
        exact Multiset.mem_singleton_self _
      obtain ⟨i, hi⟩ := (SlotPool.mem_contents_iff _ _).mp hmem
      have hwaits : Waits (network.node h).buffer
          packet.frame.header.srcIp i := by
        simp only [Function.comp_apply, ServerBuf.waiting,
          Option.ite_none_left_eq_some, Option.some.injEq] at hi
        refine ⟨?_, hi.1⟩
        rw [hi.2, hreads.srcIp]
        rfl
      exact absurd ⟨i, hwaits⟩ hnobody

end Facts

/-! ## Every step keeps the invariant -/

omit [DecidableEq Host] in
theorem Discovery.Runs.initial
    {network : Network Host} (hinit : network.Initial site) :
    discovery.Runs network := by
  have hsettled := Network.Settled.initial hinit
  subst hinit
  have hrow : ∀ h ip, (Node.start (site.serv h)).row ip = none :=
    fun h ip => lookup_empty ip
  constructor
  case settled => exact hsettled
  case sends =>
    intro packet hpacket
    cases hpacket
  case heard =>
    intro h ip row hfound
    rw [hrow] at hfound
    cases hfound
  case flooded => exact fun hsent => absurd rfl hsent
  case relayed => exact fun h _ hfound => absurd (hrow h _) hfound
  case replied => exact fun h _ hfound => absurd (hrow h _) hfound
  case served =>
    intro packet hpacket
    cases hpacket
  case waiting => exact .inl pending_empty

/-- What a node sends because of a frame is a frame of the discovery. -/
theorem Discovery.Receives.sends
    (hreceives : discovery.Receives network next h packet outside table)
    (hnext : next.Proper site) {sent : Frame} {update : Bool}
    {stray : Mac}
    (hemits : Emits (next.node h)
      (.frame packet.frame.header update stray) sent) :
    discovery.Sends sent.header := by
  have hsends := hreceives.runs.sends packet hreceives.mem
  have hnode := hnext.nodes h
  have hentry : ∀ ip, ip ≠ emptyIp →
      getRowEntry (next.node h).table ip = none →
      (next.node h).row ip = none :=
    fun ip hip => (getRowEntry_eq_none_iff hnode.packed hip).mp
  cases hemits with
  | discover hwants hnone _ _ =>
      -- the node has a row for the destination of every payload it sends
      cases hwants with
      | routed htype howns =>
          have hreads := hsends.reads htype
          have horigin : h = discovery.origin := by
            rw [hreads.destIp, hnode.owns_iff] at howns
            exact (discovery.owns_source_iff h).mp howns
          rw [hreads.srcIp] at hnone
          rcases hreceives.reply_knows hreads with htarget | ⟨row, hrow⟩
          · exact absurd (htarget.symm.trans horigin) discovery.target_ne
          · rw [hentry _ discovery.dest_ne hnone] at hrow
            cases hrow
      | served htype howns =>
          have hreads := hsends.reads htype
          have htarget : h = discovery.target := by
            rw [hreads.destIp, hnode.owns_iff] at howns
            exact (discovery.owns_dest_iff h).mp howns
          rw [hreads.srcIp] at hnone
          obtain ⟨row, hrow, _⟩ := hreceives.payload_served hreads htarget
          rw [hentry _ discovery.source_ne hnone] at hrow
          cases hrow
      | forwarded _ _ hrow =>
          rw [hnone] at hrow
          cases hrow
  | payload hwants _ _ =>
      cases hwants with
      | routed htype _ =>
          have hreads := hsends.reads htype
          exact Prod.ext hreads.destIp hreads.srcIp
      | served htype _ =>
          have hreads := hsends.reads htype
          exact Prod.ext hreads.destIp hreads.srcIp
      | forwarded => exact hsends
  | flood hcause htype _ _ _ =>
      cases hcause
      have hreads := hsends.reads htype
      exact Prod.ext hreads.srcIp hreads.destIp
  | reply hcause htype _ _ =>
      cases hcause
      have hreads := hsends.reads htype
      exact Prod.ext hreads.destIp hreads.srcIp
  | relay hcause htype _ _ =>
      cases hcause
      have hreads := hsends.reads htype
      exact Prod.ext hreads.srcIp hreads.destIp

/-- A route request teaches nothing about the wanted address. -/
theorem Discovery.Receives.dest_row
    (hreceives : discovery.Receives network next h packet outside table)
    (hreads : packet.frame.header.Reads .rreq discovery.source
      discovery.dest)
    {row : Row} (hrow : (next.node h).row discovery.dest = some row) :
    ∃ old, (network.node h).row discovery.dest = some old := by
  rw [hreceives.row_next] at hrow
  rcases hreceives.tableStep.row_origin hrow with
    ⟨old, hold, _⟩ | ⟨hip, _⟩
  · exact ⟨old, hold⟩
  · exact absurd (hreads.srcIp.symm.trans hip.symm)
      discovery.source_ne_dest

/-- A frame other than a route request is sent only when the owner of the
wanted address has a row for the client's node. -/
theorem Discovery.Receives.target_row
    (hreceives : discovery.Receives network next h packet outside table)
    (hgrows : network.Grows next) (hnext : next.Proper site)
    {sent : Frame} {update : Bool} {stray : Mac}
    (hemits : Emits (next.node h)
      (.frame packet.frame.header update stray) sent)
    (htype : sent.header.type ≠ .rreq) :
    (next.node discovery.target).row discovery.source ≠ none := by
  by_cases hrequest : packet.frame.header.type = .rreq
  · -- the reply to a request comes from the owner or along a row
    have hreads : packet.frame.header.Reads .rreq discovery.source
        discovery.dest :=
      (hreceives.runs.sends packet hreceives.mem).reads hrequest
    cases hemits with
    | discover => exact absurd rfl htype
    | payload hwants _ _ =>
        cases hwants with
        | routed hrrep _ =>
            rw [hrequest] at hrrep
            cases hrrep
        | served hreq _ =>
            rw [hrequest] at hreq
            cases hreq
        | forwarded hpayload _ _ =>
            rw [not_isPayload_of_rreq hrequest] at hpayload
            cases hpayload
    | flood => exact absurd rfl htype
    | reply hcause _ hknown _ =>
        cases hcause
        rw [hreads.destIp] at hknown
        rcases hknown with howns | hrow
        · rw [(hnext.nodes h).owns_iff, discovery.owns_dest_iff] at howns
          subst howns
          obtain ⟨row, hrow⟩ :=
            hreceives.request_row hreads discovery.target_ne
          rw [hrow]
          exact Option.some_ne_none row
        · obtain ⟨i, hentry⟩ := Option.isSome_iff_exists.mp hrow
          obtain ⟨row, hrow⟩ := hreceives.dest_row hreads
            (getRowEntry_some (hnext.nodes h).packed discovery.dest_ne
              hentry)
          obtain ⟨other, hother, hkind⟩ := hreceives.runs.exists_reply hrow
          exact hgrows.row_ne_none
            (hreceives.runs.served other hother hkind)
    | relay hcause hrrep _ _ =>
        cases hcause
        rw [hrequest] at hrrep
        cases hrrep
  · exact hgrows.row_ne_none
      (hreceives.runs.served packet hreceives.mem hrequest)

theorem Discovery.Receives.mem_sent
    (hreceives : discovery.Receives network next h packet outside table)
    {other : Packet Host} (hother : other ∈ next.sent) :
    other ∈ network.sent ∨
      Emits (next.node h) (.frame packet.frame.header
        ((network.node h).updates packet.frame.header) outside.stray)
        other.frame := by
  rw [hreceives.next_eq] at hother ⊢
  rw [Network.act_node_self]
  rcases List.mem_append.mp hother with hnew | hold
  · obtain ⟨frame, hframe, rfl⟩ := List.mem_map.mp hnew
    exact .inr (processFrame_emits hreceives.table hframe)
  · exact .inl hold

/-- A new row for the client's node comes from a route request. -/
theorem Discovery.Receives.reads_of_new
    (hreceives : discovery.Receives network next h packet outside table)
    (hold : (network.node h).row discovery.source = none)
    (hrow : (next.node h).row discovery.source ≠ none) :
    packet.frame.header.Reads .rreq discovery.source discovery.dest := by
  obtain ⟨row, hrow⟩ := Option.ne_none_iff_exists'.mp hrow
  rw [hreceives.row_next] at hrow
  have hsends := hreceives.runs.sends packet hreceives.mem
  rcases hreceives.tableStep.row_origin hrow with
    ⟨old, hfound, _⟩ | ⟨hip, _, _, hupdates⟩
  · rw [hold] at hfound
    cases hfound
  · have hroute := (Node.updates_eq_true hupdates).1
    cases htype : packet.frame.header.type with
    | rreq => exact hsends.reads htype
    | rrep =>
        exact absurd (hip.trans (hsends.reads htype).srcIp)
          discovery.source_ne_dest
    | payloadReq =>
        rw [isPayload_of_req htype] at hroute
        cases hroute
    | payloadResp =>
        rw [isPayload_of_resp htype] at hroute
        cases hroute

/-- A node with both rows replied, whichever of them came last. -/
theorem Discovery.Receives.replied_next
    (hreceives : discovery.Receives network next h packet outside table)
    (hgrows : network.Grows next) (hh : h ≠ discovery.origin)
    (hrow : (next.node h).row discovery.source ≠ none)
    (hknows : discovery.Knows next h) :
    next.Passes site h discovery.source .rrep discovery.dest
      discovery.source := by
  have hsends := hreceives.runs.sends packet hreceives.mem
  have hpayload : packet.frame.header.isPayload = true →
      next.Passes site h discovery.source .rrep discovery.dest
        discovery.source := by
    intro hpayload
    rw [hreceives.row_of_payload hpayload] at hrow
    rw [Discovery.Knows, hreceives.row_of_payload hpayload] at hknows
    exact (hreceives.runs.replied h hh hrow hknows).grows hgrows
  cases htype : packet.frame.header.type with
  | rreq => exact hreceives.request_passes (hsends.reads htype) hh hknows
  | rrep => exact hreceives.reply_passes (hsends.reads htype) hh hrow
  | payloadReq => exact hpayload (isPayload_of_req htype)
  | payloadResp => exact hpayload (isPayload_of_resp htype)

theorem Discovery.Receives.waiting_next
    (hreceives : discovery.Receives network next h packet outside table)
    (hgrows : network.Grows next) :
    pending (next.node discovery.origin).buffer = 0 ∨
      next.sent ≠ [] ∧
        pending (next.node discovery.origin).buffer =
          {discovery.request} := by
  have hsent : next.sent ≠ [] :=
    List.ne_nil_of_mem (hgrows.sent packet hreceives.mem)
  have hkept : (next.node discovery.origin).buffer =
      (network.node discovery.origin).buffer →
      pending (next.node discovery.origin).buffer = 0 ∨
        next.sent ≠ [] ∧
          pending (next.node discovery.origin).buffer =
            {discovery.request} := by
    intro hbuffer
    rw [hbuffer]
    exact hreceives.runs.waiting.imp_right fun hone => ⟨hsent, hone.2⟩
  by_cases hh : discovery.origin = h
  · by_cases hresponse : packet.frame.header.type = .payloadResp ∧
        (network.node h).owns packet.frame.header.destIp = true
    · left
      rw [hh]
      exact hreceives.response_answers
        ((hreceives.runs.sends packet hreceives.mem).reads hresponse.1)
        hh.symm
    · apply hkept
      rw [hh, hreceives.next_eq, Network.act_node_self]
      exact (processFrame_buffer hresponse outside).1
  · exact hkept (by rw [hreceives.node_of_ne hh])

theorem Discovery.Receives.runs_next
    (hreceives : discovery.Receives network next h packet outside table)
    (hgrows : network.Grows next) (hsettled : next.Settled site) :
    discovery.Runs next := by
  have hruns := hreceives.runs
  have hnext := hsettled.proper
  constructor
  case settled => exact hsettled
  case sends =>
    intro other hother
    rcases hreceives.mem_sent hother with hold | hemits
    · exact hruns.sends other hold
    · exact hreceives.sends hnext hemits
  case heard =>
    intro g ip row hrow
    by_cases hg : g = h
    · subst hg
      rw [hreceives.row_next] at hrow
      rcases hreceives.tableStep.row_origin hrow with
        ⟨old, hold, hmac⟩ | ⟨_, hmac, _⟩
      · rw [hmac]
        exact hruns.heard g ip old hold
      · rw [hmac]
        exact hreceives.hears
    · rw [hreceives.node_of_ne hg] at hrow
      exact hruns.heard g ip row hrow
  case flooded =>
    intro _
    exact (hruns.flooded (List.ne_nil_of_mem hreceives.mem)).mono
      hgrows.sent
  case relayed =>
    intro g hg hrow
    have hold : (network.node g).row discovery.source ≠ none →
        discovery.Knows next g ∨
          next.SentAll site g broadcastMac .rreq discovery.source
            discovery.dest := by
      intro hfound
      exact (hruns.relayed g hg hfound).imp
        (fun hknows => hknows.grows hgrows)
        (fun hsent => hsent.mono hgrows.sent)
    by_cases hh : g = h
    · subst hh
      by_cases hnew : (network.node g).row discovery.source = none
      · have hreads := hreceives.reads_of_new hnew hrow
        by_cases hknows : discovery.Knows next g
        · exact .inl hknows
        · exact .inr (hreceives.request_floods hreads hg hnew hknows)
      · exact hold hnew
    · rw [hreceives.node_of_ne hh] at hrow
      exact hold hrow
  case replied =>
    intro g hg hrow hknows
    by_cases hh : g = h
    · subst hh
      exact hreceives.replied_next hgrows hg hrow hknows
    · rw [Discovery.Knows, hreceives.node_of_ne hh] at hknows
      rw [hreceives.node_of_ne hh] at hrow
      exact (hruns.replied g hg hrow hknows).grows hgrows
  case served =>
    intro other hother htype
    rcases hreceives.mem_sent hother with hold | hemits
    · exact hgrows.row_ne_none (hruns.served other hold htype)
    · exact hreceives.target_row hgrows hnext hemits htype
  case waiting => exact hreceives.waiting_next hgrows

/-! ## The request of the client -/

/-- A client request for an address without a row makes the node ask for a
route from each of its own addresses. -/
theorem covers_requested
    {node : Node} {peer : PeerInfo}
    (hfree : ∃ i, (node.buffer i).count = 0) (hflag : peer.flag ≠ 1)
    (hnone : getRowEntry node.table peer.destIp = none)
    {own : ServerDetails} (hown : own ∈ node.serv) :
    Covers node.serv (node.clientRequest peer).frames broadcastMac .rreq
      own.ip peer.destIp := by
  unfold Node.clientRequest
  dsimp only
  split
  next hpush =>
    rw [pushDataToBuf_eq_none_iff] at hpush
    exact absurd hfree hpush
  next stored hpush =>
    have hwith := pushDataToBuf_withTable hpush
    rw [if_neg (fun hforce => hflag hforce.1)]
    have hstored : own ∈ stored.serv := by
      rw [hwith.serv]
      exact hown
    have hcovers := @sendPayload_floods stored own.ip peer.destIp
      (by rw [hwith.table]; exact hnone) own hstored .payloadReq blankMsg
      peer.flag
    rw [hwith.serv] at hcovers
    refine hcovers.of_sublist ?_
    intro frame hframe
    exact List.mem_flatMap.mpr ⟨own, hstored, hframe⟩

omit [DecidableEq Host] in
/-- What the node sends for its client when its table is empty. -/
theorem Discovery.emits_request
    {node : Node} (hnode : node.Proper site discovery.origin)
    (hempty : node.row discovery.dest = none) {frame : Frame}
    (hemits : Emits node (.client discovery.dest) frame) :
    frame.header.type = .rreq ∧ discovery.Sends frame.header := by
  cases hemits with
  | @discover _ _ _ own _ _ hwants _ hown _ =>
      cases hwants
      rw [hnode.serv, discovery.serv_origin, List.mem_singleton] at hown
      subst hown
      exact ⟨rfl, rfl⟩
  | payload hwants hsome _ =>
      cases hwants
      have hrow := getRowEntry_some hnode.packed discovery.dest_ne hsome
      rw [Node.row, hrow] at hempty
      cases hempty
  | flood hcause => cases hcause
  | reply hcause => cases hcause
  | relay hcause => cases hcause

theorem Discovery.Runs.client
    (hruns : discovery.Runs network) (hsilent : network.sent = [])
    (hstep : network.step (.client discovery.origin discovery.request) =
      some next) :
    discovery.Runs next := by
  have heffect := Network.step_effect hstep
  have hclear : NoClear network
      (.client discovery.origin discovery.request) := discovery.unforced
  have hsettled := hruns.settled.effect hclear heffect
  have hnext := hsettled.proper
  simp only [Network.step, Option.ite_none_right_eq_some,
    Option.some.injEq] at hstep
  obtain ⟨_, hact⟩ := hstep
  have hempty : pending (network.node discovery.origin).buffer = 0 :=
    hruns.waiting.resolve_right fun hone => hone.1 hsilent
  have hfree : ∃ i,
      ((network.node discovery.origin).buffer i).count = 0 := by
    rw [exists_slot_iff, hempty]
    decide
  have hnode := hruns.settled.proper.nodes discovery.origin
  have hown : discovery.own ∈ (network.node discovery.origin).serv := by
    rw [hnode.serv, discovery.serv_origin]
    exact List.mem_singleton_self _
  have hnone : getRowEntry (network.node discovery.origin).table
      discovery.dest = none :=
    (getRowEntry_eq_none_iff hnode.packed discovery.dest_ne).mpr
      (hruns.row_of_silent hsilent _ _)
  have hflooded : next.SentAll site discovery.origin broadcastMac .rreq
      discovery.source discovery.dest := by
    rw [← hact]
    exact (covers_requested hfree discovery.unforced hnone hown).sentAll
      hnode.serv
  have hpending : pending (next.node discovery.origin).buffer =
      {discovery.request} := by
    obtain ⟨i, hstores⟩ := clientRequest_stores hfree discovery.request
    rw [← hact, Network.act_node_self, hstores.buffer,
      pending_store hstores.free, hempty, Multiset.cons_zero]
  cases heffect with
  | client hacts htable hemits _ =>
      have hrows : ∀ h ip, (next.node h).row ip = none := by
        intro h ip
        by_cases hh : h = discovery.origin
        · subst hh
          rcases htable with hkept | ⟨hforce, _⟩
          · rw [Node.row, hacts.table, hkept]
            exact hruns.row_of_silent hsilent _ ip
          · exact absurd hforce discovery.unforced
        · rw [hacts.others h hh]
          exact hruns.row_of_silent hsilent h ip
      have hsent : ∀ packet ∈ next.sent,
          packet.frame.header.type = .rreq ∧
            discovery.Sends packet.frame.header := by
        intro packet hpacket
        rcases hacts.mem_sent hpacket with ⟨hframe, _⟩ | hold
        · exact discovery.emits_request (hnext.nodes _) (hrows _ _)
            (hemits _ hframe)
        · rw [hsilent] at hold
          cases hold
      constructor
      case settled => exact hsettled
      case sends => exact fun packet hpacket => (hsent packet hpacket).2
      case heard =>
        intro h ip row hrow
        rw [hrows] at hrow
        cases hrow
      case flooded => exact fun _ => hflooded
      case relayed => exact fun h _ hrow => absurd (hrows h _) hrow
      case replied => exact fun h _ hrow => absurd (hrows h _) hrow
      case served =>
        exact fun packet hpacket htype =>
          absurd (hsent packet hpacket).1 htype
      case waiting =>
        obtain ⟨packet, hpacket, _⟩ := hflooded discovery.own.mac
          (hnode.ownsMac hown)
        exact .inr ⟨List.ne_nil_of_mem hpacket, hpending⟩

/-- Every allowed event keeps the invariant. -/
theorem Discovery.Runs.step
    (hruns : discovery.Runs network) {event : NetworkEvent Host}
    (hallowed : discovery.Allowed network event)
    (hstep : network.step event = some next) :
    network.Grows next ∧ discovery.Runs next := by
  have hclear := discovery.allowed_noClear hallowed
  have heffect := Network.step_effect hstep
  have hgrows := heffect.grows hruns.settled.proper hclear
  refine ⟨hgrows, ?_⟩
  cases event with
  | receive h packet outside =>
      obtain ⟨table, hreceives⟩ := hruns.receives hallowed hstep
      exact hreceives.runs_next hgrows (hruns.settled.effect hclear heffect)
  | client h peer =>
      obtain ⟨rfl, rfl, hsilent⟩ := hallowed
      exact hruns.client hsilent hstep
  | timeout => exact hallowed.elim

end Receives

end NetworkProgramming.Odr
