import NetworkProgramming.OdrEmission
import NetworkProgramming.Transition
import Mathlib.Data.Finset.Filter

/-!
# A network of routers

Every frame which was ever sent stays on the network.  It can be received at
any time and any number of times, by the node which has the destination
address or, for a broadcast, by every node; the topology plays no part.  A
packet carries a trail beside its frame: for a payload, the nodes which sent
it so far, the last one at the end.
-/

namespace NetworkProgramming.Odr

open SlotTable

/-- The nodes of a network.  `ips` holds all IPs of the network, and each
node has room in its table for those which are not its own.  Interfaces
without a hardware address are not listed by `populate_server_details`. -/
structure Site (Host : Type*) where
  serv : Host → List ServerDetails
  ips : Finset IpText
  mem_ips : ∀ h, ∀ sv ∈ serv h, sv.ip ∈ ips
  ip_ne : ∀ h, ∀ sv ∈ serv h, sv.ip ≠ emptyIp
  mac_ne_zero : ∀ h, ∀ sv ∈ serv h, sv.mac ≠ zeroMac
  mac_ne_broadcast : ∀ h, ∀ sv ∈ serv h, sv.mac ≠ broadcastMac
  ip_inj : ∀ g h, ∀ sv ∈ serv g, ∀ sv' ∈ serv h, sv.ip = sv'.ip → g = h
  mac_inj : ∀ g h, ∀ sv ∈ serv g, ∀ sv' ∈ serv h,
    sv.mac = sv'.mac → g = h
  foreign_lt : ∀ h, (ips.filter fun ip =>
    ip ∉ (serv h).map ServerDetails.ip).card < 100

variable {Host : Type*}

def Site.OwnsIp (site : Site Host) (h : Host) (ip : IpText) : Prop :=
  ip ∈ (site.serv h).map ServerDetails.ip

instance (site : Site Host) (h : Host) (ip : IpText) :
    Decidable (site.OwnsIp h ip) :=
  inferInstanceAs (Decidable (_ ∈ _))

def Site.OwnsMac (site : Site Host) (h : Host) (mac : Mac) : Prop :=
  mac ∈ (site.serv h).map ServerDetails.mac

theorem Site.OwnsIp.unique
    {site : Site Host} {g h : Host} {ip : IpText}
    (hg : site.OwnsIp g ip) (hh : site.OwnsIp h ip) :
    g = h := by
  rcases List.mem_map.mp hg with ⟨sv, hsv, hip⟩
  rcases List.mem_map.mp hh with ⟨sv', hsv', hip'⟩
  exact site.ip_inj g h sv hsv sv' hsv' (hip.trans hip'.symm)

theorem Site.OwnsMac.unique
    {site : Site Host} {g h : Host} {mac : Mac}
    (hg : site.OwnsMac g mac) (hh : site.OwnsMac h mac) :
    g = h := by
  rcases List.mem_map.mp hg with ⟨sv, hsv, hmac⟩
  rcases List.mem_map.mp hh with ⟨sv', hsv', hmac'⟩
  exact site.mac_inj g h sv hsv sv' hsv' (hmac.trans hmac'.symm)

theorem Site.OwnsIp.ne_emptyIp
    {site : Site Host} {h : Host} {ip : IpText}
    (hip : site.OwnsIp h ip) :
    ip ≠ emptyIp := by
  rcases List.mem_map.mp hip with ⟨sv, hsv, rfl⟩
  exact site.ip_ne h sv hsv

theorem Site.OwnsMac.ne_zeroMac
    {site : Site Host} {h : Host} {mac : Mac}
    (hmac : site.OwnsMac h mac) :
    mac ≠ zeroMac := by
  rcases List.mem_map.mp hmac with ⟨sv, hsv, rfl⟩
  exact site.mac_ne_zero h sv hsv

theorem Site.OwnsMac.ne_broadcastMac
    {site : Site Host} {h : Host} {mac : Mac}
    (hmac : site.OwnsMac h mac) :
    mac ≠ broadcastMac := by
  rcases List.mem_map.mp hmac with ⟨sv, hsv, rfl⟩
  exact site.mac_ne_broadcast h sv hsv

/-! ## Packets and events -/

structure Packet (Host : Type*) where
  frame : Frame
  trail : List Host
  deriving DecidableEq

structure Network (Host : Type*) where
  node : Host → Node
  sent : List (Packet Host)

inductive NetworkEvent (Host : Type*) where
  | receive (host : Host) (packet : Packet Host) (outside : Outside)
  | client (host : Host) (peer : PeerInfo)
  | timeout (host : Host)

/-- The raw socket of a node takes broadcasts and frames for its own
interfaces. -/
def Node.Accepts (node : Node) (frame : Frame) : Prop :=
  frame.destMac = broadcastMac ∨
    frame.destMac ∈ node.serv.map ServerDetails.mac

instance (node : Node) (frame : Frame) : Decidable (node.Accepts frame) :=
  inferInstanceAs (Decidable (_ ∨ _))

/-- The trail of what a node sends on receiving a packet: a payload which is
passed on continues its trail. -/
def Packet.nextTrail (packet : Packet Host) (host : Host) (node : Node) :
    List Host :=
  if packet.frame.header.isPayload &&
      !node.owns packet.frame.header.destIp then
    packet.trail ++ [host]
  else [host]

variable [DecidableEq Host]

/-- A node replaces its state and its frames go to the network. -/
def Network.act (network : Network Host) (host : Host)
    (outcome : Outcome) (trail : List Host) : Network Host where
  node := Function.update network.node host outcome.node
  sent := outcome.frames.map (Packet.mk · trail) ++ network.sent

def Network.step (network : Network Host) :
    NetworkEvent Host → Option (Network Host)
  | .receive host packet outside =>
      if (network.node host).overrun = false ∧ packet ∈ network.sent ∧
          (network.node host).Accepts packet.frame then
        some (network.act host
          ((network.node host).processFrame packet.frame outside)
          (packet.nextTrail host (network.node host)))
      else none
  | .client host peer =>
      if (network.node host).overrun = false then
        some (network.act host ((network.node host).clientRequest peer)
          [host])
      else none
  | .timeout host =>
      if (network.node host).overrun = false then
        some (network.act host
          ⟨(network.node host).initRoutingTable, [], none⟩ [host])
      else none

def Network.Initial (site : Site Host) (network : Network Host) : Prop :=
  network = ⟨fun h => Node.start (site.serv h), []⟩

/-! ## What one event can do -/

/-- `host` acted: its table became `table`, and it sent `frames`. -/
structure Network.Acts (network next : Network Host) (host : Host)
    (table : RoutingTable) (trail : List Host) (frames : List Frame) :
    Prop where
  others : ∀ h, h ≠ host → next.node h = network.node h
  serv : (next.node host).serv = (network.node host).serv
  table : (next.node host).table = table
  sent : next.sent = frames.map (Packet.mk · trail) ++ network.sent

@[simp]
theorem Network.act_node_self
    (network : Network Host) (host : Host) (outcome : Outcome)
    (trail : List Host) :
    (network.act host outcome trail).node host = outcome.node := by
  simp [Network.act]

theorem Network.acts_act
    (network : Network Host) (host : Host) (outcome : Outcome)
    (trail : List Host)
    (hserv : outcome.node.serv = (network.node host).serv) :
    network.Acts (network.act host outcome trail) host
      outcome.node.table trail outcome.frames where
  others := fun h hh => Function.update_of_ne hh _ _
  serv := by
    rw [Network.act_node_self]
    exact hserv
  table := by rw [Network.act_node_self]
  sent := rfl

inductive Network.Effect (network next : Network Host) :
    NetworkEvent Host → Prop
  | receive {host : Host} {packet : Packet Host} {outside : Outside}
      {table : RoutingTable} {frames : List Frame}
      (hmem : packet ∈ network.sent)
      (haccepts : (network.node host).Accepts packet.frame)
      (htable : (network.node host).nextTable packet.frame outside.now =
        some table)
      (hacts : network.Acts next host table
        (packet.nextTrail host (network.node host)) frames)
      (hemits : ∀ frame ∈ frames, Emits (next.node host)
        (.frame packet.frame.header
          ((network.node host).updates packet.frame.header)
          outside.stray) frame)
      (hid : (next.node host).broadcastId =
        (network.node host).broadcastId) :
      network.Effect next (.receive host packet outside)
  | overrun {host : Host} {packet : Packet Host} {outside : Outside}
      (htable : (network.node host).nextTable packet.frame outside.now =
        none) :
      network.Effect next (.receive host packet outside)
  | client {host : Host} {peer : PeerInfo} {table : RoutingTable}
      {frames : List Frame}
      (hacts : network.Acts next host table [host] frames)
      (htable : table = (network.node host).table ∨
        peer.flag = 1 ∧ table = fun _ => emptyRow)
      (hemits : ∀ frame ∈ frames, Emits (next.node host)
        (.client peer.destIp) frame)
      (hid : (next.node host).broadcastId =
        (network.node host).broadcastId + 1) :
      network.Effect next (.client host peer)
  | timeout {host : Host}
      (hacts : network.Acts next host (fun _ => emptyRow) [host] []) :
      network.Effect next (.timeout host)

theorem Network.step_effect
    {network next : Network Host} {event : NetworkEvent Host}
    (hstep : network.step event = some next) :
    network.Effect next event := by
  cases event with
  | receive host packet outside =>
      simp only [Network.step, Option.ite_none_right_eq_some,
        Option.some.injEq] at hstep
      rcases hstep with ⟨⟨_, hmem, haccepts⟩, rfl⟩
      cases htable : (network.node host).nextTable packet.frame
          outside.now with
      | none => exact .overrun htable
      | some table =>
          have hwith := processFrame_withTable htable
          have hacts := network.acts_act host _
            (packet.nextTrail host (network.node host)) hwith.serv
          rw [hwith.table] at hacts
          refine .receive hmem haccepts htable hacts ?_ ?_
          · intro frame hframe
            rw [Network.act_node_self]
            exact processFrame_emits htable hframe
          · rw [Network.act_node_self]
            exact hwith.broadcastId
  | client host peer =>
      simp only [Network.step, Option.ite_none_right_eq_some,
        Option.some.injEq] at hstep
      rcases hstep with ⟨_, rfl⟩
      have hrequested :=
        clientRequest_requested (network.node host) peer
      refine .client
        (network.acts_act host _ [host] hrequested.serv)
        hrequested.table ?_ ?_
      · intro frame hframe
        rw [Network.act_node_self]
        exact clientRequest_emits hframe
      · rw [Network.act_node_self]
        exact hrequested.broadcastId
  | timeout host =>
      simp only [Network.step, Option.ite_none_right_eq_some,
        Option.some.injEq] at hstep
      rcases hstep with ⟨_, rfl⟩
      exact .timeout (network.acts_act host
        ⟨(network.node host).initRoutingTable, [], none⟩ [host] rfl)

/-! ## What holds of every network

The addresses in frames and rows are those of the site.  No condition on the
run is needed for this, table clears included. -/

/-- A frame on the network was sent by a node of the site.  Only a payload
can have the empty destination, and then it is addressed to nobody. -/
structure Frame.Proper (frame : Frame) (site : Site Host) : Prop where
  sender : ∃ h, site.OwnsMac h frame.srcMac
  source : ∃ h, site.OwnsIp h frame.header.srcIp
  dest : frame.header.destIp ≠ emptyIp ∨
    frame.header.isPayload = true ∧ frame.destMac = zeroMac
  replyDest : frame.header.type = .rrep →
    ∃ h, site.OwnsIp h frame.header.destIp

/-- The node of a host: its interfaces are those of the site, and its rows
lead to other nodes. -/
structure Node.Proper (node : Node) (site : Site Host) (host : Host) :
    Prop where
  serv : node.serv = site.serv host
  packed : Packed node.table
  rows : ∀ ip row, node.row ip = some row →
    (∃ g, site.OwnsIp g ip) ∧ ¬ site.OwnsIp host ip ∧
      ∃ g, site.OwnsMac g row.nextHopMac

structure Network.Proper (site : Site Host) (network : Network Host) :
    Prop where
  nodes : ∀ h, (network.node h).Proper site h
  frames : ∀ packet ∈ network.sent, packet.frame.Proper site

section Proper

omit [DecidableEq Host]

variable {site : Site Host} {host : Host}

theorem Node.Proper.owns_iff
    {node : Node} (hnode : node.Proper site host) (ip : IpText) :
    node.owns ip = true ↔ site.OwnsIp host ip := by
  rw [Node.owns, decide_eq_true_eq, hnode.serv]
  rfl

theorem Node.Proper.owns_eq_false_iff
    {node : Node} (hnode : node.Proper site host) (ip : IpText) :
    node.owns ip = false ↔ ¬ site.OwnsIp host ip := by
  rw [← hnode.owns_iff ip, Bool.not_eq_true]

theorem Node.Proper.ownsIp
    {node : Node} (hnode : node.Proper site host)
    {sv : ServerDetails} (hsv : sv ∈ node.serv) :
    site.OwnsIp host sv.ip :=
  List.mem_map_of_mem (hnode.serv ▸ hsv)

theorem Node.Proper.ownsMac
    {node : Node} (hnode : node.Proper site host)
    {sv : ServerDetails} (hsv : sv ∈ node.serv) :
    site.OwnsMac host sv.mac :=
  List.mem_map_of_mem (hnode.serv ▸ hsv)

/-- No table is ever full. -/
theorem Node.Proper.exists_free
    {node : Node} (hnode : node.Proper site host) :
    ∃ i, (node.table i).isFilled = false := by
  refine hnode.packed.exists_free _ ?_ (site.foreign_lt host)
  intro i hfilled
  have hrow := lookup_of_filled hnode.packed hfilled
  rcases hnode.rows _ _ hrow with ⟨⟨g, hg⟩, hforeign, _⟩
  rcases List.mem_map.mp hg with ⟨sv, hsv, hip⟩
  rw [Finset.mem_filter]
  exact ⟨hip ▸ site.mem_ips g sv hsv, hforeign⟩

/-- The row found for the empty IP is an unused one. -/
theorem Node.Proper.nextHopMac_emptyIp
    {node : Node} (hnode : node.Proper site host)
    {i : Fin 100} (hentry : getRowEntry node.table emptyIp = some i) :
    (node.table i).nextHopMac = zeroMac := by
  have hkey : (node.table i).destIp = emptyIp :=
    (scanAll_eq_some_iff.mp hentry).1
  cases hfilled : (node.table i).isFilled with
  | false =>
      have hempty : node.table i = emptyRow :=
        hnode.packed.eq_empty i hfilled
      rw [hempty]
      rfl
  | true =>
      have hrow := lookup_of_filled hnode.packed hfilled
      rcases hnode.rows _ _ hrow with ⟨⟨g, hg⟩, _⟩
      exact absurd hkey hg.ne_emptyIp

theorem Node.Proper.start (site : Site Host) (host : Host) :
    (Node.start (site.serv host)).Proper site host := by
  refine ⟨rfl, packed_empty, ?_⟩
  intro ip row hrow
  have hnone : (Node.start (site.serv host)).row ip = none :=
    lookup_empty ip
  rw [hnone] at hrow
  cases hrow

theorem Node.Proper.cleared
    {node next : Node} (hnode : node.Proper site host)
    (hserv : next.serv = node.serv)
    (htable : next.table = fun _ => emptyRow) :
    next.Proper site host := by
  refine ⟨hserv.trans hnode.serv, htable ▸ packed_empty, ?_⟩
  intro ip row hrow
  have hnone : next.row ip = none := by
    rw [Node.row, htable]
    exact lookup_empty ip
  rw [hnone] at hrow
  cases hrow

theorem Node.Proper.of_eq
    {node next : Node} (hnode : node.Proper site host)
    (hserv : next.serv = node.serv) (htable : next.table = node.table) :
    next.Proper site host := by
  refine ⟨hserv.trans hnode.serv, htable ▸ hnode.packed, ?_⟩
  intro ip row hrow
  rw [Node.row, htable] at hrow
  exact hnode.rows ip row hrow

/-- Learning from a proper frame. -/
theorem Node.Proper.tableStep
    {node next : Node} (hnode : node.Proper site host)
    {frame : Frame} (hframe : frame.Proper site)
    {now : ℕ} {table : RoutingTable}
    (hstep : TableStep node frame now table)
    (hserv : next.serv = node.serv) (htable : next.table = table) :
    next.Proper site host := by
  refine ⟨hserv.trans hnode.serv, htable ▸ hstep.packed hnode.packed, ?_⟩
  intro ip row hrow
  rw [Node.row, htable] at hrow
  rcases hstep.row_origin hrow with ⟨old, hold, hmac⟩ | hnew
  · rw [hmac]
    exact hnode.rows ip old hold
  · rcases hnew with ⟨rfl, hmac, _, hupdates⟩
    have hforeign := (Node.updates_eq_true hupdates).2.2
    refine ⟨hframe.source, (hnode.owns_eq_false_iff _).mp hforeign, ?_⟩
    rw [hmac]
    exact hframe.sender

/-- What a node may take as a reason to send. -/
def Cause.Proper (site : Site Host) : Cause → Prop
  | .frame header _ _ =>
      (∃ h, site.OwnsIp h header.srcIp) ∧ header.destIp ≠ emptyIp ∧
        (header.type = .rrep → ∃ h, site.OwnsIp h header.destIp)
  | .client _ => True

/-- A frame which some node accepts has a destination. -/
theorem Frame.Proper.cause
    {node : Node} (hnode : node.Proper site host)
    {frame : Frame} (hframe : frame.Proper site)
    (haccepts : node.Accepts frame) (update : Bool) (stray : Mac) :
    (Cause.frame frame.header update stray).Proper site := by
  refine ⟨hframe.source, ?_, hframe.replyDest⟩
  rcases hframe.dest with hdest | ⟨_, hzero⟩
  · exact hdest
  · rcases haccepts with hbroadcast | hmac
    · rw [hzero] at hbroadcast
      exact absurd hbroadcast (by decide)
    · rw [hnode.serv] at hmac
      exact absurd hzero (Site.OwnsMac.ne_zeroMac hmac)

theorem Wants.source
    {node : Node} (hnode : node.Proper site host)
    {cause : Cause} (hcause : cause.Proper site)
    {srcIp destIp : IpText} {type : DataType}
    (hwants : Wants node cause srcIp destIp type) :
    ∃ h, site.OwnsIp h srcIp := by
  cases hwants with
  | request hsv => exact ⟨host, hnode.ownsIp hsv⟩
  | routed _ howns => exact ⟨host, (hnode.owns_iff _).mp howns⟩
  | served _ howns => exact ⟨host, (hnode.owns_iff _).mp howns⟩
  | forwarded => exact hcause.1

/-- A destination which the node owns or has a row for is one of the
site. -/
theorem Node.Proper.known
    {node : Node} (hnode : node.Proper site host)
    {ip : IpText} (hip : ip ≠ emptyIp)
    (hknown : node.owns ip = true ∨
      (getRowEntry node.table ip).isSome = true) :
    ∃ h, site.OwnsIp h ip := by
  rcases hknown with howns | hrow
  · exact ⟨host, (hnode.owns_iff ip).mp howns⟩
  · rcases Option.isSome_iff_exists.mp hrow with ⟨i, hentry⟩
    exact (hnode.rows ip _ (getRowEntry_some hnode.packed hip hentry)).1

theorem Emits.proper
    {node : Node} (hnode : node.Proper site host)
    {cause : Cause} (hcause : cause.Proper site)
    {frame : Frame} (hemits : Emits node cause frame) :
    frame.Proper site := by
  cases hemits with
  | discover hwants hnone hown hsv =>
      exact ⟨⟨host, hnode.ownsMac hsv⟩, ⟨host, hnode.ownsIp hown⟩,
        .inl (ne_emptyIp_of_getRowEntry_none hnode.packed
          hnode.exists_free hnone), by simp [frameOn]⟩
  | @payload _ destIp _ _ _ _ _ hwants hsome hsv =>
      have htype := hwants.isPayload
      refine ⟨⟨host, hnode.ownsMac hsv⟩, hwants.source hnode hcause,
        ?_, ?_⟩
      · by_cases hdest : destIp = emptyIp
        · rw [hdest] at hsome
          refine .inr ⟨?_, hnode.nextHopMac_emptyIp hsome⟩
          rcases htype with rfl | rfl <;> rfl
        · exact .inl hdest
      · intro hrrep
        rcases htype with rfl | rfl <;> cases hrrep
  | flood hcauseEq _ _ _ hsv =>
      subst hcauseEq
      exact ⟨⟨host, hnode.ownsMac hsv⟩, hcause.1, .inl hcause.2.1,
        by simp [frameOn]⟩
  | reply hcauseEq _ hknown hsv =>
      subst hcauseEq
      rcases hcause.1 with ⟨h, hsource⟩
      exact ⟨⟨host, hnode.ownsMac hsv⟩,
        hnode.known hcause.2.1 hknown, .inl hsource.ne_emptyIp,
        fun _ => ⟨h, hsource⟩⟩
  | relay hcauseEq htype _ hsv =>
      subst hcauseEq
      exact ⟨⟨host, hnode.ownsMac hsv⟩, hcause.1, .inl hcause.2.1,
        fun _ => hcause.2.2 htype⟩

end Proper

omit [DecidableEq Host] in
theorem Network.Acts.mem_sent
    {network next : Network Host} {host : Host} {table : RoutingTable}
    {trail : List Host} {frames : List Frame}
    (hacts : network.Acts next host table trail frames)
    {packet : Packet Host} (hpacket : packet ∈ next.sent) :
    (packet.frame ∈ frames ∧ packet.trail = trail) ∨
      packet ∈ network.sent := by
  rw [hacts.sent, List.mem_append, List.mem_map] at hpacket
  rcases hpacket with ⟨frame, hframe, rfl⟩ | hold
  · exact .inl ⟨hframe, rfl⟩
  · exact .inr hold

theorem Network.Acts.proper
    {site : Site Host} {network next : Network Host} {host : Host}
    {table : RoutingTable} {trail : List Host} {frames : List Frame}
    (hproper : network.Proper site)
    (hacts : network.Acts next host table trail frames)
    (hnode : (next.node host).Proper site host)
    (hframes : ∀ frame ∈ frames, frame.Proper site) :
    next.Proper site := by
  constructor
  case nodes =>
    intro h
    by_cases hh : h = host
    · subst hh
      exact hnode
    · rw [hacts.others h hh]
      exact hproper.nodes h
  case frames =>
    intro packet hpacket
    rcases hacts.mem_sent hpacket with ⟨hnew, _⟩ | hold
    · exact hframes packet.frame hnew
    · exact hproper.frames packet hold

omit [DecidableEq Host] in
theorem Network.Proper.initial
    {site : Site Host} {network : Network Host}
    (hinit : network.Initial site) :
    network.Proper site := by
  subst hinit
  refine ⟨fun h => Node.Proper.start site h, ?_⟩
  intro packet hpacket
  cases hpacket

omit [DecidableEq Host] in
/-- No update runs past the end of a table. -/
theorem Network.Proper.nextTable_ne_none
    {site : Site Host} {network : Network Host}
    (hproper : network.Proper site) {host : Host} {frame : Frame}
    {now : ℕ} :
    (network.node host).nextTable frame now ≠ none := by
  intro hnone
  rcases nextTable_isSome (hproper.nodes host).exists_free frame now with
    ⟨table, hsome⟩
  rw [hnone] at hsome
  cases hsome

omit [DecidableEq Host] in
/-- The table step of a node which receives a frame of the network. -/
theorem Network.Proper.tableStep
    {site : Site Host} {network : Network Host}
    (hproper : network.Proper site)
    {host : Host} {packet : Packet Host} {now : ℕ}
    {table : RoutingTable} (hmem : packet ∈ network.sent)
    (htable : (network.node host).nextTable packet.frame now =
      some table) :
    TableStep (network.node host) packet.frame now table := by
  rcases (hproper.frames packet hmem).source with ⟨h, hsource⟩
  exact nextTable_step (hproper.nodes host).packed hsource.ne_emptyIp
    htable

theorem Network.Proper.effect
    {site : Site Host} {network next : Network Host}
    {event : NetworkEvent Host} (hproper : network.Proper site)
    (heffect : network.Effect next event) :
    next.Proper site := by
  cases heffect with
  | @receive host packet _ table _ hmem haccepts htable hacts hemits _ =>
      have hframe := hproper.frames packet hmem
      have hnode := (hproper.nodes host).tableStep hframe
        (hproper.tableStep hmem htable) hacts.serv hacts.table
      refine hacts.proper hproper hnode ?_
      intro frame hsent
      exact (hemits frame hsent).proper hnode
        (hframe.cause (hproper.nodes host) haccepts _ _)
  | overrun htable => exact (hproper.nextTable_ne_none htable).elim
  | @client host peer table _ hacts htable hemits _ =>
      have hnode : (next.node host).Proper site host := by
        rcases htable with hkeep | ⟨_, hclear⟩
        · exact (hproper.nodes host).of_eq hacts.serv
            (hacts.table.trans hkeep)
        · exact (hproper.nodes host).cleared hacts.serv
            (hacts.table.trans hclear)
      refine hacts.proper hproper hnode ?_
      have hcause : (Cause.client peer.destIp).Proper site := trivial
      intro frame hsent
      exact (hemits frame hsent).proper hnode hcause
  | @timeout host hacts =>
      have hnode := (hproper.nodes host).cleared hacts.serv hacts.table
      refine hacts.proper hproper hnode ?_
      intro frame hsent
      cases hsent

theorem Network.proper_of_reachable
    {site : Site Host} {Allowed : Network Host → NetworkEvent Host → Prop}
    {network : Network Host}
    (hreach : Transition.Reachable Network.step Allowed
      (Network.Initial site) network) :
    network.Proper site :=
  hreach.invariant (Network.Proper site)
    (fun _ hinit => Network.Proper.initial hinit)
    fun _ _ _ hproper _ hstep =>
      hproper.effect (Network.step_effect hstep)

/-- The rule for the invariants of a network: each step may use that the
networks before and after it are proper. -/
theorem Network.invariant_of_reachable
    {site : Site Host} {Allowed : Network Host → NetworkEvent Host → Prop}
    {network : Network Host}
    (hreach : Transition.Reachable Network.step Allowed
      (Network.Initial site) network)
    (Inv : Network Host → Prop)
    (hinit : ∀ start, Network.Initial site start → Inv start)
    (heffect : ∀ state event next, state.Proper site → Inv state →
      Allowed state event → next.Proper site → state.Effect next event →
      Inv next) :
    network.Proper site ∧ Inv network := by
  refine hreach.invariant (fun state => state.Proper site ∧ Inv state)
    ?_ ?_
  · intro start hstart
    exact ⟨.initial hstart, hinit start hstart⟩
  · rintro state event next ⟨hproper, hinv⟩ hallowed hstep
    have hmoves := Network.step_effect hstep
    have hnext := hproper.effect hmoves
    exact ⟨hnext,
      heffect state event next hproper hinv hallowed hnext hmoves⟩

end NetworkProgramming.Odr
