import NetworkProgramming.OdrReplies

/-!
# The way back

A node which serves a request sends the response over its row for the
requester.  It has that row when the route request came to it, but a node on
the way which knows the destination answers the request itself, and the
destination never hears of the requester.
-/

namespace NetworkProgramming.Odr

open SlotTable

variable {Host : Type*} [DecidableEq Host]

/-- The node owns the IP or has a row for it. -/
def Network.Knows (site : Site Host) (network : Network Host) (h : Host)
    (ip : IpText) : Prop :=
  site.OwnsIp h ip ∨ ((network.node h).row ip).isSome = true

/-- The owner of `dest` knows `src`. -/
def Network.CanAnswer (site : Site Host) (network : Network Host)
    (src dest : IpText) : Prop :=
  ∀ g, site.OwnsIp g dest → network.Knows site g src

/-- No table is cleared, and where a row for a destination spares a route
request or its way to the destination, the destination already knows the
source. -/
def KeepsReturn (site : Site Host) (network : Network Host)
    (event : NetworkEvent Host) : Prop :=
  NoClear network event ∧
    match event with
    | .receive host packet _ => packet.frame.header.type = .rreq →
        ((network.node host).row packet.frame.header.destIp).isSome =
          true →
        network.CanAnswer site packet.frame.header.srcIp
          packet.frame.header.destIp
    | .client host peer =>
        ((network.node host).row peer.destIp).isSome = true →
        ∀ sv ∈ site.serv host, network.CanAnswer site sv.ip peer.destIp
    | .timeout _ => True

structure Network.Returns (site : Site Host) (network : Network Host) :
    Prop where
  replies : ∀ packet ∈ network.sent, packet.frame.header.type = .rrep →
    network.CanAnswer site packet.frame.header.destIp
      packet.frame.header.srcIp
  requests : ∀ packet ∈ network.sent,
    packet.frame.header.type = .payloadReq →
    ∀ g, site.OwnsIp g packet.frame.header.destIp →
      ((network.node g).row packet.frame.header.srcIp).isSome = true

section Returns

omit [DecidableEq Host]

variable {site : Site Host}

theorem Network.Effect.keeps_isSome
    {network next : Network Host} {event : NetworkEvent Host}
    (hproper : network.Proper site) (hclear : NoClear network event)
    (heffect : network.Effect next event) {h : Host} {ip : IpText}
    (hrow : ((network.node h).row ip).isSome = true) :
    ((next.node h).row ip).isSome = true := by
  rcases Option.isSome_iff_exists.mp hrow with ⟨row, hrow⟩
  rcases heffect.keeps_row hproper hclear hrow with ⟨row', hrow', _⟩
  rw [hrow']
  rfl

theorem Network.CanAnswer.effect
    {network next : Network Host} {event : NetworkEvent Host}
    (hproper : network.Proper site) (hclear : NoClear network event)
    (heffect : network.Effect next event) {src dest : IpText}
    (hanswer : network.CanAnswer site src dest) :
    next.CanAnswer site src dest := by
  intro g hg
  exact (hanswer g hg).imp_right (heffect.keeps_isSome hproper hclear)

/-- Where a node with a row for the destination asks from an IP of its own,
the destination is another node and has a row for that IP. -/
theorem Network.CanAnswer.row
    {network : Network Host} {src dest : IpText}
    (hanswer : network.CanAnswer site src dest)
    {host : Host} (hnode : (network.node host).Proper site host)
    (hsrc : site.OwnsIp host src)
    (hrow : ((network.node host).row dest).isSome = true)
    {g : Host} (hg : site.OwnsIp g dest) :
    ((network.node g).row src).isSome = true := by
  rcases hanswer g hg with howns | hknown
  · have hhost := howns.unique hsrc
    subst hhost
    rcases Option.isSome_iff_exists.mp hrow with ⟨row, hrow⟩
    exact absurd hg (hnode.rows dest row hrow).2.1
  · exact hknown

theorem Node.Proper.row_isSome
    {host : Host} {node : Node} (hnode : node.Proper site host)
    {ip : IpText} (hip : ip ≠ emptyIp)
    (hentry : (getRowEntry node.table ip).isSome = true) :
    (node.row ip).isSome = true := by
  rcases Option.isSome_iff_exists.mp hentry with ⟨i, hi⟩
  rw [Node.row, getRowEntry_some hnode.packed hip hi]
  rfl

/-- A node answers a route request only when the destination knows its
source. -/
theorem Network.canAnswer_of_reply
    {network next : Network Host} (hproper : network.Proper site)
    (hnext : next.Proper site)
    {host : Host} {packet : Packet Host} {outside : Outside}
    {table : RoutingTable} {trail : List Host} {frames : List Frame}
    (hallowed : KeepsReturn site network (.receive host packet outside))
    (heffect : network.Effect next (.receive host packet outside))
    (hmem : packet ∈ network.sent)
    (htable : (network.node host).nextTable packet.frame outside.now =
      some table)
    (hacts : network.Acts next host table trail frames)
    (htype : packet.frame.header.type = .rreq)
    (hknown : (next.node host).owns packet.frame.header.destIp = true ∨
      (getRowEntry (next.node host).table
        packet.frame.header.destIp).isSome = true) :
    next.CanAnswer site packet.frame.header.srcIp
      packet.frame.header.destIp := by
  have hstep := hproper.tableStep hmem htable
  have hroute : packet.frame.header.isPayload = false :=
    not_isPayload_of_rreq htype
  intro g hg
  rcases hknown with howns | hentry
  · rw [(hnext.nodes host).owns_iff] at howns
    have hhost := howns.unique hg
    subst hhost
    rcases hproper.source_learned hacts hmem hstep hroute with
      hsource | ⟨row, hrow⟩
    · exact .inl (((hnext.nodes host).owns_iff _).mp hsource)
    · exact .inr (by rw [hrow]; rfl)
  · have hrow := (hnext.nodes host).row_isSome hg.ne_emptyIp hentry
    rcases Option.isSome_iff_exists.mp hrow with ⟨row, hrow⟩
    rw [Node.row, hacts.table] at hrow
    rcases hstep.row_origin hrow with ⟨old, hold, _⟩ | hnew
    · have hanswer := hallowed.2 htype (by rw [hold]; rfl)
      exact (hanswer.effect hproper hallowed.1 heffect) g hg
    · rw [hnew.1] at hg
      exact .inl hg

/-- What the new frames of a step have to satisfy. -/
theorem Network.Returns.of_acts
    {network next : Network Host} {event : NetworkEvent Host}
    {host : Host} {table : RoutingTable} {trail : List Host}
    {frames : List Frame} (hproper : network.Proper site)
    (hreturns : network.Returns site) (hclear : NoClear network event)
    (heffect : network.Effect next event)
    (hacts : network.Acts next host table trail frames)
    (hreplies : ∀ frame ∈ frames, frame.header.type = .rrep →
      next.CanAnswer site frame.header.destIp frame.header.srcIp)
    (hrequests : ∀ frame ∈ frames, frame.header.type = .payloadReq →
      ∀ g, site.OwnsIp g frame.header.destIp →
        ((next.node g).row frame.header.srcIp).isSome = true) :
    next.Returns site := by
  constructor
  case replies =>
    intro packet hpacket htype
    rcases hacts.mem_sent hpacket with ⟨hnew, _⟩ | hold
    · exact hreplies packet.frame hnew htype
    · exact (hreturns.replies packet hold htype).effect hproper hclear
        heffect
  case requests =>
    intro packet hpacket htype g hg
    rcases hacts.mem_sent hpacket with ⟨hnew, _⟩ | hold
    · exact hrequests packet.frame hnew htype g hg
    · exact heffect.keeps_isSome hproper hclear
        (hreturns.requests packet hold htype g hg)

theorem Network.Returns.receive
    {network next : Network Host} (hproper : network.Proper site)
    (hreturns : network.Returns site) (hnext : next.Proper site)
    {host : Host} {packet : Packet Host} {outside : Outside}
    {table : RoutingTable} {trail : List Host} {frames : List Frame}
    (hallowed : KeepsReturn site network (.receive host packet outside))
    (heffect : network.Effect next (.receive host packet outside))
    (hmem : packet ∈ network.sent)
    (htable : (network.node host).nextTable packet.frame outside.now =
      some table)
    (hacts : network.Acts next host table trail frames)
    (hemits : ∀ frame ∈ frames, Emits (next.node host)
      (.frame packet.frame.header
        ((network.node host).updates packet.frame.header)
        outside.stray) frame) :
    next.Returns site := by
  refine hreturns.of_acts hproper hallowed.1 heffect hacts ?_ ?_
  · intro frame hsent htype
    rcases (hemits frame hsent).reply_cases htype with
      ⟨_, _, _, hcause, hcases⟩
    cases hcause
    rcases hcases with ⟨hrreq, hknown, hsrc, hdest, _⟩ |
      ⟨hrrep, _, hsrc, hdest, _⟩
    · rw [hsrc, hdest]
      exact Network.canAnswer_of_reply hproper hnext hallowed heffect
        hmem htable hacts hrreq hknown
    · rw [hsrc, hdest]
      exact (hreturns.replies packet hmem hrrep).effect hproper
        hallowed.1 heffect
  · intro frame hsent htype g hg
    rcases (hemits frame hsent).wants (isPayload_of_req htype) with
      ⟨_, _, _, i, hwants, hsome, _, hsrc, hdest, hwanted⟩
    rw [hdest] at hg
    rw [hsrc]
    rw [htype] at hwanted
    have hentry := (hnext.nodes host).row_isSome hg.ne_emptyIp
      (Option.isSome_iff_exists.mpr ⟨_, hsome⟩)
    cases hwants with
    | routed hrrep howns =>
        have hanswer := (hreturns.replies packet hmem hrrep).effect
          hproper hallowed.1 heffect
        exact hanswer.row (hnext.nodes host)
          (((hnext.nodes host).owns_iff _).mp howns) hentry hg
    | served => cases hwanted
    | forwarded =>
        exact heffect.keeps_isSome hproper hallowed.1
          (hreturns.requests packet hmem hwanted.symm g hg)

theorem Network.Returns.client
    {network next : Network Host} (hproper : network.Proper site)
    (hreturns : network.Returns site) (hnext : next.Proper site)
    {host : Host} {peer : PeerInfo} {table : RoutingTable}
    {trail : List Host} {frames : List Frame}
    (hallowed : KeepsReturn site network (.client host peer))
    (heffect : network.Effect next (.client host peer))
    (hacts : network.Acts next host table trail frames)
    (htable : table = (network.node host).table)
    (hemits : ∀ frame ∈ frames, Emits (next.node host)
      (.client peer.destIp) frame) :
    next.Returns site := by
  refine hreturns.of_acts hproper hallowed.1 heffect hacts ?_ ?_
  · intro frame hsent htype
    exact absurd htype (hemits frame hsent).type_ne_rrep_of_client
  · intro frame hsent htype g hg
    rcases (hemits frame hsent).wants (isPayload_of_req htype) with
      ⟨_, _, _, i, hwants, hsome, _, hsrc, hdest, _⟩
    rw [hdest] at hg
    rw [hsrc]
    have hentry := (hnext.nodes host).row_isSome hg.ne_emptyIp
      (Option.isSome_iff_exists.mpr ⟨_, hsome⟩)
    cases hwants with
    | request hsv =>
        have hbefore := hentry
        rw [Node.row, hacts.table, htable] at hbefore
        have howns := (hnext.nodes host).ownsIp hsv
        rw [(hnext.nodes host).serv] at hsv
        have hanswer := (hallowed.2 hbefore _ hsv).effect hproper
          hallowed.1 heffect
        exact hanswer.row (hnext.nodes host) howns hentry hg

theorem Network.Returns.effect
    {network next : Network Host} {event : NetworkEvent Host}
    (hproper : network.Proper site) (hreturns : network.Returns site)
    (hallowed : KeepsReturn site network event)
    (hnext : next.Proper site) (heffect : network.Effect next event) :
    next.Returns site := by
  have hsame := heffect
  cases heffect with
  | receive hmem _ htable hacts hemits _ =>
      exact hreturns.receive hproper hnext hallowed hsame hmem htable
        hacts hemits
  | overrun htable => exact (hproper.nextTable_ne_none htable).elim
  | client hacts htable hemits _ =>
      rcases htable with hkeep | ⟨hforce, _⟩
      · exact hreturns.client hproper hnext hallowed hsame hacts hkeep
          hemits
      · exact absurd hforce hallowed.1
  | timeout => exact hallowed.1.elim

end Returns

/-! ## Runs -/

theorem Network.returns_of_reachable
    {site : Site Host} {network : Network Host}
    (hreach : Transition.Reachable Network.step (KeepsReturn site)
      (Network.Initial site) network) :
    network.Proper site ∧ network.Returns site := by
  refine Network.invariant_of_reachable hreach
    (fun state => state.Returns site) ?_ ?_
  · intro start hinit
    subst hinit
    constructor
    case replies =>
      intro packet hpacket
      cases hpacket
    case requests =>
      intro packet hpacket
      cases hpacket
  · intro state event next hproper hreturns hallowed hnext heffect
    exact hreturns.effect hproper hallowed hnext heffect

theorem processFrame_serves
    {node : Node} {frame : Frame}
    (htype : frame.header.type = .payloadReq)
    (howns : node.owns frame.header.destIp = true)
    {i : Fin 100}
    (hentry : getRowEntry node.table frame.header.srcIp = some i)
    (outside : Outside) :
    (node.processFrame frame outside).frames =
      node.serv.map fun sv => frameOn sv (node.table i).nextHopMac
        ⟨frame.header.destIp, frame.header.srcIp,
          (node.table i).hopCount, node.broadcastId, outside.serverMsg, 0,
          .payloadResp⟩ := by
  have hpayload : frame.header.isPayload = true :=
    isPayload_of_req htype
  simp only [Node.processFrame, nextTable_payload hpayload, htype]
  rw [Node.onPayload, if_pos howns, if_pos htype]
  simp only [Node.sendPayload, hentry]

/-- A node which serves a request has a filled row for the requester, and
sends the message of its server there. -/
theorem response_has_route
    {site : Site Host} {network next : Network Host}
    (hreach : Transition.Reachable Network.step (KeepsReturn site)
      (Network.Initial site) network)
    {host : Host} {packet : Packet Host} {outside : Outside}
    (hstep : network.step (.receive host packet outside) = some next)
    (htype : packet.frame.header.type = .payloadReq)
    (howns : site.OwnsIp host packet.frame.header.destIp) :
    ∃ i, getRowEntry (network.node host).table
        packet.frame.header.srcIp = some i ∧
      ((network.node host).table i).isFilled = true ∧
      ((network.node host).processFrame packet.frame outside).frames =
        (site.serv host).map fun sv =>
          frameOn sv ((network.node host).table i).nextHopMac
            ⟨packet.frame.header.destIp, packet.frame.header.srcIp,
              ((network.node host).table i).hopCount,
              (network.node host).broadcastId, outside.serverMsg, 0,
              .payloadResp⟩ := by
  rcases Network.returns_of_reachable hreach with ⟨hproper, hreturns⟩
  have hnode := hproper.nodes host
  have hmem : packet ∈ network.sent := by
    simp only [Network.step, Option.ite_none_right_eq_some] at hstep
    exact hstep.1.2.1
  rcases Option.isSome_iff_exists.mp
    (hreturns.requests packet hmem htype host howns) with ⟨row, hrow⟩
  rcases (hnode.rows _ row hrow).1 with ⟨g, hg⟩
  rcases getRowEntry_of_lookup hnode.packed hg.ne_emptyIp hrow with
    ⟨i, hentry, hi⟩
  refine ⟨i, hentry, ?_, ?_⟩
  · rw [hi]
    exact lookup_filled hnode.packed hrow
  · rw [← hnode.serv]
    exact processFrame_serves htype ((hnode.owns_iff _).mpr howns) hentry
      outside

/-! ## A destination which never heard of the requester -/

instance (site : Site Host) (network : Network Host) (h : Host)
    (ip : IpText) : Decidable (network.Knows site h ip) :=
  inferInstanceAs (Decidable (_ ∨ _))

instance [Fintype Host] (site : Site Host) (network : Network Host)
    (src dest : IpText) : Decidable (network.CanAnswer site src dest) :=
  inferInstanceAs (Decidable (∀ g, site.OwnsIp g dest →
    network.Knows site g src))

instance [Fintype Host] (site : Site Host) (network : Network Host)
    (event : NetworkEvent Host) :
    Decidable (KeepsReturn site network event) :=
  match event with
  | .receive host packet _ =>
      inferInstanceAs (Decidable (True ∧
        (packet.frame.header.type = .rreq →
          ((network.node host).row packet.frame.header.destIp).isSome =
            true →
          network.CanAnswer site packet.frame.header.srcIp
            packet.frame.header.destIp)))
  | .client host peer =>
      inferInstanceAs (Decidable (peer.flag ≠ 1 ∧
        (((network.node host).row peer.destIp).isSome = true →
          ∀ sv ∈ site.serv host,
            network.CanAnswer site sv.ip peer.destIp)))
  | .timeout _ => inferInstanceAs (Decidable (False ∧ True))

/-- The last node answers the first one. -/
theorem response_has_route_line :
    ∃ network next, Transition.Reachable Network.step
        (KeepsReturn lineSite) (Network.Initial lineSite) network ∧
      network.step (.receive 2 linePassedOn quiet) = some next ∧
      ∃ i, getRowEntry (network.node 2).table (lineIp 0) = some i := by
  obtain ⟨network, hreach, htest⟩ :=
    Transition.exists_reachable_of_replay Network.step
      (KeepsReturn lineSite) lineStart_initial
      (lineDiscovery ++ [.receive 1 linePayload quiet])
      (fun state =>
        (state.step (.receive 2 linePassedOn quiet)).isSome)
      (by decide +kernel)
  rcases Option.isSome_iff_exists.mp htest with ⟨next, hstep⟩
  have howns : lineSite.OwnsIp 2 (lineIp 2) := List.mem_singleton_self _
  rcases response_has_route hreach hstep rfl howns with ⟨i, hentry, _⟩
  exact ⟨network, next, hreach, hstep, i, hentry⟩

/-- The middle node finds the last one, and then answers the request of the
first node from its table.  The payload of the first node is on its way to
the last one. -/
def lineShortcut : List (NetworkEvent (Fin 3)) :=
  [.client 1 (ask 2),
    .receive 2 (lineFrame 1 broadcastMac
      ⟨lineIp 1, lineIp 2, 1, 2, noMsg, 0, .rreq⟩) quiet,
    .receive 1 (lineFrame 2 (lineMac 1)
      ⟨lineIp 2, lineIp 1, 1, 2, noMsg, 0, .rrep⟩) quiet,
    .client 0 (ask 2),
    .receive 1 (lineFrame 0 broadcastMac
      ⟨lineIp 0, lineIp 2, 1, 2, noMsg, 0, .rreq⟩) quiet,
    .receive 0 (lineFrame 1 (lineMac 0)
      ⟨lineIp 2, lineIp 0, 1, 2, noMsg, 0, .rrep⟩) quiet,
    .receive 1 (lineFrame 0 (lineMac 1)
      ⟨lineIp 0, lineIp 2, 1, 2, blankMsg, 0, .payloadReq⟩) quiet]

/-- The payload of the first node as it comes to the last one. -/
def shortcutPayload : Packet (Fin 3) :=
  ⟨⟨lineMac 2, lineMac 1, 2,
    ⟨lineIp 0, lineIp 2, 1, 2, blankMsg, 0, .payloadReq⟩⟩, [0, 1]⟩

/-- The last node has no row for the first one.  It asks for a route, and
the message of its server is lost. -/
theorem response_without_route :
    ∃ network next, Transition.Reachable Network.step NoClear
        (Network.Initial lineSite) network ∧
      network.step (.receive 2 shortcutPayload quiet) = some next ∧
      lineSite.OwnsIp 2 shortcutPayload.frame.header.destIp ∧
      getRowEntry (network.node 2).table (lineIp 0) = none ∧
      ((network.node 2).processFrame shortcutPayload.frame quiet).frames =
        [⟨broadcastMac, lineMac 2, 2,
          ⟨lineIp 2, lineIp 0, 1, 1, noMsg, 0, .rreq⟩⟩] := by
  obtain ⟨network, hreach, htest⟩ :=
    Transition.exists_reachable_of_replay Network.step NoClear
      lineStart_initial lineShortcut
      (fun state =>
        (state.step (.receive 2 shortcutPayload quiet)).isSome &&
        (getRowEntry (state.node 2).table (lineIp 0)).isNone &&
        decide (((state.node 2).processFrame shortcutPayload.frame
          quiet).frames = [⟨broadcastMac, lineMac 2, 2,
            ⟨lineIp 2, lineIp 0, 1, 1, noMsg, 0, .rreq⟩⟩]))
      (by decide +kernel)
  simp only [Bool.and_eq_true, decide_eq_true_eq,
    Option.isNone_iff_eq_none, Option.isSome_iff_exists] at htest
  rcases htest with ⟨⟨⟨next, hstep⟩, hnone⟩, hframes⟩
  exact ⟨network, next, hreach, hstep, List.mem_singleton_self _, hnone,
    hframes⟩

end NetworkProgramming.Odr
