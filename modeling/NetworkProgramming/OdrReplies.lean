import NetworkProgramming.OdrPayload

/-!
# The routes of replies

`send_rrep` takes the next hop for its destination from the table without
looking whether there is a row.  The calls in `process_frame` rely on the row
made for the source of a request, which is missing when a node hears its own
request again, and on the rows of the nodes which a reply passes.
-/

namespace NetworkProgramming.Odr

open SlotTable

variable {Host : Type*} [DecidableEq Host]

/-- The arguments of a call of `send_rrep`. -/
structure RrepCall where
  bId : ℕ
  hCount : ℕ
  destIp : IpText
  srcIp : IpText

/-- The call of `send_rrep` which `process_frame` makes after the update of
the table. -/
def Node.rrepCall (node : Node) (header : FrameHead) : Option RrepCall :=
  match header.type with
  | .rreq =>
      if node.owns header.destIp ||
          (getRowEntry node.table header.destIp).isSome then
        some ⟨header.bcId, 1, header.srcIp, header.destIp⟩
      else none
  | .rrep =>
      if node.owns header.destIp then none
      else some ⟨header.bcId, header.hopCount + 1, header.destIp,
        header.srcIp⟩
  | .payloadReq => none
  | .payloadResp => none

/-- The node hears a request of its own which it can answer. -/
def Node.AnswersItself (node : Node) (header : FrameHead) : Prop :=
  header.type = .rreq ∧ node.owns header.srcIp = true ∧
    (node.owns header.destIp = true ∨
      (getRowEntry node.table header.destIp).isSome = true)

/-- No node answers its own request for the IP, and none forgets a route to
the IP which it passed on. -/
def KeepsReplies (site : Site Host) (ip : IpText)
    (network : Network Host) (event : NetworkEvent Host) : Prop :=
  KeepsRoutes site ip network event ∧
    match event with
    | .receive host packet _ => packet.frame.header.srcIp = ip →
        ¬ (network.node host).AnswersItself packet.frame.header
    | .client _ _ => True
    | .timeout _ => True

/-- Replies for the IP are addressed to nodes which passed the route to it
on. -/
def Network.Answered (site : Site Host) (network : Network Host)
    (ip : IpText) : Prop :=
  ∀ packet ∈ network.sent, packet.frame.header.type = .rrep →
    packet.frame.header.destIp = ip →
    ∃ g, site.OwnsMac g packet.frame.destMac ∧ network.Passed site ip g

theorem rrepCall_cases
    {node : Node} {header : FrameHead} {call : RrepCall}
    (hcall : node.rrepCall header = some call) :
    (header.type = .rreq ∧ call.destIp = header.srcIp ∧
      (node.owns header.destIp = true ∨
        (getRowEntry node.table header.destIp).isSome = true)) ∨
    (header.type = .rrep ∧ call.destIp = header.destIp ∧
      node.owns header.destIp = false) := by
  unfold Node.rrepCall at hcall
  cases htype : header.type with
  | rreq =>
      simp only [htype, Option.ite_none_right_eq_some, Bool.or_eq_true,
        Option.some.injEq] at hcall
      rcases hcall with ⟨hknown, rfl⟩
      exact .inl ⟨rfl, rfl, hknown⟩
  | rrep =>
      simp only [htype, Option.ite_none_left_eq_some,
        Option.some.injEq, Bool.not_eq_true] at hcall
      rcases hcall with ⟨hforeign, rfl⟩
      exact .inr ⟨rfl, rfl, hforeign⟩
  | payloadReq => simp [htype] at hcall
  | payloadResp => simp [htype] at hcall

/-- The frames of the call are among those which `process_frame` sends. -/
theorem rrepCall_sends
    {node : Node} {frame : Frame} {outside : Outside}
    {table : RoutingTable} {call : RrepCall}
    (hnext : node.nextTable frame outside.now = some table)
    (hcall : (node.processFrame frame outside).node.rrepCall
      frame.header = some call)
    {reply : Frame}
    (hreply : reply ∈ (node.processFrame frame outside).node.sendRrep
      call.bId call.hCount call.destIp call.srcIp outside.stray) :
    reply ∈ (node.processFrame frame outside).frames := by
  simp only [Node.processFrame, hnext] at hcall hreply ⊢
  cases htype : frame.header.type with
  | rreq =>
      simp only [htype, Node.rrepCall, Option.ite_none_right_eq_some,
        Option.some.injEq] at hcall hreply
      rcases hcall with ⟨hknown, rfl⟩
      simp only [Node.onRreq, hknown, if_true]
      exact List.mem_append_right _ hreply
  | rrep =>
      simp only [htype, Node.rrepCall, Option.ite_none_left_eq_some,
        Option.some.injEq] at hcall hreply
      rcases hcall with ⟨hforeign, rfl⟩
      simp only [Node.onRrep, hforeign]
      exact hreply
  | payloadReq => simp [htype, Node.rrepCall] at hcall
  | payloadResp => simp [htype, Node.rrepCall] at hcall

/-- Each reply which a node sends because of a frame is one of the call. -/
theorem Emits.rrepCall
    {node : Node} {header : FrameHead} {update : Bool} {stray : Mac}
    {frame : Frame} (hemits : Emits node (.frame header update stray) frame)
    (htype : frame.header.type = .rrep) :
    ∃ call, node.rrepCall header = some call ∧
      frame.header.destIp = call.destIp ∧
      frame.destMac = node.replyMac call.destIp stray := by
  rcases hemits.reply_cases htype with ⟨_, _, _, hcause, hcases⟩
  cases hcause
  rcases hcases with ⟨hrreq, hknown, _, hdest, hmac⟩ |
    ⟨hrrep, hforeign, _, hdest, hmac⟩
  · rw [← Bool.or_eq_true] at hknown
    exact ⟨⟨header.bcId, 1, header.srcIp, header.destIp⟩,
      by simp only [Node.rrepCall, hrreq, hknown, if_true], hdest, hmac⟩
  · exact ⟨⟨header.bcId, header.hopCount + 1, header.destIp,
        header.srcIp⟩,
      by simp [Node.rrepCall, hrrep, hforeign], hdest, hmac⟩

section Answered

omit [DecidableEq Host]

variable {site : Site Host} {ip : IpText}

/-- A node which a reply for the IP is addressed to owns the IP or has a row
for it. -/
theorem Network.Answered.owns_or_row
    {network : Network Host} (hproper : network.Proper site)
    (hrouted : network.Routed site ip) (hanswered : network.Answered site ip)
    {packet : Packet Host} (hmem : packet ∈ network.sent)
    (htype : packet.frame.header.type = .rrep)
    (hdest : packet.frame.header.destIp = ip)
    {host : Host} (haccepts : (network.node host).Accepts packet.frame) :
    site.OwnsIp host ip ∨ ∃ row, (network.node host).row ip = some row := by
  rcases hanswered packet hmem htype hdest with ⟨g, hmac, hpassed⟩
  have hhost : site.OwnsMac host packet.frame.destMac := by
    rcases haccepts with hbroadcast | hown
    · exact absurd hbroadcast hmac.ne_broadcastMac
    · rw [(hproper.nodes host).serv] at hown
      exact hown
  have hg := hmac.unique hhost
  subst hg
  exact Network.owns_or_row_of_reaches
    ((hrouted.frames g hpassed).mono fun _ _ hrelays => hrelays.2)

/-- Where a node calls `send_rrep` for the IP, it has a row for it. -/
theorem Network.Answered.call_row
    {network next : Network Host} (hproper : network.Proper site)
    (hrouted : network.Routed site ip) (hanswered : network.Answered site ip)
    {host : Host} {packet : Packet Host} {outside : Outside}
    {table : RoutingTable} {trail : List Host} {frames : List Frame}
    (hallowed : KeepsReplies site ip network
      (.receive host packet outside))
    (hmem : packet ∈ network.sent)
    (haccepts : (network.node host).Accepts packet.frame)
    (htable : (network.node host).nextTable packet.frame outside.now =
      some table)
    (hacts : network.Acts next host table trail frames)
    {call : RrepCall}
    (hcall : (next.node host).rrepCall packet.frame.header = some call)
    (hdest : call.destIp = ip) :
    ∃ row, (next.node host).row ip = some row := by
  have hstep := hproper.tableStep hmem htable
  have howns : ∀ other, (next.node host).owns other =
      (network.node host).owns other := by
    intro other
    rw [Node.owns, Node.owns, hacts.serv]
  rcases rrepCall_cases hcall with ⟨htype, hsrc, hknown⟩ | hrelay
  · have hip : packet.frame.header.srcIp = ip := hsrc.symm.trans hdest
    have hroute : packet.frame.header.isPayload = false :=
      not_isPayload_of_rreq htype
    have hlearned := hproper.source_learned hacts hmem hstep hroute
    rw [hip] at hlearned
    rcases hlearned with hown | hrow
    · rw [howns, ← hip] at hown
      have hsame : table = (network.node host).table := by
        simp only [Node.nextTable, Node.updates, hown, Bool.not_true,
          Bool.and_false, Bool.false_eq_true, if_false,
          Option.some.injEq] at htable
        exact htable.symm
      rw [howns, hacts.table, hsame] at hknown
      exact absurd ⟨htype, hown, hknown⟩ (hallowed.2 hip)
    · exact hrow
  · rcases hrelay with ⟨htype, hdest', hforeign⟩
    have hip : packet.frame.header.destIp = ip := hdest'.symm.trans hdest
    rcases hanswered.owns_or_row hproper hrouted hmem htype hip haccepts
      with hown | ⟨row, hrow⟩
    · rw [howns, hip, (hproper.nodes host).owns_eq_false_iff] at hforeign
      exact absurd hown hforeign
    · rcases hstep.keeps_row hrow with ⟨row', hrow', _⟩
      refine ⟨row', ?_⟩
      rw [Node.row, hacts.table]
      exact hrow'

theorem replyMac_of_row
    {host : Host} {node : Node} (hnode : node.Proper site host)
    {row : Row} (hrow : node.row ip = some row) (stray : Mac) :
    node.replyMac ip stray = row.nextHopMac := by
  rcases (hnode.rows ip row hrow).1 with ⟨g, hg⟩
  rcases getRowEntry_of_lookup hnode.packed hg.ne_emptyIp hrow with
    ⟨i, hentry, hi⟩
  simp only [Node.replyMac, hentry, hi]

theorem Network.Answered.of_acts
    {network next : Network Host} {host : Host} {table : RoutingTable}
    {trail : List Host} {frames : List Frame}
    (hanswered : network.Answered site ip)
    (hacts : network.Acts next host table trail frames)
    (hframes : ∀ frame ∈ frames, frame.header.type = .rrep →
      frame.header.destIp = ip →
      ∃ g, site.OwnsMac g frame.destMac ∧ next.Passed site ip g) :
    next.Answered site ip := by
  intro packet hpacket htype hdest
  rcases hacts.mem_sent hpacket with ⟨hnew, _⟩ | hold
  · exact hframes packet.frame hnew htype hdest
  · rcases hanswered packet hold htype hdest with ⟨g, hmac, hpassed⟩
    exact ⟨g, hmac, hpassed.acts hacts⟩

theorem Network.Answered.effect
    {network next : Network Host} {event : NetworkEvent Host}
    (hproper : network.Proper site) (hrouted : network.Routed site ip)
    (hanswered : network.Answered site ip)
    (hallowed : KeepsReplies site ip network event)
    (hnext : next.Proper site) (hnextRouted : next.Routed site ip)
    (heffect : network.Effect next event) :
    next.Answered site ip := by
  cases heffect with
  | @receive host packet outside table frames hmem haccepts htable hacts
      hemits _ =>
      refine hanswered.of_acts hacts ?_
      intro frame hsent htype hdest
      rcases (hemits frame hsent).rrepCall htype with
        ⟨call, hcall, hcallDest, hmac⟩
      have hip : call.destIp = ip := hcallDest.symm.trans hdest
      rcases hanswered.call_row hproper hrouted hallowed hmem haccepts
        htable hacts hcall hip with ⟨row, hrow⟩
      rw [hip, replyMac_of_row (hnext.nodes host) hrow] at hmac
      rcases hnext.exists_nextHop hrow with ⟨g, row', hrow', hg⟩
      rw [hrow, Option.some.injEq] at hrow'
      subst hrow'
      exact ⟨g, hmac ▸ hg, hnextRouted.rows host g ⟨row, hrow, hg⟩⟩
  | overrun htable => exact (hproper.nextTable_ne_none htable).elim
  | @client host peer table frames hacts _ hemits _ =>
      refine hanswered.of_acts hacts ?_
      intro frame hsent htype _
      exact absurd htype (hemits frame hsent).type_ne_rrep_of_client
  | @timeout host hacts =>
      refine hanswered.of_acts hacts ?_
      intro frame hsent
      cases hsent

end Answered

/-! ## Runs -/

theorem Network.answered_of_reachable
    {site : Site Host} {ip : IpText} {network : Network Host}
    (hreach : Transition.Reachable Network.step (KeepsReplies site ip)
      (Network.Initial site) network) :
    network.Proper site ∧ network.Routed site ip ∧
      network.Answered site ip := by
  refine Network.invariant_of_reachable hreach (fun state =>
    state.Routed site ip ∧ state.Answered site ip) ?_ ?_
  · intro start hinit
    refine ⟨.initial hinit, ?_⟩
    subst hinit
    intro packet hpacket
    cases hpacket
  · rintro state event next hproper ⟨hrouted, hanswered⟩ hallowed hnext
      heffect
    have hnextRouted :=
      hrouted.effect hproper hallowed.1 hnext heffect
    exact ⟨hnextRouted, hanswered.effect hproper hrouted hallowed
      hnext hnextRouted heffect⟩

/-- Each call of `send_rrep` for the IP finds a filled row, and the replies
go to the next hop of that row. -/
theorem reply_has_route
    {site : Site Host} {ip : IpText} {network next : Network Host}
    (hreach : Transition.Reachable Network.step (KeepsReplies site ip)
      (Network.Initial site) network)
    {host : Host} {packet : Packet Host} {outside : Outside}
    (hallowed : KeepsReplies site ip network
      (.receive host packet outside))
    (hstep : network.step (.receive host packet outside) = some next)
    {call : RrepCall}
    (hcall : (next.node host).rrepCall packet.frame.header = some call)
    (hdest : call.destIp = ip) :
    ∃ i, getRowEntry (next.node host).table ip = some i ∧
      ((next.node host).table i).isFilled = true ∧
      ∀ sv ∈ (next.node host).serv,
        frameOn sv ((next.node host).table i).nextHopMac
          ⟨call.srcIp, ip, call.hCount, call.bId, noMsg, 0, .rrep⟩ ∈
        ((network.node host).processFrame packet.frame outside).frames := by
  rcases Network.answered_of_reachable hreach with
    ⟨hproper, hrouted, hanswered⟩
  have hnext := hproper.effect (Network.step_effect hstep)
  have hrow : ∃ row, (next.node host).row ip = some row := by
    cases Network.step_effect hstep with
    | receive hmem haccepts htable hacts _ _ =>
        exact hanswered.call_row hproper hrouted hallowed hmem haccepts
          htable hacts hcall hdest
    | overrun htable => exact (hproper.nextTable_ne_none htable).elim
  rcases hrow with ⟨row, hrow⟩
  have hnode := hnext.nodes host
  rcases (hnode.rows ip row hrow).1 with ⟨g, hg⟩
  rcases getRowEntry_of_lookup hnode.packed hg.ne_emptyIp hrow with
    ⟨i, hentry, hi⟩
  refine ⟨i, hentry, ?_, ?_⟩
  · rw [hi]
    exact lookup_filled hnode.packed hrow
  · intro sv hsv
    have hself : next.node host =
        ((network.node host).processFrame packet.frame outside).node := by
      simp only [Network.step, Option.ite_none_right_eq_some,
        Option.some.injEq] at hstep
      rw [← hstep.2, Network.act_node_self]
    rcases nextTable_isSome (hproper.nodes host).exists_free
      packet.frame outside.now with ⟨table, htable⟩
    subst hdest
    rw [hself] at hcall hentry hsv ⊢
    refine rrepCall_sends htable hcall ?_
    rw [Node.sendRrep, List.mem_map]
    exact ⟨sv, hsv, by rw [Node.replyMac, hentry]⟩

/-! ## A node which hears its own request -/

instance (node : Node) (header : FrameHead) :
    Decidable (node.AnswersItself header) :=
  inferInstanceAs (Decidable (_ ∧ _))

instance (site : Site Host) (ip : IpText) (network : Network Host)
    (event : NetworkEvent Host) :
    Decidable (KeepsReplies site ip network event) :=
  match event with
  | .receive host packet _ =>
      inferInstanceAs (Decidable (True ∧
        (packet.frame.header.srcIp = ip →
          ¬ (network.node host).AnswersItself packet.frame.header)))
  | .client host peer =>
      inferInstanceAs (Decidable ((peer.flag = 1 →
        network.MayForget site ip host) ∧ True))
  | .timeout host =>
      inferInstanceAs (Decidable (network.MayForget site ip host ∧ True))

/-- The request of the first node as the middle node passed it on. -/
def lineFlood : Packet (Fin 3) :=
  lineFrame 1 broadcastMac
    ⟨lineIp 0, lineIp 2, 2, 2, noMsg, 0, .rreq⟩

/-- The last node answers the request over its row for the first one. -/
theorem reply_has_route_atLast :
    ∃ network next, Transition.Reachable Network.step
        (KeepsReplies lineSite (lineIp 0)) (Network.Initial lineSite)
        network ∧
      network.step (.receive 2 lineFlood quiet) = some next ∧
      ∃ i, getRowEntry (next.node 2).table (lineIp 0) = some i := by
  obtain ⟨network, hreach, htest⟩ :=
    Transition.exists_reachable_of_replay Network.step
      (KeepsReplies lineSite (lineIp 0)) lineStart_initial
      (lineDiscovery.take 2)
      (fun state =>
        decide (KeepsReplies lineSite (lineIp 0) state
          (.receive 2 lineFlood quiet)) &&
        (state.step (.receive 2 lineFlood quiet)).any fun next =>
          ((next.node 2).rrepCall lineFlood.frame.header).any fun call =>
            decide (call.destIp = lineIp 0))
      (by decide +kernel)
  simp only [Bool.and_eq_true, Option.any_eq_true,
    decide_eq_true_eq] at htest
  rcases htest with ⟨hallowed, next, hstep, call, hcall, hdest⟩
  obtain ⟨i, hentry, _⟩ :=
    reply_has_route hreach hallowed hstep hcall hdest
  exact ⟨network, next, hreach, hstep, i, hentry⟩

/-- In a run without clears, loss or duplication the first node hears its own
request when it already knows the route, and calls `send_rrep` for its own
IP. -/
theorem reply_without_route :
    ∃ network next call, Transition.Reachable Network.step NoClear
        (Network.Initial lineSite) network ∧
      network.step (.receive 0 lineFlood quiet) = some next ∧
      (next.node 0).rrepCall lineFlood.frame.header = some call ∧
      getRowEntry (next.node 0).table call.destIp = none := by
  obtain ⟨network, hreach, htest⟩ :=
    Transition.exists_reachable_of_replay Network.step NoClear
      lineStart_initial lineDiscovery
      (fun state =>
        (state.step (.receive 0 lineFlood quiet)).any fun next =>
          ((next.node 0).rrepCall lineFlood.frame.header).any fun call =>
            (getRowEntry (next.node 0).table call.destIp).isNone)
      (by decide +kernel)
  simp only [Option.any_eq_true, Option.isNone_iff_eq_none] at htest
  rcases htest with ⟨next, hstep, call, hcall, hnone⟩
  exact ⟨network, next, call, hreach, hstep, hcall, hnone⟩

/-! ## Forced requests

The force flag is printed and passed on; no node decides by it. -/

/-- The request as a node floods it on. -/
def Frame.flooded (frame : Frame) (sv : ServerDetails) : Frame :=
  frameOn sv broadcastMac
    ⟨frame.header.srcIp, frame.header.destIp, frame.header.hopCount + 1,
      frame.header.bcId, noMsg, 1, .rreq⟩

/-- The host has already sent the request, as its own or on behalf of another
node. -/
def Network.Flooded (site : Site Host) (network : Network Host)
    (host : Host) (header : FrameHead) : Prop :=
  ∃ packet ∈ network.sent, site.OwnsMac host packet.frame.srcMac ∧
    packet.frame.header.type = .rreq ∧
    packet.frame.header.srcIp = header.srcIp ∧
    packet.frame.header.destIp = header.destIp ∧
    packet.frame.header.bcId = header.bcId ∧
    packet.frame.header.forceFlag = header.forceFlag

/-- The host leaves a forced request to the owner of its destination: it
sends no reply, and it floods the request on unless it has done so already. -/
def Network.LeavesToOwner (site : Site Host) (network : Network Host)
    (host : Host) (frame : Frame) (outside : Outside) : Prop :=
  (∀ sent ∈ ((network.node host).processFrame frame outside).frames,
    sent.header.type ≠ .rrep) ∧
  (¬ network.Flooded site host frame.header → ∀ sv ∈ site.serv host,
    frame.flooded sv ∈
      ((network.node host).processFrame frame outside).frames)

theorem processFrame_rreq
    {node : Node} {frame : Frame} {outside : Outside}
    {table : RoutingTable} (htype : frame.header.type = .rreq)
    (hnext : node.nextTable frame outside.now = some table) :
    (node.processFrame frame outside).frames =
      { node with table := table }.onRreq frame.header
        (node.updates frame.header) outside.stray := by
  simp only [Node.processFrame, hnext, htype]

/-- A node without a row for the destination floods the request on when it is
news to it, and does nothing else. -/
theorem processFrame_withoutRow
    {node : Node} {frame : Frame} {outside : Outside}
    {table : RoutingTable} (htype : frame.header.type = .rreq)
    (hforce : frame.header.forceFlag = 1)
    (hnext : node.nextTable frame outside.now = some table)
    (hforeign : node.owns frame.header.destIp = false)
    (hnone : getRowEntry table frame.header.destIp = none) :
    (node.processFrame frame outside).frames =
      if node.updates frame.header then node.serv.map frame.flooded
      else [] := by
  have hindex : { node with table := table }.owns
      frame.header.destIp = false := hforeign
  rw [processFrame_rreq htype hnext, Node.onRreq]
  simp only [hindex, hnone, Option.isSome_none, Bool.not_false,
    Bool.true_and, Bool.or_self, Bool.false_eq_true, if_false,
    List.append_nil]
  split
  next =>
    rw [Node.sendRreq, hforce]
    rfl
  next => rfl

omit [DecidableEq Host] in
theorem leavesToOwner_of_none
    {site : Site Host} {network : Network Host} {host : Host}
    {frame : Frame} {outside : Outside}
    (hserv : (network.node host).serv = site.serv host)
    (hframes : ((network.node host).processFrame frame outside).frames =
      if (network.node host).updates frame.header then
        (network.node host).serv.map frame.flooded else [])
    (hnews : (network.node host).updates frame.header = true ∨
      network.Flooded site host frame.header) :
    network.LeavesToOwner site host frame outside := by
  unfold Network.LeavesToOwner
  rw [hframes, hserv]
  constructor
  · intro sent hsent
    split at hsent
    next =>
      rcases List.mem_map.mp hsent with ⟨sv, _, rfl⟩
      simp [Frame.flooded, frameOn]
    next => cases hsent
  · intro hnew sv hsv
    rw [if_pos (hnews.resolve_right hnew)]
    exact List.mem_map_of_mem hsv

theorem reply_of_row
    {node : Node} {frame : Frame} {outside : Outside}
    {table : RoutingTable} (htype : frame.header.type = .rreq)
    (hnext : node.nextTable frame outside.now = some table)
    (hsome : (getRowEntry table frame.header.destIp).isSome = true)
    {sv : ServerDetails} (hsv : sv ∈ node.serv) :
    ∃ sent ∈ (node.processFrame frame outside).frames,
      sent.header.type = .rrep := by
  refine ⟨frameOn sv ({ node with table := table }.replyMac
    frame.header.srcIp outside.stray) ⟨frame.header.destIp,
      frame.header.srcIp, 1, frame.header.bcId, noMsg, 0, .rrep⟩, ?_, rfl⟩
  rw [processFrame_rreq htype hnext, Node.onRreq, List.mem_append]
  right
  simp only [hsome, Bool.or_true, if_true]
  rw [Node.sendRrep, List.mem_map]
  exact ⟨sv, hsv, rfl⟩

omit [DecidableEq Host] in
/-- With an interface to send on, a request is left to the owner only without
a row, and only if it is flooded on now or was before. -/
theorem Network.LeavesToOwner.news
    {site : Site Host} {network : Network Host} {host : Host}
    {frame : Frame} {outside : Outside} {table : RoutingTable}
    (hleaves : network.LeavesToOwner site host frame outside)
    (htype : frame.header.type = .rreq)
    (hforce : frame.header.forceFlag = 1)
    (hnext : (network.node host).nextTable frame outside.now = some table)
    (hforeign : (network.node host).owns frame.header.destIp = false)
    (hserv : (network.node host).serv = site.serv host)
    {sv : ServerDetails} (hsv : sv ∈ site.serv host) :
    getRowEntry table frame.header.destIp = none ∧
      ((network.node host).updates frame.header = true ∨
        network.Flooded site host frame.header) := by
  cases hentry : getRowEntry table frame.header.destIp with
  | none =>
      refine ⟨rfl, or_iff_not_imp_right.mpr fun hnew => ?_⟩
      have hsent := hleaves.2 hnew sv hsv
      rw [processFrame_withoutRow htype hforce hnext hforeign hentry]
        at hsent
      by_contra hknown
      rw [if_neg hknown] at hsent
      cases hsent
  | some i =>
      rcases reply_of_row htype hnext (by rw [hentry]; rfl)
        (hserv.symm ▸ hsv) with ⟨sent, hsent, hrrep⟩
      exact absurd hrrep (hleaves.1 sent hsent)

/-- A node which does not own the destination leaves a forced request to the
owner exactly when it has no row for the destination, the request does not
make one, and the request is news to it unless it was flooded on before; a
node without interfaces sends nothing. -/
theorem forcedRequest_leftToOwner_iff
    {site : Site Host} {network : Network Host}
    (hreach : Transition.Reachable Network.step Transition.Unrestricted
      (Network.Initial site) network)
    {host : Host} {packet : Packet Host} (hmem : packet ∈ network.sent)
    (haccepts : (network.node host).Accepts packet.frame)
    (htype : packet.frame.header.type = .rreq)
    (hforce : packet.frame.header.forceFlag = 1)
    (hforeign : ¬ site.OwnsIp host packet.frame.header.destIp)
    (outside : Outside) :
    network.LeavesToOwner site host packet.frame outside ↔
      site.serv host = [] ∨
        getRowEntry (network.node host).table
            packet.frame.header.destIp = none ∧
          packet.frame.header.srcIp ≠ packet.frame.header.destIp ∧
          ((network.node host).updates packet.frame.header = true ∨
            network.Flooded site host packet.frame.header) := by
  have hproper := Network.proper_of_reachable hreach
  have hnode := hproper.nodes host
  have hframe := hproper.frames packet hmem
  have hdest := (hframe.cause hnode haccepts true outside.stray).2.1
  have howns := (hnode.owns_eq_false_iff _).mpr hforeign
  have hroute : packet.frame.header.isPayload = false :=
    not_isPayload_of_rreq htype
  rcases hframe.source with ⟨g, hsource⟩
  rcases nextTable_isSome hnode.exists_free packet.frame outside.now with
    ⟨table, htable⟩
  have hstep := hproper.tableStep hmem htable
  have hnone := hstep.row_eq_none_iff hnode.packed hsource.ne_emptyIp
    hroute howns
  rw [← getRowEntry_eq_none_iff (hstep.packed hnode.packed) hdest,
    Node.row, ← getRowEntry_eq_none_iff hnode.packed hdest] at hnone
  rw [← and_assoc, ← hnone]
  constructor
  · intro hleaves
    cases hserv : site.serv host with
    | nil => exact .inl rfl
    | cons sv rest =>
        have hsv : sv ∈ site.serv host := by
          rw [hserv]
          exact List.mem_cons_self
        exact .inr (hleaves.news htype hforce htable howns hnode.serv hsv)
  · rintro (hserv | ⟨hentry, hnews⟩)
    · constructor
      · intro sent hsent
        rw [processFrame_rreq htype htable] at hsent
        simp [Node.onRreq, Node.sendRreq, Node.sendRrep, hnode.serv,
          hserv] at hsent
      · intro _ sv hsv
        rw [hserv] at hsv
        cases hsv
    · exact leavesToOwner_of_none hnode.serv
        (processFrame_withoutRow htype hforce htable howns hentry) hnews

def askForced (dest : Fin 3) : PeerInfo :=
  ⟨lineIp dest, noMsg, 1⟩

/-- The forced request of the first node for the last one. -/
def lineForced (bcId : ℕ) : Packet (Fin 3) :=
  lineFrame 0 broadcastMac
    ⟨lineIp 0, lineIp 2, 1, bcId, noMsg, 1, .rreq⟩

/-- The middle node knows nothing yet and leaves the request to the last
one. -/
theorem forcedRequest_leftToOwner_fresh :
    ∃ network, Transition.Reachable Network.step
        Transition.Unrestricted (Network.Initial lineSite) network ∧
      lineForced 2 ∈ network.sent ∧
      network.LeavesToOwner lineSite 1 (lineForced 2).frame quiet := by
  obtain ⟨network, hreach, htest⟩ :=
    Transition.exists_reachable_of_replay Network.step
      Transition.Unrestricted lineStart_initial [.client 0 (askForced 2)]
      (fun state => decide (lineForced 2 ∈ state.sent) &&
        decide ((state.node 1).Accepts (lineForced 2).frame) &&
        (getRowEntry (state.node 1).table (lineIp 2)).isNone &&
        (state.node 1).updates (lineForced 2).frame.header)
      (by decide +kernel)
  simp only [Bool.and_eq_true, decide_eq_true_eq,
    Option.isNone_iff_eq_none] at htest
  rcases htest with ⟨⟨⟨hmem, haccepts⟩, hnone⟩, hnews⟩
  have hforeign : ¬ lineSite.OwnsIp 1 (lineIp 2) := by decide
  exact ⟨network, hreach, hmem, (forcedRequest_leftToOwner_iff hreach hmem
    haccepts rfl rfl hforeign quiet).mpr
      (.inr ⟨hnone, by decide, .inl hnews⟩)⟩

/-- After a discovery the middle node answers the forced request from its
table. -/
theorem forcedRequest_answered_fromTable :
    ∃ network, Transition.Reachable Network.step
        Transition.Unrestricted (Network.Initial lineSite) network ∧
      lineForced 3 ∈ network.sent ∧
      (network.node 1).Accepts (lineForced 3).frame ∧
      ¬ lineSite.OwnsIp 1 (lineIp 2) ∧
      ((network.node 1).processFrame (lineForced 3).frame quiet).frames =
        [⟨lineMac 0, lineMac 1, 2,
          ⟨lineIp 2, lineIp 0, 1, 3, noMsg, 0, .rrep⟩⟩] ∧
      ¬ network.LeavesToOwner lineSite 1 (lineForced 3).frame quiet := by
  obtain ⟨network, hreach, htest⟩ :=
    Transition.exists_reachable_of_replay Network.step
      Transition.Unrestricted lineStart_initial
      (lineDiscovery ++ [.client 0 (askForced 2)])
      (fun state => decide (lineForced 3 ∈ state.sent) &&
        decide ((state.node 1).Accepts (lineForced 3).frame) &&
        decide (((state.node 1).processFrame (lineForced 3).frame
          quiet).frames = [⟨lineMac 0, lineMac 1, 2,
            ⟨lineIp 2, lineIp 0, 1, 3, noMsg, 0, .rrep⟩⟩]))
      (by decide +kernel)
  simp only [Bool.and_eq_true, decide_eq_true_eq] at htest
  rcases htest with ⟨⟨hmem, haccepts⟩, hframes⟩
  have hforeign : ¬ lineSite.OwnsIp 1 (lineIp 2) := by decide
  refine ⟨network, hreach, hmem, haccepts, hforeign, hframes, ?_⟩
  intro hleaves
  have hsilent := hleaves.1
  rw [hframes] at hsilent
  exact hsilent _ List.mem_cons_self rfl

end NetworkProgramming.Odr
