import NetworkProgramming.OdrReturn

/-!
# Hop counts

A route request or reply carries the number of hops from its receiver back to
its source.  A row takes this number together with the sender as next hop,
but later it takes a smaller number without the sender, and a node which
answers from its table starts the count at one again.  Where neither happens
for a destination, the hop counts of its rows are the lengths of its routes.
-/

namespace NetworkProgramming.Odr

open SlotTable Forwarding

variable {Host : Type*} [DecidableEq Host]

/-- Following `k` rows for the IP leads to its owner. -/
def Network.Distance (site : Site Host) (network : Network Host)
    (ip : IpText) (k : ℕ) (h : Host) : Prop :=
  ReachesIn (network.NextHop site ip) (site.OwnsIp · ip) k h

/-- The node takes something of the frame into its row for the source, or
relays a reply. -/
def Node.Uses (node : Node) (header : FrameHead) : Prop :=
  node.updates header = true ∨
    header.type = .rrep ∧ node.owns header.destIp = false

/-- The node can take the frame without spoiling a hop count for the IP: it
does not answer for the IP from its table, it does not relay a reply of its
own, and what it uses has the hop count of its row. -/
structure Node.Agrees (node : Node) (header : FrameHead) (ip : IpText) :
    Prop where
  answer : header.type = .rreq → header.destIp = ip →
    node.owns ip = true ∨ node.row ip = none ∧ header.srcIp ≠ ip
  owner : header.srcIp = ip → node.Uses header → node.owns ip = false
  count : header.srcIp = ip → node.Uses header →
    ∀ row ∈ node.row ip, header.hopCount = row.hopCount

/-- No table is cleared, and every frame agrees with the node which receives
it. -/
def KeepsHops (ip : IpText) (network : Network Host)
    (event : NetworkEvent Host) : Prop :=
  NoClear network event ∧
    match event with
    | .receive host packet _ =>
        (network.node host).Agrees packet.frame.header ip
    | .client _ _ => True
    | .timeout _ => True

structure Network.TrueHops (site : Site Host) (network : Network Host)
    (ip : IpText) : Prop where
  rows : ∀ h row, (network.node h).row ip = some row →
    network.Distance site ip row.hopCount h
  frames : ∀ packet ∈ network.sent,
    packet.frame.header.isPayload = false →
    packet.frame.header.srcIp = ip →
    ∀ h, site.OwnsMac h packet.frame.srcMac →
      ∃ k, packet.frame.header.hopCount = k + 1 ∧
        network.Distance site ip k h

/-! ## One table -/

/-- A row for the IP keeps its hop count, or it is new. -/
theorem TableStep.hopCount
    {node : Node} {frame : Frame} {now : ℕ} {next : RoutingTable}
    (hstep : TableStep node frame now next) {ip : IpText}
    (hagrees : node.Agrees frame.header ip)
    {row : Row} (hrow : lookup next ip = some row) :
    (∃ old, node.row ip = some old ∧ row.hopCount = old.hopCount) ∨
      (frame.header.srcIp = ip ∧ frame.header.isPayload = false ∧
        row = newRow frame.header frame.srcMac now) := by
  rcases hstep.row_cases hrow with
    hkept | ⟨rfl, hupdates, ⟨_, hnew⟩ | ⟨old, hold, hnew⟩⟩
  · exact .inl ⟨row, hkept, rfl⟩
  · exact .inr ⟨rfl, (Node.updates_eq_true hupdates).1, hnew⟩
  · have hcount := hagrees.count rfl (.inl hupdates) old hold
    refine .inl ⟨old, hold, ?_⟩
    rw [hnew]
    unfold Row.refresh
    split
    · rfl
    · rw [if_neg (by omega)]

/-- After a frame which it uses the node has a row for the source with the
hop count of the frame. -/
theorem TableStep.hopCount_source
    {node : Node} {frame : Frame} {now : ℕ} {next : RoutingTable}
    (hpacked : Packed node.table)
    (hstep : TableStep node frame now next)
    (hsrc : frame.header.srcIp ≠ emptyIp)
    (hroute : frame.header.isPayload = false)
    (hagrees : node.Agrees frame.header frame.header.srcIp)
    (huses : node.Uses frame.header) :
    ∃ row, lookup next frame.header.srcIp = some row ∧
      row.hopCount = frame.header.hopCount := by
  rcases hstep.source_row hpacked hsrc hroute (hagrees.owner rfl huses)
    with ⟨row, hrow⟩
  refine ⟨row, hrow, ?_⟩
  rcases hstep.hopCount hagrees hrow with ⟨old, hold, hcount⟩ | hnew
  · rw [hcount, hagrees.count rfl huses old hold]
  · rw [hnew.2.2]
    rfl

section Steps

omit [DecidableEq Host]

variable {site : Site Host} {ip : IpText}

theorem Network.Distance.effect
    {network next : Network Host} {event : NetworkEvent Host}
    (hproper : network.Proper site) (hclear : NoClear network event)
    (heffect : network.Effect next event) {k : ℕ} {h : Host}
    (hdistance : network.Distance site ip k h) :
    next.Distance site ip k h :=
  hdistance.mono fun _ _ hnext => hnext.effect hproper hclear heffect

theorem Network.Distance.unique
    {network : Network Host} (hproper : network.Proper site)
    {j k : ℕ} {h : Host} (hj : network.Distance site ip j h)
    (hk : network.Distance site ip k h) :
    j = k := by
  have hdet : ∀ a b c, network.NextHop site ip a b →
      network.NextHop site ip a c → b = c :=
    fun _ _ _ hb hc => hb.unique hc
  have hfinal : ∀ a b, site.OwnsIp a ip →
      ¬ network.NextHop site ip a b :=
    fun _ _ howns => hproper.not_nextHop_of_owns howns
  exact ReachesIn.unique hdet hfinal hj hk

/-- What the acting node has to satisfy after a step. -/
theorem Network.TrueHops.of_acts
    {network next : Network Host} {event : NetworkEvent Host}
    {host : Host} {table : RoutingTable} {trail : List Host}
    {frames : List Frame} (hproper : network.Proper site)
    (htrue : network.TrueHops site ip) (hclear : NoClear network event)
    (heffect : network.Effect next event)
    (hacts : network.Acts next host table trail frames)
    (hmacs : ∀ frame ∈ frames, site.OwnsMac host frame.srcMac)
    (hrows : ∀ row, (next.node host).row ip = some row →
      next.Distance site ip row.hopCount host)
    (hframes : ∀ frame ∈ frames, frame.header.isPayload = false →
      frame.header.srcIp = ip →
      ∃ k, frame.header.hopCount = k + 1 ∧
        next.Distance site ip k host) :
    next.TrueHops site ip := by
  constructor
  case rows =>
    intro h row hrow
    by_cases hh : h = host
    · subst hh
      exact hrows row hrow
    · rw [hacts.others h hh] at hrow
      exact (htrue.rows h row hrow).effect hproper hclear heffect
  case frames =>
    intro packet hpacket hroute hsrc h hmac
    rcases hacts.mem_sent hpacket with ⟨hnew, _⟩ | hold
    · have hhost := (hmacs packet.frame hnew).unique hmac
      subst hhost
      exact hframes packet.frame hnew hroute hsrc
    · rcases htrue.frames packet hold hroute hsrc h hmac with
        ⟨k, hcount, hdistance⟩
      exact ⟨k, hcount, hdistance.effect hproper hclear heffect⟩

/-- The rows of a node which received a frame. -/
theorem Network.TrueHops.receive_rows
    {network next : Network Host} (hproper : network.Proper site)
    (htrue : network.TrueHops site ip)
    {host : Host} {packet : Packet Host} {outside : Outside}
    {table : RoutingTable} {trail : List Host} {frames : List Frame}
    (hallowed : KeepsHops ip network (.receive host packet outside))
    (heffect : network.Effect next (.receive host packet outside))
    (hmem : packet ∈ network.sent)
    (hstep : TableStep (network.node host) packet.frame outside.now table)
    (hacts : network.Acts next host table trail frames)
    {row : Row} (hrow : (next.node host).row ip = some row) :
    next.Distance site ip row.hopCount host := by
  have hlookup := hrow
  rw [Node.row, hacts.table] at hlookup
  rcases hstep.hopCount hallowed.2 hlookup with
    ⟨old, hold, hcount⟩ | ⟨hsrc, hroute, hnew⟩
  · rw [hcount]
    exact (htrue.rows host old hold).effect hproper hallowed.1 heffect
  · rcases (hproper.frames packet hmem).sender with ⟨g, hg⟩
    rcases htrue.frames packet hmem hroute hsrc g hg with
      ⟨k, hcount, hdistance⟩
    subst hnew
    have hhop : next.NextHop site ip host g := ⟨_, hrow, hg⟩
    have hsame : (newRow packet.frame.header packet.frame.srcMac
        outside.now).hopCount = k + 1 := hcount
    rw [hsame]
    exact .hop hhop (hdistance.effect hproper hallowed.1 heffect)

/-- A route request or reply which the acting node passes on carries one hop
more than its own row. -/
theorem Network.TrueHops.receive_uses
    {network next : Network Host} (hproper : network.Proper site)
    (htrue : network.TrueHops site ip)
    {host : Host} {packet : Packet Host} {outside : Outside}
    {table : RoutingTable} {trail : List Host} {frames : List Frame}
    (hallowed : KeepsHops ip network (.receive host packet outside))
    (heffect : network.Effect next (.receive host packet outside))
    (hmem : packet ∈ network.sent)
    (hstep : TableStep (network.node host) packet.frame outside.now table)
    (hacts : network.Acts next host table trail frames)
    (hroute : packet.frame.header.isPayload = false)
    (hsrc : packet.frame.header.srcIp = ip)
    (huses : (network.node host).Uses packet.frame.header) :
    next.Distance site ip packet.frame.header.hopCount host := by
  rcases (hproper.frames packet hmem).source with ⟨g, hsource⟩
  have hagrees := hallowed.2
  dsimp only at hagrees
  rw [← hsrc] at hagrees
  rcases hstep.hopCount_source (hproper.nodes host).packed
    hsource.ne_emptyIp hroute hagrees huses with ⟨row, hrow, hcount⟩
  rw [hsrc, ← hacts.table] at hrow
  rw [← hcount]
  exact htrue.receive_rows hproper hallowed heffect hmem hstep hacts hrow

/-- A node which answers a route request for the IP owns it. -/
theorem Network.owns_of_reply
    {network next : Network Host} (hproper : network.Proper site)
    (hnext : next.Proper site)
    {host : Host} {packet : Packet Host} {outside : Outside}
    {table : RoutingTable} {trail : List Host} {frames : List Frame}
    (hallowed : KeepsHops ip network (.receive host packet outside))
    (hmem : packet ∈ network.sent)
    (haccepts : (network.node host).Accepts packet.frame)
    (hstep : TableStep (network.node host) packet.frame outside.now table)
    (hacts : network.Acts next host table trail frames)
    (htype : packet.frame.header.type = .rreq)
    (hdest : packet.frame.header.destIp = ip)
    (hknown : (next.node host).owns packet.frame.header.destIp = true ∨
      (getRowEntry (next.node host).table
        packet.frame.header.destIp).isSome = true) :
    site.OwnsIp host ip := by
  have hnode := hproper.nodes host
  have hframe := hproper.frames packet hmem
  have hip := (hframe.cause hnode haccepts true outside.stray).2.1
  rw [hdest] at hknown hip
  rcases hallowed.2.answer htype hdest with howns | ⟨hnone, hne⟩
  · exact (hnode.owns_iff ip).mp howns
  · rcases hknown with howns | hentry
    · exact ((hnext.nodes host).owns_iff ip).mp howns
    · by_contra hforeign
      rcases hframe.source with ⟨g, hsource⟩
      have hroute : packet.frame.header.isPayload = false :=
        not_isPayload_of_rreq htype
      have hstill := (hstep.row_eq_none_iff hnode.packed
        hsource.ne_emptyIp hroute
        ((hnode.owns_eq_false_iff ip).mpr hforeign)).mpr ⟨hnone, hne⟩
      have hrow := (hnext.nodes host).row_isSome hip hentry
      rw [Node.row, hacts.table, hstill] at hrow
      cases hrow

theorem Network.TrueHops.receive
    {network next : Network Host} (hproper : network.Proper site)
    (htrue : network.TrueHops site ip) (hnext : next.Proper site)
    {host : Host} {packet : Packet Host} {outside : Outside}
    {table : RoutingTable} {trail : List Host} {frames : List Frame}
    (hallowed : KeepsHops ip network (.receive host packet outside))
    (heffect : network.Effect next (.receive host packet outside))
    (hmem : packet ∈ network.sent)
    (haccepts : (network.node host).Accepts packet.frame)
    (htable : (network.node host).nextTable packet.frame outside.now =
      some table)
    (hacts : network.Acts next host table trail frames)
    (hemits : ∀ frame ∈ frames, Emits (next.node host)
      (.frame packet.frame.header
        ((network.node host).updates packet.frame.header)
        outside.stray) frame) :
    next.TrueHops site ip := by
  have hstep := hproper.tableStep hmem htable
  refine htrue.of_acts hproper hallowed.1 heffect hacts
    (fun frame hsent => (hemits frame hsent).ownsMac (hnext.nodes host))
    (fun row hrow => htrue.receive_rows hproper hallowed heffect hmem
      hstep hacts hrow) ?_
  intro frame hsent hroute hsrc
  generalize hupdate : (network.node host).updates packet.frame.header =
    update at hemits
  cases hemits frame hsent with
  | discover _ _ hown _ =>
      exact ⟨0, rfl, .target (hsrc ▸ (hnext.nodes host).ownsIp hown)⟩
  | payload hwants =>
      rcases hwants.isPayload with rfl | rfl <;> cases hroute
  | flood hcause htype _ _ _ =>
      cases hcause
      exact ⟨_, rfl, htrue.receive_uses hproper hallowed heffect hmem
        hstep hacts (not_isPayload_of_rreq htype) hsrc
        (.inl hupdate)⟩
  | reply hcause htype hknown _ =>
      cases hcause
      exact ⟨0, rfl, .target (Network.owns_of_reply hproper hnext hallowed
        hmem haccepts hstep hacts htype hsrc hknown)⟩
  | relay hcause htype hforeign _ =>
      cases hcause
      rw [Node.owns, hacts.serv, ← Node.owns] at hforeign
      exact ⟨_, rfl, htrue.receive_uses hproper hallowed heffect hmem
        hstep hacts (not_isPayload_of_rrep htype) hsrc
        (.inr ⟨htype, hforeign⟩)⟩

theorem Network.TrueHops.client
    {network next : Network Host} (hproper : network.Proper site)
    (htrue : network.TrueHops site ip) (hnext : next.Proper site)
    {host : Host} {peer : PeerInfo} {table : RoutingTable}
    {trail : List Host} {frames : List Frame}
    (hclear : NoClear network (.client host peer))
    (heffect : network.Effect next (.client host peer))
    (hacts : network.Acts next host table trail frames)
    (htable : table = (network.node host).table)
    (hemits : ∀ frame ∈ frames, Emits (next.node host)
      (.client peer.destIp) frame) :
    next.TrueHops site ip := by
  refine htrue.of_acts hproper hclear heffect hacts
    (fun frame hsent => (hemits frame hsent).ownsMac (hnext.nodes host))
    ?_ ?_
  · intro row hrow
    rw [Node.row, hacts.table, htable] at hrow
    exact (htrue.rows host row hrow).effect hproper hclear heffect
  · intro frame hsent hroute hsrc
    cases hemits frame hsent with
    | discover _ _ hown _ =>
        exact ⟨0, rfl, .target (hsrc ▸ (hnext.nodes host).ownsIp hown)⟩
    | payload hwants =>
        rcases hwants.isPayload with rfl | rfl <;> cases hroute
    | flood hcause => cases hcause
    | reply hcause => cases hcause
    | relay hcause => cases hcause

theorem Network.TrueHops.effect
    {network next : Network Host} {event : NetworkEvent Host}
    (hproper : network.Proper site) (htrue : network.TrueHops site ip)
    (hallowed : KeepsHops ip network event)
    (hnext : next.Proper site) (heffect : network.Effect next event) :
    next.TrueHops site ip := by
  have hsame := heffect
  cases heffect with
  | receive hmem haccepts htable hacts hemits _ =>
      exact htrue.receive hproper hnext hallowed hsame hmem haccepts
        htable hacts hemits
  | overrun htable => exact (hproper.nextTable_ne_none htable).elim
  | client hacts htable hemits _ =>
      rcases htable with hkeep | ⟨hforce, _⟩
      · exact htrue.client hproper hnext hallowed.1 hsame hacts hkeep
          hemits
      · exact absurd hforce hallowed.1
  | timeout => exact hallowed.1.elim

end Steps

/-! ## Runs -/

theorem Network.trueHops_of_reachable
    {site : Site Host} {ip : IpText} {network : Network Host}
    (hreach : Transition.Reachable Network.step (KeepsHops ip)
      (Network.Initial site) network) :
    network.Proper site ∧ network.TrueHops site ip := by
  refine Network.invariant_of_reachable hreach
    (fun state => state.TrueHops site ip) ?_ ?_
  · intro start hinit
    subst hinit
    constructor
    case rows =>
      intro h row hrow
      have hnone : (Node.start (site.serv h)).row ip = none :=
        lookup_empty ip
      rw [hnone] at hrow
      cases hrow
    case frames =>
      intro packet hpacket
      cases hpacket
  · intro state event next hproper htrue hallowed hnext heffect
    exact htrue.effect hproper hallowed hnext heffect

/-- The hop count of a row is the number of hops from the node along the rows
for the IP to the owner of the IP. -/
theorem hopCount_is_distance
    {site : Site Host} {ip : IpText} {network : Network Host}
    (hreach : Transition.Reachable Network.step (KeepsHops ip)
      (Network.Initial site) network)
    {h : Host} {row : Row} (hrow : (network.node h).row ip = some row)
    (k : ℕ) :
    network.Distance site ip k h ↔ k = row.hopCount := by
  rcases Network.trueHops_of_reachable hreach with ⟨hproper, htrue⟩
  have hdistance := htrue.rows h row hrow
  constructor
  · intro hk
    exact hk.unique hproper hdistance
  · rintro rfl
    exact hdistance

/-! ## Three nodes in a line -/

instance (node : Node) (header : FrameHead) :
    Decidable (node.Uses header) :=
  inferInstanceAs (Decidable (_ ∨ _))

instance (node : Node) (header : FrameHead) (ip : IpText) :
    Decidable (node.Agrees header ip) :=
  decidable_of_iff
    ((header.type = .rreq → header.destIp = ip →
        node.owns ip = true ∨ node.row ip = none ∧ header.srcIp ≠ ip) ∧
      (header.srcIp = ip → node.Uses header → node.owns ip = false) ∧
      (header.srcIp = ip → node.Uses header →
        ∀ row ∈ node.row ip, header.hopCount = row.hopCount))
    ⟨fun hall => ⟨hall.1, hall.2.1, hall.2.2⟩,
      fun hagrees => ⟨hagrees.answer, hagrees.owner, hagrees.count⟩⟩

instance (ip : IpText) (network : Network Host)
    (event : NetworkEvent Host) :
    Decidable (KeepsHops ip network event) :=
  match event with
  | .receive host packet _ =>
      inferInstanceAs (Decidable (True ∧
        (network.node host).Agrees packet.frame.header ip))
  | .client _ peer => inferInstanceAs (Decidable (peer.flag ≠ 1 ∧ True))
  | .timeout _ => inferInstanceAs (Decidable (False ∧ True))

def Network.hopCount (network : Network (Fin 3)) (h ip : Fin 3) :
    Option ℕ :=
  ((network.node h).row (lineIp ip)).map Row.hopCount

/-- After a discovery the first node counts two hops to the last one. -/
theorem hopCount_is_distance_line :
    ∃ network, Transition.Reachable Network.step (KeepsHops (lineIp 2))
        (Network.Initial lineSite) network ∧
      network.hopCount 0 2 = some 2 ∧
      network.Distance lineSite (lineIp 2) 2 0 := by
  obtain ⟨network, hreach, htest⟩ :=
    Transition.exists_reachable_of_replay Network.step
      (KeepsHops (lineIp 2)) lineStart_initial lineDiscovery
      (fun state => decide (state.hopCount 0 2 = some 2))
      (by decide +kernel)
  rw [decide_eq_true_eq] at htest
  rcases Option.map_eq_some_iff.mp htest with ⟨row, hrow, hcount⟩
  exact ⟨network, hreach, htest,
    (hopCount_is_distance hreach hrow 2).mpr hcount.symm⟩

/-- The middle node answers from its table: the first node counts one hop to
the last one, but its route goes over the middle node. -/
theorem hopCount_not_distance :
    ∃ network, Transition.Reachable Network.step NoClear
        (Network.Initial lineSite) network ∧
      network.hopCount 0 2 = some 1 ∧
      network.Distance lineSite (lineIp 2) 2 0 ∧
      ¬ network.Distance lineSite (lineIp 2) 1 0 := by
  obtain ⟨network, hreach, htest⟩ :=
    Transition.exists_reachable_of_replay Network.step NoClear
      lineStart_initial lineShortcut
      (fun state => decide (state.hopCount 0 2 = some 1) &&
        state.leads 0 1 2 && state.leads 1 2 2)
      (by decide +kernel)
  simp only [Bool.and_eq_true, decide_eq_true_eq] at htest
  rcases htest with ⟨⟨hcount, hfirst⟩, hsecond⟩
  have hproper := Network.proper_of_reachable hreach
  have hdistance : network.Distance lineSite (lineIp 2) 2 0 :=
    .hop (Network.nextHop_of_leads hfirst)
      (.hop (Network.nextHop_of_leads hsecond)
        (.target (List.mem_singleton_self _)))
  refine ⟨network, hreach, hcount, hdistance, ?_⟩
  intro hone
  have hsame := hone.unique hproper hdistance
  cases hsame

end NetworkProgramming.Odr
