import NetworkProgramming.OdrNetwork
import NetworkProgramming.Forwarding

/-!
# Routes towards one destination

A row for an IP leads to a node which sent a route request or reply with that
IP as its source, and a node sends one only when it owns the IP or has a row
for it itself.  As a row never changes its next hop, following the rows ends
at the owner.  This stays so for an IP as long as no node which passed its
route on forgets it.
-/

namespace NetworkProgramming.Odr

open SlotTable Forwarding

variable {Host : Type*} [DecidableEq Host]

/-- The edge from a node to the owner of the next hop of its row for the
IP. -/
def Network.NextHop (site : Site Host) (network : Network Host)
    (ip : IpText) (a b : Host) : Prop :=
  ∃ row, (network.node a).row ip = some row ∧
    site.OwnsMac b row.nextHopMac

/-- The node sent a route request or reply with the IP as its source. -/
def Network.Passed (site : Site Host) (network : Network Host)
    (ip : IpText) (h : Host) : Prop :=
  ∃ packet ∈ network.sent, packet.frame.header.isPayload = false ∧
    packet.frame.header.srcIp = ip ∧ site.OwnsMac h packet.frame.srcMac

def Network.Relays (site : Site Host) (network : Network Host)
    (ip : IpText) (a b : Host) : Prop :=
  network.Passed site ip a ∧ network.NextHop site ip a b

structure Network.Routed (site : Site Host) (network : Network Host)
    (ip : IpText) : Prop where
  frames : ∀ h, network.Passed site ip h →
    Reaches (network.Relays site ip) (site.OwnsIp · ip) h
  rows : ∀ a b, network.NextHop site ip a b → network.Passed site ip b

/-- A node may forget its row for the IP by a table clear only when it has
not passed the route on. -/
def Network.MayForget (site : Site Host) (network : Network Host)
    (ip : IpText) (h : Host) : Prop :=
  (network.node h).row ip = none ∨ ¬ network.Passed site ip h

/-- No event makes a node forget a route to the IP which it passed on. -/
def KeepsRoutes (site : Site Host) (ip : IpText)
    (network : Network Host) : NetworkEvent Host → Prop
  | .receive _ _ _ => True
  | .client host peer => peer.flag = 1 → network.MayForget site ip host
  | .timeout host => network.MayForget site ip host

section Routed

omit [DecidableEq Host]

variable {site : Site Host} {ip : IpText}

theorem Network.NextHop.unique
    {network : Network Host} {a b c : Host}
    (hb : network.NextHop site ip a b)
    (hc : network.NextHop site ip a c) :
    b = c := by
  rcases hb with ⟨row, hrow, hmac⟩
  rcases hc with ⟨row', hrow', hmac'⟩
  rw [hrow, Option.some.injEq] at hrow'
  subst hrow'
  exact hmac.unique hmac'

theorem Network.Proper.not_nextHop_of_owns
    {network : Network Host} (hproper : network.Proper site)
    {a b : Host} (howns : site.OwnsIp a ip) :
    ¬ network.NextHop site ip a b := by
  intro hnext
  rcases hnext with ⟨row, hrow, _⟩
  exact ((hproper.nodes a).rows ip row hrow).2.1 howns

theorem Network.Proper.exists_nextHop
    {network : Network Host} (hproper : network.Proper site)
    {a : Host} {row : Row} (hrow : (network.node a).row ip = some row) :
    ∃ b, network.NextHop site ip a b := by
  rcases ((hproper.nodes a).rows ip row hrow).2.2 with ⟨b, hb⟩
  exact ⟨b, row, hrow, hb⟩

theorem Network.Routed.reaches_nextHop
    {network : Network Host} (hrouted : network.Routed site ip)
    {a b : Host} (hnext : network.NextHop site ip a b) :
    Reaches (network.Relays site ip) (site.OwnsIp · ip) b :=
  hrouted.frames b (hrouted.rows a b hnext)

/-- Following the rows for the IP never leads back. -/
theorem Network.Routed.not_transGen_self
    {network : Network Host} (hproper : network.Proper site)
    (hrouted : network.Routed site ip) (h : Host) :
    ¬ Relation.TransGen (network.NextHop site ip) h h := by
  intro hcycle
  rcases Relation.TransGen.head'_iff.mp hcycle with ⟨b, hnext, hback⟩
  have hloop : Relation.TransGen (network.NextHop site ip) b b :=
    Relation.TransGen.tail' hback hnext
  have hdet : ∀ a b c, network.Relays site ip a b →
      network.NextHop site ip a c → b = c :=
    fun a b c hrelays hc => hrelays.2.unique hc
  have hfinal : ∀ a b, site.OwnsIp a ip →
      ¬ network.NextHop site ip a b :=
    fun a b howns => hproper.not_nextHop_of_owns howns
  have hreaches := hrouted.reaches_nextHop hnext
  exact hreaches.not_transGen_self hdet hfinal hloop

/-! ## Steps -/

theorem Network.Passed.acts
    {network next : Network Host} {host h : Host} {table : RoutingTable}
    {trail : List Host} {frames : List Frame}
    (hacts : network.Acts next host table trail frames)
    (hpassed : network.Passed site ip h) :
    next.Passed site ip h := by
  rcases hpassed with ⟨packet, hpacket, hrest⟩
  refine ⟨packet, ?_, hrest⟩
  rw [hacts.sent, List.mem_append]
  exact .inr hpacket

theorem Network.NextHop.acts_of_ne
    {network next : Network Host} {host a b : Host}
    {table : RoutingTable} {trail : List Host} {frames : List Frame}
    (hacts : network.Acts next host table trail frames) (ha : a ≠ host) :
    next.NextHop site ip a b ↔ network.NextHop site ip a b := by
  rw [Network.NextHop, Network.NextHop, hacts.others a ha]

/-- What a step has to keep so that all routes to the IP stay. -/
theorem Network.Routed.acts
    {network next : Network Host} {host : Host} {table : RoutingTable}
    {trail : List Host} {frames : List Frame}
    (hrouted : network.Routed site ip)
    (hacts : network.Acts next host table trail frames)
    (hkeeps : ∀ b, network.Relays site ip host b →
      next.NextHop site ip host b)
    (hrows : ∀ b, next.NextHop site ip host b →
      network.Passed site ip b)
    (hmacs : ∀ frame ∈ frames, site.OwnsMac host frame.srcMac)
    (hframes : ∀ frame ∈ frames, frame.header.isPayload = false →
      frame.header.srcIp = ip →
        site.OwnsIp host ip ∨ ∃ b, next.NextHop site ip host b) :
    next.Routed site ip := by
  have hwider : ∀ a b, network.Relays site ip a b →
      next.Relays site ip a b := by
    intro a b hrelays
    refine ⟨hrelays.1.acts hacts, ?_⟩
    by_cases ha : a = host
    · subst ha
      exact hkeeps b hrelays
    · exact (Network.NextHop.acts_of_ne hacts ha).mpr hrelays.2
  have hpassed : ∀ a b, next.NextHop site ip a b →
      network.Passed site ip b := by
    intro a b hnext
    by_cases ha : a = host
    · subst ha
      exact hrows b hnext
    · exact hrouted.rows a b
        ((Network.NextHop.acts_of_ne hacts ha).mp hnext)
  constructor
  case frames =>
    intro h hh
    rcases hh with ⟨packet, hpacket, hroute, hsrc, hmac⟩
    rcases hacts.mem_sent hpacket with ⟨hnew, _⟩ | hold
    · have hhost := hmac.unique (hmacs packet.frame hnew)
      subst hhost
      rcases hframes packet.frame hnew hroute hsrc with howns | hhop
      · exact .of_target howns
      · rcases hhop with ⟨b, hnext⟩
        have hb := hrouted.frames b (hpassed h b hnext)
        exact .of_hop ⟨⟨packet, hpacket, hroute, hsrc, hmac⟩, hnext⟩
          (hb.mono hwider)
    · have hb := hrouted.frames h ⟨packet, hold, hroute, hsrc, hmac⟩
      exact hb.mono hwider
  case rows =>
    intro a b hnext
    exact (hpassed a b hnext).acts hacts

theorem Emits.ownsMac
    {host : Host} {node : Node} (hnode : node.Proper site host)
    {cause : Cause} {frame : Frame} (hemits : Emits node cause frame) :
    site.OwnsMac host frame.srcMac := by
  cases hemits with
  | discover _ _ _ hsv => exact hnode.ownsMac hsv
  | payload _ _ hsv => exact hnode.ownsMac hsv
  | flood _ _ _ _ hsv => exact hnode.ownsMac hsv
  | reply _ _ _ hsv => exact hnode.ownsMac hsv
  | relay _ _ _ hsv => exact hnode.ownsMac hsv

/-- A node which sends a route request or reply owns its source or has a row
for it. -/
theorem Emits.source_known
    {host : Host} {node : Node} (hnode : node.Proper site host)
    {cause : Cause} (hcause : cause.Proper site)
    (hlearned : ∀ header update stray,
      cause = .frame header update stray → header.isPayload = false →
      node.owns header.srcIp = true ∨
        ∃ row, node.row header.srcIp = some row)
    {frame : Frame} (hemits : Emits node cause frame)
    (hroute : frame.header.isPayload = false) :
    site.OwnsIp host frame.header.srcIp ∨
      ∃ row, node.row frame.header.srcIp = some row := by
  cases hemits with
  | discover _ _ hown _ => exact .inl (hnode.ownsIp hown)
  | payload hwants _ _ =>
      rcases hwants.isPayload with rfl | rfl <;> cases hroute
  | flood hcauseEq htype _ _ _ =>
      have hheader := hlearned _ _ _ hcauseEq
        (not_isPayload_of_rreq htype)
      exact hheader.imp_left (hnode.owns_iff _).mp
  | reply hcauseEq _ hknown _ =>
      subst hcauseEq
      rcases hknown with howns | hrow
      · exact .inl ((hnode.owns_iff _).mp howns)
      · rcases Option.isSome_iff_exists.mp hrow with ⟨i, hentry⟩
        exact .inr ⟨_, getRowEntry_some hnode.packed hcause.2.1 hentry⟩
  | relay hcauseEq htype _ _ =>
      have hheader := hlearned _ _ _ hcauseEq
        (not_isPayload_of_rrep htype)
      exact hheader.imp_left (hnode.owns_iff _).mp

/-- After a route request or reply the node owns its source or has a row for
it. -/
theorem Network.Proper.source_learned
    {network next : Network Host} (hproper : network.Proper site)
    {host : Host} {packet : Packet Host} {now : ℕ}
    {table : RoutingTable} {trail : List Host} {frames : List Frame}
    (hacts : network.Acts next host table trail frames)
    (hmem : packet ∈ network.sent)
    (hstep : TableStep (network.node host) packet.frame now table)
    (hroute : packet.frame.header.isPayload = false) :
    (next.node host).owns packet.frame.header.srcIp = true ∨
      ∃ row, (next.node host).row packet.frame.header.srcIp =
        some row := by
  rcases (hproper.frames packet hmem).source with ⟨h, hsource⟩
  exact hstep.source_known (hproper.nodes host).packed hacts.serv
    hacts.table hsource.ne_emptyIp hroute

end Routed

/-! ## Runs -/

variable {site : Site Host} {ip : IpText}

omit [DecidableEq Host] in
theorem Network.Routed.initial
    {network : Network Host} (hinit : network.Initial site) :
    network.Routed site ip := by
  subst hinit
  constructor
  case frames =>
    intro h hh
    rcases hh with ⟨packet, hpacket, _⟩
    cases hpacket
  case rows =>
    intro a b hnext
    rcases hnext with ⟨row, hrow, _⟩
    have hnone : (Node.start (site.serv a)).row ip = none :=
      lookup_empty ip
    rw [hnone] at hrow
    cases hrow

omit [DecidableEq Host] in
/-- A node which may forget its row did not relay. -/
theorem Network.Routed.acts_of_clear
    {network next : Network Host} {host : Host}
    {trail : List Host} {frames : List Frame}
    (hrouted : network.Routed site ip)
    (hacts : network.Acts next host (fun _ => emptyRow) trail frames)
    (hforget : network.MayForget site ip host)
    (hmacs : ∀ frame ∈ frames, site.OwnsMac host frame.srcMac)
    (hframes : ∀ frame ∈ frames, frame.header.isPayload = false →
      frame.header.srcIp = ip →
        site.OwnsIp host ip ∨ ∃ b, next.NextHop site ip host b) :
    next.Routed site ip := by
  refine hrouted.acts hacts ?_ ?_ hmacs hframes
  · intro b hrelays
    rcases hforget with hnone | hsilent
    · rcases hrelays.2 with ⟨row, hrow, _⟩
      rw [hnone] at hrow
      cases hrow
    · exact absurd hrelays.1 hsilent
  · intro b hnext
    rcases hnext with ⟨row, hrow, _⟩
    have hnone : (next.node host).row ip = none := by
      rw [Node.row, hacts.table]
      exact lookup_empty ip
    rw [hnone] at hrow
    cases hrow

omit [DecidableEq Host] in
/-- A node which sends a route request or reply for the IP owns it or has a
next hop. -/
theorem Emits.source_routed
    {network : Network Host} (hproper : network.Proper site) {host : Host}
    {cause : Cause} (hcause : cause.Proper site)
    (hlearned : ∀ header update stray,
      cause = .frame header update stray → header.isPayload = false →
      (network.node host).owns header.srcIp = true ∨
        ∃ row, (network.node host).row header.srcIp = some row)
    {frame : Frame} (hemits : Emits (network.node host) cause frame)
    (hroute : frame.header.isPayload = false)
    (hsrc : frame.header.srcIp = ip) :
    site.OwnsIp host ip ∨ ∃ b, network.NextHop site ip host b := by
  have hknown := hemits.source_known (hproper.nodes host) hcause hlearned
    hroute
  rw [hsrc] at hknown
  rcases hknown with howns | ⟨row, hrow⟩
  · exact .inl howns
  · exact .inr (hproper.exists_nextHop hrow)

omit [DecidableEq Host] in
theorem Network.Routed.receive
    {network next : Network Host} (hproper : network.Proper site)
    (hrouted : network.Routed site ip) (hnext : next.Proper site)
    {host : Host} {packet : Packet Host} {outside : Outside}
    {table : RoutingTable} {trail : List Host} {frames : List Frame}
    (hmem : packet ∈ network.sent)
    (haccepts : (network.node host).Accepts packet.frame)
    (htable : (network.node host).nextTable packet.frame outside.now =
      some table)
    (hacts : network.Acts next host table trail frames)
    (hemits : ∀ frame ∈ frames, Emits (next.node host)
      (.frame packet.frame.header
        ((network.node host).updates packet.frame.header)
        outside.stray) frame) :
    next.Routed site ip := by
  have hframe := hproper.frames packet hmem
  have hstep := hproper.tableStep hmem htable
  have hcause := hframe.cause (hproper.nodes host) haccepts
    ((network.node host).updates packet.frame.header) outside.stray
  refine hrouted.acts hacts ?_ ?_
    (fun frame hsent => (hemits frame hsent).ownsMac
      (hnext.nodes host)) ?_
  · intro b hrelays
    rcases hrelays.2 with ⟨row, hrow, hmac⟩
    rcases hstep.keeps_row hrow with ⟨row', hrow', hmac'⟩
    refine ⟨row', ?_, hmac' ▸ hmac⟩
    rw [Node.row, hacts.table]
    exact hrow'
  · intro b hhop
    rcases hhop with ⟨row, hrow, hmac⟩
    rw [Node.row, hacts.table] at hrow
    rcases hstep.row_origin hrow with ⟨old, hold, holdMac⟩ | hnew
    · exact hrouted.rows host b ⟨old, hold, holdMac ▸ hmac⟩
    · rcases hnew with ⟨hip, hsender, _, hupdates⟩
      have hroute := (Node.updates_eq_true hupdates).1
      exact ⟨packet, hmem, hroute, hip.symm, hsender ▸ hmac⟩
  · intro frame hsent hroute hsrc
    refine (hemits frame hsent).source_routed hnext hcause ?_ hroute hsrc
    intro header update stray hheader hheaderRoute
    cases hheader
    exact hproper.source_learned hacts hmem hstep hheaderRoute

omit [DecidableEq Host] in
/-- A step which leaves the table of the node alone keeps the routes. -/
theorem Network.Routed.acts_of_keep
    {network next : Network Host} {host : Host}
    {trail : List Host} {frames : List Frame}
    (hrouted : network.Routed site ip)
    (hacts : network.Acts next host (network.node host).table trail frames)
    (hmacs : ∀ frame ∈ frames, site.OwnsMac host frame.srcMac)
    (hframes : ∀ frame ∈ frames, frame.header.isPayload = false →
      frame.header.srcIp = ip →
        site.OwnsIp host ip ∨ ∃ b, next.NextHop site ip host b) :
    next.Routed site ip := by
  refine hrouted.acts hacts ?_ ?_ hmacs hframes
  · intro b hrelays
    rcases hrelays.2 with ⟨row, hrow, hmac⟩
    refine ⟨row, ?_, hmac⟩
    rw [Node.row, hacts.table]
    exact hrow
  · intro b hhop
    rcases hhop with ⟨row, hrow, hmac⟩
    rw [Node.row, hacts.table] at hrow
    exact hrouted.rows host b ⟨row, hrow, hmac⟩

omit [DecidableEq Host] in
theorem Network.Routed.effect
    {network next : Network Host} {event : NetworkEvent Host}
    (hproper : network.Proper site) (hrouted : network.Routed site ip)
    (hallowed : KeepsRoutes site ip network event)
    (hnext : next.Proper site) (heffect : network.Effect next event) :
    next.Routed site ip := by
  cases heffect with
  | receive hmem haccepts htable hacts hemits _ =>
      exact hrouted.receive hproper hnext hmem haccepts htable hacts hemits
  | overrun htable => exact (hproper.nextTable_ne_none htable).elim
  | @client host peer table frames hacts htable hemits _ =>
      have hmacs : ∀ frame ∈ frames, site.OwnsMac host frame.srcMac :=
        fun frame hsent => (hemits frame hsent).ownsMac
          (hnext.nodes host)
      have hframes : ∀ frame ∈ frames,
          frame.header.isPayload = false → frame.header.srcIp = ip →
          site.OwnsIp host ip ∨
            ∃ b, next.NextHop site ip host b := by
        intro frame hsent hroute hsrc
        refine (hemits frame hsent).source_routed hnext ?_ ?_ hroute hsrc
        · trivial
        · intro header update stray hheader
          cases hheader
      rcases htable with rfl | ⟨hforce, rfl⟩
      · exact hrouted.acts_of_keep hacts hmacs hframes
      · exact hrouted.acts_of_clear hacts (hallowed hforce) hmacs hframes
  | @timeout host hacts =>
      refine hrouted.acts_of_clear hacts hallowed ?_ ?_
      · intro frame hsent
        cases hsent
      · intro frame hsent
        cases hsent

theorem Network.routed_of_reachable
    {network : Network Host}
    (hreach : Transition.Reachable Network.step (KeepsRoutes site ip)
      (Network.Initial site) network) :
    network.Proper site ∧ network.Routed site ip :=
  Network.invariant_of_reachable hreach
    (fun state => state.Routed site ip)
    (fun _ hinit => Network.Routed.initial hinit)
    fun _ _ _ hproper hrouted hallowed hnext heffect =>
      hrouted.effect hproper hallowed hnext heffect

end NetworkProgramming.Odr
