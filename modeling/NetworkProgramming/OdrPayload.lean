import NetworkProgramming.OdrLoopFree

/-!
# Payloads on their way

Without table clears a payload follows the next-hop graph of its destination
from the node which first sent it.  Each node on the way has a row for the
destination, no node is visited twice, and the node which the frame is
addressed to owns the destination or has a row for it.
-/

namespace NetworkProgramming.Odr

open SlotTable Forwarding

variable {Host : Type*} [DecidableEq Host]

/-- No table is cleared: no select timeout and no force flag. -/
def NoClear (_ : Network Host) : NetworkEvent Host → Prop
  | .receive _ _ _ => True
  | .client _ peer => peer.flag ≠ 1
  | .timeout _ => False

omit [DecidableEq Host] in
theorem NoClear.keepsRoutes
    {network : Network Host} {event : NetworkEvent Host}
    (hclear : NoClear network event) (site : Site Host) (ip : IpText) :
    KeepsRoutes site ip network event := by
  cases event with
  | receive => trivial
  | client host peer => exact fun hforce => absurd hforce hclear
  | timeout => exact hclear.elim

/-- The trail is a walk along the rows for the destination, and the frame is
addressed to the next hop of its last node. -/
def Packet.Trailed (packet : Packet Host) (site : Site Host)
    (network : Network Host) : Prop :=
  ∃ before last row, packet.trail = before ++ [last] ∧
    packet.trail.IsChain
      (network.NextHop site packet.frame.header.destIp) ∧
    (network.node last).row packet.frame.header.destIp = some row ∧
    packet.frame.destMac = row.nextHopMac

def Network.Trailed (site : Site Host) (network : Network Host) : Prop :=
  ∀ packet ∈ network.sent, packet.frame.header.isPayload = true →
    packet.frame.header.destIp ≠ emptyIp → packet.Trailed site network

section Trails

omit [DecidableEq Host]

variable {site : Site Host}

theorem Network.Effect.keeps_row
    {network next : Network Host} {event : NetworkEvent Host}
    (hproper : network.Proper site) (hclear : NoClear network event)
    (heffect : network.Effect next event)
    {h : Host} {ip : IpText} {row : Row}
    (hrow : (network.node h).row ip = some row) :
    ∃ row', (next.node h).row ip = some row' ∧
      row'.nextHopMac = row.nextHopMac := by
  cases heffect with
  | @receive host packet outside table frames hmem _ htable hacts _ _ =>
      by_cases hh : h = host
      · subst hh
        rw [Node.row, hacts.table]
        exact (hproper.tableStep hmem htable).keeps_row hrow
      · rw [hacts.others h hh]
        exact ⟨row, hrow, rfl⟩
  | overrun htable => exact (hproper.nextTable_ne_none htable).elim
  | @client host peer table frames hacts htable _ _ =>
      by_cases hh : h = host
      · subst hh
        rcases htable with hkeep | ⟨hforce, _⟩
        · rw [Node.row, hacts.table, hkeep]
          exact ⟨row, hrow, rfl⟩
        · exact absurd hforce hclear
      · rw [hacts.others h hh]
        exact ⟨row, hrow, rfl⟩
  | timeout => exact hclear.elim

theorem Network.NextHop.effect
    {network next : Network Host} {event : NetworkEvent Host}
    (hproper : network.Proper site) (hclear : NoClear network event)
    (heffect : network.Effect next event)
    {ip : IpText} {a b : Host} (hnext : network.NextHop site ip a b) :
    next.NextHop site ip a b := by
  rcases hnext with ⟨row, hrow, hmac⟩
  rcases heffect.keeps_row hproper hclear hrow with ⟨row', hrow', hmac'⟩
  exact ⟨row', hrow', hmac' ▸ hmac⟩

theorem Packet.Trailed.effect
    {network next : Network Host} {event : NetworkEvent Host}
    (hproper : network.Proper site) (hclear : NoClear network event)
    (heffect : network.Effect next event)
    {packet : Packet Host} (htrailed : packet.Trailed site network) :
    packet.Trailed site next := by
  rcases htrailed with ⟨before, last, row, htrail, hchain, hrow, hmac⟩
  rcases heffect.keeps_row hproper hclear hrow with ⟨row', hrow', hmac'⟩
  exact ⟨before, last, row', htrail,
    hchain.imp fun _ _ hnext => hnext.effect hproper hclear heffect,
    hrow', hmac.trans hmac'.symm⟩

/-- The node which a trailed payload is addressed to is the next hop of the
last node of the trail. -/
theorem Packet.Trailed.nextHop
    {network : Network Host} (hproper : network.Proper site)
    {packet : Packet Host} (htrailed : packet.Trailed site network)
    {host : Host} (haccepts : (network.node host).Accepts packet.frame) :
    (packet.trail ++ [host]).IsChain
      (network.NextHop site packet.frame.header.destIp) := by
  rcases htrailed with ⟨before, last, row, htrail, hchain, hrow, hmac⟩
  have hhop : network.NextHop site packet.frame.header.destIp last
      host := by
    refine ⟨row, hrow, ?_⟩
    rcases ((hproper.nodes last).rows _ row hrow).2.2 with ⟨g, hg⟩
    rcases haccepts with hbroadcast | hown
    · rw [hmac] at hbroadcast
      exact absurd hbroadcast hg.ne_broadcastMac
    · rw [hmac, (hproper.nodes host).serv] at hown
      exact hown
  rw [htrail] at hchain ⊢
  rw [List.append_assoc]
  exact List.isChain_append.mpr ⟨(List.isChain_append.mp hchain).1,
    by simpa using hhop, by simpa using (List.isChain_append.mp hchain).2.2⟩

/-- A node which sends a payload because of a packet either starts a new
trail or passes the packet on. -/
theorem Packet.nextTrail_of_wants
    {packet : Packet Host} (host : Host) {node next : Node}
    (hserv : next.serv = node.serv) {update : Bool} {stray : Mac}
    {srcIp destIp : IpText} {type : DataType}
    (hwants : Wants next (.frame packet.frame.header update stray) srcIp
      destIp type) :
    packet.nextTrail host node = [host] ∨
      packet.nextTrail host node = packet.trail ++ [host] ∧
        packet.frame.header.isPayload = true ∧
        destIp = packet.frame.header.destIp := by
  have howns : ∀ ip, next.owns ip = node.owns ip := by
    intro ip
    rw [Node.owns, Node.owns, hserv]
  cases hwants with
  | routed htype _ =>
      have hroute : packet.frame.header.isPayload = false :=
        not_isPayload_of_rrep htype
      exact .inl (by simp [Packet.nextTrail, hroute])
  | served _ hown =>
      rw [howns] at hown
      exact .inl (by simp [Packet.nextTrail, hown])
  | forwarded hpayload hforeign _ =>
      rw [howns] at hforeign
      exact .inr ⟨by simp [Packet.nextTrail, hpayload, hforeign],
        hpayload, rfl⟩

/-- A payload leaves a node along its row for the destination. -/
theorem Emits.payload_row
    {host : Host} {node : Node} (hnode : node.Proper site host)
    {cause : Cause} {frame : Frame} (hemits : Emits node cause frame)
    (hpayload : frame.header.isPayload = true)
    (hdest : frame.header.destIp ≠ emptyIp) :
    ∃ srcIp type row,
      Wants node cause srcIp frame.header.destIp type ∧
      node.row frame.header.destIp = some row ∧
      frame.destMac = row.nextHopMac := by
  rcases hemits.wants hpayload with
    ⟨srcIp, _, type, i, hwants, hsome, hmac, _, rfl, _⟩
  exact ⟨srcIp, type, _, hwants,
    getRowEntry_some hnode.packed hdest hsome, hmac⟩

theorem Packet.Trailed.of_start
    {network : Network Host} {packet : Packet Host} {host : Host}
    {row : Row} (htrail : packet.trail = [host])
    (hrow : (network.node host).row packet.frame.header.destIp =
      some row)
    (hmac : packet.frame.destMac = row.nextHopMac) :
    packet.Trailed site network := by
  refine ⟨[], host, row, htrail, ?_, hrow, hmac⟩
  rw [htrail]
  exact List.isChain_singleton host

theorem Network.Trailed.effect
    {network next : Network Host} {event : NetworkEvent Host}
    (hproper : network.Proper site) (htrailed : network.Trailed site)
    (hclear : NoClear network event) (hnext : next.Proper site)
    (heffect : network.Effect next event) :
    next.Trailed site := by
  have hkeeps : ∀ packet : Packet Host, packet.Trailed site network →
      packet.Trailed site next :=
    fun packet hpacket => hpacket.effect hproper hclear heffect
  intro sent hsent hpayload hdest
  cases heffect with
  | @receive host packet outside table frames hmem haccepts _ hacts
      hemits _ =>
      rcases hacts.mem_sent hsent with ⟨hnew, htrail⟩ | hold
      · rcases (hemits sent.frame hnew).payload_row (hnext.nodes host)
          hpayload hdest with ⟨srcIp, type, row, hwants, hrow, hmac⟩
        rcases Packet.nextTrail_of_wants host hacts.serv hwants
          with hstart | ⟨hpassed, hold, heq⟩
        · exact .of_start (htrail.trans hstart) hrow hmac
        · have hbefore := hkeeps packet
            (htrailed packet hmem hold (heq ▸ hdest))
          have haccepts' : (next.node host).Accepts packet.frame := by
            rw [Node.Accepts, hacts.serv]
            exact haccepts
          have hchain := hbefore.nextHop hnext haccepts'
          rw [← heq, ← hpassed, ← htrail] at hchain
          exact ⟨packet.trail, host, row, htrail.trans hpassed, hchain,
            hrow, hmac⟩
      · exact hkeeps sent (htrailed sent hold hpayload hdest)
  | overrun htable => exact (hproper.nextTable_ne_none htable).elim
  | @client host peer table frames hacts _ hemits _ =>
      rcases hacts.mem_sent hsent with ⟨hnew, htrail⟩ | hold
      · rcases (hemits sent.frame hnew).payload_row (hnext.nodes host)
          hpayload hdest with ⟨_, _, row, _, hrow, hmac⟩
        exact .of_start htrail hrow hmac
      · exact hkeeps sent (htrailed sent hold hpayload hdest)
  | timeout => exact hclear.elim

end Trails

/-! ## Runs without clears -/

/-- All invariants of a run without clears. -/
structure Network.Settled (site : Site Host) (network : Network Host) :
    Prop where
  proper : network.Proper site
  routed : ∀ ip, network.Routed site ip
  trailed : network.Trailed site

omit [DecidableEq Host] in
theorem Network.Settled.initial
    {site : Site Host} {network : Network Host}
    (hinit : network.Initial site) :
    network.Settled site := by
  refine ⟨.initial hinit, fun _ => .initial hinit, ?_⟩
  subst hinit
  intro packet hpacket
  cases hpacket

theorem Network.Settled.effect
    {site : Site Host} {network next : Network Host}
    {event : NetworkEvent Host} (hsettled : network.Settled site)
    (hclear : NoClear network event)
    (heffect : network.Effect next event) :
    next.Settled site := by
  have hnext := hsettled.proper.effect heffect
  exact ⟨hnext,
    fun ip => (hsettled.routed ip).effect hsettled.proper
      (hclear.keepsRoutes site ip) hnext heffect,
    hsettled.trailed.effect hsettled.proper hclear hnext heffect⟩

theorem Network.settled_of_reachable
    {site : Site Host} {network : Network Host}
    (hreach : Transition.Reachable Network.step NoClear
      (Network.Initial site) network) :
    network.Settled site :=
  hreach.invariant (Network.Settled site)
    (fun _ hinit => Network.Settled.initial hinit)
    fun _ _ _ hsettled hclear hstep =>
      hsettled.effect hclear (Network.step_effect hstep)

section Settled

omit [DecidableEq Host]

variable {site : Site Host} {network : Network Host}

theorem Network.Settled.reaches_nextHop
    (hsettled : network.Settled site) {ip : IpText} {a b : Host}
    (hnext : network.NextHop site ip a b) :
    Reaches (network.NextHop site ip) (site.OwnsIp · ip) b :=
  ((hsettled.routed ip).reaches_nextHop hnext).mono
    fun _ _ hrelays => hrelays.2

/-- Who is on the way to an owner owns the IP or has a row for it. -/
theorem Network.owns_or_row_of_reaches
    {ip : IpText} {b : Host}
    (hreaches : Reaches (network.NextHop site ip) (site.OwnsIp · ip) b) :
    site.OwnsIp b ip ∨ ∃ row, (network.node b).row ip = some row := by
  rcases hreaches with ⟨k, hk⟩
  cases hk with
  | target howns => exact .inl howns
  | hop hnext _ =>
      rcases hnext with ⟨row, hrow, _⟩
      exact .inr ⟨row, hrow⟩

end Settled

/-- What a node sends on when it passes a payload on. -/
theorem processFrame_forwards
    {node : Node} {frame : Frame}
    (hpayload : frame.header.isPayload = true)
    (hforeign : node.owns frame.header.destIp = false)
    {i : Fin 100}
    (hentry : getRowEntry node.table frame.header.destIp = some i)
    (outside : Outside) :
    (node.processFrame frame outside).frames =
      node.serv.map fun sv => frameOn sv (node.table i).nextHopMac
        ⟨frame.header.srcIp, frame.header.destIp,
          (node.table i).hopCount, node.broadcastId, frame.header.msg, 0,
          frame.header.type⟩ := by
  have htable : node.nextTable frame outside.now = some node.table :=
    nextTable_payload hpayload outside.now
  have hforeign' : ({ node with table := node.table } : Node).owns
      frame.header.destIp = false := hforeign
  simp only [FrameHead.isPayload, Bool.or_eq_true,
    decide_eq_true_eq] at hpayload
  rcases hpayload with htype | htype
  · simp [Node.processFrame, htable, htype, Node.onPayload, hforeign',
      hentry, Node.sendPayload]
  · simp [Node.processFrame, htable, htype, Node.onPayload, hforeign',
      hentry, Node.sendPayload]

/-- Without table clears the next hop of a row owns the IP or has a row for
it.  A node which receives a payload was not on its trail, is on the way to
the owner, and owns the destination or passes the payload on to the next
hop of its row. -/
theorem payload_reaches_owner
    {site : Site Host} {network : Network Host}
    (hreach : Transition.Reachable Network.step NoClear
      (Network.Initial site) network)
    (ip : IpText) :
    (∀ a row, (network.node a).row ip = some row →
      ∃ b, site.OwnsMac b row.nextHopMac ∧
        (site.OwnsIp b ip ∨
          ∃ row', (network.node b).row ip = some row')) ∧
    ∀ packet ∈ network.sent, packet.frame.header.isPayload = true →
      packet.frame.header.destIp = ip →
      ∀ b, (network.node b).Accepts packet.frame →
        (packet.trail ++ [b]).Nodup ∧
        Reaches (network.NextHop site ip) (site.OwnsIp · ip) b ∧
        (site.OwnsIp b ip ∨
          (network.node b).serv ≠ [] ∧
          ∃ i, getRowEntry (network.node b).table ip = some i ∧
            ((network.node b).table i).isFilled = true ∧
            ∀ outside,
              ((network.node b).processFrame packet.frame
                outside).frames =
              (network.node b).serv.map fun sv =>
                frameOn sv ((network.node b).table i).nextHopMac
                  ⟨packet.frame.header.srcIp, ip,
                    ((network.node b).table i).hopCount,
                    (network.node b).broadcastId,
                    packet.frame.header.msg, 0,
                    packet.frame.header.type⟩) := by
  have hsettled := Network.settled_of_reachable hreach
  have hproper := hsettled.proper
  constructor
  · intro a row hrow
    rcases (hproper.nodes a).rows ip row hrow with ⟨_, _, b, hb⟩
    have hreaches := hsettled.reaches_nextHop ⟨row, hrow, hb⟩
    exact ⟨b, hb, Network.owns_or_row_of_reaches hreaches⟩
  · intro packet hpacket hpayload hdest b haccepts
    have hcause := (hproper.frames packet hpacket).cause
      (hproper.nodes b) haccepts false zeroMac
    have htrailed :=
      hsettled.trailed packet hpacket hpayload hcause.2.1
    have hchain := htrailed.nextHop hproper haccepts
    rcases htrailed with ⟨before, last, row, htrail, _, _, _⟩
    have hlast : network.NextHop site ip last b := by
      rw [htrail, List.append_assoc, hdest] at hchain
      have htwo := List.isChain_append.mp hchain
      simpa using htwo.2.1
    have hreaches := hsettled.reaches_nextHop hlast
    refine ⟨nodup_of_isChain (fun h =>
      (hsettled.routed _).not_transGen_self hproper h) hchain, hreaches,
      ?_⟩
    rcases Network.owns_or_row_of_reaches hreaches with howns | hrow
    · exact .inl howns
    · rcases hrow with ⟨row', hrow'⟩
      have hnode := hproper.nodes b
      have hforeign : (network.node b).owns
          packet.frame.header.destIp = false := by
        rw [hdest]
        exact (hnode.owns_eq_false_iff ip).mpr
          (hnode.rows ip row' hrow').2.1
      have hip : ip ≠ emptyIp := hdest ▸ hcause.2.1
      rcases getRowEntry_of_lookup hnode.packed hip hrow' with
        ⟨i, hentry, hi⟩
      refine .inr ⟨?_, i, hentry, ?_, ?_⟩
      · rcases hlast with ⟨_, _, hmac⟩
        rw [hnode.serv]
        intro hnil
        simp [Site.OwnsMac, hnil] at hmac
      · rw [hi]
        exact lookup_filled hnode.packed hrow'
      · subst hdest
        exact processFrame_forwards hpayload hforeign hentry

instance (network : Network Host) (event : NetworkEvent Host) :
    Decidable (NoClear network event) :=
  match event with
  | .receive _ _ _ => inferInstanceAs (Decidable True)
  | .client _ peer => inferInstanceAs (Decidable (peer.flag ≠ 1))
  | .timeout _ => inferInstanceAs (Decidable False)

/-- The payload of the first node for the last one, as it left the first
node. -/
def linePayload : Packet (Fin 3) :=
  lineFrame 0 (lineMac 1)
    ⟨lineIp 0, lineIp 2, 2, 2, blankMsg, 0, .payloadReq⟩

/-- The same payload, passed on by the middle node. -/
def linePassedOn : Packet (Fin 3) :=
  ⟨⟨lineMac 2, lineMac 1, 2,
    ⟨lineIp 0, lineIp 2, 1, 1, blankMsg, 0, .payloadReq⟩⟩, [0, 1]⟩

/-- The payload went over the middle node to the last one. -/
theorem payload_reaches_owner_overMiddle :
    ∃ network, Transition.Reachable Network.step NoClear
        (Network.Initial lineSite) network ∧
      linePassedOn ∈ network.sent ∧
      (network.node 2).Accepts linePassedOn.frame ∧
      (linePassedOn.trail ++ [2]).Nodup ∧
      Reaches (network.NextHop lineSite (lineIp 2))
        (lineSite.OwnsIp · (lineIp 2)) 2 := by
  obtain ⟨network, hreach, htest⟩ :=
    Transition.exists_reachable_of_replay Network.step NoClear
      lineStart_initial
      (lineDiscovery ++ [.receive 1 linePayload quiet])
      (fun state => decide (linePassedOn ∈ state.sent) &&
        decide ((state.node 2).Accepts linePassedOn.frame))
      (by decide +kernel)
  simp only [Bool.and_eq_true, decide_eq_true_eq] at htest
  have hpayload := (payload_reaches_owner hreach (lineIp 2)).2
    linePassedOn htest.1 rfl rfl 2 htest.2
  exact ⟨network, hreach, htest.1, htest.2, hpayload.1, hpayload.2.1⟩

end NetworkProgramming.Odr
