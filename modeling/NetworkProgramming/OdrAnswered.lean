import NetworkProgramming.OdrDiscovery

/-!
# The end of a discovery

What the receipt of a frame settles stays settled, so at rest it holds for
every frame and every node which the frame is for.  From there the request is
followed to its answer: along the links of the network to a node which knows
the wanted address, and then along the rows, which lead to their owners.
-/

namespace NetworkProgramming.Odr

open Forwarding Transition

variable {Host : Type*} {site : Site Host} {discovery : Discovery site}

/-! ## What is left behind by a receipt -/

/-- What has come of the receipt of a packet by a node. -/
structure Discovery.Received (discovery : Discovery site)
    (network : Network Host) (h : Host) (packet : Packet Host) :
    Prop where
  mem : packet ∈ network.sent
  request : packet.frame.header.Reads .rreq discovery.source
    discovery.dest →
    h ≠ discovery.origin → (network.node h).row discovery.source ≠ none
  reply : packet.frame.header.Reads .rrep discovery.dest
    discovery.source →
    discovery.Knows network h ∧
      (h = discovery.origin → network.Passes site h discovery.dest
        .payloadReq discovery.source discovery.dest)
  passed : packet.frame.header.isPayload = true →
    ¬ site.OwnsIp h packet.frame.header.destIp →
    network.Passes site h packet.frame.header.destIp
      packet.frame.header.type packet.frame.header.srcIp
      packet.frame.header.destIp
  served : packet.frame.header.Reads .payloadReq discovery.source
    discovery.dest →
    h = discovery.target → network.Passes site h discovery.source
      .payloadResp discovery.dest discovery.source
  answered : packet.frame.header.Reads .payloadResp discovery.dest
    discovery.source →
    h = discovery.origin → pending (network.node h).buffer = 0

def Discovery.Settles (discovery : Discovery site) :
    NetworkEvent Host → Network Host → Prop
  | .receive h packet _, network => discovery.Received network h packet
  | .client _ _, _ => True
  | .timeout _, _ => True

section Step

variable [DecidableEq Host] {network next : Network Host}

theorem Discovery.Receives.received
    {h : Host} {packet : Packet Host} {outside : Outside}
    {table : RoutingTable}
    (hreceives : discovery.Receives network next h packet outside table)
    (hgrows : network.Grows next) :
    discovery.Received next h packet where
  mem := hgrows.sent packet hreceives.mem
  request := fun hreads hh => by
    obtain ⟨row, hrow⟩ := hreceives.request_row hreads hh
    rw [hrow]
    exact Option.some_ne_none row
  reply := fun hreads =>
    ⟨hreceives.reply_knows hreads, hreceives.reply_routed hreads⟩
  passed := hreceives.payload_passes
  served := hreceives.payload_served
  answered := hreceives.response_answers

/-- No frame makes a request wait. -/
theorem Discovery.Runs.keeps_answered
    (hruns : discovery.Runs network) {event : NetworkEvent Host}
    (hallowed : discovery.Allowed network event)
    (hstep : network.step event = some next) {packet : Packet Host}
    (hpacket : packet ∈ network.sent)
    (hanswered : pending (network.node discovery.origin).buffer = 0) :
    pending (next.node discovery.origin).buffer = 0 := by
  cases event with
  | receive h other outside =>
      obtain ⟨table, hreceives⟩ := hruns.receives hallowed hstep
      by_cases hh : discovery.origin = h
      · subst hh
        have hpending := processFrame_pending
          (network.node discovery.origin) other.frame outside
        rw [hreceives.next_eq, Network.act_node_self, ← Multiset.le_zero,
          ← hanswered, ← hpending]
        exact Multiset.le_add_right _ _
      · rw [hreceives.node_of_ne hh]
        exact hanswered
  | client h peer =>
      obtain ⟨_, _, hsilent⟩ := hallowed
      rw [hsilent] at hpacket
      cases hpacket
  | timeout => exact hallowed.elim

theorem Discovery.Received.step
    {h : Host} {packet : Packet Host}
    (hreceived : discovery.Received network h packet)
    (hruns : discovery.Runs network) {event : NetworkEvent Host}
    (hallowed : discovery.Allowed network event)
    (hstep : network.step event = some next) :
    discovery.Received next h packet := by
  obtain ⟨hgrows, _⟩ := hruns.step hallowed hstep
  constructor
  case mem => exact hgrows.sent packet hreceived.mem
  case request =>
    exact fun hreads hh =>
      hgrows.row_ne_none (hreceived.request hreads hh)
  case reply =>
    intro hreads
    obtain ⟨hknows, hpasses⟩ := hreceived.reply hreads
    exact ⟨hknows.grows hgrows, fun hh => (hpasses hh).grows hgrows⟩
  case passed =>
    exact fun hpayload hforeign =>
      (hreceived.passed hpayload hforeign).grows hgrows
  case served =>
    exact fun hreads hh => (hreceived.served hreads hh).grows hgrows
  case answered =>
    intro hreads hh
    subst hh
    exact hruns.keeps_answered hallowed hstep hreceived.mem
      (hreceived.answered hreads rfl)

end Step

variable [DecidableEq Host]
variable {current : Logged (Network Host) (NetworkEvent Host)}

/-- The runs of a discovery, with the record of their events. -/
def Discovery.Reachable (discovery : Discovery site)
    (current : Logged (Network Host) (NetworkEvent Host)) : Prop :=
  Transition.Reachable (logged Network.step)
    (Logged.Permits discovery.Allowed)
    (Logged.Initial (Network.Initial site)) current

theorem Discovery.Reachable.settled
    (hreach : discovery.Reachable current) :
    discovery.Runs current.state ∧
      ∀ event ∈ current.log, discovery.Settles event current.state := by
  refine Transition.Reachable.settled hreach discovery.Runs
    discovery.Settles (fun _ hinit => .initial hinit) ?_ ?_ ?_
  · intro state event next hruns hallowed hstep
    exact (hruns.step hallowed hstep).2
  · intro state event next hruns hallowed hstep
    cases event with
    | receive h packet outside =>
        obtain ⟨table, hreceives⟩ := hruns.receives hallowed hstep
        exact hreceives.received (hruns.step hallowed hstep).1
    | client => trivial
    | timeout => trivial
  · intro state event next earlier hruns hallowed hstep hsettles
    cases earlier with
    | receive h packet outside => exact hsettles.step hruns hallowed hstep
    | client => trivial
    | timeout => trivial

/-! ## At rest -/

/-- A node which received a frame of the given kind. -/
def Discovery.Heard (discovery : Discovery site)
    (current : Logged (Network Host) (NetworkEvent Host)) (h : Host)
    (type : DataType) : Prop :=
  ∃ packet outside, .receive h packet outside ∈ current.log ∧
    packet.frame.header.Reads type (discovery.ends type).1
      (discovery.ends type).2

section Rest

omit [DecidableEq Host]

variable (hruns : discovery.Runs current.state)
variable (hrest : discovery.AtRest current)

include hruns hrest

/-- What is sent along a row is heard at its next hop. -/
theorem Discovery.Runs.heard_nextHop
    {a b : Host} {ip : IpText} {type : DataType}
    (hpasses : current.state.Passes site a ip type
      (discovery.ends type).1 (discovery.ends type).2)
    (hnext : current.state.NextHop site ip a b) :
    discovery.Heard current b type := by
  obtain ⟨row, hrow, hsent⟩ := hpasses
  obtain ⟨row', hrow', hmac⟩ := hnext
  rw [hrow, Option.some.injEq] at hrow'
  subst hrow'
  -- `a` heard `b` when it made the row, so `b` hears `a`
  obtain ⟨mac, hown, hhears⟩ := discovery.hears_symm b a row.nextHopMac
    hmac (hruns.heard a ip row hrow)
  obtain ⟨packet, hpacket, hsrc, hdest, hreads⟩ := hsent mac hown
  have haccepts : (current.state.node b).Accepts packet.frame := by
    right
    rw [(hruns.settled.proper.nodes b).serv, hdest]
    exact hmac
  obtain ⟨outside, hlog⟩ := hrest packet hpacket b
    (by rw [hsrc]; exact hhears) haccepts
  exact ⟨packet, outside, hlog, hreads⟩

/-- A frame which every node passes on along its row for an IP reaches the
owner of the IP. -/
theorem Discovery.Runs.heard_owner
    {type : DataType} {ip : IpText}
    (hpass : ∀ h, discovery.Heard current h type →
      (current.state.node h).row ip ≠ none →
      current.state.Passes site h ip type (discovery.ends type).1
        (discovery.ends type).2)
    {a : Host}
    (hstart : current.state.Passes site a ip type
      (discovery.ends type).1 (discovery.ends type).2) :
    ∃ b, site.OwnsIp b ip ∧ discovery.Heard current b type := by
  obtain ⟨row, hrow, _⟩ := id hstart
  obtain ⟨b, hnext⟩ := hruns.settled.proper.exists_nextHop hrow
  obtain ⟨k, hreaches⟩ := hruns.settled.reaches_nextHop hnext
  have hheard := hruns.heard_nextHop hrest hstart hnext
  clear hstart hrow hnext
  induction hreaches with
  | target howns => exact ⟨_, howns, hheard⟩
  | @hop _ a b hnext _ ih =>
      have hrow : (current.state.node a).row ip ≠ none := by
        obtain ⟨row', hrow', _⟩ := hnext
        rw [hrow']
        exact Option.some_ne_none row'
      exact ih (hruns.heard_nextHop hrest (hpass a hheard hrow) hnext)

variable (hsettles :
  ∀ event ∈ current.log, discovery.Settles event current.state)

include hsettles

/-- The flood reaches every connected node, or it has met a node which knows
the wanted address. -/
theorem Discovery.Runs.flood_reaches
    (hasked : current.state.sent ≠ []) {h : Host}
    (hpath : Relation.ReflTransGen discovery.Adjacent discovery.origin h) :
    (∃ k, k ≠ discovery.origin ∧
        (current.state.node k).row discovery.source ≠ none ∧
        discovery.Knows current.state k) ∨
      current.state.SentAll site h broadcastMac .rreq discovery.source
          discovery.dest ∧
        (h = discovery.origin ∨
          (current.state.node h).row discovery.source ≠ none) := by
  induction hpath with
  | refl => exact .inr ⟨hruns.flooded hasked, .inl rfl⟩
  | @tail a b _ hadjacent ih =>
      rcases ih with hfound | ⟨hsent, _⟩
      · exact .inl hfound
      · obtain ⟨mac, hmac, hhears⟩ := hadjacent
        obtain ⟨packet, hpacket, hsrc, hdest, hreads⟩ := hsent mac hmac
        obtain ⟨outside, hlog⟩ := hrest packet hpacket b
          (by rw [hsrc]; exact hhears) (.inl hdest)
        by_cases hb : b = discovery.origin
        · subst hb
          exact .inr ⟨hruns.flooded hasked, .inl rfl⟩
        · have hreceived : discovery.Received current.state b packet :=
            hsettles _ hlog
          have hrow := hreceived.request hreads hb
          rcases hruns.relayed b hb hrow with hknows | hrelayed
          · exact .inl ⟨b, hb, hrow, hknows⟩
          · exact .inr ⟨hrelayed, .inr hrow⟩

/-- A route reply comes back. -/
theorem Discovery.Runs.heard_reply
    (hasked : current.state.sent ≠ [])
    (hconnected : Relation.ReflTransGen discovery.Adjacent
      discovery.origin discovery.target) :
    discovery.Heard current discovery.origin .rrep := by
  have hknown : ∃ k, k ≠ discovery.origin ∧
      (current.state.node k).row discovery.source ≠ none ∧
      discovery.Knows current.state k := by
    rcases hruns.flood_reaches hrest hsettles hasked hconnected with
      hfound | ⟨_, horigin | hrow⟩
    · exact hfound
    · exact absurd horigin discovery.target_ne
    · exact ⟨discovery.target, discovery.target_ne, hrow, .inl rfl⟩
  obtain ⟨k, hk, hrow, hknows⟩ := hknown
  have hpass : ∀ h, discovery.Heard current h .rrep →
      (current.state.node h).row discovery.source ≠ none →
      current.state.Passes site h discovery.source .rrep discovery.dest
        discovery.source := by
    intro h hheard hrow
    obtain ⟨packet, outside, hlog, hreads⟩ := hheard
    have hreceived : discovery.Received current.state h packet :=
      hsettles _ hlog
    refine hruns.replied h ?_ hrow (hreceived.reply hreads).1
    -- the node of the client has no row for its own address
    rintro rfl
    obtain ⟨row, hrow⟩ := Option.ne_none_iff_exists'.mp hrow
    exact ((hruns.settled.proper.nodes _).rows _ row hrow).2.1
      ((discovery.owns_source_iff _).mpr rfl)
  obtain ⟨b, howns, hheard⟩ := hruns.heard_owner hrest hpass
    (hruns.replied k hk hrow hknows)
  have horigin := (discovery.owns_source_iff b).mp howns
  subst horigin
  exact hheard

/-- A payload or a response reaches the owner of its destination. -/
theorem Discovery.Runs.heard_payload
    {type : DataType} (htype : type = .payloadReq ∨ type = .payloadResp)
    {a : Host}
    (hstart : current.state.Passes site a (discovery.ends type).2 type
      (discovery.ends type).1 (discovery.ends type).2) :
    ∃ b, site.OwnsIp b (discovery.ends type).2 ∧
      discovery.Heard current b type := by
  refine hruns.heard_owner hrest ?_ hstart
  intro h hheard hrow
  obtain ⟨packet, outside, hlog, hreads⟩ := hheard
  have hreceived : discovery.Received current.state h packet :=
    hsettles _ hlog
  have hpayload : packet.frame.header.isPayload = true := by
    simpa [FrameHead.isPayload, hreads.type] using htype
  obtain ⟨row, hrow⟩ := Option.ne_none_iff_exists'.mp hrow
  have hforeign : ¬ site.OwnsIp h packet.frame.header.destIp := by
    rw [hreads.destIp]
    exact ((hruns.settled.proper.nodes h).rows _ row hrow).2.1
  have hpasses := hreceived.passed hpayload hforeign
  rwa [hreads.type, hreads.srcIp, hreads.destIp] at hpasses

end Rest

theorem count_of_pending_empty
    {buffer : Fin 100 → ServerBuf} (hempty : pending buffer = 0)
    (i : Fin 100) : (buffer i).count = 0 := by
  by_contra hheld
  have hmem : (buffer i).peerInfo ∈ pending buffer := by
    rw [← pending_answer hheld]
    exact Multiset.mem_cons_self _ _
  rw [hempty] at hmem
  exact Multiset.notMem_zero _ hmem

def lineLinks : Fin 3 → List (Fin 3)
  | 0 => [1]
  | 1 => [0, 2]
  | 2 => [1]

/-- The first node asks for the last one. -/
def lineInquiry : Discovery lineSite where
  hears := fun mac h => mac ∈ (lineLinks h).map lineMac
  hears_symm := by
    intro a b mac hmac hhears
    have hlinks : ∀ a b, lineMac a ∈ (lineLinks b).map lineMac →
        lineMac b ∈ (lineLinks a).map lineMac := by decide
    have hmac := List.mem_singleton.mp hmac
    subst hmac
    exact ⟨lineMac b, List.mem_singleton_self _, hlinks a b hhears⟩
  origin := 0
  own := ⟨lineIp 0, lineMac 0, 2⟩
  serv_origin := rfl
  request := ask 2
  unforced := by decide
  target := 2
  owns_target := List.mem_singleton_self _
  target_ne := by decide

/-- Every frame to every node which hears it. -/
def lineDelivery : List (NetworkEvent (Fin 3)) :=
  lineDiscovery ++
    [.receive 0 (lineFrame 1 broadcastMac
        ⟨lineIp 0, lineIp 2, 2, 2, noMsg, 0, .rreq⟩) quiet,
      .receive 1 linePayload quiet,
      .receive 2 linePassedOn quiet,
      .receive 1 (lineFrame 2 (lineMac 1)
        ⟨lineIp 2, lineIp 0, 2, 1, noMsg, 0, .payloadResp⟩) quiet,
      .receive 0 ⟨⟨lineMac 0, lineMac 1, 2,
        ⟨lineIp 2, lineIp 0, 1, 1, noMsg, 0, .payloadResp⟩⟩, [2, 1]⟩
        quiet]

instance (network : Network (Fin 3)) (event : NetworkEvent (Fin 3)) :
    Decidable (lineInquiry.Allowed network event) :=
  match event with
  | .receive h packet _ => inferInstanceAs
      (Decidable (packet.frame.srcMac ∈ (lineLinks h).map lineMac))
  | .client _ _ => inferInstanceAs (Decidable (_ ∧ _ ∧ _ = []))
  | .timeout _ => inferInstanceAs (Decidable False)

def NetworkEvent.isReceipt (h : Fin 3) (packet : Packet (Fin 3)) :
    NetworkEvent (Fin 3) → Bool
  | .receive host received _ => decide (host = h ∧ received = packet)
  | .client _ _ => false
  | .timeout _ => false

theorem exists_receipt_of_any
    {log : List (NetworkEvent (Fin 3))} {h : Fin 3}
    {packet : Packet (Fin 3)}
    (hany : log.any (NetworkEvent.isReceipt h packet) = true) :
    ∃ outside, .receive h packet outside ∈ log := by
  obtain ⟨event, hevent, htest⟩ := List.any_eq_true.mp hany
  cases event with
  | receive host received outside =>
      obtain ⟨rfl, rfl⟩ := of_decide_eq_true htest
      exact ⟨outside, hevent⟩
  | client host peer => cases htest
  | timeout host => cases htest

end NetworkProgramming.Odr
