import NetworkProgramming.OdrPayload
import Mathlib.Data.Fintype.Basic
import Mathlib.Data.Multiset.Bind

/-!
# Frames in flight

Here a frame is received at most once by each node.  What is in flight is a
multiset of deliveries, and a node which processes a frame takes its delivery
away.  A delivery which never happens is a lost frame.  Every run is followed
by a run of the network in which nothing is ever taken away.
-/

namespace NetworkProgramming.Odr

open SlotTable

variable {Host : Type*}

structure Traffic (Host : Type*) where
  node : Host → Node
  pending : Multiset (Host × Frame)

inductive TrafficEvent (Host : Type*) where
  | deliver (host : Host) (frame : Frame) (outside : Outside)
  | client (host : Host) (peer : PeerInfo)

/-- Each frame goes once to every node which accepts it. -/
def deliveries [Fintype Host] (node : Host → Node) (frames : List Frame) :
    Multiset (Host × Frame) :=
  Multiset.bind frames fun frame =>
    (Finset.univ.filter fun h => (node h).Accepts frame).val.map fun h =>
      (h, frame)

theorem mem_deliveries
    [Fintype Host] {node : Host → Node} {frames : List Frame}
    {host : Host} {frame : Frame} :
    (host, frame) ∈ deliveries node frames ↔
      frame ∈ frames ∧ (node host).Accepts frame := by
  simp only [deliveries, Multiset.mem_bind, Multiset.mem_coe,
    Multiset.mem_map, Finset.mem_val, Finset.mem_filter,
    Finset.mem_univ, true_and, Prod.mk.injEq]
  constructor
  · rintro ⟨_, hframe, _, haccepts, rfl, rfl⟩
    exact ⟨hframe, haccepts⟩
  · rintro ⟨hframe, haccepts⟩
    exact ⟨frame, hframe, host, haccepts, rfl, rfl⟩

variable [Fintype Host] [DecidableEq Host]

/-- A node replaces its state, and its frames join what is left in flight. -/
def Traffic.act (traffic : Traffic Host) (host : Host)
    (outcome : Outcome) (left : Multiset (Host × Frame)) :
    Traffic Host where
  node := Function.update traffic.node host outcome.node
  pending := left + deliveries traffic.node outcome.frames

def Traffic.step (traffic : Traffic Host) :
    TrafficEvent Host → Option (Traffic Host)
  | .deliver host frame outside =>
      if (traffic.node host).overrun = false ∧
          (host, frame) ∈ traffic.pending then
        some (traffic.act host
          ((traffic.node host).processFrame frame outside)
          (traffic.pending.erase (host, frame)))
      else none
  | .client host peer =>
      if (traffic.node host).overrun = false then
        some (traffic.act host ((traffic.node host).clientRequest peer)
          traffic.pending)
      else none

def Traffic.Initial (site : Site Host) (traffic : Traffic Host) : Prop :=
  traffic = ⟨fun h => Node.start (site.serv h), 0⟩

/-! ## Runs in which nobody asks for itself -/

/-- No node takes a frame with this destination address. -/
def Site.Nowhere (site : Site Host) (mac : Mac) : Prop :=
  mac ≠ broadcastMac ∧ ∀ h, ¬ site.OwnsMac h mac

/-- No table is cleared, no client asks for an IP of its own node, and the
bytes in front of a routing table are no address of the network. -/
def Orderly (site : Site Host) (_ : Network Host) :
    NetworkEvent Host → Prop
  | .receive _ _ outside => site.Nowhere outside.stray
  | .client host peer => peer.flag ≠ 1 ∧ ¬ site.OwnsIp host peer.destIp
  | .timeout _ => False

def OrderlyTraffic (site : Site Host) (_ : Traffic Host) :
    TrafficEvent Host → Prop
  | .deliver _ _ outside => site.Nowhere outside.stray
  | .client host peer => peer.flag ≠ 1 ∧ ¬ site.OwnsIp host peer.destIp

section Invariants

omit [Fintype Host] [DecidableEq Host]

/-- No node owns both the source and the destination. -/
def FrameHead.Apart (header : FrameHead) (site : Site Host) : Prop :=
  ∀ h, site.OwnsIp h header.srcIp → ¬ site.OwnsIp h header.destIp

/-- No broadcast id is above the limit. -/
structure Network.Bounded (network : Network Host) (limit : ℕ) : Prop where
  nodes : ∀ h, (network.node h).broadcastId ≤ limit
  rows : ∀ h ip row, (network.node h).row ip = some row →
    row.broadcastId ≤ limit
  frames : ∀ packet ∈ network.sent, packet.frame.header.bcId ≤ limit

/-- What holds in a run in which nobody asks for itself. -/
structure Network.Tame (network : Network Host) (site : Site Host)
    (limit : ℕ) : Prop where
  settled : network.Settled site
  apart : ∀ packet ∈ network.sent, packet.frame.header.Apart site
  bounded : network.Bounded limit

variable {site : Site Host} {host : Host}

def Cause.Apart (site : Site Host) (host : Host) : Cause → Prop
  | .frame header _ _ => header.Apart site
  | .client destIp => ¬ site.OwnsIp host destIp

theorem Wants.dest_foreign
    {node : Node} (hnode : node.Proper site host) {cause : Cause}
    (hcause : cause.Apart site host) {srcIp destIp : IpText}
    {type : DataType} (hwants : Wants node cause srcIp destIp type) :
    ¬ site.OwnsIp host destIp := by
  cases hwants with
  | request => exact hcause
  | routed _ howns =>
      exact fun hsrc => hcause host hsrc ((hnode.owns_iff _).mp howns)
  | served _ howns =>
      exact fun hsrc => hcause host hsrc ((hnode.owns_iff _).mp howns)
  | forwarded _ hforeign => exact (hnode.owns_eq_false_iff _).mp hforeign

theorem Wants.apart
    {node : Node} (hnode : node.Proper site host) {cause : Cause}
    (hcause : cause.Apart site host) {srcIp destIp : IpText}
    {type : DataType} (hwants : Wants node cause srcIp destIp type)
    (h : Host) (hsrc : site.OwnsIp h srcIp) :
    ¬ site.OwnsIp h destIp := by
  have hforeign := hwants.dest_foreign hnode hcause
  cases hwants with
  | request hsv =>
      rw [hsrc.unique (hnode.ownsIp hsv)]
      exact hforeign
  | routed _ howns =>
      rw [hsrc.unique ((hnode.owns_iff _).mp howns)]
      exact hforeign
  | served _ howns =>
      rw [hsrc.unique ((hnode.owns_iff _).mp howns)]
      exact hforeign
  | forwarded => exact hcause h hsrc

theorem Emits.apart
    {node : Node} (hnode : node.Proper site host) {cause : Cause}
    (hcause : cause.Apart site host) {frame : Frame}
    (hemits : Emits node cause frame) :
    frame.header.Apart site := by
  intro h hsrc
  cases hemits with
  | discover hwants _ hown _ =>
      rw [hsrc.unique (hnode.ownsIp hown)]
      exact hwants.dest_foreign hnode hcause
  | payload hwants => exact hwants.apart hnode hcause h hsrc
  | flood hcauseEq =>
      subst hcauseEq
      exact hcause h hsrc
  | reply hcauseEq =>
      subst hcauseEq
      exact fun hdest => hcause h hdest hsrc
  | relay hcauseEq =>
      subst hcauseEq
      exact hcause h hsrc

theorem Emits.bcId_le
    {node : Node} {limit : ℕ} (hnode : node.broadcastId ≤ limit)
    {cause : Cause}
    (hcause : ∀ header update stray,
      cause = .frame header update stray → header.bcId ≤ limit)
    {frame : Frame} (hemits : Emits node cause frame) :
    frame.header.bcId ≤ limit := by
  cases hemits with
  | discover => exact hnode
  | payload => exact hnode
  | flood hcauseEq =>
      have hheader := hcause _ _ _ hcauseEq
      exact hheader
  | reply hcauseEq =>
      have hheader := hcause _ _ _ hcauseEq
      exact hheader
  | relay hcauseEq =>
      have hheader := hcause _ _ _ hcauseEq
      exact hheader

theorem Network.Bounded.acts
    {network next : Network Host} {limit limit' : ℕ}
    (hbounded : network.Bounded limit) (hlimit : limit ≤ limit')
    {table : RoutingTable} {trail : List Host} {frames : List Frame}
    (hacts : network.Acts next host table trail frames)
    (hid : (next.node host).broadcastId ≤ limit')
    (hrows : ∀ ip row, (next.node host).row ip = some row →
      row.broadcastId ≤ limit')
    (hframes : ∀ frame ∈ frames, frame.header.bcId ≤ limit') :
    next.Bounded limit' := by
  constructor
  case nodes =>
    intro h
    by_cases hh : h = host
    · subst hh
      exact hid
    · rw [hacts.others h hh]
      exact (hbounded.nodes h).trans hlimit
  case rows =>
    intro h ip row hrow
    by_cases hh : h = host
    · subst hh
      exact hrows ip row hrow
    · rw [hacts.others h hh] at hrow
      exact (hbounded.rows h ip row hrow).trans hlimit
  case frames =>
    intro packet hpacket
    rcases hacts.mem_sent hpacket with ⟨hnew, _⟩ | hold
    · exact hframes packet.frame hnew
    · exact (hbounded.frames packet hold).trans hlimit

end Invariants

section Tame

omit [Fintype Host]

variable {site : Site Host}

/-- A received frame adds no higher broadcast id. -/
theorem Network.Tame.receive
    {network next : Network Host} {limit : ℕ}
    (htame : network.Tame site limit)
    {host : Host} {packet : Packet Host} {outside : Outside}
    (heffect : network.Effect next (.receive host packet outside)) :
    next.Tame site limit := by
  have hproper := htame.settled.proper
  have hclear : NoClear network (.receive host packet outside) := trivial
  have hsettled := htame.settled.effect hclear heffect
  cases heffect with
  | @receive _ _ _ table frames hmem _ htable hacts hemits hid =>
      have happart := htame.apart packet hmem
      have hbcId := htame.bounded.frames packet hmem
      have hstep := hproper.tableStep hmem htable
      have hidLimit : (next.node host).broadcastId ≤ limit := by
        rw [hid]
        exact htame.bounded.nodes host
      refine ⟨hsettled, ?_, ?_⟩
      · intro sent hsent
        rcases hacts.mem_sent hsent with ⟨hnew, _⟩ | hold
        · have hcause : (Cause.frame packet.frame.header
              ((network.node host).updates packet.frame.header)
              outside.stray).Apart site host := happart
          exact (hemits sent.frame hnew).apart
            (hsettled.proper.nodes host) hcause
        · exact htame.apart sent hold
      · refine htame.bounded.acts le_rfl hacts hidLimit ?_ ?_
        · intro ip row hrow
          rw [Node.row, hacts.table] at hrow
          exact hstep.broadcastId_le (htame.bounded.rows host) hbcId hrow
        · intro frame hframe
          refine (hemits frame hframe).bcId_le hidLimit ?_
          intro header update stray hcause
          cases hcause
          exact hbcId
  | overrun htable => exact (hproper.nextTable_ne_none htable).elim

theorem Network.Tame.client
    {network next : Network Host} {limit : ℕ}
    (htame : network.Tame site limit) {host : Host} {peer : PeerInfo}
    (hflag : peer.flag ≠ 1) (hforeign : ¬ site.OwnsIp host peer.destIp)
    (heffect : network.Effect next (.client host peer)) :
    next.Tame site (limit + 1) := by
  have hclear : NoClear network (.client host peer) := hflag
  have hsettled := htame.settled.effect hclear heffect
  cases heffect with
  | @client _ _ table frames hacts htable hemits hid =>
      have hidLimit : (next.node host).broadcastId ≤ limit + 1 := by
        rw [hid]
        exact Nat.succ_le_succ (htame.bounded.nodes host)
      have hkeep : table = (network.node host).table :=
        htable.resolve_right fun hforce => hflag hforce.1
      refine ⟨hsettled, ?_, ?_⟩
      · intro sent hsent
        rcases hacts.mem_sent hsent with ⟨hnew, _⟩ | hold
        · have hcause : (Cause.client peer.destIp).Apart site host :=
            hforeign
          exact (hemits sent.frame hnew).apart
            (hsettled.proper.nodes host) hcause
        · exact htame.apart sent hold
      · refine htame.bounded.acts (Nat.le_succ limit) hacts hidLimit ?_ ?_
        · intro ip row hrow
          rw [Node.row, hacts.table, hkeep] at hrow
          exact (htame.bounded.rows host ip row hrow).trans
            (Nat.le_succ limit)
        · intro frame hframe
          refine (hemits frame hframe).bcId_le hidLimit ?_
          intro header update stray hcause
          cases hcause

theorem Network.tame_of_reachable
    {network : Network Host}
    (hreach : Transition.Reachable Network.step (Orderly site)
      (Network.Initial site) network) :
    ∃ limit, network.Tame site limit := by
  refine hreach.invariant (fun state => ∃ limit, state.Tame site limit)
    ?_ ?_
  · intro start hinit
    have hsettled := Network.Settled.initial hinit
    subst hinit
    refine ⟨1, hsettled, ?_, fun _ => le_rfl, ?_, ?_⟩
    · intro packet hpacket
      cases hpacket
    · intro h ip row hrow
      have hnone : (Node.start (site.serv h)).row ip = none :=
        lookup_empty ip
      rw [hnone] at hrow
      cases hrow
    · intro packet hpacket
      cases hpacket
  · intro state event next hstate horderly hstep
    rcases hstate with ⟨limit, htame⟩
    have heffect := Network.step_effect hstep
    cases event with
    | receive => exact ⟨limit, htame.receive heffect⟩
    | client => exact ⟨limit + 1, htame.client horderly.1 horderly.2 heffect⟩
    | timeout => exact horderly.elim

end Tame

/-! ## The network follows -/

/-- The nodes are the same, and what is in flight was sent. -/
structure Traffic.Follows (traffic : Traffic Host)
    (network : Network Host) : Prop where
  node : network.node = traffic.node
  sent : ∀ host frame, (host, frame) ∈ traffic.pending →
    (network.node host).Accepts frame ∧
      ∃ trail, Packet.mk frame trail ∈ network.sent

theorem processFrame_serv
    (node : Node) (frame : Frame) (outside : Outside) :
    (node.processFrame frame outside).node.serv = node.serv := by
  cases htable : node.nextTable frame outside.now with
  | none => rw [processFrame_overrun htable]
  | some table => exact (processFrame_withTable htable).serv

theorem Traffic.Follows.act
    {traffic : Traffic Host} {network : Network Host}
    (hfollows : traffic.Follows network) {host : Host} {outcome : Outcome}
    (hserv : outcome.node.serv = (traffic.node host).serv)
    {left : Multiset (Host × Frame)} (hleft : left ≤ traffic.pending)
    (trail : List Host) :
    (traffic.act host outcome left).Follows
      (network.act host outcome trail) := by
  have haccepts : ∀ h frame, (traffic.node h).Accepts frame →
      ((network.act host outcome trail).node h).Accepts frame := by
    intro h frame haccepts
    by_cases hh : h = host
    · subst hh
      rw [Network.act_node_self, Node.Accepts, hserv]
      exact haccepts
    · have hother : (network.act host outcome trail).node h =
          network.node h := Function.update_of_ne hh _ _
      rw [hother, hfollows.node]
      exact haccepts
  constructor
  case node =>
    rw [Network.act, Traffic.act, hfollows.node]
  case sent =>
    intro h frame hpending
    rw [Traffic.act, Multiset.mem_add] at hpending
    rcases hpending with hold | hnew
    · rcases hfollows.sent h frame (Multiset.mem_of_le hleft hold) with
        ⟨hold, oldTrail, hsent⟩
      rw [hfollows.node] at hold
      exact ⟨haccepts h frame hold, oldTrail,
        List.mem_append_right _ hsent⟩
    · rcases mem_deliveries.mp hnew with ⟨hframe, hnew⟩
      exact ⟨haccepts h frame hnew, trail,
        List.mem_append_left _ (List.mem_map_of_mem hframe)⟩

/-- The network receives what the traffic delivers. -/
theorem Traffic.Follows.deliver
    {traffic next : Traffic Host} {network : Network Host}
    (hfollows : traffic.Follows network)
    {host : Host} {frame : Frame} {outside : Outside}
    (hstep : traffic.step (.deliver host frame outside) = some next) :
    ∃ trail next',
      network.step (.receive host ⟨frame, trail⟩ outside) = some next' ∧
        next.Follows next' := by
  simp only [Traffic.step, Option.ite_none_right_eq_some,
    Option.some.injEq] at hstep
  rcases hstep with ⟨⟨hrunning, hpending⟩, rfl⟩
  rcases hfollows.sent host frame hpending with ⟨haccepts, trail, hsent⟩
  rw [← hfollows.node] at hrunning
  refine ⟨trail, _, if_pos ⟨hrunning, hsent, haccepts⟩, ?_⟩
  rw [hfollows.node]
  exact hfollows.act (processFrame_serv _ _ _) (Multiset.erase_le _ _) _

theorem Traffic.Follows.step
    {site : Site Host} {traffic next : Traffic Host}
    {network : Network Host} {event : TrafficEvent Host}
    (hfollows : traffic.Follows network)
    (horderly : OrderlyTraffic site traffic event)
    (hstep : traffic.step event = some next) :
    ∃ event' next', Orderly site network event' ∧
      network.step event' = some next' ∧ next.Follows next' := by
  cases event with
  | deliver host frame outside =>
      rcases hfollows.deliver hstep with ⟨trail, next', hnext, hfollows'⟩
      exact ⟨.receive host ⟨frame, trail⟩ outside, next', horderly, hnext,
        hfollows'⟩
  | client host peer =>
      simp only [Traffic.step, Option.ite_none_right_eq_some,
        Option.some.injEq] at hstep
      rcases hstep with ⟨hrunning, rfl⟩
      rw [← hfollows.node] at hrunning
      refine ⟨.client host peer, _, horderly, if_pos hrunning, ?_⟩
      rw [hfollows.node]
      exact hfollows.act (clientRequest_requested _ _).serv le_rfl _

theorem Traffic.follows_of_reachable
    {site : Site Host} {traffic : Traffic Host}
    (hreach : Transition.Reachable Traffic.step (OrderlyTraffic site)
      (Traffic.Initial site) traffic) :
    ∃ network, Transition.Reachable Network.step (Orderly site)
        (Network.Initial site) network ∧ traffic.Follows network := by
  refine hreach.simulation Traffic.Follows ?_ ?_
  · intro start hinit
    subst hinit
    refine ⟨_, rfl, rfl, ?_⟩
    intro host frame hpending
    cases Multiset.notMem_zero _ hpending
  · intro state event next network hfollows horderly hstep
    exact hfollows.step horderly hstep

end NetworkProgramming.Odr
