import NetworkProgramming.OdrTraffic
import NetworkProgramming.Worklist
import Mathlib.Algebra.BigOperators.Group.Finset.Basic
import Mathlib.Algebra.Order.BigOperators.Group.Finset
import Mathlib.Data.Fintype.Pi
import Mathlib.Data.Prod.Lex

/-!
# The processing of frames dies out

A frame which changes a routing table adds a row, or it brings a row closer to
the highest broadcast id or to fewer hops; this happens only finitely often.
A frame which changes no table causes only frames of smaller rank.  The rank
of a frame in flight is a level and the number of hops which the node
addressed is away from the owner of the destination.

A request whose source has a route to its destination already leads to a
reply, then to a payload request, and where its receiver has no route back to
a request of its own; this last request has a source without a route, and the
reply to it changes a table.
-/

namespace NetworkProgramming.Odr

open Forwarding

variable {Host : Type*}

/-- The rows of all nodes. -/
abbrev Rows (Host : Type*) := Host → IpText → Option Row

def Traffic.rows (traffic : Traffic Host) : Rows Host :=
  fun h ip => (traffic.node h).row ip

/-- The edge from a node to the owner of the next hop of its row. -/
def Site.Hop (site : Site Host) (rows : Rows Host) (ip : IpText)
    (a b : Host) : Prop :=
  ∃ row, rows a ip = some row ∧ site.OwnsMac b row.nextHopMac

/-- The owner of the first IP has a row for the second. -/
def Site.Knows (site : Site Host) (rows : Rows Host) (ip other : IpText) :
    Prop :=
  ∃ h row, site.OwnsIp h ip ∧ rows h other = some row

open Classical in
noncomputable def level (site : Site Host) (rows : Rows Host)
    (header : FrameHead) : ℕ :=
  match header.type with
  | .rreq => if site.Knows rows header.srcIp header.destIp then 6 else 3
  | .rrep => if site.Knows rows header.destIp header.srcIp then 5 else 2
  | .payloadReq =>
      if site.Knows rows header.destIp header.srcIp then 1 else 4
  | .payloadResp => 0

noncomputable def rank (site : Site Host) (rows : Rows Host)
    (task : Host × Frame) : ℕ ×ₗ ℕ :=
  toLex (level site rows task.2.header,
    hops (site.Hop rows task.2.header.destIp)
      (site.OwnsIp · task.2.header.destIp) task.1)

/-- The sum over all nodes and all IPs of the network. -/
def total [Fintype Host] (site : Site Host) (cost : Option Row → ℕ)
    (rows : Rows Host) : ℕ :=
  ∑ h, ∑ ip ∈ site.ips, cost (rows h ip)

def missingCost : Option Row → ℕ
  | none => 1
  | some _ => 0

def slackCost (limit : ℕ) : Option Row → ℕ
  | none => 0
  | some row => limit - row.broadcastId + row.hopCount

def weight [Fintype Host] (site : Site Host) (limit : ℕ)
    (rows : Rows Host) : ℕ ×ₗ ℕ :=
  toLex (total site missingCost rows, total site (slackCost limit) rows)

/-! ## The weight -/

section Weight

variable [Fintype Host] {site : Site Host} {rows next : Rows Host}

theorem total_lt
    {cost : Option Row → ℕ}
    (hle : ∀ h ip, cost (next h ip) ≤ cost (rows h ip))
    (host : Host) {ip : IpText} (hip : ip ∈ site.ips)
    (hlt : cost (next host ip) < cost (rows host ip)) :
    total site cost next < total site cost rows := by
  apply Finset.sum_lt_sum
  · intro h _
    exact Finset.sum_le_sum fun other _ => hle h other
  · refine ⟨host, Finset.mem_univ host, ?_⟩
    exact Finset.sum_lt_sum (fun other _ => hle host other) ⟨ip, hip, hlt⟩

theorem total_congr
    {cost : Option Row → ℕ}
    (heq : ∀ h ip, cost (next h ip) = cost (rows h ip)) :
    total site cost next = total site cost rows :=
  Finset.sum_congr rfl fun h _ =>
    Finset.sum_congr rfl fun ip _ => heq h ip

/-- `next` differs from `rows` only in the row of one node for one IP. -/
def Rows.Sets (rows next : Rows Host) (host : Host) (ip : IpText)
    (row : Row) : Prop :=
  next host ip = some row ∧
    ∀ h other, (h, other) ≠ (host, ip) → next h other = rows h other

theorem weight_lt_of_insert
    {host : Host} {ip : IpText} {row : Row} (limit : ℕ)
    (hsets : Rows.Sets rows next host ip row) (hip : ip ∈ site.ips)
    (hnone : rows host ip = none) :
    weight site limit next < weight site limit rows := by
  apply Prod.Lex.toLex_lt_toLex.mpr
  refine .inl (total_lt ?_ host hip ?_)
  · intro h other
    by_cases hpoint : (h, other) = (host, ip)
    · cases hpoint
      rw [hsets.1]
      exact Nat.zero_le _
    · rw [hsets.2 h other hpoint]
  · rw [hsets.1, hnone]
    exact Nat.zero_lt_one

theorem slackCost_refresh_lt
    {row : Row} {head : FrameHead} {limit : ℕ}
    (hlimit : head.bcId ≤ limit)
    (hnewer : row.broadcastId < head.bcId ∨ head.hopCount < row.hopCount) :
    slackCost limit (some (row.refresh head)) <
      slackCost limit (some row) := by
  unfold Row.refresh
  split
  next hid =>
    simp only [slackCost]
    omega
  next hid =>
    have hhops := hnewer.resolve_left hid
    rw [if_pos hhops]
    simp only [slackCost]
    omega

theorem weight_lt_of_refresh
    {host : Host} {ip : IpText} {row : Row} {head : FrameHead} {limit : ℕ}
    (hsets : Rows.Sets rows next host ip (row.refresh head))
    (hip : ip ∈ site.ips) (hrow : rows host ip = some row)
    (hlimit : head.bcId ≤ limit)
    (hnewer : row.broadcastId < head.bcId ∨ head.hopCount < row.hopCount) :
    weight site limit next < weight site limit rows := by
  have hless := slackCost_refresh_lt hlimit hnewer
  apply Prod.Lex.toLex_lt_toLex.mpr
  refine .inr ⟨total_congr ?_, total_lt ?_ host hip ?_⟩
  · intro h other
    by_cases hpoint : (h, other) = (host, ip)
    · cases hpoint
      rw [hsets.1, hrow]
      rfl
    · rw [hsets.2 h other hpoint]
  · intro h other
    by_cases hpoint : (h, other) = (host, ip)
    · cases hpoint
      rw [hsets.1, hrow]
      exact hless.le
    · rw [hsets.2 h other hpoint]
  · rw [hsets.1, hrow]
    exact hless

end Weight

/-! ## The rank -/

section Rank

variable {site : Site Host} {rows : Rows Host}

theorem rank_lt_of_level
    {task other : Host × Frame}
    (hlevel : level site rows other.2.header <
      level site rows task.2.header) :
    rank site rows other < rank site rows task :=
  Prod.Lex.toLex_lt_toLex.mpr (.inl hlevel)

/-- Rows lead to the owner, and the owner has none. -/
structure Rows.Sound (rows : Rows Host) (site : Site Host) : Prop where
  reaches : ∀ ip a b, site.Hop rows ip a b →
    Reaches (site.Hop rows ip) (site.OwnsIp · ip) b
  final : ∀ ip a b, site.OwnsIp a ip → ¬ site.Hop rows ip a b

theorem Site.Hop.unique
    {ip : IpText} {a b c : Host} (hb : site.Hop rows ip a b)
    (hc : site.Hop rows ip a c) :
    b = c := by
  rcases hb with ⟨row, hrow, hmac⟩
  rcases hc with ⟨row', hrow', hmac'⟩
  rw [hrow, Option.some.injEq] at hrow'
  subst hrow'
  exact hmac.unique hmac'

/-- A frame which is passed on along a row keeps its level and comes one hop
closer to the owner of its destination. -/
theorem rank_lt_of_hop
    (hsound : rows.Sound site) {host g : Host} {frame passed : Frame}
    (hsrc : passed.header.srcIp = frame.header.srcIp)
    (hdest : passed.header.destIp = frame.header.destIp)
    (htype : passed.header.type = frame.header.type)
    (hhop : site.Hop rows frame.header.destIp host g) :
    rank site rows (g, passed) < rank site rows (host, frame) := by
  have hlevel : level site rows passed.header =
      level site rows frame.header := by
    rw [level, level, htype, hsrc, hdest]
  have hreaches := Reaches.of_hop hhop
    (hsound.reaches frame.header.destIp host g hhop)
  have hless := hops_lt (fun _ _ _ hb hc => hb.unique hc)
    (hsound.final frame.header.destIp) hreaches hhop
  apply Prod.Lex.toLex_lt_toLex.mpr
  refine .inr ⟨hlevel, ?_⟩
  dsimp only
  rw [hdest]
  exact hless

theorem Site.Knows.of_row
    {host : Host} {ip other : IpText} {row : Row}
    (howns : site.OwnsIp host ip) (hrow : rows host other = some row) :
    site.Knows rows ip other :=
  ⟨host, row, howns, hrow⟩

theorem Site.not_knows_of_none
    {host : Host} {ip other : IpText} (howns : site.OwnsIp host ip)
    (hnone : rows host other = none) :
    ¬ site.Knows rows ip other := by
  intro hknows
  rcases hknows with ⟨h, row, hh, hrow⟩
  rw [hh.unique howns, hnone] at hrow
  cases hrow

theorem level_payloadReq_lt_known_reply
    {header sent : FrameHead} (htype : header.type = .rrep)
    (hknows : site.Knows rows header.destIp header.srcIp)
    (hsent : sent.type = .payloadReq) :
    level site rows sent < level site rows header := by
  simp only [level, htype, hsent, if_pos hknows]
  split <;> omega

theorem level_payloadResp_lt_payloadReq
    {header sent : FrameHead} (htype : header.type = .payloadReq)
    (hsent : sent.type = .payloadResp) :
    level site rows sent < level site rows header := by
  simp only [level, htype, hsent]
  split <;> omega

theorem level_reply_lt_request
    {header sent : FrameHead} (htype : header.type = .rreq)
    (hsent : sent.type = .rrep) (hsrc : sent.srcIp = header.destIp)
    (hdest : sent.destIp = header.srcIp) :
    level site rows sent < level site rows header := by
  rw [level, level, htype, hsent, hsrc, hdest]
  by_cases hknows : site.Knows rows header.srcIp header.destIp
  · simp only [if_pos hknows]
    omega
  · simp only [if_neg hknows]
    omega

/-- A request sent for want of a row is below the payload request which
caused it. -/
theorem level_request_lt_payloadReq
    {header sent : FrameHead} (htype : header.type = .payloadReq)
    (hheader : ¬ site.Knows rows header.destIp header.srcIp)
    (hrreq : sent.type = .rreq)
    (hsent : ¬ site.Knows rows sent.srcIp sent.destIp) :
    level site rows sent < level site rows header := by
  simp only [level, htype, hrreq, if_neg hheader, if_neg hsent]
  omega

end Rank

/-! ## Frames which change no table -/

section Keep

variable {site : Site Host} {rows : Rows Host} {host g : Host} {node : Node}

/-- Who takes a frame addressed along a row is the next hop. -/
theorem hop_of_nextHopMac
    (hnode : node.Proper site host)
    (hrows : ∀ ip, rows host ip = node.row ip)
    {ip : IpText} {row : Row} (hrow : node.row ip = some row)
    (hg : row.nextHopMac = broadcastMac ∨ site.OwnsMac g row.nextHopMac) :
    site.Hop rows ip host g := by
  rcases (hnode.rows ip row hrow).2.2 with ⟨b, hb⟩
  refine ⟨row, (hrows ip).trans hrow, ?_⟩
  exact hg.resolve_left hb.ne_broadcastMac

/-- What a node sends because of a frame which changed no table has a smaller
rank than the frame. -/
theorem Emits.rank_lt
    (hsound : rows.Sound site) (hnode : node.Proper site host)
    (hrows : ∀ ip, rows host ip = node.row ip)
    {frame sent : Frame} {stray : Mac} (hstray : site.Nowhere stray)
    (hdest : frame.header.destIp ≠ emptyIp)
    (happart : frame.header.Apart site)
    (hlearned : frame.header.isPayload = false →
      node.owns frame.header.srcIp = true ∨
        ∃ row, node.row frame.header.srcIp = some row)
    (hemits : Emits node (.frame frame.header false stray) sent)
    (hg : sent.destMac = broadcastMac ∨ site.OwnsMac g sent.destMac) :
    rank site rows (g, sent) < rank site rows (host, frame) := by
  have hsourceRow : frame.header.type = .rrep →
      node.owns frame.header.destIp = true →
      ∃ row, node.row frame.header.srcIp = some row := by
    intro htype howns
    have hroute : frame.header.isPayload = false :=
      not_isPayload_of_rrep htype
    refine (hlearned hroute).resolve_left ?_
    intro hown
    exact happart host ((hnode.owns_iff _).mp hown)
      ((hnode.owns_iff _).mp howns)
  cases hemits with
  | discover hwants hnone hown _ =>
      have hnoRow := getRowEntry_none hnode.packed hnone
      cases hwants with
      | routed htype howns =>
          rcases hsourceRow htype howns with ⟨row, hrow⟩
          rw [Node.row, hnoRow] at hrow
          cases hrow
      | served htype howns =>
          have hempty := (hrows frame.header.srcIp).trans hnoRow
          apply rank_lt_of_level
          apply level_request_lt_payloadReq htype
          · exact Site.not_knows_of_none ((hnode.owns_iff _).mp howns)
              hempty
          · rfl
          · exact Site.not_knows_of_none (hnode.ownsIp hown) hempty
      | forwarded _ _ hrow =>
          rw [hnone] at hrow
          cases hrow
  | payload hwants hsome _ =>
      cases hwants with
      | routed htype howns =>
          rcases hsourceRow htype howns with ⟨row, hrow⟩
          apply rank_lt_of_level
          exact level_payloadReq_lt_known_reply htype
            (.of_row ((hnode.owns_iff _).mp howns)
              ((hrows _).trans hrow)) rfl
      | served htype _ =>
          apply rank_lt_of_level
          exact level_payloadResp_lt_payloadReq htype rfl
      | forwarded =>
          have hrow := getRowEntry_some hnode.packed hdest hsome
          exact rank_lt_of_hop hsound rfl rfl rfl
            (hop_of_nextHopMac hnode hrows hrow hg)
  | flood hcause => cases hcause
  | reply hcause htype _ _ =>
      cases hcause
      apply rank_lt_of_level
      exact level_reply_lt_request htype rfl rfl rfl
  | relay hcause htype _ _ =>
      cases hcause
      cases hentry : getRowEntry node.table frame.header.destIp with
      | none =>
          simp only [frameOn, Node.replyMac, hentry] at hg
          rcases hg with hbroadcast | hown
          · exact absurd hbroadcast hstray.1
          · exact absurd hown (hstray.2 g)
      | some i =>
          simp only [frameOn, Node.replyMac, hentry] at hg
          have hrow := getRowEntry_some hnode.packed hdest hentry
          exact rank_lt_of_hop hsound rfl rfl htype.symm
            (hop_of_nextHopMac hnode hrows hrow hg)

end Keep

/-! ## Deliveries -/

section Deliver

variable [Fintype Host] [DecidableEq Host] {site : Site Host}

theorem Traffic.rows_act
    (traffic : Traffic Host) (host : Host) (outcome : Outcome)
    (left : Multiset (Host × Frame)) (h : Host) (ip : IpText) :
    (traffic.act host outcome left).rows h ip =
      if h = host then outcome.node.row ip else traffic.rows h ip := by
  simp only [Traffic.rows, Traffic.act]
  by_cases hh : h = host
  · subst hh
    rw [if_pos rfl, Function.update_self]
  · rw [if_neg hh, Function.update_of_ne hh]

theorem Traffic.rows_act_of_same
    {traffic : Traffic Host} {host : Host} {outcome : Outcome}
    (left : Multiset (Host × Frame))
    (hsame : ∀ ip, outcome.node.row ip = traffic.rows host ip) :
    (traffic.act host outcome left).rows = traffic.rows := by
  funext h ip
  rw [Traffic.rows_act]
  by_cases hh : h = host
  · subst hh
    rw [if_pos rfl, hsame]
  · rw [if_neg hh]

omit [Fintype Host] [DecidableEq Host] in
theorem Traffic.Follows.sound
    {traffic : Traffic Host} {network : Network Host}
    (hfollows : traffic.Follows network) (hsettled : network.Settled site) :
    traffic.rows.Sound site := by
  have hhop : site.Hop traffic.rows = network.NextHop site := by
    funext ip a b
    rw [Site.Hop, Network.NextHop, hfollows.node]
    rfl
  constructor
  case reaches =>
    intro ip a b hab
    rw [hhop] at hab ⊢
    exact hsettled.reaches_nextHop hab
  case final =>
    intro ip a b howns
    rw [hhop]
    exact hsettled.proper.not_nextHop_of_owns howns

/-- The rows after a table step which wrote a row. -/
theorem Traffic.sets_act
    {traffic : Traffic Host} {host : Host} {outcome : Outcome}
    {left : Multiset (Host × Frame)} {ip : IpText} {row : Row}
    (hrewrites : Rewrites (traffic.node host).table outcome.node.table ip
      row) :
    Rows.Sets traffic.rows (traffic.act host outcome left).rows host ip
      row := by
  constructor
  · rw [Traffic.rows_act, if_pos rfl]
    exact hrewrites.lookup_self
  · intro h other hpoint
    rw [Traffic.rows_act]
    by_cases hh : h = host
    · subst hh
      have hne : other ≠ ip := fun heq => hpoint (by rw [heq])
      rw [if_pos rfl]
      exact hrewrites.lookup_of_ne hne
    · rw [if_neg hh]

/-- Every delivery makes progress. -/
theorem Traffic.Follows.progress
    {traffic next : Traffic Host} {network : Network Host} {limit : ℕ}
    (hfollows : traffic.Follows network)
    (htame : network.Tame site limit)
    {host : Host} {frame : Frame} {outside : Outside}
    (hstray : site.Nowhere outside.stray)
    (hstep : traffic.step (.deliver host frame outside) = some next) :
    Worklist.Progress
      (fun state : Traffic Host => weight site limit state.rows)
      (fun state => rank site state.rows) Traffic.pending traffic next := by
  simp only [Traffic.step, Option.ite_none_right_eq_some,
    Option.some.injEq] at hstep
  rcases hstep with ⟨⟨_, hpending⟩, rfl⟩
  rcases hfollows.sent host frame hpending with ⟨haccepts, trail, hsent⟩
  have hframe := htame.settled.proper.frames _ hsent
  have happart := htame.apart _ hsent
  have hlimit := htame.bounded.frames _ hsent
  have hnodes : ∀ h, (traffic.node h).Proper site h := by
    intro h
    rw [← hfollows.node]
    exact htame.settled.proper.nodes h
  rw [hfollows.node] at haccepts
  have hdest := (hframe.cause (hnodes host) haccepts false zeroMac).2.1
  rcases hframe.source with ⟨owner, hsource⟩
  have hip : frame.header.srcIp ∈ site.ips := by
    rcases List.mem_map.mp hsource with ⟨sv, hsv, hsvIp⟩
    rw [← hsvIp]
    exact site.mem_ips owner sv hsv
  rcases nextTable_isSome (hnodes host).exists_free frame outside.now with
    ⟨table, htable⟩
  have hwith := processFrame_withTable htable
  have htableStep := nextTable_step (hnodes host).packed
    hsource.ne_emptyIp htable
  have hnode := (hnodes host).tableStep hframe htableStep hwith.serv
    hwith.table
  have hemits := fun sent (hmem : sent ∈
      ((traffic.node host).processFrame frame outside).frames) =>
    processFrame_emits htable hmem
  have hlearned := htableStep.source_known (hnodes host).packed
    hwith.serv hwith.table hsource.ne_emptyIp
  cases htableStep with
  | insert _ hnone hrewrites =>
      rw [← hwith.table] at hrewrites
      exact .lighter (weight_lt_of_insert limit
        (Traffic.sets_act hrewrites) hip hnone)
  | refresh _ hrow hnewer hrewrites =>
      rw [← hwith.table] at hrewrites
      exact .lighter (weight_lt_of_refresh (Traffic.sets_act hrewrites)
        hip hrow hlimit hnewer)
  | keep hupdates =>
      have hsame : ∀ ip,
          ((traffic.node host).processFrame frame outside).node.row ip =
            traffic.rows host ip := by
        intro ip
        rw [Node.row, hwith.table]
        rfl
      have hrows := Traffic.rows_act_of_same
        (traffic.pending.erase (host, frame)) hsame
      refine .replaces (congrArg (weight site limit) hrows)
        (fun task => by rw [hrows]) (Multiset.cons_erase hpending).symm
        rfl ?_
      intro task htask
      rcases mem_deliveries.mp htask with ⟨hmem, htaken⟩
      have hcaused := hemits task.2 hmem
      rw [hupdates] at hcaused
      rw [Node.Accepts, (hnodes task.1).serv] at htaken
      exact hcaused.rank_lt (hfollows.sound htame.settled) hnode
        (fun ip => (hsame ip).symm) hstray hdest happart hlearned htaken

end Deliver

/-! ## Runs -/

variable [Fintype Host] [DecidableEq Host]

/-- `next` is the result of delivering one frame in flight. -/
def Traffic.Delivers (traffic next : Traffic Host) : Prop :=
  ∃ host frame outside,
    traffic.step (.deliver host frame outside) = some next

/-- From every state reached by a run in which nobody asks for itself, the
processing of the frames in flight ends. -/
theorem traffic_dies_out
    {site : Site Host} {run : ℕ → Traffic Host}
    (hreach : Transition.Reachable Traffic.step (OrderlyTraffic site)
      (Traffic.Initial site) (run 0)) :
    ¬ ∀ n, ∃ host frame outside,
      OrderlyTraffic site (run n) (.deliver host frame outside) ∧
      (run n).step (.deliver host frame outside) = some (run (n + 1)) := by
  intro hrun
  rcases Traffic.follows_of_reachable hreach with
    ⟨network, hnetwork, hstart⟩
  rcases Network.tame_of_reachable hnetwork with ⟨limit, htame⟩
  have hfollowed : ∀ n, ∃ network,
      (run n).Follows network ∧ network.Tame site limit := by
    intro n
    induction n with
    | zero => exact ⟨network, hstart, htame⟩
    | succ n ih =>
        rcases ih with ⟨current, hfollows, hcurrent⟩
        rcases hrun n with ⟨host, frame, outside, _, hstep⟩
        rcases hfollows.deliver hstep with ⟨trail, next, hnext, hfollows'⟩
        exact ⟨next, hfollows',
          hcurrent.receive (Network.step_effect hnext)⟩
  have hprogress : ∀ n, Worklist.Progress
      (fun state : Traffic Host => weight site limit state.rows)
      (fun state => rank site state.rows) Traffic.pending
      (run n) (run (n + 1)) := by
    intro n
    rcases hfollowed n with ⟨current, hfollows, hcurrent⟩
    rcases hrun n with ⟨host, frame, outside, hstray, hstep⟩
    exact hfollows.progress hcurrent hstray hstep
  exact Worklist.not_forever run hprogress

/-! ## Two nodes -/

deriving instance DecidableEq for Node

instance : DecidableEq (Traffic Host) := fun a b =>
  decidable_of_iff (a.node = b.node ∧ a.pending = b.pending)
    (by cases a; cases b; simp)

theorem pair_foreign_lt :
    ∀ h : Fin 2, (({lineIp 0, lineIp 1} : Finset IpText).filter fun ip =>
      ip ∉ [⟨lineIp h.castSucc, lineMac h.castSucc, 2⟩].map
        ServerDetails.ip).card < 100 := by
  decide

def pairSite : Site (Fin 2) where
  serv := fun h => [⟨lineIp h.castSucc, lineMac h.castSucc, 2⟩]
  ips := {lineIp 0, lineIp 1}
  mem_ips := by decide
  ip_ne := by decide
  mac_ne_zero := by decide
  mac_ne_broadcast := by decide
  ip_inj := by decide
  mac_inj := by decide
  foreign_lt := pair_foreign_lt

def pairStart : Traffic (Fin 2) :=
  ⟨fun h => Node.start (pairSite.serv h), 0⟩

theorem pairStart_initial : pairStart.Initial pairSite :=
  rfl

instance (site : Site Host) (mac : Mac) : Decidable (site.Nowhere mac) :=
  inferInstanceAs (Decidable (mac ≠ broadcastMac ∧
    ∀ h, ¬ mac ∈ (site.serv h).map ServerDetails.mac))

instance (site : Site Host) (traffic : Traffic Host)
    (event : TrafficEvent Host) :
    Decidable (OrderlyTraffic site traffic event) :=
  match event with
  | .deliver _ _ outside =>
      inferInstanceAs (Decidable (site.Nowhere outside.stray))
  | .client host peer =>
      inferInstanceAs (Decidable (peer.flag ≠ 1 ∧
        ¬ peer.destIp ∈ (site.serv host).map ServerDetails.ip))

/-- The first node asked for the second one. -/
theorem traffic_dies_out_pair :
    ∃ traffic, Transition.Reachable Traffic.step
        (OrderlyTraffic pairSite) (Traffic.Initial pairSite) traffic ∧
      traffic.pending ≠ 0 ∧
      ∀ run : ℕ → Traffic (Fin 2), run 0 = traffic →
        ¬ ∀ n, ∃ host frame outside,
          OrderlyTraffic pairSite (run n) (.deliver host frame outside) ∧
          (run n).step (.deliver host frame outside) =
            some (run (n + 1)) := by
  obtain ⟨traffic, hreach, htest⟩ :=
    Transition.exists_reachable_of_replay Traffic.step
      (OrderlyTraffic pairSite) pairStart_initial
      [.client 0 (ask 1)]
      (fun state => decide (state.pending ≠ 0)) (by decide +kernel)
  refine ⟨traffic, hreach, of_decide_eq_true htest, ?_⟩
  intro run hrun
  subst hrun
  exact traffic_dies_out hreach

def selfRreq : Frame :=
  ⟨broadcastMac, lineMac 0, 2,
    ⟨lineIp 0, lineIp 0, 1, 2, noMsg, 0, .rreq⟩⟩

def selfRrep : Frame :=
  ⟨lineMac 0, lineMac 1, 2, ⟨lineIp 0, lineIp 0, 1, 2, noMsg, 0, .rrep⟩⟩

/-- The first node hears its request, the second one answers it, and the
first one takes the reply. -/
def selfRound : List (TrafficEvent (Fin 2)) :=
  [.deliver 0 selfRreq quiet, .deliver 1 selfRreq quiet,
    .deliver 0 selfRrep quiet]

/-- A client of the first node asks for an IP of that node.  Three deliveries
lead back to the same nodes and the same frames in flight, so that the
processing goes on forever. -/
theorem traffic_forever_after_selfRequest :
    ∃ run : ℕ → Traffic (Fin 2),
      Transition.Reachable Traffic.step Transition.Unrestricted
        (Traffic.Initial pairSite) (run 0) ∧
      ∀ n, ∃ host frame outside,
        (run n).step (.deliver host frame outside) =
          some (run (n + 1)) := by
  obtain ⟨traffic, hreach, htest⟩ :=
    Transition.exists_reachable_of_replay Traffic.step
      Transition.Unrestricted pairStart_initial
      (.client 0 (ask 0) :: selfRound)
      (fun state => (state.step (.deliver 0 selfRreq quiet)).any
        fun heard => (heard.step (.deliver 1 selfRreq quiet)).any
          fun answered => decide
            (answered.step (.deliver 0 selfRrep quiet) = some state))
      (by decide +kernel)
  simp only [Option.any_eq_true, decide_eq_true_eq] at htest
  rcases htest with ⟨heard, hheard, answered, hanswered, hback⟩
  have hcycle : Relation.TransGen Traffic.Delivers traffic traffic :=
    .tail (.tail (.single ⟨_, _, _, hheard⟩) ⟨_, _, _, hanswered⟩)
      ⟨_, _, _, hback⟩
  rcases Transition.exists_forever_of_cycle hcycle with ⟨run, hrun, hnext⟩
  subst hrun
  exact ⟨run, hreach, hnext⟩

end NetworkProgramming.Odr
