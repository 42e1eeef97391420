import NetworkProgramming.OdrRoutes

/-!
# Loops of the next-hop graph

A table clear can close a loop: a node which passed its route to a
destination on and then forgets it may learn the route back from a node which
got it from there.  Without such a clear the next-hop graph of the
destination has no cycle.
-/

namespace NetworkProgramming.Odr

variable {Host : Type*} [DecidableEq Host]

/-- The next-hop graph of a destination has no cycle in any run in which no
node forgets a route to it which it passed on. -/
theorem nextHop_loopFree
    {site : Site Host} {ip : IpText} {network : Network Host}
    (hreach : Transition.Reachable Network.step (KeepsRoutes site ip)
      (Network.Initial site) network)
    (h : Host) :
    ¬ Relation.TransGen (network.NextHop site ip) h h := by
  have hrouted := Network.routed_of_reachable hreach
  exact hrouted.2.not_transGen_self hrouted.1 h

/-! ## Three nodes in a line -/

instance (site : Site Host) (network : Network Host) (ip : IpText)
    (h : Host) : Decidable (network.Passed site ip h) :=
  inferInstanceAs (Decidable (∃ packet ∈ network.sent,
    packet.frame.header.isPayload = false ∧
      packet.frame.header.srcIp = ip ∧
      packet.frame.srcMac ∈ (site.serv h).map ServerDetails.mac))

instance (site : Site Host) (network : Network Host) (ip : IpText)
    (h : Host) : Decidable (network.MayForget site ip h) :=
  inferInstanceAs (Decidable (_ ∨ _))

instance (site : Site Host) (ip : IpText) (network : Network Host)
    (event : NetworkEvent Host) :
    Decidable (KeepsRoutes site ip network event) :=
  match event with
  | .receive _ _ _ => inferInstanceAs (Decidable True)
  | .client host peer =>
      inferInstanceAs (Decidable (peer.flag = 1 →
        network.MayForget site ip host))
  | .timeout host =>
      inferInstanceAs (Decidable (network.MayForget site ip host))

/-- The numerals of `Fin 3`, which the examples of all modules number their
hosts with. -/
instance threeHosts : @NeZero ℕ Zero.ofOfNat0 3 :=
  ⟨by decide⟩

def lineIp : Fin 3 → IpText
  | 0 => ⟨[49], by simp, by simp⟩
  | 1 => ⟨[50], by simp, by simp⟩
  | 2 => ⟨[51], by simp, by simp⟩

def lineMac : Fin 3 → Mac
  | 0 => ⟨[0, 12, 41, 0, 0, 1], rfl⟩
  | 1 => ⟨[0, 12, 41, 0, 0, 2], rfl⟩
  | 2 => ⟨[0, 12, 41, 0, 0, 3], rfl⟩

theorem line_foreign_lt :
    ∀ h, (({lineIp 0, lineIp 1, lineIp 2} : Finset IpText).filter fun ip =>
      ip ∉ [⟨lineIp h, lineMac h, 2⟩].map ServerDetails.ip).card < 100 := by
  decide

def lineSite : Site (Fin 3) where
  serv := fun h => [⟨lineIp h, lineMac h, 2⟩]
  ips := {lineIp 0, lineIp 1, lineIp 2}
  mem_ips := by decide
  ip_ne := by decide
  mac_ne_zero := by decide
  mac_ne_broadcast := by decide
  ip_inj := by decide
  mac_inj := by decide
  foreign_lt := line_foreign_lt

def lineStart : Network (Fin 3) :=
  ⟨fun h => Node.start (lineSite.serv h), []⟩

theorem lineStart_initial : lineStart.Initial lineSite :=
  rfl

def lineFrame (host : Fin 3) (destMac : Mac) (header : FrameHead) :
    Packet (Fin 3) :=
  ⟨⟨destMac, lineMac host, 2, header⟩, [host]⟩

/-- The clock, the server and the stray bytes play no part in the runs. -/
def quiet : Outside :=
  ⟨0, noMsg, zeroMac⟩

def ask (dest : Fin 3) : PeerInfo :=
  ⟨lineIp dest, noMsg, 0⟩

/-- The first node finds the last one over the middle one. -/
def lineDiscovery : List (NetworkEvent (Fin 3)) :=
  [.client 0 (ask 2),
    .receive 1 (lineFrame 0 broadcastMac
      ⟨lineIp 0, lineIp 2, 1, 2, noMsg, 0, .rreq⟩) quiet,
    .receive 2 (lineFrame 1 broadcastMac
      ⟨lineIp 0, lineIp 2, 2, 2, noMsg, 0, .rreq⟩) quiet,
    .receive 1 (lineFrame 2 (lineMac 1)
      ⟨lineIp 2, lineIp 0, 1, 2, noMsg, 0, .rrep⟩) quiet,
    .receive 0 (lineFrame 1 (lineMac 0)
      ⟨lineIp 2, lineIp 0, 2, 2, noMsg, 0, .rrep⟩) quiet]

/-- The middle node forgets the route, asks, and believes the first one. -/
def lineRelearn : List (NetworkEvent (Fin 3)) :=
  [.timeout 1,
    .client 1 (ask 2),
    .receive 0 (lineFrame 1 broadcastMac
      ⟨lineIp 1, lineIp 2, 1, 2, noMsg, 0, .rreq⟩) quiet,
    .receive 1 (lineFrame 0 (lineMac 1)
      ⟨lineIp 2, lineIp 1, 1, 2, noMsg, 0, .rrep⟩) quiet]

/-- The node has a row for the IP which leads to the other node. -/
def Network.leads (network : Network (Fin 3)) (a b ip : Fin 3) : Bool :=
  ((network.node a).row (lineIp ip)).any fun row =>
    decide (row.nextHopMac = lineMac b)

theorem Network.nextHop_of_leads
    {network : Network (Fin 3)} {a b ip : Fin 3}
    (hleads : network.leads a b ip = true) :
    network.NextHop lineSite (lineIp ip) a b := by
  simp only [Network.leads, Option.any_eq_true,
    decide_eq_true_eq] at hleads
  rcases hleads with ⟨row, hrow, hmac⟩
  refine ⟨row, hrow, ?_⟩
  rw [hmac]
  exact List.mem_singleton_self _

/-- The owner of the destination clears its table, which holds no row for
it, and the route of the first node stays. -/
theorem nextHop_loopFree_ownerCleared :
    ∃ network, Transition.Reachable Network.step
        (KeepsRoutes lineSite (lineIp 2)) (Network.Initial lineSite)
        network ∧
      network.NextHop lineSite (lineIp 2) 0 1 ∧
      ∀ h, ¬ Relation.TransGen
        (network.NextHop lineSite (lineIp 2)) h h := by
  obtain ⟨network, hreach, htest⟩ :=
    Transition.exists_reachable_of_replay Network.step
      (KeepsRoutes lineSite (lineIp 2)) lineStart_initial
      (lineDiscovery ++ [.timeout 2]) (fun state => state.leads 0 1 2)
      (by decide +kernel)
  exact ⟨network, hreach, Network.nextHop_of_leads htest,
    nextHop_loopFree hreach⟩

/-- After the clear at the middle node the first and the middle node send
everything for the last one to each other. -/
theorem nextHop_loop_after_clear :
    ∃ network, Transition.Reachable Network.step
        Transition.Unrestricted (Network.Initial lineSite) network ∧
      Relation.TransGen (network.NextHop lineSite (lineIp 2)) 0 0 := by
  obtain ⟨network, hreach, htest⟩ :=
    Transition.exists_reachable_of_replay Network.step
      Transition.Unrestricted lineStart_initial
      (lineDiscovery ++ lineRelearn)
      (fun state => state.leads 0 1 2 && state.leads 1 0 2)
      (by decide +kernel)
  simp only [Bool.and_eq_true] at htest
  exact ⟨network, hreach,
    .tail (.single (Network.nextHop_of_leads htest.1))
      (Network.nextHop_of_leads htest.2)⟩

end NetworkProgramming.Odr
