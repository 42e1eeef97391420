import NetworkProgramming.TourOrder
import Mathlib.Data.List.Infix
import Mathlib.Data.List.Nodup

/-!
# One host over all its packets

`main` of `hw4/tour.c` from its start on, with packets of any senders and any
content.  Each packet with the right identification replaces `route_el`,
calls `add_ip_to_ping` for its sender and calls `send_rt` unless the tour
ends here.  Two things are followed over a whole run: the list of addresses
to ping, and the indices with which `send_rt` reads the route.

The own address is kept out of the list by a test inside the loop over the
list, so it gets in while the list is empty.  The array of the list has one
element only, so from the second sender on it is written and read behind its
end, and whether a sender is found there again is open.  Neither the number of
hosts on the command line nor the numbers of a received route are checked.
-/

namespace NetworkProgramming.Tour

variable {Host Name : Type*}

/-- One process from its start on.  `senders` are the addresses with which
`add_ip_to_ping` was called and `sends` the routes with which `send_rt` was
called, oldest first; `spilled` tells that the last call of `add_ip_to_ping`
wrote behind the `NUM_IPS_PING` texts. -/
structure Session (Name : Type*) where
  process : Process Name
  senders : List AddrText
  spilled : Bool
  sends : List Route

/-- A packet arrives at `rt_sock`, or the `sleep(3)` is over and
`send_multicast` is called. -/
inductive SessionEvent where
  | arrive (packet : Packet)
  | multicast

/-- The route with which `main` calls `send_rt`, if it does, when the sender
has been noted. -/
def Process.routeToSend (noted : Process Name) : Option Route :=
  if noted.overrun ∨ noted.routeEl.totalSize ≤ noted.routeEl.index then none
  else some noted.routeEl

/-- The `rt_sock` branch of `main` behind a `recv_rt` which took the
packet. -/
def Session.serve (site : Site Host Name) (session : Session Name)
    (received : Process Name) (packet : Packet) : Session Name :=
  let noted := site.addIpToPing received packet.ipSrc
  { process := (site.serveRoute received packet).1
    senders := session.senders ++ [packet.ipSrc]
    spilled := noted.overrun
    sends := session.sends ++ noted.routeToSend.toList }

def Session.step (site : Site Host Name) (session : Session Name) :
    SessionEvent → Option (Session Name)
  | .arrive packet =>
      if session.process.asleep ∨ session.process.overrun then none
      else
        match site.recvRt session.process packet with
        | none => some session
        | some received => some (session.serve site received packet)
  | .multicast =>
      if session.process.asleep ∧ ¬ session.process.overrun then
        some { session with
          process := { session.process with asleep := false } }
      else none

/-- `main` up to its loop; `argc` is one more than the length of `argv`. -/
def Site.begin (site : Site Host Name) (host : Host) (tour : ℕ)
    (argv : List Name) : Session Name :=
  if argv = [] then ⟨site.boot host, [], false, []⟩
  else
    { process := (site.launch host tour argv).1
      senders := []
      spilled := false
      sends :=
        ((site.populateRoute { site.boot host with tour := tour } argv).map
          Process.routeEl).toList }

def Site.Begins (site : Site Host Name) (session : Session Name) : Prop :=
  ∃ host tour argv, session = site.begin host tour argv

section Step

variable {site : Site Host Name} {session next : Session Name}
variable {event : SessionEvent}

inductive Session.Moves (site : Site Host Name)
    (session next : Session Name) : SessionEvent → Prop
  | ignored {packet : Packet}
      (hforeign : packet.ipId ≠ site.identification)
      (hnext : next = session) :
      Session.Moves site session next (.arrive packet)
  | served {packet : Packet} {received : Process Name}
      (hown : packet.ipId = site.identification)
      (hreceived : received = { session.process with
        routeEl := packet.route.advance
        tour := packet.tour })
      (hrunning : session.process.overrun = false)
      (hnext : next = session.serve site received packet) :
      Session.Moves site session next (.arrive packet)
  | woken (hnext : next = { session with
        process := { session.process with asleep := false } }) :
      Session.Moves site session next .multicast

theorem Session.step_moves
    (hstep : session.step site event = some next) :
    session.Moves site next event := by
  cases event with
  | arrive packet =>
      simp only [Session.step] at hstep
      split at hstep
      next => contradiction
      next hrunning =>
        rw [not_or] at hrunning
        by_cases hid : packet.ipId = site.identification
        · simp only [Site.recvRt, if_neg (not_not.mpr hid),
            Option.some.injEq] at hstep
          exact .served hid rfl (by simpa using hrunning.2) hstep.symm
        · simp only [Site.recvRt, if_pos hid, Option.some.injEq] at hstep
          exact .ignored hid hstep.symm
  | multicast =>
      simp only [Session.step] at hstep
      split at hstep
      next => exact .woken (Option.some.inj hstep).symm
      next => contradiction

end Step

/-! ## The list of addresses to ping -/

theorem addIpToPing_cases (site : Site Host Name) (process : Process Name)
    (ip : AddrText) :
    site.addIpToPing process ip = process ∨
    process.ipsToPing.length < 20 ∧
      site.addIpToPing process ip =
        { process with ipsToPing := process.ipsToPing ++ [ip] } ∨
    20 ≤ process.ipsToPing.length ∧
      site.addIpToPing process ip = { process with overrun := true } := by
  unfold Site.addIpToPing
  split
  next => exact .inl rfl
  next =>
    split
    next hroom => exact .inr (.inl ⟨hroom, rfl⟩)
    next hfull => exact .inr (.inr ⟨not_lt.mp hfull, rfl⟩)

/-- With one entry the loop is inside the array. -/
theorem pingKnown_singleton
    (beyond : AddrText → List AddrText → Bool)
    (srcIp destPingIp ip : AddrText) :
    pingKnown beyond srcIp destPingIp [ip] = true ↔
      destPingIp = ip ∨ destPingIp = srcIp := by
  simp only [pingKnown, List.isEmpty_nil, Bool.not_true, Bool.false_and,
    Bool.or_false, Bool.or_eq_true, decide_eq_true_eq]
  exact or_congr_right eq_comm

theorem addIpToPing_nil
    (site : Site Host Name) {process : Process Name}
    (hempty : process.ipsToPing = []) (ip : AddrText) :
    site.addIpToPing process ip = { process with ipsToPing := [ip] } := by
  simp [Site.addIpToPing, hempty, pingKnown]

theorem Site.serveRoute_list
    (site : Site Host Name) (received : Process Name) (packet : Packet) :
    (site.serveRoute received packet).1.ipsToPing =
        (site.addIpToPing received packet.ipSrc).ipsToPing ∧
      (site.serveRoute received packet).1.srcIp = received.srcIp := by
  obtain ⟨ipsToPing, overrun, hnoted⟩ :=
    addIpToPing_eq site received packet.ipSrc
  simp only [Site.serveRoute, Site.forward, hnoted]
  split
  · exact ⟨rfl, rfl⟩
  · split
    · exact ⟨rfl, rfl⟩
    · split <;> exact ⟨rfl, rfl⟩

/-- What the list is meant to be: every other sender so far, once. -/
structure Listed (srcIp : AddrText) (senders ips : List AddrText) :
    Prop where
  nodup : ips.Nodup
  others : srcIp ∉ ips
  complete : ∀ sender ∈ senders, sender ≠ srcIp → sender ∈ ips
  bounded : ips.length ≤ 20

theorem Listed.known
    {srcIp ip : AddrText} {senders ips : List AddrText}
    (hlisted : Listed srcIp senders ips) (hknown : ip ≠ srcIp → ip ∈ ips) :
    Listed srcIp (senders ++ [ip]) ips := by
  refine { hlisted with complete := ?_ }
  intro sender hsender hne
  rcases List.mem_append.mp hsender with hold | hlast
  · exact hlisted.complete sender hold hne
  · rw [List.mem_singleton.mp hlast] at hne ⊢
    exact hknown hne

theorem Listed.concat
    {srcIp ip : AddrText} {senders ips : List AddrText}
    (hlisted : Listed srcIp senders ips) (hself : ip ≠ srcIp)
    (hnew : ip ∉ ips) (hroom : ips.length < 20) :
    Listed srcIp (senders ++ [ip]) (ips ++ [ip]) := by
  constructor
  case nodup =>
    rw [← List.concat_eq_append]
    exact hlisted.nodup.concat hnew
  case others =>
    simp only [List.mem_append, List.mem_singleton, not_or]
    exact ⟨hlisted.others, hself.symm⟩
  case complete =>
    intro sender hsender hne
    rcases List.mem_append.mp hsender with hold | hlast
    · exact List.mem_append_left _ (hlisted.complete sender hold hne)
    · exact List.mem_append_right _ hlast
  case bounded =>
    rw [List.length_append, List.length_singleton]
    omega

/-- Besides, the list is within the array, which has one element. -/
structure Session.PingList (session : Session Name) : Prop where
  listed : Listed session.process.srcIp session.senders
    session.process.ipsToPing
  inside : session.process.ipsToPing.length ≤ 1

/-- The first packet is not the host's own, and every further one is, or has
the sender of the first. -/
def Session.Listable (site : Site Host Name) (session : Session Name) :
    SessionEvent → Prop
  | .arrive packet =>
      packet.ipId = site.identification →
        (session.process.ipsToPing = [] →
          packet.ipSrc ≠ session.process.srcIp) ∧
        ∀ first ∈ session.process.ipsToPing.head?,
          packet.ipSrc = first ∨ packet.ipSrc = session.process.srcIp
  | .multicast => True

section List

variable {site : Site Host Name} {session next : Session Name}
variable {event : SessionEvent} {packet : Packet} {received : Process Name}

theorem Session.serve_pingList_iff :
    (session.serve site received packet).PingList ↔
      Listed received.srcIp (session.senders ++ [packet.ipSrc])
        (site.addIpToPing received packet.ipSrc).ipsToPing ∧
      (site.addIpToPing received packet.ipSrc).ipsToPing.length ≤ 1 := by
  obtain ⟨hserved, hself⟩ := site.serveRoute_list received packet
  constructor
  · rintro ⟨hlisted, hinside⟩
    rw [Session.serve, hserved, hself] at hlisted
    rw [Session.serve, hserved] at hinside
    exact ⟨hlisted, hinside⟩
  · rintro ⟨hlisted, hinside⟩
    constructor
    · rw [Session.serve, hserved, hself]
      exact hlisted
    · rw [Session.serve, hserved]
      exact hinside

/-- The first packet makes the only entry. -/
theorem Listed.first_iff
    {srcIp ip : AddrText} {senders : List AddrText}
    (hlisted : Listed srcIp senders []) :
    Listed srcIp (senders ++ [ip]) [ip] ↔ ip ≠ srcIp := by
  constructor
  · intro hafter hself
    apply hafter.others
    rw [hself]
    exact List.mem_singleton_self srcIp
  · intro hother
    exact hlisted.concat hother List.not_mem_nil (by decide)

theorem Session.PingList.serve_iff
    (hlist : session.PingList)
    (hown : packet.ipId = site.identification)
    (hips : received.ipsToPing = session.process.ipsToPing)
    (hsrc : received.srcIp = session.process.srcIp) :
    (session.serve site received packet).PingList ↔
      session.Listable site (.arrive packet) := by
  have hlisted := hlist.listed
  have hinside := hlist.inside
  simp only [Session.serve_pingList_iff, Session.Listable, hown,
    forall_true_left]
  rw [← hips, ← hsrc] at hlisted ⊢
  rw [← hips] at hinside
  rcases hcase : received.ipsToPing with _ | ⟨first, rest⟩
  · rw [addIpToPing_nil site hcase]
    rw [hcase] at hlisted
    simp [hlisted.first_iff]
  · obtain rfl : rest = [] := by
      rw [hcase, List.length_cons] at hinside
      exact List.length_eq_zero_iff.mp (by omega)
    have hknown := pingKnown_singleton site.beyondPing received.srcIp
      packet.ipSrc first
    simp only [List.head?_cons, Option.mem_some_iff, forall_eq',
      reduceCtorEq, false_implies, true_and]
    by_cases hfound : packet.ipSrc = first ∨ packet.ipSrc = received.srcIp
    · have hkept : site.addIpToPing received packet.ipSrc = received := by
        rw [Site.addIpToPing, hcase, if_pos (hknown.mpr hfound)]
      rw [hkept, hcase]
      refine iff_of_true ⟨?_, le_rfl⟩ hfound
      rw [hcase] at hlisted
      refine hlisted.known fun hne => ?_
      rw [hfound.resolve_right hne]
      exact List.mem_singleton_self first
    · -- the sender goes behind the element of the array
      have hadded : (site.addIpToPing received packet.ipSrc).ipsToPing =
          [first, packet.ipSrc] := by
        rw [Site.addIpToPing, hcase, if_neg (mt hknown.mp hfound)]
        rfl
      rw [hadded]
      refine iff_of_false (fun hafter => ?_) hfound
      exact absurd hafter.2 (by simp)

theorem Session.PingList.arrive_iff
    (hlist : session.PingList)
    (hown : packet.ipId = site.identification)
    (hmoves : session.Moves site next (.arrive packet)) :
    next.PingList ↔ session.Listable site (.arrive packet) := by
  cases hmoves with
  | ignored hforeign hnext => exact absurd hown hforeign
  | served _ hreceived hrunning hnext =>
      subst hreceived hnext
      exact hlist.serve_iff hown rfl rfl

theorem Session.PingList.moves
    (hlist : session.PingList) (hmoves : session.Moves site next event)
    (hlistable : session.Listable site event) :
    next.PingList := by
  cases hmoves with
  | ignored hforeign hnext => rwa [hnext]
  | served hown hreceived hrunning hnext =>
      have hiff := hlist.arrive_iff hown
        (.served hown hreceived hrunning hnext)
      exact hiff.mpr hlistable
  | woken hnext =>
      subst hnext
      exact ⟨hlist.listed, hlist.inside⟩

theorem Session.Moves.grows (hmoves : session.Moves site next event) :
    session.process.ipsToPing <+: next.process.ipsToPing := by
  cases hmoves with
  | ignored hforeign hnext => rw [hnext]
  | @served packet received hown hreceived hrunning hnext =>
      have hserved := (site.serveRoute_list received packet).1
      rw [hnext, Session.serve, hserved]
      rcases addIpToPing_cases site received packet.ipSrc with
        hnoted | ⟨_, hnoted⟩ | ⟨_, hnoted⟩
      · rw [hnoted, hreceived]
      · rw [hnoted, hreceived]
        exact List.prefix_append _ _
      · rw [hnoted, hreceived]
  | woken hnext => rw [hnext]

theorem Site.launch_list
    (site : Site Host Name) (host : Host) (tour : ℕ) (argv : List Name) :
    (site.launch host tour argv).1.ipsToPing = [] := by
  simp only [Site.launch]
  split
  next populated hpopulate =>
    obtain ⟨route, _, rfl⟩ := Option.map_eq_some_iff.mp hpopulate
    simp only [Site.forward]
    split <;> rfl
  next => rfl

theorem Site.Begins.pingList (hbegins : site.Begins session) :
    session.PingList := by
  obtain ⟨host, tour, argv, rfl⟩ := hbegins
  have hlisted : ∀ srcIp, Listed srcIp [] [] := by
    intro srcIp
    constructor <;> simp
  unfold Site.begin
  split
  next => exact ⟨hlisted _, Nat.zero_le 1⟩
  next =>
    have hempty := site.launch_list host tour argv
    constructor
    · rw [hempty]
      exact hlisted _
    · rw [hempty]
      exact Nat.zero_le 1

end List

/-- The list of addresses to ping over all runs of a host: as long as the
condition is met it holds every sender but the host itself, once, in at most
`NUM_IPS_PING` texts, and is within its array; and the next packet keeps it so
exactly when the condition is met again.  It only grows at its end, whatever
arrives. -/
theorem pingList_invariant
    {site : Site Host Name} {session : Session Name}
    (hreach : Transition.Reachable (Session.step site)
      (Session.Listable site) site.Begins session) :
    session.PingList ∧
    (∀ packet next, packet.ipId = site.identification →
      session.step site (.arrive packet) = some next →
      (next.PingList ↔ session.Listable site (.arrive packet))) ∧
    ∀ later, Transition.Run (Session.step site) Transition.Unrestricted
        session later →
      session.process.ipsToPing <+: later.process.ipsToPing := by
  have hlist := hreach.invariant Session.PingList
    (fun _ hbegins => hbegins.pingList)
    (by
      intro state event next hstate hlistable hstep
      exact hstate.moves (Session.step_moves hstep) hlistable)
  refine ⟨hlist, ?_, ?_⟩
  · intro packet next hown hstep
    exact hlist.arrive_iff hown (Session.step_moves hstep)
  · intro later hrun
    refine hrun.invariant
      (fun state =>
        session.process.ipsToPing <+: state.process.ipsToPing)
      (List.prefix_refl _) ?_
    intro state event next hgrown _ hstep
    exact hgrown.trans (Session.step_moves hstep).grows

instance Session.decidableListable
    (site : Site Host Name) (session : Session Name)
    (event : SessionEvent) : Decidable (session.Listable site event) :=
  match event with
  | .arrive _ => inferInstanceAs (Decidable (_ → _ ∧ _))
  | .multicast => inferInstanceAs (Decidable True)

def routePacket (ipSrc : AddrText) (index totalSize : ℤ) : Packet :=
  ⟨ipSrc, Vm.vm1.addr, 17,
    ⟨fun _ => Vm.vm3.addr, index, totalSize⟩, 0⟩

/-- The first sender comes back, and a packet of the host itself comes in
between. -/
theorem pingList_invariant_oneSender :
    ∃ session : Session Vm,
      Transition.Reachable (Session.step vmSite)
        (Session.Listable vmSite) vmSite.Begins session ∧
      session.senders =
        [Vm.vm2.addr, Vm.vm1.addr, Vm.vm2.addr, Vm.vm1.addr] ∧
      session.process.ipsToPing = [Vm.vm2.addr] ∧
      session.PingList := by
  have hbegins : vmSite.Begins (vmSite.begin .vm1 0 []) :=
    ⟨.vm1, 0, [], rfl⟩
  obtain ⟨session, hreach, htest⟩ :=
    Transition.exists_reachable_of_replay (Session.step vmSite)
      (Session.Listable vmSite) hbegins
      ([Vm.vm2, .vm1, .vm2, .vm1].map fun vm =>
        .arrive (routePacket vm.addr 1 5))
      (fun session : Session Vm =>
        decide (session.senders =
          [Vm.vm2.addr, Vm.vm1.addr, Vm.vm2.addr, Vm.vm1.addr]) &&
        decide (session.process.ipsToPing = [Vm.vm2.addr]))
      (by decide +kernel)
  simp only [Bool.and_eq_true, decide_eq_true_eq] at htest
  exact ⟨session, hreach, htest.1, htest.2, (pingList_invariant hreach).1⟩

theorem numberedAddr_fits (k : ℕ) :
    [UInt8.ofNat (k % 255 + 1)].length < 16 := by
  rw [List.length_singleton]
  decide

def numberedAddr (k : ℕ) : AddrText :=
  ⟨[UInt8.ofNat (k % 255 + 1)], numberedIp_nonzero k, numberedAddr_fits k⟩

/-- The hosts of `vmSite` with a loop which stops behind the element of
`ips_to_ping`. -/
def shortSite : Site Vm Vm :=
  { vmSite with beyondPing := fun _ _ => false }

/-- The first packet a host gets is its own, and its address is listed; a
second sender is not found behind the element of the array and is listed
again; and the 21st sender is written behind all texts. -/
theorem pingList_broken :
    (∃ session : Session Vm,
      Transition.Reachable (Session.step vmSite) Transition.Unrestricted
        vmSite.Begins session ∧
      session.senders = [session.process.srcIp] ∧
      session.process.ipsToPing = [session.process.srcIp]) ∧
    (∃ session : Session Vm,
      Transition.Reachable (Session.step shortSite) Transition.Unrestricted
        shortSite.Begins session ∧
      session.senders = [Vm.vm2.addr, Vm.vm3.addr, Vm.vm3.addr] ∧
      session.process.ipsToPing =
        [Vm.vm2.addr, Vm.vm3.addr, Vm.vm3.addr]) ∧
    ∃ session : Session Vm,
      Transition.Reachable (Session.step vmSite) Transition.Unrestricted
        vmSite.Begins session ∧
      session.senders = (List.range 21).map numberedAddr ∧
      session.spilled = true := by
  have hbegins : vmSite.Begins (vmSite.begin .vm1 0 []) :=
    ⟨.vm1, 0, [], rfl⟩
  refine ⟨?_, ?_, ?_⟩
  · obtain ⟨session, hreach, htest⟩ :=
      Transition.exists_reachable_of_replay (Session.step vmSite)
        Transition.Unrestricted hbegins
        [.arrive (routePacket Vm.vm1.addr 1 5)]
        (fun session : Session Vm =>
          decide (session.senders = [session.process.srcIp]) &&
          decide (session.process.ipsToPing = [session.process.srcIp]))
        (by decide +kernel)
    simp only [Bool.and_eq_true, decide_eq_true_eq] at htest
    exact ⟨session, hreach, htest.1, htest.2⟩
  · have hshort : shortSite.Begins (shortSite.begin .vm1 0 []) :=
      ⟨.vm1, 0, [], rfl⟩
    obtain ⟨session, hreach, htest⟩ :=
      Transition.exists_reachable_of_replay (Session.step shortSite)
        Transition.Unrestricted hshort
        ([Vm.vm2, .vm3, .vm3].map fun vm =>
          .arrive (routePacket vm.addr 1 5))
        (fun session : Session Vm =>
          decide (session.senders =
            [Vm.vm2.addr, Vm.vm3.addr, Vm.vm3.addr]) &&
          decide (session.process.ipsToPing =
            [Vm.vm2.addr, Vm.vm3.addr, Vm.vm3.addr]))
        (by decide +kernel)
    simp only [Bool.and_eq_true, decide_eq_true_eq] at htest
    exact ⟨session, hreach, htest.1, htest.2⟩
  · obtain ⟨session, hreach, htest⟩ :=
      Transition.exists_reachable_of_replay (Session.step vmSite)
        Transition.Unrestricted hbegins
        ((List.range 21).map fun k =>
          .arrive (routePacket (numberedAddr k) 1 5))
        (fun session : Session Vm =>
          decide (session.senders = (List.range 21).map numberedAddr) &&
          decide (session.spilled = true))
        (by decide +kernel)
    simp only [Bool.and_eq_true, decide_eq_true_eq] at htest
    exact ⟨session, hreach, htest.1, htest.2⟩

/-! ## The indices of `send_rt` -/

def Route.InRange (route : Route) : Prop :=
  0 ≤ route.index ∧ route.index < route.totalSize ∧ route.totalSize ≤ 20

instance Route.decidableInRange (route : Route) :
    Decidable route.InRange :=
  inferInstanceAs (Decidable (_ ∧ _ ∧ _))

theorem Route.InRange.ip?_isSome {route : Route} (hrange : route.InRange) :
    (route.ip? route.index).isSome = true := by
  obtain ⟨hnonneg, hless, hsize⟩ := hrange
  have hroom : 0 ≤ route.index ∧ route.index.toNat < 20 :=
    ⟨hnonneg, by omega⟩
  simp only [Route.ip?, dif_pos hroom, Option.isSome_some]

theorem Route.InRange.advance
    {route : Route} (hrange : route.InRange)
    (hmore : route.advance.index < route.advance.totalSize) :
    route.advance.InRange := by
  obtain ⟨hnonneg, hless, hsize⟩ := hrange
  have hindex : route.index = (route.index.toNat : ℤ) :=
    (Int.toNat_of_nonneg hnonneg).symm
  have hadvanced := Route.advance_index hindex (by omega)
  exact ⟨by omega, hmore, hsize⟩

/-- `send_rt` was called with indices in the range only, and nothing but a
full list of addresses was overrun. -/
structure Session.Confined (session : Session Name) : Prop where
  reads : ∀ route ∈ session.sends, route.InRange
  inside : session.process.overrun = true → session.spilled = true

def Session.Trusted (site : Site Host Name) (_session : Session Name) :
    SessionEvent → Prop
  | .arrive packet =>
      packet.ipId = site.identification → packet.route.InRange
  | .multicast => True

/-- A start with at most `MAX_ROUTE` arguments, the program's name
included. -/
def Site.BeginsShort (site : Site Host Name) (session : Session Name) :
    Prop :=
  ∃ host tour argv, argv.length + 1 ≤ 20 ∧
    session = site.begin host tour argv

section Indices

variable {site : Site Host Name} {session next : Session Name}
variable {event : SessionEvent} {packet : Packet}
variable {process received : Process Name}

theorem Site.forward_inRange
    (hrange : process.routeEl.InRange) :
    (site.forward process).1 = process := by
  obtain ⟨ip, hip⟩ := Option.isSome_iff_exists.mp hrange.ip?_isSome
  simp only [Site.forward, Site.sendRt, hip, Option.map_some]

theorem Process.routeToSend_eq_some
    {noted : Process Name} {route : Route}
    (hsend : noted.routeToSend = some route) :
    route = noted.routeEl ∧
      noted.routeEl.index < noted.routeEl.totalSize := by
  unfold Process.routeToSend at hsend
  split at hsend
  next => contradiction
  next hmore =>
    rw [not_or, not_le] at hmore
    exact ⟨(Option.some.inj hsend).symm, hmore.2⟩

/-- `main` calls `send_rt` exactly with the recorded route. -/
theorem Site.serveRoute_routeToSend :
    (∃ route, (site.addIpToPing received packet.ipSrc).routeToSend =
        some route ∧
      site.serveRoute received packet =
        site.forward (site.addIpToPing received packet.ipSrc)) ∨
    ((site.addIpToPing received packet.ipSrc).routeToSend = none ∧
      (site.serveRoute received packet).1.overrun =
        (site.addIpToPing received packet.ipSrc).overrun ∧
      (site.serveRoute received packet).2 = none) := by
  unfold Site.serveRoute Process.routeToSend
  generalize site.addIpToPing received packet.ipSrc = noted
  by_cases hoverrun : noted.overrun = true
  · right
    simp [hoverrun]
  · by_cases hend : noted.routeEl.totalSize ≤ noted.routeEl.index
    · right
      simp [hoverrun, hend]
    · left
      exact ⟨noted.routeEl, by simp [hoverrun, hend],
        by simp [hoverrun, hend]⟩

theorem Session.serve_confined
    (hconfined : session.Confined)
    (hroute : received.routeEl = packet.route.advance)
    (hrange : packet.route.InRange) :
    (session.serve site received packet).Confined := by
  obtain ⟨ipsToPing, overrun, hnoted⟩ :=
    addIpToPing_eq site received packet.ipSrc
  have hkept : (site.addIpToPing received packet.ipSrc).routeEl =
      packet.route.advance := by
    rw [hnoted]
    exact hroute
  have hsent : ∀ route,
      (site.addIpToPing received packet.ipSrc).routeToSend = some route →
        route = packet.route.advance ∧ route.InRange := by
    intro route hsend
    obtain ⟨hrouteEl, hmore⟩ := Process.routeToSend_eq_some hsend
    rw [hkept] at hrouteEl hmore
    subst hrouteEl
    exact ⟨rfl, hrange.advance hmore⟩
  constructor
  case reads =>
    intro route hmem
    rcases List.mem_append.mp hmem with hold | hnew
    · exact hconfined.reads route hold
    · exact (hsent route (Option.mem_toList.mp hnew)).2
  case inside =>
    intro hoverrun
    rcases @Site.serveRoute_routeToSend Host Name site packet received with
      ⟨route, hsend, hserve⟩ | ⟨_, hserve, _⟩
    · obtain ⟨hadvanced, hinside⟩ := hsent route hsend
      rw [hadvanced, ← hkept] at hinside
      rwa [Session.serve, hserve, Site.forward_inRange hinside] at hoverrun
    · rwa [Session.serve, hserve] at hoverrun

theorem Session.Confined.moves
    (hconfined : session.Confined) (hmoves : session.Moves site next event)
    (htrusted : session.Trusted site event) :
    next.Confined := by
  cases hmoves with
  | ignored hforeign hnext => rwa [hnext]
  | served hown hreceived hrunning hnext =>
      rw [hnext]
      exact Session.serve_confined hconfined (by rw [hreceived])
        (htrusted hown)
  | woken hnext =>
      subst hnext
      exact ⟨hconfined.reads, hconfined.inside⟩

theorem Site.populateRoute_inRange
    (site : Site Host Name) {process : Process Name} {argv : List Name}
    (hzeroed : process.routeEl = Route.zeroed) (hargv : argv ≠ [])
    (hshort : argv.length + 1 ≤ 20) :
    ∃ populated, site.populateRoute process argv = some populated ∧
      populated.routeEl.InRange ∧ populated.overrun = process.overrun := by
  have hfit : 0 + (process.srcVm :: argv).length ≤ 20 := by
    rw [List.length_cons]
    omega
  obtain ⟨filled, hfill, hfills⟩ :=
    site.fillRoute_fills process.routeEl hfit
  have hpos := List.length_pos_iff.mpr hargv
  have hindex : filled.index = ((0 : ℕ) : ℤ) := by
    rw [hfills.index_eq, hzeroed]
    rfl
  refine ⟨{ process with
    routeEl := Route.advance
      { filled with totalSize := (argv.length : ℤ) + 1 } }, ?_, ?_, rfl⟩
  · rw [Site.populateRoute, hfill, Option.map_some]
  · have hadvanced : (Route.advance
        { filled with totalSize := (argv.length : ℤ) + 1 }).index =
          ((0 + 1 : ℕ) : ℤ) :=
      Route.advance_index hindex (by omega)
    have hsize : (Route.advance
        { filled with totalSize := (argv.length : ℤ) + 1 }).totalSize =
          (argv.length : ℤ) + 1 := rfl
    simp only [Route.InRange, hadvanced, hsize]
    omega

theorem Site.begin_confined
    (site : Site Host Name) (host : Host) (tour : ℕ) {argv : List Name}
    (hshort : argv.length + 1 ≤ 20) :
    (site.begin host tour argv).Confined := by
  by_cases hargv : argv = []
  · rw [Site.begin, if_pos hargv]
    constructor
    · intro route hroute
      cases hroute
    · intro hoverrun
      cases hoverrun
  · have hzeroed : ({ site.boot host with tour := tour } :
        Process Name).routeEl = Route.zeroed := rfl
    obtain ⟨populated, hpopulate, hrange, hkept⟩ :=
      site.populateRoute_inRange hzeroed hargv hshort
    rw [Site.begin, if_neg hargv]
    constructor
    · intro route hroute
      rw [hpopulate, Option.map_some, Option.toList_some,
        List.mem_singleton] at hroute
      rwa [hroute]
    · intro hoverrun
      simp only [Site.launch, hpopulate, Site.forward_inRange hrange,
        hkept] at hoverrun
      cases hoverrun

theorem Site.begin_confined_iff
    (site : Site Host Name) (host : Host) (tour : ℕ) (argv : List Name) :
    (site.begin host tour argv).Confined ↔ argv.length + 1 ≤ 20 := by
  refine ⟨?_, fun hshort => site.begin_confined host tour hshort⟩
  intro hconfined
  by_cases hargv : argv = []
  · simp [hargv]
  · rw [Site.begin, if_neg hargv] at hconfined
    -- either a write left the array, or `total_size` is what `argc` was
    cases hpopulate :
        site.populateRoute { site.boot host with tour := tour } argv with
    | none =>
        have hspilled := hconfined.inside
        simp [Site.launch, hpopulate] at hspilled
    | some populated =>
        have hrange := hconfined.reads populated.routeEl (by simp [hpopulate])
        obtain ⟨filled, _, rfl⟩ := Option.map_eq_some_iff.mp hpopulate
        have hsize := hrange.2.2
        simp only [Route.advance] at hsize
        omega

theorem Session.Confined.arrive_iff
    (hconfined : session.Confined)
    (hown : packet.ipId = site.identification)
    (hmoves : session.Moves site next (.arrive packet)) :
    next.Confined ∧ (¬ packet.route.InRange →
        site.recvRt session.process packet = none) ↔
      packet.route.InRange := by
  constructor
  · rintro ⟨_, hrejected⟩
    by_contra hrange
    have hnone := hrejected hrange
    simp [Site.recvRt, hown] at hnone
  · intro hrange
    exact ⟨hconfined.moves hmoves fun _ => hrange,
      fun hbad => absurd hrange hbad⟩

theorem Site.forward_overrun_iff
    (hinside : process.overrun = false) :
    (site.forward process).1.overrun = true ↔
      ¬ (0 ≤ process.routeEl.index ∧ process.routeEl.index < 20) := by
  unfold Site.forward Site.sendRt Route.ip?
  by_cases hroom : 0 ≤ process.routeEl.index ∧
      process.routeEl.index.toNat < 20
  · have hrange : 0 ≤ process.routeEl.index ∧
        process.routeEl.index < 20 := ⟨hroom.1, by omega⟩
    simp [hinside, hrange]
  · have hrange : ¬ (0 ≤ process.routeEl.index ∧
        process.routeEl.index < 20) :=
      fun hboth => hroom ⟨hboth.1, by omega⟩
    simp only [dif_neg hroom, Option.map_none]
    exact iff_of_true trivial hrange

/-- What happens to a route as it is received, in the range or not: `send_rt`
reads the entry behind the received index if that is below the received size,
and leaves `ip_addr` exactly when there is no such entry. -/
theorem Session.arrive_reads
    (hown : packet.ipId = site.identification)
    (hmoves : session.Moves site next (.arrive packet))
    (hlisted : next.spilled = false) :
    (packet.route.advance.index < packet.route.totalSize →
      next.sends = session.sends ++ [packet.route.advance] ∧
      (next.process.overrun = true ↔
        ¬ (0 ≤ packet.route.advance.index ∧
          packet.route.advance.index < 20))) ∧
    (packet.route.totalSize ≤ packet.route.advance.index →
      next.sends = session.sends ∧ next.process.overrun = false) := by
  cases hmoves with
  | ignored hforeign _ => exact absurd hown hforeign
  | @served _ received _ hreceived _ hnext =>
      subst hnext
      obtain ⟨ipsToPing, overrun, hnoted⟩ :=
        addIpToPing_eq site received packet.ipSrc
      simp only [Session.serve, hnoted] at hlisted
      subst hlisted
      have hroute : received.routeEl = packet.route.advance := by
        rw [hreceived]
      have hsize : packet.route.advance.totalSize =
          packet.route.totalSize := rfl
      constructor
      · intro hmore
        simp only [Session.serve, Site.serveRoute, Process.routeToSend,
          hnoted, hroute, hsize, not_le.mpr hmore, Bool.false_eq_true,
          or_self, if_false, Option.toList_some, true_and]
        exact Site.forward_overrun_iff rfl
      · intro hend
        simp [Session.serve, Site.serveRoute, Process.routeToSend, hnoted,
          hroute, hsize, hend]

end Indices

/-- The indices of a route over all runs of a host: a start stays inside
`ip_addr` exactly when there are at most `MAX_ROUTE` arguments.  From such a
start on, and while `recv_rt` takes routes in the range only, every `send_rt`
reads an entry in the range; a route out of the range is never rejected. -/
theorem routeIndices_inRange
    {site : Site Host Name} {session : Session Name}
    (hreach : Transition.Reachable (Session.step site)
      (Session.Trusted site) site.BeginsShort session) :
    session.Confined ∧
    (∀ packet next, packet.ipId = site.identification →
      session.step site (.arrive packet) = some next →
      (next.Confined ∧ (¬ packet.route.InRange →
          site.recvRt session.process packet = none) ↔
        packet.route.InRange)) ∧
    ∀ host tour argv,
      (site.begin host tour argv).Confined ↔ argv.length + 1 ≤ 20 := by
  have hconfined := hreach.invariant Session.Confined
    (by
      rintro start ⟨host, tour, argv, hshort, rfl⟩
      exact site.begin_confined host tour hshort)
    (by
      intro state event next hstate htrusted hstep
      exact hstate.moves (Session.step_moves hstep) htrusted)
  refine ⟨hconfined, ?_, site.begin_confined_iff⟩
  intro packet next hown hstep
  exact hconfined.arrive_iff hown (Session.step_moves hstep)

instance Session.decidableTrusted
    (site : Site Host Name) (session : Session Name)
    (event : SessionEvent) : Decidable (session.Trusted site event) :=
  match event with
  | .arrive _ => inferInstanceAs (Decidable (_ → _))
  | .multicast => inferInstanceAs (Decidable True)

theorem routeIndices_inRange_lastHost :
    ∃ session : Session Vm,
      Transition.Reachable (Session.step vmSite)
        (Session.Trusted vmSite) vmSite.BeginsShort session ∧
      session.sends.map (fun route => (route.index, route.totalSize)) =
        [(1, 3), (19, 20)] ∧
      session.process.asleep = true ∧
      ∀ route ∈ session.sends, route.InRange := by
  have hbegins : vmSite.BeginsShort
      (vmSite.begin .vm1 0 [.vm2, .vm3]) :=
    ⟨.vm1, 0, [.vm2, .vm3], by decide, rfl⟩
  obtain ⟨session, hreach, htest⟩ :=
    Transition.exists_reachable_of_replay (Session.step vmSite)
      (Session.Trusted vmSite) hbegins
      [.arrive (routePacket Vm.vm2.addr 18 20),
        .arrive (routePacket Vm.vm2.addr 19 20)]
      (fun session : Session Vm =>
        decide (session.sends.map
          (fun route => (route.index, route.totalSize)) =
            [(1, 3), (19, 20)]) &&
        decide (session.process.asleep = true))
      (by decide +kernel)
  simp only [Bool.and_eq_true, decide_eq_true_eq] at htest
  exact ⟨session, hreach, htest.1, htest.2,
    (routeIndices_inRange hreach).1.reads⟩

/-- A command line with 20 hosts writes behind `ip_addr`; a received route
with a negative index is taken and read in front of it. -/
theorem routeIndices_outOfRange :
    (vmSite.begin .vm1 0 (List.replicate 20 .vm2)).process.overrun = true ∧
    ∃ session : Session Vm,
      Transition.Reachable (Session.step vmSite) Transition.Unrestricted
        vmSite.BeginsShort session ∧
      session.sends.map (fun route => (route.index, route.totalSize)) =
        [(-4, 3)] ∧
      session.process.overrun = true ∧ session.spilled = false := by
  constructor
  · decide +kernel
  · have hbegins : vmSite.BeginsShort (vmSite.begin .vm1 0 []) :=
      ⟨.vm1, 0, [], by decide, rfl⟩
    obtain ⟨session, hreach, htest⟩ :=
      Transition.exists_reachable_of_replay (Session.step vmSite)
        Transition.Unrestricted hbegins
        [.arrive (routePacket Vm.vm2.addr (-5) 3)]
        (fun session : Session Vm =>
          decide (session.sends.map
            (fun route => (route.index, route.totalSize)) = [(-4, 3)]) &&
          decide (session.process.overrun = true) &&
          decide (session.spilled = false))
        (by decide +kernel)
    simp only [Bool.and_eq_true, decide_eq_true_eq] at htest
    obtain ⟨⟨hsends, hoverrun⟩, hspilled⟩ := htest
    exact ⟨session, hreach, hsends, hoverrun, hspilled⟩

end NetworkProgramming.Tour
