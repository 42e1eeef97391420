import NetworkProgramming.Addresses
import Mathlib.Logic.Function.Basic

/-!
# The tour process

One process of `hw4/tour.c`.  The initiator of a tour writes the addresses of
all its hosts into the global `route_el` and sends it to the first of them; a
host which receives a route takes it over as a whole, moves its index on by
one and sends it to the host at the new index, or ends the tour with a
multicast when the route is used up.

An access behind the end of an array sets `overrun`; what the process does
from then on is not modelled.  The exception is `ips_to_ping`, which is
declared without a size and so has one element, while `main` stores
`NUM_IPS_PING` texts from there on: entries behind the first are kept, but
what a comparison with them finds is left open.
-/

namespace NetworkProgramming.Tour

/-- `INET_ADDRSTRLEN` is 16. -/
abbrev AddrText := CString 16

def emptyAddr : AddrText :=
  ⟨[], CString.nonzero_nil, by decide⟩

/-- `route`, with `MAX_ROUTE` = 20. -/
structure Route where
  ipAddr : Fin 20 → AddrText
  index : ℤ
  totalSize : ℤ

def Route.zeroed : Route :=
  ⟨fun _ => emptyAddr, 0, 0⟩

/-- `ip_addr[i]`; `none` is a read outside the array. -/
def Route.ip? (route : Route) (i : ℤ) : Option AddrText :=
  if h : 0 ≤ i ∧ i.toNat < 20 then some (route.ipAddr ⟨i.toNat, h.2⟩)
  else none

def Route.setIp (route : Route) (i : ℕ) (ip : AddrText) : Option Route :=
  if h : i < 20 then
    some { route with ipAddr := Function.update route.ipAddr ⟨i, h⟩ ip }
  else none

/-- `route_el.index += 1` on an `int`. -/
def Route.advance (route : Route) : Route :=
  { route with index := (route.index + 1).bmod (2 ^ 32) }

/-- The packet of `send_rt`.  `tour` is not part of it: it tells which tour
the route was made for. -/
structure Packet where
  ipSrc : AddrText
  ipDst : AddrText
  ipId : ℕ
  route : Route
  tour : ℕ

/-- What the hosts share: their names, the answers of `gethostbyname` (empty
for an unknown name), the host an address belongs to, the number which
`htons(IDENTIFICATION)` is on all of them, and whether `add_ip_to_ping` finds
an address among the entries behind the only element of `ips_to_ping`. -/
structure Site (Host Name : Type*) where
  hostname : Host → Name
  gethostbyname : Name → List AddrText
  owner : AddrText → Option Host
  identification : ℕ
  beyondPing : AddrText → List AddrText → Bool

/-- The globals of one process.  `asleep` is the `sleep(3)` in front of
`send_multicast`, and `tour` tells which tour `route_el` belongs to. -/
structure Process (Name : Type*) where
  srcVm : Name
  srcIp : AddrText
  routeEl : Route
  ipsToPing : List AddrText
  asleep : Bool
  overrun : Bool
  tour : ℕ

variable {Host Name : Type*}

/-- The text which `get_ip_from_host` leaves behind, the last address of the
list; `none` leaves the old text. -/
def Site.getIpFromHost (site : Site Host Name) (name : Name) :
    Option AddrText :=
  (site.gethostbyname name).getLast?

/-- The host a name stands for. -/
def Site.hostNamed (site : Site Host Name) (name : Name) : Option Host :=
  (site.getIpFromHost name).bind site.owner

/-- `main` up to `populate_route`. -/
def Site.boot (site : Site Host Name) (host : Host) : Process Name where
  srcVm := site.hostname host
  srcIp := (site.getIpFromHost (site.hostname host)).getD emptyAddr
  routeEl := Route.zeroed
  ipsToPing := []
  asleep := false
  overrun := false
  tour := 0

/-! ## The functions of the process -/

/-- The writes to `ip_addr` from an index on. -/
def Site.fillRoute (site : Site Host Name) :
    ℕ → List Name → Route → Option Route
  | _, [], route => some route
  | i, name :: rest, route =>
      match site.getIpFromHost name with
      | none => site.fillRoute (i + 1) rest route
      | some ip => (route.setIp i ip).bind (site.fillRoute (i + 1) rest)

/-- `send_rt` up to `Sendto`. -/
def Site.sendRt (site : Site Host Name) (process : Process Name) :
    Option Packet :=
  (process.routeEl.ip? process.routeEl.index).map fun destIp =>
    ⟨process.srcIp, destIp, site.identification, process.routeEl,
      process.tour⟩

/-- `send_rt`: the process afterwards and what it sent. -/
def Site.forward (site : Site Host Name) (process : Process Name) :
    Process Name × Option Packet :=
  match site.sendRt process with
  | some packet => (process, some packet)
  | none => ({ process with overrun := true }, none)

/-- `populate_route` without its call of `send_rt`; `argv` starts behind the
name of the program. -/
def Site.populateRoute (site : Site Host Name) (process : Process Name)
    (argv : List Name) : Option (Process Name) :=
  (site.fillRoute 0 (process.srcVm :: argv) process.routeEl).map
    fun route => { process with
      routeEl := Route.advance
        { route with totalSize := (argv.length : ℤ) + 1 } }

/-- A process which is started for a tour. -/
def Site.launch (site : Site Host Name) (host : Host) (tour : ℕ)
    (argv : List Name) : Process Name × Option Packet :=
  let booted := { site.boot host with tour := tour }
  match site.populateRoute booted argv with
  | some populated => site.forward populated
  | none => ({ booted with overrun := true }, none)

/-- `recv_rt`; `none` is the answer -1. -/
def Site.recvRt (site : Site Host Name) (process : Process Name)
    (packet : Packet) : Option (Process Name) :=
  if packet.ipId ≠ site.identification then none
  else some { process with
    routeEl := packet.route.advance
    tour := packet.tour }

/-- The loop of `add_ip_to_ping`: the host's own address is looked for only
while there are entries to compare with, and behind the first of them `beyond`
tells what is found. -/
def pingKnown (beyond : AddrText → List AddrText → Bool)
    (srcIp destPingIp : AddrText) : List AddrText → Bool
  | [] => false
  | ip :: rest =>
      decide (destPingIp = ip) || decide (srcIp = destPingIp) ||
        (!rest.isEmpty && beyond destPingIp rest)

/-- `NUM_IPS_PING` is 20. -/
def Site.addIpToPing (site : Site Host Name) (process : Process Name)
    (destPingIp : AddrText) : Process Name :=
  if pingKnown site.beyondPing process.srcIp destPingIp
      process.ipsToPing then process
  else if process.ipsToPing.length < 20 then
    { process with ipsToPing := process.ipsToPing ++ [destPingIp] }
  else { process with overrun := true }

/-- What `main` does when `recv_rt` took a packet: note its sender, then end
the tour or pass the route on. -/
def Site.serveRoute (site : Site Host Name) (process : Process Name)
    (packet : Packet) : Process Name × Option Packet :=
  let noted := site.addIpToPing process packet.ipSrc
  if noted.overrun then (noted, none)
  else if noted.routeEl.totalSize ≤ noted.routeEl.index then
    ({ noted with asleep := true }, none)
  else site.forward noted

/-! ## Routes -/

theorem Route.ip?_natCast (route : Route) {i : ℕ} (hi : i < 20) :
    route.ip? i = some (route.ipAddr ⟨i, hi⟩) := by
  simp [Route.ip?, hi]

theorem Route.setIp_spec
    (route : Route) {i : ℕ} (hi : i < 20) (ip : AddrText) :
    ∃ written, route.setIp i ip = some written ∧
      written.index = route.index ∧
      written.ip? i = some ip ∧
      ∀ j : ℕ, j < i → written.ip? j = route.ip? j := by
  refine ⟨{ route with
    ipAddr := Function.update route.ipAddr ⟨i, hi⟩ ip },
    by simp [Route.setIp, hi], rfl, ?_, ?_⟩
  · rw [Route.ip?_natCast _ hi]
    simp
  · intro j hj
    have hroom : j < 20 := by omega
    have hother : (⟨j, hroom⟩ : Fin 20) ≠ ⟨i, hi⟩ := by
      simp only [ne_eq, Fin.mk.injEq]
      omega
    rw [Route.ip?_natCast _ hroom, Route.ip?_natCast _ hroom]
    simp [Function.update_of_ne hother]

theorem Route.advance_index
    {route : Route} {i : ℕ} (hindex : route.index = i) (hi : i < 20) :
    route.advance.index = ((i + 1 : ℕ) : ℤ) := by
  have hmod : ((i : ℤ) + 1).bmod (2 ^ 32) = (i : ℤ) + 1 :=
    Int.bmod_eq_of_le (by omega) (by omega)
  simp only [Route.advance, hindex]
  rw [hmod]
  omega

/-- What the writes of `populate_route` leave in the route: the addresses of
the names, and everything in front of them. -/
structure Site.Fills (site : Site Host Name) (i : ℕ) (names : List Name)
    (route filled : Route) : Prop where
  index_eq : filled.index = route.index
  kept : ∀ j : ℕ, j < i → filled.ip? j = route.ip? j
  written : ∀ (k : ℕ) (name : Name) (ip : AddrText),
    names[k]? = some name → site.getIpFromHost name = some ip →
      filled.ip? ((i + k : ℕ) : ℤ) = some ip

theorem Site.fillRoute_cons
    (site : Site Host Name) {i : ℕ} (hi : i < 20) (name : Name)
    (rest : List Name) (route : Route) :
    ∃ written,
      site.fillRoute i (name :: rest) route =
        site.fillRoute (i + 1) rest written ∧
      written.index = route.index ∧
      (∀ ip, site.getIpFromHost name = some ip →
        written.ip? i = some ip) ∧
      ∀ j : ℕ, j < i → written.ip? j = route.ip? j := by
  cases hip : site.getIpFromHost name with
  | none =>
      refine ⟨route, by simp only [Site.fillRoute, hip], rfl, ?_,
        fun _ _ => rfl⟩
      intro ip hfound
      cases hfound
  | some own =>
      obtain ⟨written, hset, hindex, hself, hkept⟩ :=
        route.setIp_spec hi own
      refine ⟨written, ?_, hindex, ?_, hkept⟩
      · simp only [Site.fillRoute, hip, hset, Option.bind_some]
      · intro ip hfound
        cases hfound
        exact hself

theorem Site.fillRoute_fills
    (site : Site Host Name) {i : ℕ} {names : List Name} (route : Route)
    (hroom : i + names.length ≤ 20) :
    ∃ filled, site.fillRoute i names route = some filled ∧
      site.Fills i names route filled := by
  induction names generalizing i route with
  | nil =>
      refine ⟨route, rfl, rfl, fun _ _ => rfl, ?_⟩
      intro k name ip hname
      simp at hname
  | cons name rest ih =>
      rw [List.length_cons] at hroom
      obtain ⟨written, hcons, hindex, hself, hkept⟩ :=
        site.fillRoute_cons (by omega : i < 20) name rest route
      obtain ⟨filled, hfill, hfills⟩ := ih written (i := i + 1) (by omega)
      refine ⟨filled, hcons.trans hfill, hfills.index_eq.trans hindex, ?_,
        ?_⟩
      · intro j hj
        exact (hfills.kept j (by omega)).trans (hkept j hj)
      · intro k found ip hfound hip
        cases k with
        | zero =>
            cases hfound
            exact (hfills.kept i (by omega)).trans (hself ip hip)
        | succ k =>
            have hlater := hfills.written k found ip hfound hip
            rwa [Nat.add_right_comm, Nat.add_assoc] at hlater

/-! ## What one packet does -/

structure Site.Sends (site : Site Host Name) (process : Process Name)
    (packet : Packet) : Prop where
  tour_eq : packet.tour = process.tour
  route_eq : packet.route = process.routeEl
  ipId_eq : packet.ipId = site.identification
  ipDst_eq : process.routeEl.ip? process.routeEl.index = some packet.ipDst

section Serve

variable {site : Site Host Name} {process after : Process Name}
variable {sent : Option Packet}

theorem Site.forward_cases
    (hforward : site.forward process = (after, sent)) :
    after.asleep = process.asleep ∧
      ∀ packet ∈ sent, site.Sends process packet := by
  unfold Site.forward Site.sendRt at hforward
  cases hip : process.routeEl.ip? process.routeEl.index with
  | none =>
      simp only [hip, Option.map_none, Prod.mk.injEq] at hforward
      obtain ⟨rfl, rfl⟩ := hforward
      exact ⟨rfl, fun packet hpacket => by cases hpacket⟩
  | some destIp =>
      simp only [hip, Option.map_some, Prod.mk.injEq] at hforward
      obtain ⟨rfl, rfl⟩ := hforward
      constructor
      · rfl
      · intro packet hpacket
        cases hpacket
        exact ⟨rfl, rfl, rfl, hip⟩

/-- Noting the sender changes nothing a route is served from. -/
theorem addIpToPing_eq (site : Site Host Name) (process : Process Name)
    (ip : AddrText) :
    ∃ ipsToPing overrun, site.addIpToPing process ip =
      { process with ipsToPing := ipsToPing, overrun := overrun } := by
  unfold Site.addIpToPing
  split
  · exact ⟨_, _, rfl⟩
  · split
    · exact ⟨_, _, rfl⟩
    · exact ⟨_, _, rfl⟩

theorem Site.serveRoute_cases
    {packet : Packet} (hawake : process.asleep = false)
    (hserve : site.serveRoute process packet = (after, sent)) :
    (after.asleep = true → after.tour = process.tour ∧
      process.routeEl.totalSize ≤ process.routeEl.index) ∧
    ∀ next ∈ sent, process.routeEl.index < process.routeEl.totalSize ∧
      site.Sends process next := by
  obtain ⟨ipsToPing, overrun, hnoted⟩ :=
    addIpToPing_eq site process packet.ipSrc
  simp only [Site.serveRoute, hnoted] at hserve
  split at hserve
  next =>
    obtain ⟨rfl, rfl⟩ := Prod.mk.inj hserve
    exact ⟨fun hasleep => by simp [hawake] at hasleep,
      fun next hnext => by cases hnext⟩
  next =>
    split at hserve
    next hend =>
      obtain ⟨rfl, rfl⟩ := Prod.mk.inj hserve
      exact ⟨fun _ => ⟨rfl, hend⟩, fun next hnext => by cases hnext⟩
    next hmore =>
      obtain ⟨hasleep, hsends⟩ := Site.forward_cases hserve
      constructor
      · intro hafter
        rw [hasleep] at hafter
        simp [hawake] at hafter
      · intro next hnext
        have hnext' := hsends next hnext
        exact ⟨not_le.mp hmore, hnext'.tour_eq, hnext'.route_eq,
          hnext'.ipId_eq, hnext'.ipDst_eq⟩

end Serve

end NetworkProgramming.Tour
