import NetworkProgramming.TourProcess
import NetworkProgramming.Transition
import Mathlib.Data.List.Basic
import Mathlib.Data.List.Nodup
import Mathlib.Data.List.Infix

/-!
# Tours visit their hosts in order

Any number of tours are on their way between the hosts of a network.  A host
takes whatever route arrives into its only `route_el`, so routes of different
tours overwrite each other there.  A tour is nevertheless carried by one
packet, or by the host which sleeps in front of the multicast, and the index
of that packet counts the visits: what a tour has done so far is a beginning
of its itinerary.
-/

namespace NetworkProgramming.Tour

variable {Host Name : Type*}

/-! ## The network -/

/-- What is recorded of a tour: `recv_rt` took its packet, or
`send_multicast` was called for it. -/
inductive Mark (Host : Type*) where
  | visit (host : Host)
  | multicast (host : Host)
  deriving DecidableEq

/-- The processes which run, the packets on their way, the host lists of the
tours started so far and the record of all of them, oldest first. -/
structure Tours (Host Name : Type*) where
  process : Host → Option (Process Name)
  flight : List Packet
  started : List (List Name)
  record : List (ℕ × Mark Host)

/-- Nothing runs yet. -/
def Tours.quiet : Tours Host Name :=
  ⟨fun _ => none, [], [], []⟩

def Tours.Initial (tours : Tours Host Name) : Prop :=
  tours = Tours.quiet

theorem Tours.quiet_initial : (Tours.quiet : Tours Host Name).Initial :=
  rfl

def Tours.marks (tours : Tours Host Name) (tour : ℕ) : List (Mark Host) :=
  (tours.record.filter fun entry => decide (entry.1 = tour)).map Prod.snd

inductive TourEvent (Host Name : Type*) where
  | start (host : Host) (argv : List Name)
  | deliver (position : ℕ)
  | stray (host : Host) (packet : Packet)
  | lose (position : ℕ)
  | multicast (host : Host)
  | finish (host : Host)

section Step

variable [DecidableEq Host]

/-- A process is started with a list of hosts, which may be empty. -/
def Tours.start (site : Site Host Name) (tours : Tours Host Name)
    (host : Host) (argv : List Name) : Tours Host Name :=
  if argv = [] then
    { tours with
      process := Function.update tours.process host (some (site.boot host)) }
  else
    let (process, sent) := site.launch host tours.started.length argv
    { tours with
      process := Function.update tours.process host (some process)
      flight := tours.flight ++ sent.toList
      started := tours.started ++ [argv] }

/-- The `rt_sock` branch of `main` at a host. -/
def Tours.receive (site : Site Host Name) (tours : Tours Host Name)
    (host : Host) (process : Process Name) (packet : Packet) :
    Tours Host Name :=
  match site.recvRt process packet with
  | none => tours
  | some received =>
      let (after, sent) := site.serveRoute received packet
      { tours with
        process := Function.update tours.process host (some after)
        flight := tours.flight ++ sent.toList
        record := tours.record ++ [(packet.tour, .visit host)] }

/-- A process which is not in `select` leaves packets in its socket; a packet
for nobody is gone. -/
def Tours.deliver (site : Site Host Name) (tours : Tours Host Name)
    (position : ℕ) (packet : Packet) : Option (Tours Host Name) :=
  let taken := { tours with flight := tours.flight.eraseIdx position }
  match site.owner packet.ipDst with
  | none => some taken
  | some host =>
      match tours.process host with
      | none => some taken
      | some process =>
          if process.asleep ∨ process.overrun then none
          else some (taken.receive site host process packet)

/-- One event.  A stray packet is one of another program with the same
protocol number, and a process finishes when the multicast reaches it or when
it is interrupted. -/
def Tours.step (site : Site Host Name) (tours : Tours Host Name) :
    TourEvent Host Name → Option (Tours Host Name)
  | .start host argv =>
      match tours.process host with
      | none => some (tours.start site host argv)
      | some _ => none
  | .deliver position =>
      (tours.flight[position]?).bind (tours.deliver site position)
  | .stray host packet =>
      (tours.process host).bind fun process =>
        if packet.ipId = site.identification ∨ process.asleep ∨
            process.overrun then none
        else some (tours.receive site host process packet)
  | .lose position =>
      (tours.flight[position]?).map fun _ =>
        { tours with flight := tours.flight.eraseIdx position }
  | .multicast host =>
      (tours.process host).bind fun process =>
        if process.asleep ∧ ¬ process.overrun then
          some { tours with
            process := Function.update tours.process host
              (some { process with asleep := false })
            record := tours.record ++ [(process.tour, .multicast host)] }
        else none
  | .finish host =>
      (tours.process host).map fun _ =>
        { tours with process := Function.update tours.process host none }

end Step

/-- The host lists of a run resolve and fit into a route together with the
initiator. -/
def Site.Fits (site : Site Host Name) (_tours : Tours Host Name) :
    TourEvent Host Name → Prop
  | .start _ argv => argv.length + 1 ≤ 20 ∧
      ∀ name ∈ argv, (site.getIpFromHost name).isSome = true
  | _ => True

instance (site : Site Host Name) (tours : Tours Host Name)
    (event : TourEvent Host Name) : Decidable (site.Fits tours event) :=
  match event with
  | .start _ _ => inferInstanceAs (Decidable (_ ∧ _))
  | .deliver _ | .stray _ _ | .lose _ | .multicast _ | .finish _ =>
      inferInstanceAs (Decidable True)

/-- A visit of each host in turn, then the multicast of the last one. -/
def Site.itinerary (site : Site Host Name) (argv : List Name) :
    List (Option (Mark Host)) :=
  argv.map (fun name => (site.hostNamed name).map .visit) ++
    argv.getLast?.toList.map fun name =>
      (site.hostNamed name).map .multicast

/-! ## The packet of a tour -/

/-- The packet of a tour with the given hosts after `k` visits. -/
structure Site.Bears (site : Site Host Name) (argv : List Name) (k : ℕ)
    (packet : Packet) : Prop where
  ipId_eq : packet.ipId = site.identification
  index_eq : packet.route.index = ((k + 1 : ℕ) : ℤ)
  totalSize_eq : packet.route.totalSize = (argv.length : ℤ) + 1
  short : argv.length < 20
  remaining : k < argv.length
  lists : ∀ (j : ℕ) (name : Name), argv[j]? = some name →
    packet.route.ip? ((j + 1 : ℕ) : ℤ) = site.getIpFromHost name
  ipDst_eq : packet.route.ip? packet.route.index = some packet.ipDst

section Bears

variable {site : Site Host Name} {argv : List Name} {k : ℕ}
variable {packet : Packet}

theorem Site.Bears.host
    (hbears : site.Bears argv k packet) {name : Name}
    (hname : argv[k]? = some name) :
    site.hostNamed name = site.owner packet.ipDst := by
  have hip : site.getIpFromHost name = some packet.ipDst := by
    rw [← hbears.lists k name hname, ← hbears.index_eq]
    exact hbears.ipDst_eq
  simp only [Site.hostNamed, hip, Option.bind_some]

theorem Site.Bears.advance_index
    (hbears : site.Bears argv k packet) :
    packet.route.advance.index = ((k + 2 : ℕ) : ℤ) := by
  have hshort := hbears.short
  have hremaining := hbears.remaining
  exact Route.advance_index hbears.index_eq (by omega)

theorem Site.Bears.last
    (hbears : site.Bears argv k packet)
    (hend : packet.route.advance.totalSize ≤ packet.route.advance.index) :
    k + 1 = argv.length := by
  have htotal : packet.route.advance.totalSize = (argv.length : ℤ) + 1 :=
    hbears.totalSize_eq
  have hremaining := hbears.remaining
  rw [htotal, hbears.advance_index] at hend
  omega

theorem Site.Bears.next
    (hbears : site.Bears argv k packet) {process : Process Name}
    {next : Packet} (hroute : process.routeEl = packet.route.advance)
    (hmore : process.routeEl.index < process.routeEl.totalSize)
    (hsends : site.Sends process next) :
    site.Bears argv (k + 1) next := by
  have hnext : next.route = packet.route.advance :=
    hsends.route_eq.trans hroute
  have htotal : packet.route.advance.totalSize = (argv.length : ℤ) + 1 :=
    hbears.totalSize_eq
  rw [hroute, htotal, hbears.advance_index] at hmore
  constructor
  case ipId_eq => exact hsends.ipId_eq
  case index_eq =>
    rw [hnext]
    exact hbears.advance_index
  case totalSize_eq =>
    rw [hnext]
    exact htotal
  case short => exact hbears.short
  case remaining => omega
  case lists =>
    rw [hnext]
    exact hbears.lists
  case ipDst_eq =>
    rw [hsends.route_eq]
    exact hsends.ipDst_eq

end Bears

theorem Site.bears_of_populateRoute
    {site : Site Host Name} {booted populated : Process Name}
    {argv : List Name} {packet : Packet}
    (hfresh : booted.routeEl = Route.zeroed) (hargv : argv ≠ [])
    (hshort : argv.length + 1 ≤ 20)
    (hresolve : ∀ name ∈ argv, (site.getIpFromHost name).isSome = true)
    (hpopulate : site.populateRoute booted argv = some populated)
    (hsends : site.Sends populated packet) :
    site.Bears argv 0 packet := by
  have hroom : 0 + (booted.srcVm :: argv).length ≤ 20 := by
    simpa using hshort
  obtain ⟨filled, hfill, hfills⟩ :=
    site.fillRoute_fills booted.routeEl hroom
  simp only [Site.populateRoute, hfill, Option.map_some,
    Option.some.injEq] at hpopulate
  have hroute : packet.route = Route.advance
      { filled with totalSize := (argv.length : ℤ) + 1 } := by
    rw [hsends.route_eq, ← hpopulate]
  have hindex : filled.index = ((0 : ℕ) : ℤ) := by
    rw [hfills.index_eq, hfresh]
    rfl
  constructor
  case ipId_eq => exact hsends.ipId_eq
  case index_eq =>
    rw [hroute]
    exact Route.advance_index hindex (by omega)
  case totalSize_eq =>
    rw [hroute]
    rfl
  case short => omega
  case remaining => exact List.length_pos_iff.mpr hargv
  case lists =>
    intro j name hname
    have hmem : name ∈ argv := List.mem_of_getElem? hname
    obtain ⟨ip, hip⟩ := Option.isSome_iff_exists.mp (hresolve name hmem)
    have hwritten := hfills.written (j + 1) name ip hname hip
    rw [Nat.zero_add] at hwritten
    rw [hroute, hip]
    exact hwritten
  case ipDst_eq =>
    rw [hsends.route_eq]
    exact hsends.ipDst_eq

theorem Site.launch_spec
    {site : Site Host Name} {host : Host} {tour : ℕ} {argv : List Name}
    {process : Process Name} {sent : Option Packet} (hargv : argv ≠ [])
    (hshort : argv.length + 1 ≤ 20)
    (hresolve : ∀ name ∈ argv, (site.getIpFromHost name).isSome = true)
    (hlaunch : site.launch host tour argv = (process, sent)) :
    process.asleep = false ∧
      ∀ packet ∈ sent, packet.tour = tour ∧ site.Bears argv 0 packet := by
  simp only [Site.launch] at hlaunch
  split at hlaunch
  next populated hpopulate =>
    obtain ⟨hasleep, hsends⟩ := Site.forward_cases hlaunch
    have hkept : populated.asleep = false ∧ populated.tour = tour := by
      obtain ⟨route, _, rfl⟩ := Option.map_eq_some_iff.mp hpopulate
      exact ⟨rfl, rfl⟩
    constructor
    · exact hasleep.trans hkept.1
    · intro packet hpacket
      have hpacket' := hsends packet hpacket
      exact ⟨hpacket'.tour_eq.trans hkept.2,
        Site.bears_of_populateRoute rfl hargv hshort hresolve hpopulate
          hpacket'⟩
  next =>
    obtain ⟨rfl, rfl⟩ := Prod.mk.inj hlaunch
    exact ⟨rfl, fun packet hpacket => by cases hpacket⟩

/-! ## What one event does -/

def Tours.Sleeps (tours : Tours Host Name) (host : Host) (tour : ℕ) :
    Prop :=
  ∃ process, tours.process host = some process ∧
    process.asleep = true ∧ process.tour = tour

/-- The effect of an event on the packets, the record and the hosts which
sleep. -/
inductive Tours.Moves (site : Site Host Name)
    (tours next : Tours Host Name) : Prop
  | idle (hflight : next.flight.Sublist tours.flight)
      (hstarted : next.started = tours.started)
      (hrecord : next.record = tours.record)
      (hsleeps : ∀ host tour, next.Sleeps host tour →
        tours.Sleeps host tour)
  | start {argv : List Name} {sent : Option Packet}
      (hsent : ∀ packet ∈ sent, packet.tour = tours.started.length ∧
        site.Bears argv 0 packet)
      (hflight : next.flight = tours.flight ++ sent.toList)
      (hstarted : next.started = tours.started ++ [argv])
      (hrecord : next.record = tours.record)
      (hsleeps : ∀ host tour, next.Sleeps host tour →
        tours.Sleeps host tour)
  | visit {packet : Packet} {rest : List Packet} {host : Host}
      {process : Process Name} {sent : Option Packet}
      (hperm : (packet :: rest).Perm tours.flight)
      (howner : site.owner packet.ipDst = some host)
      (htour : process.tour = packet.tour)
      (hroute : process.routeEl = packet.route.advance)
      (hsent : ∀ out ∈ sent,
        process.routeEl.index < process.routeEl.totalSize ∧
          site.Sends process out)
      (hflight : next.flight = rest ++ sent.toList)
      (hstarted : next.started = tours.started)
      (hrecord : next.record =
        tours.record ++ [(packet.tour, .visit host)])
      (hsleeps : ∀ other tour, next.Sleeps other tour →
        tours.Sleeps other tour ∨
          other = host ∧ tour = packet.tour ∧
            process.routeEl.totalSize ≤ process.routeEl.index)
  | multicast {host : Host} {tour : ℕ}
      (hends : tours.Sleeps host tour)
      (hflight : next.flight = tours.flight)
      (hstarted : next.started = tours.started)
      (hrecord : next.record = tours.record ++ [(tour, .multicast host)])
      (hsleeps : ∀ other tour', next.Sleeps other tour' →
        other ≠ host ∧ tours.Sleeps other tour')

section Moves

variable {site : Site Host Name} {tours next : Tours Host Name}

/-- Taking a packet from the network is not yet a visit. -/
theorem Tours.taken_moves (position : ℕ) :
    tours.Moves site
      { tours with flight := tours.flight.eraseIdx position } :=
  .idle (List.eraseIdx_sublist _ _) rfl rfl fun _ _ hsleeps => hsleeps

variable [DecidableEq Host]

theorem Tours.Sleeps.of_update
    {host other : Host} {tour : ℕ} {after : Option (Process Name)}
    (hprocess : next.process = Function.update tours.process host after)
    (hsleeps : next.Sleeps other tour) :
    (other = host ∧ ∃ process, after = some process ∧
      process.asleep = true ∧ process.tour = tour) ∨
    (other ≠ host ∧ tours.Sleeps other tour) := by
  obtain ⟨process, hfound, hasleep, htour⟩ := hsleeps
  rw [hprocess] at hfound
  by_cases hother : other = host
  · subst hother
    rw [Function.update_self] at hfound
    exact .inl ⟨rfl, process, hfound, hasleep, htour⟩
  · rw [Function.update_of_ne hother] at hfound
    exact .inr ⟨hother, process, hfound, hasleep, htour⟩

theorem Tours.Sleeps.of_update_awake
    {host other : Host} {tour : ℕ} {after : Option (Process Name)}
    (hprocess : next.process = Function.update tours.process host after)
    (hawake : ∀ process ∈ after, process.asleep = false)
    (hsleeps : next.Sleeps other tour) :
    other ≠ host ∧ tours.Sleeps other tour := by
  rcases hsleeps.of_update hprocess with
    ⟨_, process, hafter, hasleep, _⟩ | hother
  · rw [hawake process hafter] at hasleep
    contradiction
  · exact hother

theorem Tours.start_moves
    {host : Host} {argv : List Name} (hshort : argv.length + 1 ≤ 20)
    (hresolve : ∀ name ∈ argv, (site.getIpFromHost name).isSome = true) :
    tours.Moves site (tours.start site host argv) := by
  unfold Tours.start
  split
  next =>
    refine .idle (List.Sublist.refl _) rfl rfl ?_
    intro other tour hsleeps
    have hawake : ∀ process ∈ some (site.boot host),
        process.asleep = false := by
      intro process hprocess
      cases hprocess
      rfl
    exact (hsleeps.of_update_awake rfl hawake).2
  next hargv =>
    cases hlaunch : site.launch host tours.started.length argv with
    | mk process sent =>
        obtain ⟨hasleep, hsent⟩ :=
          Site.launch_spec hargv hshort hresolve hlaunch
        refine .start hsent rfl rfl rfl ?_
        intro other tour hsleeps
        have hawake : ∀ launched ∈ some process,
            launched.asleep = false := by
          intro launched hlaunched
          cases hlaunched
          exact hasleep
        exact (hsleeps.of_update_awake rfl hawake).2

theorem Tours.receive_moves
    {position : ℕ} {packet : Packet} {host : Host}
    {process : Process Name}
    (hpacket : tours.flight[position]? = some packet)
    (howner : site.owner packet.ipDst = some host)
    (hawake : process.asleep = false) :
    tours.Moves site (Tours.receive site
      { tours with flight := tours.flight.eraseIdx position } host process
      packet) := by
  unfold Tours.receive
  cases hrecv : site.recvRt process packet with
  | none => exact Tours.taken_moves position
  | some received =>
      have hreceived : received = { process with
          routeEl := packet.route.advance
          tour := packet.tour } := by
        unfold Site.recvRt at hrecv
        split at hrecv
        next => cases hrecv
        next =>
          cases hrecv
          rfl
      have hasleep : received.asleep = false := by
        rw [hreceived]
        exact hawake
      dsimp only
      cases hserve : site.serveRoute received packet with
      | mk after sent =>
          obtain ⟨hend, hsent⟩ := Site.serveRoute_cases hasleep hserve
          have hperm : (packet :: tours.flight.eraseIdx position).Perm
              tours.flight := by
            obtain ⟨hlt, rfl⟩ := List.getElem?_eq_some_iff.mp hpacket
            exact List.getElem_cons_eraseIdx_perm hlt
          have htour : received.tour = packet.tour := by rw [hreceived]
          refine .visit hperm howner htour (by rw [hreceived]) hsent rfl rfl
            rfl ?_
          intro other tour hsleeps
          rcases hsleeps.of_update rfl with
            ⟨hother, found, hfound, hfoundAsleep, hfoundTour⟩ | ⟨_, hkept⟩
          · cases hfound
            have hlast := hend hfoundAsleep
            exact .inr ⟨hother,
              hfoundTour.symm.trans (hlast.1.trans htour), hlast.2⟩
          · exact .inl hkept

theorem Tours.deliver_moves
    {position : ℕ} {packet : Packet}
    (hpacket : tours.flight[position]? = some packet)
    (hdeliver : tours.deliver site position packet = some next) :
    tours.Moves site next := by
  unfold Tours.deliver at hdeliver
  cases howner : site.owner packet.ipDst with
  | none =>
      simp only [howner, Option.some.injEq] at hdeliver
      subst hdeliver
      exact Tours.taken_moves position
  | some host =>
      cases hprocess : tours.process host with
      | none =>
          simp only [howner, hprocess, Option.some.injEq] at hdeliver
          subst hdeliver
          exact Tours.taken_moves position
      | some process =>
          simp only [howner, hprocess, Option.ite_none_left_eq_some,
            Option.some.injEq, not_or, Bool.not_eq_true] at hdeliver
          obtain ⟨⟨hawake, _⟩, rfl⟩ := hdeliver
          exact Tours.receive_moves hpacket howner hawake

theorem Tours.step_moves
    {event : TourEvent Host Name} (hfits : site.Fits tours event)
    (hstep : tours.step site event = some next) :
    tours.Moves site next := by
  cases event with
  | start host argv =>
      cases hprocess : tours.process host with
      | none =>
          simp only [Tours.step, hprocess, Option.some.injEq] at hstep
          subst hstep
          exact Tours.start_moves hfits.1 hfits.2
      | some process =>
          simp only [Tours.step, hprocess] at hstep
          cases hstep
  | deliver position =>
      obtain ⟨packet, hpacket, hdeliver⟩ :=
        Option.bind_eq_some_iff.mp hstep
      exact Tours.deliver_moves hpacket hdeliver
  | stray host packet =>
      obtain ⟨process, _, hstray⟩ := Option.bind_eq_some_iff.mp hstep
      simp only [Option.ite_none_left_eq_some, Option.some.injEq,
        not_or] at hstray
      obtain ⟨⟨hforeign, _⟩, rfl⟩ := hstray
      have hrecv : site.recvRt process packet = none := by
        rw [Site.recvRt, if_pos hforeign]
      simp only [Tours.receive, hrecv]
      exact .idle (List.Sublist.refl _) rfl rfl fun _ _ hsleeps => hsleeps
  | lose position =>
      obtain ⟨packet, _, rfl⟩ := Option.map_eq_some_iff.mp hstep
      exact Tours.taken_moves position
  | multicast host =>
      obtain ⟨process, hprocess, hends⟩ :=
        Option.bind_eq_some_iff.mp hstep
      simp only [Option.ite_none_right_eq_some,
        Option.some.injEq] at hends
      obtain ⟨⟨hasleep, _⟩, rfl⟩ := hends
      refine .multicast ⟨process, hprocess, hasleep, rfl⟩ rfl rfl rfl ?_
      intro other tour hsleeps
      have hawake : ∀ woken ∈ some { process with asleep := false },
          woken.asleep = false := by
        intro woken hwoken
        cases hwoken
        rfl
      exact hsleeps.of_update_awake rfl hawake
  | finish host =>
      obtain ⟨process, _, rfl⟩ := Option.map_eq_some_iff.mp hstep
      refine .idle (List.Sublist.refl _) rfl rfl ?_
      intro other tour hsleeps
      have hgone : ∀ found ∈ (none : Option (Process Name)),
          found.asleep = false := by
        intro found hfound
        cases hfound
      exact (hsleeps.of_update_awake rfl hgone).2

end Moves

/-! ## The record of a tour -/

theorem Tours.marks_of_record_eq
    {tours next : Tours Host Name} (hrecord : next.record = tours.record)
    (tour : ℕ) :
    next.marks tour = tours.marks tour := by
  rw [Tours.marks, Tours.marks, hrecord]

section Marks

variable {tours next : Tours Host Name} {tour : ℕ} {mark : Mark Host}

theorem Tours.marks_self
    (hrecord : next.record = tours.record ++ [(tour, mark)]) :
    next.marks tour = tours.marks tour ++ [mark] := by
  simp [Tours.marks, hrecord]

theorem Tours.marks_other
    (hrecord : next.record = tours.record ++ [(tour, mark)])
    {other : ℕ} (hother : other ≠ tour) :
    next.marks other = tours.marks other := by
  simp [Tours.marks, hrecord, hother.symm]

end Marks

section Itinerary

variable {site : Site Host Name} {argv : List Name} {name : Name}
variable {host : Host}

theorem Site.itinerary_visit
    {k : ℕ} (hname : argv[k]? = some name)
    (hhost : site.hostNamed name = some host) :
    (site.itinerary argv)[k]? = some (some (.visit host)) := by
  obtain ⟨hk, rfl⟩ := List.getElem?_eq_some_iff.mp hname
  simp [Site.itinerary, List.getElem?_append, hk, hhost]

theorem Site.itinerary_multicast
    (hname : argv.getLast? = some name)
    (hhost : site.hostNamed name = some host) :
    (site.itinerary argv)[argv.length]? =
      some (some (.multicast host)) := by
  simp [Site.itinerary, hname, hhost]

theorem Site.along_concat
    {marks : List (Mark Host)} {mark : Mark Host}
    (halong : marks.map some <+: site.itinerary argv)
    (hmark : (site.itinerary argv)[marks.length]? = some (some mark)) :
    (marks ++ [mark]).map some <+: site.itinerary argv := by
  obtain ⟨hlt, hget⟩ := List.getElem?_eq_some_iff.mp hmark
  have hlonger : (marks.map some).length <
      (site.itinerary argv).length := by
    simpa using hlt
  have hconcat := List.concat_get_prefix halong hlonger
  simpa [hget] using hconcat

end Itinerary

/-! ## The invariant -/

/-- The packet is where its tour is. -/
def Tours.Carries (site : Site Host Name) (tours : Tours Host Name)
    (packet : Packet) : Prop :=
  ∃ argv, tours.started[packet.tour]? = some argv ∧
    site.Bears argv (tours.marks packet.tour).length packet

/-- All visits were made, the last one to the host. -/
def Tours.Ends (site : Site Host Name) (tours : Tours Host Name)
    (host : Host) (tour : ℕ) : Prop :=
  ∃ argv name, tours.started[tour]? = some argv ∧
    (tours.marks tour).length = argv.length ∧
    argv.getLast? = some name ∧ site.hostNamed name = some host

structure Tours.Ordered (site : Site Host Name)
    (tours : Tours Host Name) : Prop where
  carried : ∀ packet ∈ tours.flight, tours.Carries site packet
  alone : (tours.flight.map Packet.tour).Nodup
  ended : ∀ host tour, tours.Sleeps host tour → tours.Ends site host tour
  along : ∀ tour argv, tours.started[tour]? = some argv →
    (tours.marks tour).map some <+: site.itinerary argv
  unborn : ∀ tour, tours.started[tour]? = none → tours.marks tour = []

section Ordered

variable {site : Site Host Name} {tours next : Tours Host Name}

theorem Tours.started_of_eq
    (hstarted : next.started = tours.started) (tour : ℕ)
    (argv : List Name) (hargv : tours.started[tour]? = some argv) :
    next.started[tour]? = some argv := by
  rw [hstarted]
  exact hargv

theorem Tours.Carries.congr
    {packet : Packet} (hcarries : tours.Carries site packet)
    (hstarted : ∀ argv, tours.started[packet.tour]? = some argv →
      next.started[packet.tour]? = some argv)
    (hmarks : next.marks packet.tour = tours.marks packet.tour) :
    next.Carries site packet := by
  obtain ⟨argv, hargv, hbears⟩ := hcarries
  rw [← hmarks] at hbears
  exact ⟨argv, hstarted argv hargv, hbears⟩

theorem Tours.Ends.congr
    {host : Host} {tour : ℕ} (hends : tours.Ends site host tour)
    (hstarted : ∀ argv, tours.started[tour]? = some argv →
      next.started[tour]? = some argv)
    (hmarks : next.marks tour = tours.marks tour) :
    next.Ends site host tour := by
  obtain ⟨argv, name, hargv, hlength, hname⟩ := hends
  rw [← hmarks] at hlength
  exact ⟨argv, name, hstarted argv hargv, hlength, hname⟩

/-- A tour on its way has visits left, one in front of its multicast has
none. -/
theorem Tours.Carries.tour_ne
    {packet : Packet} (hcarries : tours.Carries site packet)
    {host : Host} {tour : ℕ} (hends : tours.Ends site host tour) :
    packet.tour ≠ tour := by
  rintro rfl
  obtain ⟨argv, hargv, hbears⟩ := hcarries
  obtain ⟨argv', name, hargv', hlength, _⟩ := hends
  rw [hargv, Option.some.injEq] at hargv'
  subst hargv'
  have hremaining := hbears.remaining
  omega

theorem Tours.Ends.host_unique
    {host other : Host} {tour : ℕ} (hends : tours.Ends site host tour)
    (hother : tours.Ends site other tour) :
    other = host := by
  obtain ⟨argv, name, hargv, _, hname, hhost⟩ := hends
  obtain ⟨argv', name', hargv', _, hname', hhost'⟩ := hother
  rw [hargv, Option.some.injEq] at hargv'
  subst hargv'
  rw [hname, Option.some.injEq] at hname'
  subst hname'
  rw [hhost, Option.some.injEq] at hhost'
  exact hhost'.symm

theorem Tours.Ordered.idle
    (hordered : tours.Ordered site)
    (hflight : next.flight.Sublist tours.flight)
    (hstarted : next.started = tours.started)
    (hrecord : next.record = tours.record)
    (hsleeps : ∀ host tour, next.Sleeps host tour →
      tours.Sleeps host tour) :
    next.Ordered site := by
  have hmarks := Tours.marks_of_record_eq hrecord
  constructor
  case carried =>
    intro packet hpacket
    exact (hordered.carried packet (hflight.subset hpacket)).congr
      (Tours.started_of_eq hstarted _) (hmarks packet.tour)
  case alone =>
    exact (hflight.map Packet.tour).nodup hordered.alone
  case ended =>
    intro host tour hnext
    exact (hordered.ended host tour (hsleeps host tour hnext)).congr
      (Tours.started_of_eq hstarted _) (hmarks tour)
  case along =>
    intro tour argv hargv
    rw [hstarted] at hargv
    rw [hmarks]
    exact hordered.along tour argv hargv
  case unborn =>
    intro tour hnone
    rw [hstarted] at hnone
    rw [hmarks]
    exact hordered.unborn tour hnone

theorem nodup_tours_append
    {rest : List Packet} {sent : Option Packet} {tour : ℕ}
    (hrest : (rest.map Packet.tour).Nodup)
    (hother : tour ∉ rest.map Packet.tour)
    (hsent : ∀ packet ∈ sent, packet.tour = tour) :
    ((rest ++ sent.toList).map Packet.tour).Nodup := by
  cases sent with
  | none => simpa using hrest
  | some packet =>
      have hpacket : packet.tour = tour := hsent packet rfl
      rw [Option.toList_some, List.map_append, List.map_singleton,
        hpacket]
      rw [← List.concat_eq_append]
      exact hrest.concat hother

theorem Tours.Ordered.start
    (hordered : tours.Ordered site) {argv : List Name}
    {sent : Option Packet}
    (hsent : ∀ packet ∈ sent, packet.tour = tours.started.length ∧
      site.Bears argv 0 packet)
    (hflight : next.flight = tours.flight ++ sent.toList)
    (hstarted : next.started = tours.started ++ [argv])
    (hrecord : next.record = tours.record)
    (hsleeps : ∀ host tour, next.Sleeps host tour →
      tours.Sleeps host tour) :
    next.Ordered site := by
  have hmarks := Tours.marks_of_record_eq hrecord
  have hkept : ∀ (tour : ℕ) argv', tours.started[tour]? = some argv' →
      next.started[tour]? = some argv' := by
    intro tour argv' hargv
    have hlt := (List.getElem?_eq_some_iff.mp hargv).1
    rw [hstarted, List.getElem?_append_left hlt]
    exact hargv
  have hnew : tours.marks tours.started.length = [] :=
    hordered.unborn _ (List.getElem?_eq_none le_rfl)
  constructor
  case carried =>
    intro packet hpacket
    rw [hflight, List.mem_append, Option.mem_toList] at hpacket
    cases hpacket with
    | inl hold =>
        exact (hordered.carried packet hold).congr (hkept _) (hmarks _)
    | inr hout =>
        obtain ⟨htour, hbears⟩ := hsent packet hout
        refine ⟨argv, ?_, ?_⟩
        · rw [htour, hstarted, List.getElem?_concat_length]
        · rw [hmarks, htour, hnew]
          exact hbears
  case alone =>
    rw [hflight]
    apply nodup_tours_append hordered.alone _
      fun packet hpacket => (hsent packet hpacket).1
    intro hmem
    obtain ⟨packet, hpacket, htour⟩ := List.mem_map.mp hmem
    obtain ⟨_, hargv, _⟩ := hordered.carried packet hpacket
    rw [htour, List.getElem?_eq_none le_rfl] at hargv
    contradiction
  case ended =>
    intro host tour hnext
    exact (hordered.ended host tour (hsleeps host tour hnext)).congr
      (hkept _) (hmarks tour)
  case along =>
    intro tour argv' hargv
    rw [hmarks]
    cases hold : tours.started[tour]? with
    | none => simp [hordered.unborn tour hold]
    | some argv =>
        rw [hkept tour argv hold, Option.some.injEq] at hargv
        subst hargv
        exact hordered.along tour argv hold
  case unborn =>
    intro tour hnone
    rw [hmarks]
    cases hold : tours.started[tour]? with
    | none => exact hordered.unborn tour hold
    | some argv =>
        rw [hkept tour argv hold] at hnone
        contradiction

/-- One more mark, the next one of the itinerary. -/
theorem Tours.Ordered.concat
    (hordered : tours.Ordered site) {tour : ℕ} {mark : Mark Host}
    {argv : List Name} (hargv : tours.started[tour]? = some argv)
    (hmark : (site.itinerary argv)[(tours.marks tour).length]? =
      some (some mark))
    (hstarted : next.started = tours.started)
    (hrecord : next.record = tours.record ++ [(tour, mark)]) :
    (∀ other argv', next.started[other]? = some argv' →
      (next.marks other).map some <+: site.itinerary argv') ∧
    ∀ other, next.started[other]? = none → next.marks other = [] := by
  rw [hstarted]
  constructor
  · intro other argv' hargv'
    by_cases hother : other = tour
    · subst hother
      rw [hargv, Option.some.injEq] at hargv'
      subst hargv'
      rw [Tours.marks_self hrecord]
      exact Site.along_concat (hordered.along other argv hargv) hmark
    · rw [Tours.marks_other hrecord hother]
      exact hordered.along other argv' hargv'
  · intro other hnone
    have hother : other ≠ tour := by
      rintro rfl
      rw [hargv] at hnone
      contradiction
    rw [Tours.marks_other hrecord hother]
    exact hordered.unborn other hnone

theorem Tours.Ordered.visit
    (hordered : tours.Ordered site) {packet : Packet}
    {rest : List Packet} {host : Host} {process : Process Name}
    {sent : Option Packet} (hperm : (packet :: rest).Perm tours.flight)
    (howner : site.owner packet.ipDst = some host)
    (htour : process.tour = packet.tour)
    (hroute : process.routeEl = packet.route.advance)
    (hsent : ∀ out ∈ sent,
      process.routeEl.index < process.routeEl.totalSize ∧
        site.Sends process out)
    (hflight : next.flight = rest ++ sent.toList)
    (hstarted : next.started = tours.started)
    (hrecord : next.record = tours.record ++ [(packet.tour, .visit host)])
    (hsleeps : ∀ other tour, next.Sleeps other tour →
      tours.Sleeps other tour ∨
        other = host ∧ tour = packet.tour ∧
          process.routeEl.totalSize ≤ process.routeEl.index) :
    next.Ordered site := by
  have hcarries : tours.Carries site packet :=
    hordered.carried packet (hperm.subset List.mem_cons_self)
  have hnodup := (hperm.map Packet.tour).nodup_iff.mpr hordered.alone
  rw [List.map_cons, List.nodup_cons] at hnodup
  obtain ⟨argv, hargv, hbears⟩ := hcarries
  -- the packet is addressed to the next host of its tour
  obtain ⟨name, hname⟩ : ∃ name,
      argv[(tours.marks packet.tour).length]? = some name :=
    ⟨_, List.getElem?_eq_getElem hbears.remaining⟩
  have hhost : site.hostNamed name = some host :=
    (hbears.host hname).trans howner
  obtain ⟨halong, hunborn⟩ := hordered.concat hargv
    (Site.itinerary_visit hname hhost) hstarted hrecord
  have hlength : (next.marks packet.tour).length =
      (tours.marks packet.tour).length + 1 := by
    rw [Tours.marks_self hrecord, List.length_append,
      List.length_singleton]
  constructor
  case carried =>
    intro other hmem
    rw [hflight, List.mem_append, Option.mem_toList] at hmem
    cases hmem with
    | inl hrest =>
        have hother : other.tour ≠ packet.tour := by
          intro hsame
          exact hnodup.1 (List.mem_map.mpr ⟨other, hrest, hsame⟩)
        have hcarried := hordered.carried other
          (hperm.subset (List.mem_cons_of_mem _ hrest))
        exact hcarried.congr (Tours.started_of_eq hstarted _)
          (Tours.marks_other hrecord hother)
    | inr hout =>
        obtain ⟨hmore, hsends⟩ := hsent other hout
        have hsame : other.tour = packet.tour :=
          hsends.tour_eq.trans htour
        refine ⟨argv, ?_, ?_⟩
        · rw [hsame]
          exact Tours.started_of_eq hstarted _ _ hargv
        · rw [hsame, hlength]
          exact hbears.next hroute hmore hsends
  case alone =>
    rw [hflight]
    exact nodup_tours_append hnodup.2 hnodup.1
      fun out hout => (hsent out hout).2.tour_eq.trans htour
  case ended =>
    intro other tour hnext
    rcases hsleeps other tour hnext with hkept | ⟨rfl, rfl, hend⟩
    · have hends := hordered.ended other tour hkept
      -- a tour with a packet on its way has no host asleep for it
      have hother : tour ≠ packet.tour :=
        (Tours.Carries.tour_ne ⟨argv, hargv, hbears⟩ hends).symm
      exact hends.congr (Tours.started_of_eq hstarted _)
        (Tours.marks_other hrecord hother)
    · rw [hroute] at hend
      have hlast := hbears.last hend
      refine ⟨argv, name, Tours.started_of_eq hstarted _ _ hargv,
        hlength.trans hlast, ?_, hhost⟩
      rw [List.getLast?_eq_getElem?, ← hlast, Nat.add_sub_cancel]
      exact hname
  case along => exact halong
  case unborn => exact hunborn

theorem Tours.Ordered.multicast
    (hordered : tours.Ordered site) {host : Host} {tour : ℕ}
    (hends : tours.Sleeps host tour) (hflight : next.flight = tours.flight)
    (hstarted : next.started = tours.started)
    (hrecord : next.record = tours.record ++ [(tour, .multicast host)])
    (hsleeps : ∀ other tour', next.Sleeps other tour' →
      other ≠ host ∧ tours.Sleeps other tour') :
    next.Ordered site := by
  have hlast := hordered.ended host tour hends
  have ⟨argv, name, hargv, hlength, hname, hhost⟩ := hlast
  have hmark : (site.itinerary argv)[(tours.marks tour).length]? =
      some (some (.multicast host)) := by
    rw [hlength]
    exact Site.itinerary_multicast hname hhost
  obtain ⟨halong, hunborn⟩ :=
    hordered.concat hargv hmark hstarted hrecord
  have hkept := Tours.started_of_eq hstarted
  constructor
  case carried =>
    intro packet hpacket
    rw [hflight] at hpacket
    have hcarries := hordered.carried packet hpacket
    have hother : packet.tour ≠ tour := hcarries.tour_ne hlast
    exact hcarries.congr (hkept _) (Tours.marks_other hrecord hother)
  case alone =>
    rw [hflight]
    exact hordered.alone
  case ended =>
    intro other tour' hnext
    obtain ⟨hother, hslept⟩ := hsleeps other tour' hnext
    have hends' := hordered.ended other tour' hslept
    have htour : tour' ≠ tour := by
      rintro rfl
      exact hother (hlast.host_unique hends')
    exact hends'.congr (hkept _) (Tours.marks_other hrecord htour)
  case along => exact halong
  case unborn => exact hunborn

theorem Tours.Ordered.moves
    (hordered : tours.Ordered site) (hmoves : tours.Moves site next) :
    next.Ordered site := by
  cases hmoves with
  | idle hflight hstarted hrecord hsleeps =>
      exact hordered.idle hflight hstarted hrecord hsleeps
  | start hsent hflight hstarted hrecord hsleeps =>
      exact hordered.start hsent hflight hstarted hrecord hsleeps
  | visit hperm howner htour hroute hsent hflight hstarted hrecord
      hsleeps =>
      exact hordered.visit hperm howner htour hroute hsent hflight
        hstarted hrecord hsleeps
  | multicast hends hflight hstarted hrecord hsleeps =>
      exact hordered.multicast hends hflight hstarted hrecord hsleeps

theorem Tours.Initial.ordered (hinit : tours.Initial) :
    tours.Ordered site := by
  subst hinit
  constructor
  case carried => exact fun _ hpacket => absurd hpacket List.not_mem_nil
  case alone => exact List.nodup_nil
  case ended =>
    intro host tour hsleeps
    obtain ⟨process, hprocess, _⟩ := hsleeps
    cases hprocess
  case along =>
    intro tour argv hargv
    cases hargv
  case unborn => exact fun _ _ => rfl

end Ordered

/-! ## Runs -/

/-- Whatever tours there are and however their packets are interleaved, what
was done for a tour is a beginning of its itinerary: the visits of its hosts
in order, and behind the last of them the one multicast, of that host. -/
theorem tour_followsItinerary
    [DecidableEq Host] {site : Site Host Name} {tours : Tours Host Name}
    (hreach : Transition.Reachable (Tours.step site) site.Fits
      Tours.Initial tours)
    {tour : ℕ} {argv : List Name}
    (hargv : tours.started[tour]? = some argv) :
    (tours.marks tour).map some <+: site.itinerary argv := by
  have hordered := hreach.invariant (Tours.Ordered site)
    (fun _ hinit => hinit.ordered)
    (by
      intro state event next hstate hfits hstep
      exact hstate.moves (Tours.step_moves hfits hstep))
  exact hordered.along tour argv hargv

/-- Three hosts, each with one address. -/
inductive Vm where
  | vm1
  | vm2
  | vm3
  deriving DecidableEq

def Vm.digit : Vm → UInt8
  | .vm1 => 49
  | .vm2 => 50
  | .vm3 => 51

theorem Vm.digit_nonzero (vm : Vm) : ∀ b ∈ [vm.digit], b ≠ 0 := by
  cases vm <;> simp [Vm.digit]

theorem Vm.digit_fits (vm : Vm) : [vm.digit].length < 16 := by
  rw [List.length_singleton]
  decide

def Vm.addr (vm : Vm) : AddrText :=
  ⟨[vm.digit], vm.digit_nonzero, vm.digit_fits⟩

def vmSite : Site Vm Vm where
  hostname := id
  gethostbyname := fun vm => [vm.addr]
  owner := fun ip =>
    [Vm.vm1, Vm.vm2, Vm.vm3].find? fun vm => decide (vm.addr = ip)
  identification := 17
  beyondPing := fun ip rest => decide (ip ∈ rest)

/-- Two tours cross at a host to which one of them comes back. -/
theorem tour_followsItinerary_crossing :
    ∃ tours : Tours Vm Vm,
      Transition.Reachable (Tours.step vmSite) vmSite.Fits Tours.Initial
        tours ∧
      tours.started = [[.vm2, .vm3, .vm2], [.vm2, .vm1]] ∧
      tours.marks 0 =
        [.visit .vm2, .visit .vm3, .visit .vm2, .multicast .vm2] ∧
      tours.marks 1 = [.visit .vm2, .visit .vm1, .multicast .vm1] ∧
      (tours.marks 0).map some <+:
        vmSite.itinerary [.vm2, .vm3, .vm2] := by
  obtain ⟨tours, hreach, htest⟩ :=
    Transition.exists_reachable_of_replay (Tours.step vmSite) vmSite.Fits
      Tours.quiet_initial
      [.start .vm2 [], .start .vm1 [.vm2, .vm3, .vm2],
        .start .vm3 [.vm2, .vm1], .deliver 1, .deliver 0, .deliver 0,
        .deliver 0, .deliver 0, .multicast .vm2, .multicast .vm1]
      (fun tours : Tours Vm Vm =>
        decide (tours.started = [[.vm2, .vm3, .vm2], [.vm2, .vm1]]) &&
        decide (tours.marks 0 =
          [.visit .vm2, .visit .vm3, .visit .vm2, .multicast .vm2]) &&
        decide (tours.marks 1 =
          [.visit .vm2, .visit .vm1, .multicast .vm1]))
      (by decide +kernel)
  simp only [Bool.and_eq_true, decide_eq_true_eq] at htest
  obtain ⟨⟨hstarted, hzero⟩, hone⟩ := htest
  exact ⟨tours, hreach, hstarted, hzero, hone,
    tour_followsItinerary hreach (by rw [hstarted]; rfl)⟩

end NetworkProgramming.Tour
