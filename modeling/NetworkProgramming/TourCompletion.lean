import NetworkProgramming.TourOrder
import Mathlib.Data.List.Infix

/-!
# Tours come to their end

What is done for a tour is a beginning of its itinerary, whatever happens to
its packet.  When nothing happens to it, the tour is done as a whole: until
its multicast a tour is on its way in a packet or waits in a host which
sleeps, so nothing is left to do only when every tour is complete.

A host keeps the senders it pings in a list with room for 20.  Whether it
finds an address again there is open, but it notes at most one with each
packet, so the list is large enough for a host which takes at most 20.
-/

namespace NetworkProgramming.Tour

variable {Host Name : Type*}

/-! ## Runs without accidents -/

/-- Packets find a process at the address they were sent to, and a process
which sleeps in front of its multicast is not interrupted. -/
def Site.Undisturbed (site : Site Host Name) (tours : Tours Host Name)
    (event : TourEvent Host Name) : Prop :=
  site.Fits tours event ∧
    match event with
    | .deliver position => ∀ packet ∈ tours.flight[position]?,
        ∃ host ∈ site.owner packet.ipDst,
          (tours.process host).isSome = true
    | .lose _ => False
    | .finish host => ∀ process ∈ tours.process host,
        process.asleep = false
    | .start _ _ | .stray _ _ | .multicast _ => True

instance (site : Site Host Name) (tours : Tours Host Name)
    (event : TourEvent Host Name) :
    Decidable (site.Undisturbed tours event) :=
  match event with
  | .start _ _ | .stray _ _ | .multicast _ =>
      inferInstanceAs (Decidable (_ ∧ True))
  | .deliver _ => inferInstanceAs (Decidable (_ ∧ ∀ _ ∈ _, ∃ _ ∈ _, _))
  | .lose _ => inferInstanceAs (Decidable (_ ∧ False))
  | .finish _ => inferInstanceAs (Decidable (_ ∧ ∀ _ ∈ _, _))

/-! ## The list of senders -/

/-- The packets which the host has taken so far. -/
def Tours.visits [DecidableEq Host] (tours : Tours Host Name)
    (host : Host) : ℕ :=
  tours.record.countP fun entry => decide (entry.2 = .visit host)

/-- The process is within its arrays and has noted at most one address with
each packet. -/
structure Process.Within (process : Process Name) (visits : ℕ) :
    Prop where
  inside : process.overrun = false
  noted : process.ipsToPing.length ≤ visits

theorem Process.Within.mono
    {process : Process Name} {visits later : ℕ}
    (hwithin : process.Within visits) (hle : visits ≤ later) :
    process.Within later :=
  ⟨hwithin.inside, hwithin.noted.trans hle⟩

theorem Process.Within.addIpToPing
    {process : Process Name} {visits : ℕ}
    (hwithin : process.Within visits) (hfew : visits < 20)
    (site : Site Host Name) (ip : AddrText) :
    (site.addIpToPing process ip).Within (visits + 1) := by
  have hnoted := hwithin.noted
  unfold Site.addIpToPing
  split
  next => exact hwithin.mono (Nat.le_succ visits)
  next =>
    rw [if_pos (by omega)]
    refine ⟨hwithin.inside, ?_⟩
    rw [List.length_append, List.length_singleton]
    omega

/-! ## What a process sends -/

section Sent

variable {site : Site Host Name}
variable {process after : Process Name} {sent : Option Packet}
variable {argv : List Name}

theorem Site.forward_of_index
    (site : Site Host Name) (process : Process Name) {i : ℕ}
    (hindex : process.routeEl.index = i) (hi : i < 20) :
    ∃ packet, site.forward process = (process, some packet) ∧
      packet.tour = process.tour := by
  have hip := process.routeEl.ip?_natCast hi
  rw [← hindex] at hip
  refine ⟨⟨process.srcIp, process.routeEl.ipAddr ⟨i, hi⟩,
    site.identification, process.routeEl, process.tour⟩, ?_, rfl⟩
  simp only [Site.forward, Site.sendRt, hip, Option.map_some]

theorem Site.boot_within
    (site : Site Host Name) (host : Host) (visits : ℕ) :
    (site.boot host).Within visits :=
  ⟨rfl, Nat.zero_le visits⟩

/-- A process which is started for a tour sends its packet. -/
theorem Site.launch_sends
    (site : Site Host Name) (host : Host) (tour visits : ℕ)
    (hshort : argv.length + 1 ≤ 20) :
    ∃ process packet,
      site.launch host tour argv = (process, some packet) ∧
      packet.tour = tour ∧ process.Within visits := by
  let booted := { site.boot host with tour := tour }
  have hroom : 0 + (booted.srcVm :: argv).length ≤ 20 := by
    simpa using hshort
  obtain ⟨filled, hfill, hfills⟩ :=
    site.fillRoute_fills booted.routeEl hroom
  let populated := { booted with
    routeEl := Route.advance
      { filled with totalSize := (argv.length : ℤ) + 1 } }
  have hpopulate : site.populateRoute booted argv = some populated := by
    simp only [Site.populateRoute, hfill, Option.map_some, populated]
  have hindex : populated.routeEl.index = ((0 + 1 : ℕ) : ℤ) :=
    Route.advance_index hfills.index_eq (by decide)
  obtain ⟨packet, hforward, htour⟩ :=
    site.forward_of_index populated hindex (by decide)
  refine ⟨populated, packet, ?_, htour, rfl, Nat.zero_le visits⟩
  simp only [Site.launch]
  rw [hpopulate]
  exact hforward

/-- The process has taken the packet of a tour, and the tour goes on: in the
process itself, which sleeps, or in the next packet. -/
inductive Process.Serves (tour : ℕ) (after : Process Name)
    (sent : Option Packet) : Prop
  | ends (hasleep : after.asleep = true) (htour : after.tour = tour)
  | passes {packet : Packet} (hsent : sent = some packet)
      (htour : packet.tour = tour)

theorem Site.serveRoute_serves
    {k visits : ℕ} {packet : Packet}
    (hwithin : process.Within visits) (hfew : visits < 20)
    (hbears : site.Bears argv k packet)
    (hroute : process.routeEl = packet.route.advance)
    (htour : process.tour = packet.tour)
    (hserve : site.serveRoute process packet = (after, sent)) :
    after.Within (visits + 1) ∧ after.Serves packet.tour sent := by
  have hnotedWithin := hwithin.addIpToPing hfew site packet.ipSrc
  obtain ⟨ipsToPing, overrun, hnoted⟩ :=
    addIpToPing_eq site process packet.ipSrc
  have hinside := hnotedWithin.inside
  have hindex := hbears.advance_index
  rw [← hroute] at hindex
  have htotal : process.routeEl.totalSize = (argv.length : ℤ) + 1 := by
    rw [hroute]
    exact hbears.totalSize_eq
  have hshort := hbears.short
  unfold Site.serveRoute at hserve
  simp only [hinside, Bool.false_eq_true, if_false] at hserve
  rw [hnoted] at hnotedWithin hserve
  split at hserve
  next =>
    obtain ⟨rfl, rfl⟩ := Prod.mk.inj hserve
    exact ⟨⟨rfl, hnotedWithin.noted⟩, .ends rfl htour⟩
  next hmore =>
    simp only [hindex, htotal, not_le] at hmore
    obtain ⟨out, hforward, hout⟩ :=
      site.forward_of_index { process with
        ipsToPing := ipsToPing, overrun := overrun } hindex (by omega)
    rw [hforward] at hserve
    obtain ⟨rfl, rfl⟩ := Prod.mk.inj hserve
    exact ⟨hnotedWithin, .passes rfl (hout.trans htour)⟩

end Sent

/-! ## The invariant -/

/-- A tour which is not complete is on its way or waits for its multicast. -/
def Tours.Going (site : Site Host Name) (tours : Tours Host Name)
    (tour : ℕ) (argv : List Name) : Prop :=
  (tours.marks tour).length = (site.itinerary argv).length ∨
    (∃ packet ∈ tours.flight, packet.tour = tour) ∨
    ∃ host, tours.Sleeps host tour

structure Tours.Alive [DecidableEq Host] (site : Site Host Name)
    (tours : Tours Host Name) : Prop where
  going : ∀ tour argv, tours.started[tour]? = some argv →
    tours.Going site tour argv
  within : ∀ host process, tours.process host = some process →
    process.Within (tours.visits host)

section Alive

variable {site : Site Host Name} {tours next : Tours Host Name}

theorem Tours.Going.congr
    {tour : ℕ} {argv : List Name} (hgoing : tours.Going site tour argv)
    (hmarks : next.marks tour = tours.marks tour)
    (hflight : ∀ packet ∈ tours.flight, packet.tour = tour →
      packet ∈ next.flight)
    (hsleeps : ∀ host, tours.Sleeps host tour → next.Sleeps host tour) :
    next.Going site tour argv := by
  rcases hgoing with hdone | ⟨packet, hpacket, htour⟩ | ⟨host, hslept⟩
  · rw [← hmarks] at hdone
    exact .inl hdone
  · exact .inr (.inl ⟨packet, hflight packet hpacket htour, htour⟩)
  · exact .inr (.inr ⟨host, hsleeps host hslept⟩)

theorem Tours.Moves.record_grows (hmoves : tours.Moves site next) :
    tours.record <+: next.record := by
  cases hmoves with
  | idle _ _ hrecord _ => rw [hrecord]
  | start _ _ _ hrecord _ => rw [hrecord]
  | visit _ _ _ _ _ _ _ hrecord _ =>
      rw [hrecord]
      exact List.prefix_append _ _
  | multicast _ _ _ hrecord _ =>
      rw [hrecord]
      exact List.prefix_append _ _

variable [DecidableEq Host]

theorem Tours.Initial.alive (hinit : tours.Initial) :
    tours.Alive site := by
  subst hinit
  constructor
  case going =>
    intro tour argv hargv
    cases hargv
  case within =>
    intro host process hprocess
    cases hprocess

theorem Tours.visits_le
    (hrecord : tours.record <+: next.record) (host : Host) :
    tours.visits host ≤ next.visits host :=
  hrecord.sublist.countP_le

/-- One process is replaced and the record grows. -/
theorem Tours.Alive.within_update
    (halive : tours.Alive site) (hrecord : tours.record <+: next.record)
    {host : Host} {after : Option (Process Name)}
    (hnext : next.process = Function.update tours.process host after)
    (hafter : ∀ process ∈ after, process.Within (next.visits host)) :
    ∀ other process, next.process other = some process →
      process.Within (next.visits other) := by
  intro other process hprocess
  rw [hnext] at hprocess
  by_cases hother : other = host
  · subst hother
    rw [Function.update_self] at hprocess
    exact hafter process hprocess
  · rw [Function.update_of_ne hother] at hprocess
    exact (halive.within other process hprocess).mono
      (Tours.visits_le hrecord other)

/-- A process which is not asleep can be replaced. -/
theorem Tours.Sleeps.update
    {host other : Host} {tour : ℕ} {after : Option (Process Name)}
    (hsleeps : tours.Sleeps other tour)
    (hawake : ∀ process ∈ tours.process host, process.asleep = false)
    (hnext : next.process = Function.update tours.process host after) :
    next.Sleeps other tour := by
  obtain ⟨process, hprocess, hasleep, htour⟩ := hsleeps
  have hother : other ≠ host := by
    rintro rfl
    rw [hawake process hprocess] at hasleep
    contradiction
  refine ⟨process, ?_, hasleep, htour⟩
  rw [hnext, Function.update_of_ne hother]
  exact hprocess

/-- No tour is touched when a process which is not asleep comes or goes. -/
theorem Tours.Alive.replace
    (halive : tours.Alive site) {host : Host}
    {after : Option (Process Name)}
    (hawake : ∀ process ∈ tours.process host, process.asleep = false)
    (hafter : ∀ process ∈ after, process.Within (tours.visits host)) :
    Tours.Alive site { tours with
      process := Function.update tours.process host after } := by
  constructor
  case going =>
    intro tour argv hargv
    exact (halive.going tour argv hargv).congr rfl
      (fun _ hpacket _ => hpacket)
      fun _ hsleeps => hsleeps.update hawake rfl
  case within =>
    exact halive.within_update (List.prefix_refl _) rfl hafter

theorem Tours.Alive.start
    (halive : tours.Alive site) {host : Host}
    {argv : List Name} (hdown : tours.process host = none)
    (hshort : argv.length + 1 ≤ 20) :
    (tours.start site host argv).Alive site := by
  have hawake : ∀ process ∈ tours.process host,
      process.asleep = false := by
    intro process hprocess
    rw [hdown] at hprocess
    cases hprocess
  unfold Tours.start
  split
  next =>
    refine halive.replace hawake ?_
    rintro _ ⟨⟩
    exact site.boot_within host _
  next =>
    obtain ⟨process, packet, hlaunch, htour, hwithin⟩ :=
      site.launch_sends host tours.started.length (tours.visits host) hshort
    rw [hlaunch]
    constructor
    case going =>
      intro tour argv' hargv'
      by_cases hnew : tour = tours.started.length
      · subst hnew
        exact .inr (.inl ⟨packet,
          List.mem_append_right _ (List.mem_singleton_self _), htour⟩)
      · have hold : tours.started[tour]? = some argv' := by
          rw [← hargv']
          have hlt : tour < tours.started.length := by
            have hbound := (List.getElem?_eq_some_iff.mp hargv').1
            rw [List.length_append, List.length_singleton] at hbound
            omega
          exact (List.getElem?_append_left hlt).symm
        exact (halive.going tour argv' hold).congr rfl
          (fun _ hpacket _ => List.mem_append_left _ hpacket)
          fun _ hsleeps => hsleeps.update hawake rfl
    case within =>
      refine halive.within_update (List.prefix_refl _) rfl ?_
      rintro _ ⟨⟩
      exact hwithin

/-- What a host does with the packet of a tour. -/
theorem Tours.receive_eq
    {position : ℕ} {packet : Packet} {host : Host} {k : ℕ}
    {argv : List Name} (hbears : site.Bears argv k packet)
    (process : Process Name) :
    ∃ after sent,
      site.serveRoute { process with
        routeEl := packet.route.advance
        tour := packet.tour } packet = (after, sent) ∧
      Tours.receive site
          { tours with flight := tours.flight.eraseIdx position } host
          process packet =
        { tours with
          process := Function.update tours.process host (some after)
          flight := tours.flight.eraseIdx position ++ sent.toList
          record := tours.record ++ [(packet.tour, .visit host)] } := by
  cases hserve : site.serveRoute { process with
      routeEl := packet.route.advance
      tour := packet.tour } packet with
  | mk after sent =>
      refine ⟨after, sent, rfl, ?_⟩
      rw [Tours.receive, Site.recvRt,
        if_neg (not_not.mpr hbears.ipId_eq)]
      simp only [hserve]

/-- Packets of other tours stay where they are. -/
theorem mem_eraseIdx_of_tour_ne
    {flight : List Packet} {position : ℕ} {packet other : Packet}
    (hpacket : flight[position]? = some packet) (hother : other ∈ flight)
    (hne : other.tour ≠ packet.tour) :
    other ∈ flight.eraseIdx position := by
  obtain ⟨hlt, hget⟩ := List.getElem?_eq_some_iff.mp hpacket
  have hperm := List.getElem_cons_eraseIdx_perm hlt
  rcases List.mem_cons.mp (hperm.symm.subset hother) with heq | hrest
  · rw [heq, hget] at hne
    contradiction
  · exact hrest

theorem Tours.Alive.receive
    (halive : tours.Alive site) (hordered : tours.Ordered site)
    {position : ℕ} {packet : Packet}
    {host : Host} {process : Process Name}
    (hpacket : tours.flight[position]? = some packet)
    (hprocess : tours.process host = some process)
    (hasleep : process.asleep = false)
    (hnext : next = Tours.receive site
      { tours with flight := tours.flight.eraseIdx position } host process
      packet)
    (hfew : next.visits host ≤ 20) :
    next.Alive site := by
  obtain ⟨argv, hargv, hbears⟩ :=
    hordered.carried packet (List.mem_of_getElem? hpacket)
  have hawake : ∀ found ∈ tours.process host, found.asleep = false := by
    intro found hfound
    rw [hprocess] at hfound
    cases hfound
    exact hasleep
  have hwithin : Process.Within { process with
      routeEl := packet.route.advance
      tour := packet.tour } (tours.visits host) := by
    have hbefore := halive.within host process hprocess
    exact ⟨hbefore.inside, hbefore.noted⟩
  obtain ⟨after, sent, hserve, hreceive⟩ := Tours.receive_eq hbears process
  rw [hreceive] at hnext
  subst hnext
  have hvisits : Tours.visits { tours with
      process := Function.update tours.process host (some after)
      flight := tours.flight.eraseIdx position ++ sent.toList
      record := tours.record ++ [(packet.tour, .visit host)] } host =
        tours.visits host + 1 := by
    simp [Tours.visits]
  rw [hvisits] at hfew
  obtain ⟨hafter, hserves⟩ :=
    Site.serveRoute_serves hwithin hfew hbears rfl rfl hserve
  constructor
  case going =>
    intro tour argv' hargv'
    by_cases hself : tour = packet.tour
    · subst hself
      cases hserves with
      | ends hends htour =>
          refine .inr (.inr ⟨host, after, ?_, hends, htour⟩)
          exact Function.update_self host (some after) tours.process
      | passes hsent htour =>
          subst hsent
          exact .inr (.inl ⟨_, List.mem_append_right _
            (List.mem_singleton_self _), htour⟩)
    · refine (halive.going tour argv' hargv').congr
        (Tours.marks_other rfl hself) ?_
        fun _ hsleeps => hsleeps.update hawake rfl
      intro other hother htour
      exact List.mem_append_left _
        (mem_eraseIdx_of_tour_ne hpacket hother (htour.trans_ne hself))
  case within =>
    refine halive.within_update (List.prefix_append _ _) rfl ?_
    rintro _ ⟨⟩
    rw [hvisits]
    exact hafter

theorem Tours.Alive.deliver
    (halive : tours.Alive site) (hordered : tours.Ordered site)
    {position : ℕ} {packet : Packet}
    (hpacket : tours.flight[position]? = some packet)
    (hup : ∃ host ∈ site.owner packet.ipDst,
      (tours.process host).isSome = true)
    (hdeliver : tours.deliver site position packet = some next)
    (hfew : ∀ host, next.visits host ≤ 20) :
    next.Alive site := by
  obtain ⟨host, howner, hsome⟩ := hup
  obtain ⟨process, hprocess⟩ := Option.isSome_iff_exists.mp hsome
  have howner' : site.owner packet.ipDst = some host := howner
  simp only [Tours.deliver, howner', hprocess,
    Option.ite_none_left_eq_some, Option.some.injEq, not_or,
    Bool.not_eq_true] at hdeliver
  obtain ⟨⟨hasleep, _⟩, hnext⟩ := hdeliver
  exact halive.receive hordered hpacket hprocess hasleep hnext.symm
    (hfew host)

/-- Behind the multicast of its last host a tour is complete. -/
theorem Tours.Alive.multicast
    (halive : tours.Alive site) (hordered : tours.Ordered site)
    {host : Host} {process : Process Name}
    (hprocess : tours.process host = some process)
    (hasleep : process.asleep = true) :
    Tours.Alive site { tours with
      process := Function.update tours.process host
        (some { process with asleep := false })
      record := tours.record ++ [(process.tour, .multicast host)] } := by
  constructor
  case going =>
    intro tour argv hargv
    by_cases hself : tour = process.tour
    · subst hself
      obtain ⟨argv', name, hargv', hlength, hname, _⟩ :=
        hordered.ended host process.tour ⟨process, hprocess, hasleep, rfl⟩
      have hsame : argv' = argv :=
        Option.some.inj (hargv'.symm.trans hargv)
      subst hsame
      left
      rw [Tours.marks_self rfl, List.length_append,
        List.length_singleton, hlength]
      simp [Site.itinerary, hname]
    · refine (halive.going tour argv hargv).congr
        (Tours.marks_other rfl hself) (fun _ hpacket _ => hpacket) ?_
      intro other hsleeps
      obtain ⟨found, hfound, hfoundAsleep, htour⟩ := hsleeps
      have hother : other ≠ host := by
        rintro rfl
        rw [hprocess, Option.some.injEq] at hfound
        subst hfound
        exact hself htour.symm
      refine ⟨found, ?_, hfoundAsleep, htour⟩
      exact (Function.update_of_ne hother _ _).trans hfound
  case within =>
    refine halive.within_update (List.prefix_append _ _) rfl ?_
    rintro _ ⟨⟩
    have hwithin := halive.within host process hprocess
    exact ⟨hwithin.inside, hwithin.noted.trans
      (Tours.visits_le (List.prefix_append _ _) host)⟩

theorem Tours.Alive.step
    (halive : tours.Alive site) (hordered : tours.Ordered site)
    {event : TourEvent Host Name}
    (hallowed : site.Undisturbed tours event)
    (hstep : tours.step site event = some next)
    (hfew : ∀ host, next.visits host ≤ 20) :
    next.Alive site := by
  obtain ⟨hfits, hkept⟩ := hallowed
  cases event with
  | start host argv =>
      cases hprocess : tours.process host with
      | none =>
          simp only [Tours.step, hprocess, Option.some.injEq] at hstep
          subst hstep
          exact halive.start hprocess hfits.1
      | some process =>
          simp only [Tours.step, hprocess] at hstep
          cases hstep
  | deliver position =>
      obtain ⟨packet, hpacket, hdeliver⟩ :=
        Option.bind_eq_some_iff.mp hstep
      exact halive.deliver hordered hpacket (hkept packet hpacket)
        hdeliver hfew
  | stray host packet =>
      obtain ⟨process, _, hstray⟩ := Option.bind_eq_some_iff.mp hstep
      simp only [Option.ite_none_left_eq_some, Option.some.injEq,
        not_or] at hstray
      obtain ⟨⟨hforeign, _⟩, rfl⟩ := hstray
      have hrecv : site.recvRt process packet = none := by
        rw [Site.recvRt, if_pos hforeign]
      simp only [Tours.receive, hrecv]
      exact halive
  | lose position => exact absurd hkept id
  | multicast host =>
      obtain ⟨process, hprocess, hends⟩ :=
        Option.bind_eq_some_iff.mp hstep
      simp only [Option.ite_none_right_eq_some,
        Option.some.injEq] at hends
      obtain ⟨⟨hasleep, _⟩, rfl⟩ := hends
      exact halive.multicast hordered hprocess hasleep
  | finish host =>
      obtain ⟨process, _, rfl⟩ := Option.map_eq_some_iff.mp hstep
      exact halive.replace hkept (by rintro _ ⟨⟩)

/-- The bound on the visits at the end bounds them all along. -/
theorem Tours.alive_of_reachable
    (hreach : Transition.Reachable (Tours.step site) site.Undisturbed
      Tours.Initial tours) :
    tours.Ordered site ∧
      ((∀ host, tours.visits host ≤ 20) → tours.Alive site) := by
  refine hreach.invariant
    (fun state => state.Ordered site ∧
      ((∀ host, state.visits host ≤ 20) → state.Alive site))
    (fun _ hinit => ⟨hinit.ordered, fun _ => hinit.alive⟩) ?_
  rintro state event next ⟨hordered, halive⟩ hallowed hstep
  have hmoves := Tours.step_moves hallowed.1 hstep
  refine ⟨hordered.moves hmoves, fun hfew => ?_⟩
  have hbefore : ∀ host, state.visits host ≤ 20 := fun host =>
    (Tours.visits_le hmoves.record_grows host).trans (hfew host)
  exact (halive hbefore).step hordered hallowed hstep hfew

/-! ## Rest -/

/-- No packet can be taken and no multicast is due. -/
def Tours.AtRest (site : Site Host Name) (tours : Tours Host Name) :
    Prop :=
  (∀ position, tours.step site (.deliver position) = none) ∧
    ∀ host, tours.step site (.multicast host) = none

theorem Tours.Alive.not_sleeps
    (halive : tours.Alive site) (hrest : tours.AtRest site)
    {host : Host} {process : Process Name}
    (hprocess : tours.process host = some process) :
    process.asleep = false := by
  have hinside := (halive.within host process hprocess).inside
  have hnone := hrest.2 host
  by_contra hasleep
  simp [Tours.step, hprocess, hinside, hasleep] at hnone

theorem Tours.Alive.flight_eq_nil
    (halive : tours.Alive site) (hrest : tours.AtRest site) :
    tours.flight = [] := by
  cases hflight : tours.flight with
  | nil => rfl
  | cons packet rest =>
      exfalso
      have hnone := hrest.1 0
      simp only [Tours.step, hflight, List.getElem?_cons_zero,
        Option.bind_some, Tours.deliver] at hnone
      cases howner : site.owner packet.ipDst with
      | none => simp [howner] at hnone
      | some host =>
          cases hprocess : tours.process host with
          | none => simp [howner, hprocess] at hnone
          | some process =>
              have hasleep := halive.not_sleeps hrest hprocess
              have hinside := (halive.within host process hprocess).inside
              simp [howner, hprocess, hasleep, hinside] at hnone

theorem Tours.Alive.complete
    (halive : tours.Alive site) (hordered : tours.Ordered site)
    (hrest : tours.AtRest site) {tour : ℕ} {argv : List Name}
    (hargv : tours.started[tour]? = some argv) :
    (tours.marks tour).map some = site.itinerary argv := by
  have hdone : (tours.marks tour).length =
      (site.itinerary argv).length := by
    rcases halive.going tour argv hargv with
      hdone | ⟨packet, hpacket, _⟩ | ⟨host, process, hprocess, hasleep, _⟩
    · exact hdone
    · rw [halive.flight_eq_nil hrest] at hpacket
      exact absurd hpacket List.not_mem_nil
    · rw [halive.not_sleeps hrest hprocess] at hasleep
      contradiction
  refine (hordered.along tour argv hargv).eq_of_length ?_
  rw [List.length_map]
  exact hdone

end Alive

end NetworkProgramming.Tour
