import NetworkProgramming.ArpLookups

/-!
# The last entry of the ARP cache

The loop of `insert_into_cache` ends at an entry for the IP, at the first
unused entry, or at `NUM_CACHE_ENTRIES`, and the index is used in all three
cases.  Entries are never freed, and every unanswered lookup and every
request addressed to the host may take one.
-/

namespace NetworkProgramming.Arp

open SlotTable

/-- The event wrote to entries of the array only, and to at most one entry
of a full cache. -/
structure Process.StaysInside (process next : Process) : Prop where
  inside : next.overrun = false
  kept : (∀ i, (process.cache i).filled = true) →
    next.cache = process.cache ∨
      ∃ i, ∀ j, j ≠ i → next.cache j = process.cache j

theorem staysInside_iff_hasRoom
    {process next : Process} {event : ArpEvent}
    (hpacked : Packed process.cache)
    (hstep : process.step event = some next) :
    process.StaysInside next ↔ process.HasRoom event := by
  cases step_touches hpacked hstep with
  | stored hroom hstored =>
      have hinside := hstored.overrun.trans (step_running hstep)
      have hstays : process.StaysInside next :=
        ⟨hinside, fun _ => hstored.cache.elsewhere⟩
      exact iff_of_true hstays hroom
  | overran hfull _ hoverrun =>
      apply iff_of_false ?_ hfull
      intro hstays
      have hinside := hstays.inside
      rw [hoverrun] at hinside
      cases hinside

/-- The twenty interfaces of `boot` fit. -/
theorem overrun_boot (protocol : ℕ) (svd : List ServerDetails) :
    (boot protocol svd).overrun = false := by
  have hcard : ((svd.take 20).map ServerDetails.ip).toFinset.card ≤ 20 := by
    have hle := List.toFinset_card_le ((svd.take 20).map ServerDetails.ip)
    rw [List.length_map, List.length_take] at hle
    omega
  have hconfined := confined_boot protocol (hcard.trans (by decide))
    fun sv hsv => List.mem_toFinset.mpr (List.mem_map_of_mem hsv)
  exact hconfined.inside

theorem overrun_of_reachable
    {process : Process}
    (hreach : Transition.Reachable Process.step Process.HasRoom
      Process.Initial process) :
    process.overrun = false := by
  have hinv : process.Sound ∧ process.overrun = false := by
    refine hreach.invariant
      (fun process => process.Sound ∧ process.overrun = false) ?_ ?_
    · intro start hinit
      obtain ⟨protocol, svd, rfl⟩ := hinit
      exact ⟨sound_boot protocol svd, overrun_boot protocol svd⟩
    · intro state event next hstate hroom hstep
      have hpacked := hstate.1.packed
      have hstays := (staysInside_iff_hasRoom hpacked hstep).mpr hroom
      exact ⟨hstate.1.effect (step_effect hpacked hstep), hstays.inside⟩
  exact hinv.2

/-! ## A full cache -/

/-- The entry of the host, and those of the clients which wait. -/
def crowdedEntry : ℕ → ArpCacheDetails
  | 0 => ⟨hostInterface.ip, hostInterface.mac, hostInterface.index, noFd,
      true⟩
  | k + 1 => ⟨numberedIp k, zeroMac, 0, k + 5, true⟩

theorem filled_crowdedEntry (k : ℕ) :
    KeyedSlot.filled (crowdedEntry k) = true := by
  cases k with
  | zero => rfl
  | succ k => rfl

theorem crowdedEntry_ip_ne {k : ℕ} (hk : k < 255) :
    ∀ i < k + 1, KeyedSlot.key (crowdedEntry i) ≠ numberedIp k := by
  intro i hi hsame
  cases i with
  | zero =>
      have hlength := congrArg (fun ip : IpText => ip.bytes.length) hsame
      cases hlength
  | succ i =>
      have := numberedIp_inj (by omega) hk hsame
      omega

theorem cache_boot_crowded :
    (boot 7 [hostInterface]).cache = filledUpTo crowdedEntry 1 := by
  funext i
  revert i
  decide +kernel

/-- A lookup of an IP without an entry takes the unused entry at which the
loops stop. -/
theorem serveClient_unused
    {process : Process} {ip : IpText} {i : Fin 40}
    (hscan : scan process.cache ip = some i)
    (hfree : (process.cache i).filled = false) (connfd : ℤ) :
    (process.serveClient connfd ip).cache =
        Function.update process.cache i ⟨ip, zeroMac, 0, connfd, true⟩ ∧
      (process.serveClient connfd ip).connections =
        ⟨connfd, ip⟩ :: process.connections := by
  have hscan' : scan (process.accept connfd ip).cache ip = some i := hscan
  have hreply : (process.accept connfd ip).sendReply ip connfd = none := by
    have hfree' : ((process.accept connfd ip).cache i).filled = false :=
      hfree
    simp [Process.sendReply, hscan', hfree']
  simp only [Process.serveClient, hreply, Option.getD_none, Process.sendReq,
    Process.insertIntoCache, hscan', Option.map_some, Process.orOverrun,
    Option.getD_some]
  exact ⟨rfl, rfl⟩

theorem fresh_of_lt
    {process : Process} {connfd : ℤ}
    (hfds : ∀ c ∈ process.connections, c.fd < connfd) :
    connfd ∉ process.connections.map Connection.fd := by
  intro hmem
  obtain ⟨c, hc, hfd⟩ := List.mem_map.mp hmem
  have hlt := hfds c hc
  omega

theorem exists_crowded (count : ℕ) (hcount : count ≤ 39) :
    ∃ process, Transition.Reachable Process.step Process.HasRoom
        Process.Initial process ∧
      process.cache = filledUpTo crowdedEntry (count + 1) ∧
      ∀ c ∈ process.connections, c.fd < count + 5 := by
  induction count with
  | zero =>
      refine ⟨boot 7 [hostInterface], .start (boot_initial 7 _),
        cache_boot_crowded, ?_⟩
      rw [(boot_untouched 7 _).2]
      exact fun c hc => absurd hc List.not_mem_nil
  | succ count ih =>
      obtain ⟨process, hreach, hcache, hfds⟩ := ih (by omega)
      have hslot : count + 1 < 40 := by omega
      have hscan : scan process.cache (numberedIp count) =
          some ⟨count + 1, hslot⟩ := by
        rw [hcache]
        exact scan_filledUpTo filled_crowdedEntry hslot
          (crowdedEntry_ip_ne (by omega))
      have hfree : (process.cache ⟨count + 1, hslot⟩).filled = false := by
        rw [hcache]
        simp [filledUpTo, KeyedSlot.empty, unusedEntry]
      have hroom : process.HasRoom
          (.client (count + 5) (numberedIp count)) := by
        rw [Process.HasRoom, roomFor_iff_scan, hscan]
        rfl
      have hstep := step_client (overrun_of_reachable hreach) (by omega)
        (fresh_of_lt hfds) (numberedIp count)
      obtain ⟨hnext, hconns⟩ := serveClient_unused hscan hfree (count + 5)
      -- the descriptors stay below the one the next client gets
      refine ⟨_, hreach.tail hroom hstep, ?_, ?_⟩
      · rw [hnext, hcache]
        exact update_filledUpTo hslot
      · rw [hconns]
        intro c hc
        rw [List.mem_cons] at hc
        push_cast
        cases hc with
        | inl hnew =>
            have hfd : c.fd = count + 5 := congrArg Connection.fd hnew
            omega
        | inr hold =>
            have hlt := hfds c hold
            omega

theorem crowded_used {process : Process}
    (hcache : process.cache = filledUpTo crowdedEntry 40) (i : Fin 40) :
    process.cache i = crowdedEntry i := by
  rw [hcache]
  simp [filledUpTo]

/-! ## The bound -/

/-- In a run in which every insertion finds an entry for its IP or an unused
one, nothing is written past the end; and in every state of any run an event
stays inside the cache exactly when it finds such an entry. -/
theorem arpCache_inBounds
    {process : Process}
    (hreach : Transition.Reachable Process.step Process.HasRoom
      Process.Initial process) :
    process.overrun = false ∧
    ∀ (state next : Process) (event : ArpEvent),
      Transition.Reachable Process.step Transition.Unrestricted
        Process.Initial state →
      state.step event = some next →
      (state.StaysInside next ↔ state.HasRoom event) := by
  refine ⟨overrun_of_reachable hreach, ?_⟩
  intro state next event hstate hstep
  exact staysInside_iff_hasRoom (sound_of_reachable hstate).packed hstep

/-- Thirty-nine lookups fill the cache, and one more of the last IP stays
inside. -/
theorem arpCache_inBounds_full :
    ∃ process next, Transition.Reachable Process.step Process.HasRoom
        Process.Initial process ∧
      (∀ i, (process.cache i).filled = true) ∧
      process.overrun = false ∧
      process.step (.client 44 (numberedIp 38)) = some next ∧
      process.StaysInside next := by
  obtain ⟨process, hreach, hcache, hfds⟩ := exists_crowded 39 le_rfl
  obtain ⟨hinside, hiff⟩ := arpCache_inBounds hreach
  have hused := crowded_used hcache
  have hstep := step_client hinside (by decide) (fresh_of_lt hfds)
    (numberedIp 38)
  refine ⟨process, _, hreach, ?_, hinside, hstep, ?_⟩
  · intro i
    rw [hused]
    exact filled_crowdedEntry i
  · rw [hiff process _ _ (hreach.mono fun _ _ _ => trivial) hstep]
    refine ⟨39, .inr ?_⟩
    rw [hused]
    rfl

/-- After the lookups of thirty-nine IPs the cache is full, and the lookup
of one more is written past the end. -/
theorem arpCache_pastEnd :
    ∃ process next, Transition.Reachable Process.step
        Transition.Unrestricted Process.Initial process ∧
      process.overrun = false ∧
      process.step (.client 44 (numberedIp 39)) = some next ∧
      ¬ process.StaysInside next ∧ next.overrun = true := by
  obtain ⟨process, hreach, hcache, hfds⟩ := exists_crowded 39 le_rfl
  have hinside := overrun_of_reachable hreach
  have hstep := step_client hinside (by decide) (fresh_of_lt hfds)
    (numberedIp 39)
  have hfull : ¬ process.RoomFor (numberedIp 39) := by
    apply not_roomFor_of_scan
    refine scan_eq_none_iff.mpr fun i => ?_
    rw [crowded_used hcache]
    exact ⟨filled_crowdedEntry i, crowdedEntry_ip_ne (by omega) i i.isLt⟩
  have hany : Transition.Reachable Process.step Transition.Unrestricted
      Process.Initial process := hreach.mono fun _ _ _ => trivial
  have hpacked := (sound_of_reachable hany).packed
  cases step_touches hpacked hstep with
  | stored hroom _ => exact absurd hroom hfull
  | overran _ _ hoverrun =>
      refine ⟨process, _, hany, hinside, hstep, ?_, hoverrun⟩
      intro hstays
      exact hfull ((staysInside_iff_hasRoom hpacked hstep).mp hstays)

end NetworkProgramming.Arp
