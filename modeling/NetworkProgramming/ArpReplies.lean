import NetworkProgramming.ArpSound

/-!
# Answers of the ARP process to its clients

The same cache entry marks a pending request and holds the resolved address.
`send_reply` does not tell the two apart: a second client which asks for an
IP whose request is still pending is answered with the zeroed address, and
the first client is closed without an answer.  A request from the awaited
host overwrites the waiting descriptor in the same way.  Outside these cases
every answer carries an address learned for the IP the client asked for, and
a waiting client stays until it is answered.
-/

namespace NetworkProgramming.Arp

/-! ## Answers carry learned addresses -/

/-- The eight bytes of `sll_addr` for a hardware address. -/
def addressBytes (mac : Mac) : List UInt8 :=
  mac.toList ++ [0, 0]

/-- The entry for the IP is still the incomplete one made by `send_req`:
nothing was learned for the IP. -/
def Process.Unresolved (process : Process) (ip : IpText) : Prop :=
  (process.entry ip).isSome = true ∧
    ip ∉ process.learned.map Prod.fst

/-- No client asks for an IP whose request is still pending. -/
def AsksResolved (process : Process) : ArpEvent → Prop
  | .client _ ip => ¬ process.Unresolved ip
  | .frame _ => True

def Process.AnswersLearned (process : Process) : Prop :=
  ∀ w ∈ process.written, ∀ ip, w.asked = some ip →
    ∃ mac, (ip, mac) ∈ process.learned ∧
      w.hwaddr.sllAddr = addressBytes mac

theorem Process.AnswersLearned.mono
    {process next : Process} (hanswers : process.AnswersLearned)
    (hwritten : next.written = process.written)
    (hlearned : process.learned ⊆ next.learned) :
    next.AnswersLearned := by
  intro w hw ip hasked
  rw [hwritten] at hw
  obtain ⟨mac, hmac, haddr⟩ := hanswers w hw ip hasked
  exact ⟨mac, hlearned hmac, haddr⟩

/-- The new answer goes to whoever waits at the descriptor. -/
theorem Process.AnswersLearned.reply
    {process next : Process} {ip : IpText} {entry : ArpCacheDetails}
    {fd : ℤ} (hanswers : process.AnswersLearned)
    (hreply : process.Replies next ip entry fd)
    (hasked : process.askedAt fd = none ∨ process.askedAt fd = some ip)
    (hknown : (ip, entry.mac) ∈ process.learned) :
    next.AnswersLearned := by
  intro w hw other hother
  rw [hreply.learned_eq]
  rw [hreply.written, List.mem_cons] at hw
  rcases hw with rfl | hw
  · rcases hasked with hasked | hasked
    · rw [hasked] at hother
      contradiction
    · rw [hasked, Option.some.injEq] at hother
      subst hother
      exact ⟨entry.mac, hknown, rfl⟩
  · exact hanswers w hw other hother

/-- A descriptor taken from an entry belongs to a client which asked for the
IP of the entry, or to no client. -/
theorem Process.Sound.askedAt_waiting
    {process : Process} (hsound : process.Sound)
    {ip : IpText} {entry : ArpCacheDetails}
    (hentry : process.entry ip = some entry) :
    process.askedAt entry.fd = none ∨
      process.askedAt entry.fd = some ip := by
  by_cases hwaits : entry.fd = noFd
  · rw [hwaits]
    exact .inl hsound.askedAt_noFd
  · exact .inr (hsound.askedAt (hsound.waiting ip entry hentry hwaits))

theorem Process.AnswersLearned.effect
    {process next : Process} {event : ArpEvent}
    (hsound : process.Sound) (hanswers : process.AnswersLearned)
    (hallowed : AsksResolved process event)
    (heffect : process.Effect event next) :
    next.AnswersLearned := by
  cases heffect with
  | idle => exact hanswers
  | overrunFrame => exact hanswers
  | overrunClient => exact hanswers
  | @answer connfd ip entry _ hpos hfresh hreply =>
      have haccept := hsound.accept ip hpos hfresh
      have hknown : (ip, entry.mac) ∈ process.learned := by
        rcases hsound.resolved ip entry hreply.found with hin | hout
        · exact hin
        · refine absurd ⟨?_, hout⟩ hallowed
          have hfound : process.entry ip = some entry := hreply.found
          rw [hfound]
          rfl
      have haccepted : (process.accept connfd ip).AnswersLearned :=
        hanswers
      exact haccepted.reply hreply
        (.inr (haccept.askedAt List.mem_cons_self)) hknown
  | request _ _ _ hputs =>
      refine hanswers.mono hputs.written_eq ?_
      exact fun pair hpair => hputs.learned_eq.symm ▸ hpair
  | introduce _ _ _ hputs =>
      refine hanswers.mono hputs.written_eq ?_
      exact fun pair hpair =>
        List.mem_cons_of_mem _ (hputs.learned_eq.symm ▸ hpair)
  | overhear _ hputs =>
      refine hanswers.mono hputs.written_eq ?_
      exact fun pair hpair =>
        List.mem_cons_of_mem _ (hputs.learned_eq.symm ▸ hpair)
  | @resolve frame old updated _ hold hputs hreply =>
      have hupdated := hsound.resolve hold hputs
      have hlearned : (updated.learn frame.senderIp
          frame.senderEth).AnswersLearned :=
        hanswers.mono hputs.written_eq fun pair hpair =>
          List.mem_cons_of_mem _ (hputs.learned_eq.symm ▸ hpair)
      have hasked := hupdated.askedAt_waiting hreply.found
      exact hlearned.reply hreply hasked List.mem_cons_self

instance (process : Process) (ip : IpText) :
    Decidable (process.Unresolved ip) :=
  inferInstanceAs (Decidable (_ ∧ _))

instance (process : Process) (event : ArpEvent) :
    Decidable (AsksResolved process event) :=
  match event with
  | .client _ ip => inferInstanceAs (Decidable (¬ process.Unresolved ip))
  | .frame _ => inferInstanceAs (Decidable True)

/-- Every address written to a client which asked for an IP was learned for
that IP, as long as no client asks for an IP whose request is pending. -/
theorem written_address_learned
    {process : Process}
    (hreach : Transition.Reachable Process.step AsksResolved
      Process.Initial process)
    {w : Write} (hw : w ∈ process.written)
    {ip : IpText} (hasked : w.asked = some ip) :
    ∃ mac, (ip, mac) ∈ process.learned ∧
      w.hwaddr.sllAddr = addressBytes mac := by
  have hboot : ∀ start, Process.Initial start →
      start.Sound ∧ start.AnswersLearned := by
    intro start hinit
    obtain ⟨protocol, svd, rfl⟩ := hinit
    refine ⟨sound_boot protocol svd, ?_⟩
    intro written hwritten
    rw [(boot_untouched _ _).1] at hwritten
    contradiction
  have hinv := hreach.invariant
    (fun state => state.Sound ∧ state.AnswersLearned) hboot
    fun state event next hstate hallowed hstep =>
      have heffect := step_effect hstate.1.packed hstep
      ⟨hstate.1.effect heffect,
        hstate.2.effect hstate.1 hallowed heffect⟩
  exact hinv.2 w hw ip hasked

/-! A host and the address of a second one, for the displayed runs. -/

def hostInterface : ServerDetails :=
  ⟨⟨[49, 48], by simp, by simp⟩, ⟨[0, 12, 41, 1, 1, 1], rfl⟩, 2⟩

def peerIp : IpText :=
  ⟨[49, 49], by simp, by simp⟩

def peerMac : Mac :=
  ⟨[0, 12, 41, 2, 2, 2], rfl⟩

/-- The reply of the second host to the request of the first. -/
def peerReply : ArpReqReply where
  ethDest := hostInterface.mac
  ethSrc := peerMac
  frameType := 0x0806
  hardType := 1
  protType := 7
  hardSize := 6
  protSize := 2
  op := 2
  senderEth := peerMac
  senderIp := peerIp
  targetEth := hostInterface.mac
  targetIp := hostInterface.ip
  identification := identification

/-- One client asks, the reply arrives, and the client is answered. -/
theorem written_address_learned_afterReply :
    ∃ process, Transition.Reachable Process.step AsksResolved
        Process.Initial process ∧
      ∃ w ∈ process.written, w.fd = 5 ∧ w.asked = some peerIp ∧
        ∃ mac, (peerIp, mac) ∈ process.learned ∧
          w.hwaddr.sllAddr = addressBytes mac := by
  obtain ⟨process, hreach, htest⟩ :=
    Transition.exists_reachable_of_replay Process.step AsksResolved
      (boot_initial 7 [hostInterface])
      [.client 5 peerIp, .frame peerReply]
      (fun state => state.written.any fun w =>
        decide (w.fd = 5) && decide (w.asked = some peerIp))
      (by decide +kernel)
  obtain ⟨w, hw, hfound⟩ := List.any_eq_true.mp htest
  simp only [Bool.and_eq_true, decide_eq_true_eq] at hfound
  exact ⟨process, hreach, w, hw, hfound.1, hfound.2,
    written_address_learned hreach hw hfound.2⟩

/-- Two clients ask for the same IP before any reply: the second one is
answered with the zeroed address of the incomplete entry. -/
theorem pendingEntry_written_to_secondClient :
    ∃ process, Transition.Reachable Process.step
        Transition.Unrestricted Process.Initial process ∧
      ∃ w ∈ process.written, w.fd = 6 ∧ w.asked = some peerIp ∧
        w.hwaddr.sllAddr = addressBytes zeroMac ∧
        peerIp ∉ process.learned.map Prod.fst := by
  obtain ⟨process, hreach, htest⟩ :=
    Transition.exists_reachable_of_replay Process.step
      Transition.Unrestricted
      (boot_initial 7 [hostInterface])
      [.client 5 peerIp, .client 6 peerIp]
      (fun state => state.written.any fun w =>
        decide (w.fd = 6) && decide (w.asked = some peerIp) &&
          decide (w.hwaddr.sllAddr = addressBytes zeroMac) &&
          decide (peerIp ∉ state.learned.map Prod.fst))
      (by decide +kernel)
  obtain ⟨w, hw, hfound⟩ := List.any_eq_true.mp htest
  simp only [Bool.and_eq_true, decide_eq_true_eq] at hfound
  exact ⟨process, hreach, w, hw, hfound.1.1.1, hfound.1.1.2, hfound.1.2,
    hfound.2⟩

/-! ## Waiting clients -/

/-- A connection waits in the entry for the IP. -/
def Process.waitsFor (process : Process) (ip : IpText) : Bool :=
  (process.entry ip).any fun entry => decide (entry.fd ≠ noFd)

/-- No client asks for an IP for which another one waits, and the awaited
host sends no request to this host meanwhile. -/
def LeavesWaiting (process : Process) : ArpEvent → Prop
  | .client _ ip => process.waitsFor ip = false
  | .frame frame =>
      frame.identification = identification ∧ frame.op = 1 ∧
        process.srcIp = frame.targetIp →
          process.waitsFor frame.senderIp = false

instance (process : Process) (event : ArpEvent) :
    Decidable (LeavesWaiting process event) :=
  match event with
  | .client _ ip =>
      inferInstanceAs (Decidable (process.waitsFor ip = false))
  | .frame _ => inferInstanceAs (Decidable (_ ∧ _ ∧ _ → _))

def Process.Waits (process : Process) (fd : ℤ) (ip : IpText) : Prop :=
  ∃ entry, process.entry ip = some entry ∧ entry.fd = fd

instance (process : Process) (fd : ℤ) (ip : IpText) :
    Decidable (process.Waits fd ip) :=
  decidable_of_iff
    ((process.entry ip).any (fun entry => decide (entry.fd = fd)) = true)
    (by simp [Process.Waits, Option.any_eq_true])

/-- One of the answers went to the descriptor, whose client asked for the
IP, and carried an address learned for it. -/
def Answered (answers : List Write) (learned : List (IpText × Mac))
    (fd : ℤ) (ip : IpText) : Prop :=
  ∃ w ∈ answers, w.fd = fd ∧ w.asked = some ip ∧
    ∃ mac, (ip, mac) ∈ learned ∧ w.hwaddr.sllAddr = addressBytes mac

theorem waitsFor_of_waits
    {process : Process} {fd : ℤ} {ip : IpText}
    (hwaits : process.Waits fd ip) (hfd : fd ≠ noFd) :
    process.waitsFor ip = true := by
  obtain ⟨entry, hentry, rfl⟩ := hwaits
  simp [Process.waitsFor, hentry, hfd]

theorem Process.Waits.of_entry
    {process next : Process} {fd : ℤ} {ip : IpText}
    (hwaits : process.Waits fd ip)
    (hentry : next.entry ip = process.entry ip) :
    next.Waits fd ip := by
  obtain ⟨entry, hfound, hfd⟩ := hwaits
  exact ⟨entry, hentry.trans hfound, hfd⟩

theorem Process.Waits.resolve
    {process updated : Process} {fd : ℤ} {ip sender : IpText}
    {old : ArpCacheDetails} {mac : Mac}
    (hwaits : process.Waits fd ip)
    (hold : process.entry sender = some old ∨
      process.entry sender = none ∧ old = unusedEntry)
    (hputs : process.Puts updated sender (old.resolve mac)) :
    updated.Waits fd ip := by
  by_cases hsender : ip = sender
  · subst hsender
    obtain ⟨entry, hentry, hfd⟩ := hwaits
    rcases hold with hold | ⟨hnone, _⟩
    · rw [hentry, Option.some.injEq] at hold
      subst hold
      exact ⟨_, hputs.entry_self, hfd⟩
    · rw [hentry] at hnone
      contradiction
  · exact hwaits.of_entry (hputs.entry_of_ne hsender)

theorem Process.Effect.learned_subset
    {process next : Process} {event : ArpEvent}
    (heffect : process.Effect event next) :
    process.learned ⊆ next.learned := by
  intro pair hpair
  cases heffect with
  | idle => exact hpair
  | overrunFrame => exact hpair
  | overrunClient => exact hpair
  | answer _ _ hreply => exact hreply.learned_eq.symm ▸ hpair
  | request _ _ _ hputs => exact hputs.learned_eq.symm ▸ hpair
  | introduce _ _ _ hputs =>
      exact List.mem_cons_of_mem _ (hputs.learned_eq.symm ▸ hpair)
  | overhear _ hputs =>
      exact List.mem_cons_of_mem _ (hputs.learned_eq.symm ▸ hpair)
  | resolve _ hputs hreply =>
      rw [hreply.learned_eq]
      exact List.mem_cons_of_mem _ (hputs.learned_eq.symm ▸ hpair)

theorem Process.Effect.written_append
    {process next : Process} {event : ArpEvent}
    (heffect : process.Effect event next) :
    ∃ answers, next.written = answers ++ process.written := by
  cases heffect with
  | idle => exact ⟨[], rfl⟩
  | overrunFrame => exact ⟨[], rfl⟩
  | overrunClient => exact ⟨[], rfl⟩
  | answer _ _ hreply => exact ⟨[_], hreply.written⟩
  | request _ _ _ hputs => exact ⟨[], hputs.written_eq⟩
  | introduce _ _ _ hputs => exact ⟨[], hputs.written_eq⟩
  | overhear _ hputs => exact ⟨[], hputs.written_eq⟩
  | resolve _ hputs hreply =>
      exact ⟨[_], hreply.written.trans
        (congrArg (List.cons _) hputs.written_eq)⟩

/-- A waiting client still waits after one event, or the event answered
it. -/
theorem Process.Effect.waits
    {process next : Process} {event : ArpEvent}
    (hsound : process.Sound) (hallowed : LeavesWaiting process event)
    (heffect : process.Effect event next)
    {fd : ℤ} {ip : IpText} (hfd : fd ≠ noFd)
    (hwaits : process.Waits fd ip) :
    ∃ answers, next.written = answers ++ process.written ∧
      (next.Waits fd ip ∨ Answered answers next.learned fd ip) := by
  have hbusy := waitsFor_of_waits hwaits hfd
  cases heffect with
  | idle => exact ⟨[], rfl, .inl hwaits⟩
  | overrunFrame => exact ⟨[], rfl, .inl hwaits⟩
  | overrunClient => exact ⟨[], rfl, .inl hwaits⟩
  | @answer connfd asked entry _ _ _ hreply =>
      have hne : ip ≠ asked := by
        rintro rfl
        simp [LeavesWaiting, hbusy] at hallowed
      refine ⟨[_], hreply.written, .inl (hwaits.of_entry ?_)⟩
      rw [hreply.entry_eq, if_neg hne, entry_accept]
  | @request connfd asked inserted _ _ hnone hputs =>
      have hne : ip ≠ asked := by
        rintro rfl
        simp [LeavesWaiting, hbusy] at hallowed
      exact ⟨[], hputs.written_eq,
        .inl (hwaits.of_entry (hputs.entry_of_ne hne))⟩
  | @introduce frame inserted hid hop htarget hputs =>
      have hne : ip ≠ frame.senderIp := by
        rintro rfl
        have hfree := hallowed ⟨hid, hop, htarget⟩
        rw [hbusy] at hfree
        contradiction
      exact ⟨[], hputs.written_eq,
        .inl (hwaits.of_entry (hputs.entry_of_ne hne))⟩
  | overhear hold hputs =>
      exact ⟨[], hputs.written_eq,
        .inl ((hwaits.resolve hold hputs).of_entry rfl)⟩
  | @resolve frame old updated _ hold hputs hreply =>
      have hupdated := hwaits.resolve hold hputs
      have hwritten := hreply.written.trans
        (congrArg (List.cons _) hputs.written_eq)
      by_cases hsender : ip = frame.senderIp
      · subst hsender
        obtain ⟨entry, hentry, hentryFd⟩ := hupdated
        rw [hputs.entry_self, Option.some.injEq] at hentry
        subst hentry
        have hlearn := hsound.resolve hold hputs
        have hopen := hlearn.waiting _ _ hreply.found
          (hentryFd.trans_ne hfd)
        refine ⟨[_], hwritten, .inr ⟨_, List.mem_singleton_self _,
          hentryFd, hlearn.askedAt hopen, frame.senderEth, ?_, rfl⟩⟩
        rw [hreply.learned_eq]
        exact List.mem_cons_self
      · refine ⟨[_], hwritten, .inl (hupdated.of_entry ?_)⟩
        rw [hreply.entry_eq, if_neg hsender, entry_learn]

theorem Answered.mono
    {answers more : List Write} {learned later : List (IpText × Mac)}
    {fd : ℤ} {ip : IpText} (hanswered : Answered answers learned fd ip)
    (hanswers : answers ⊆ more) (hlearned : learned ⊆ later) :
    Answered more later fd ip := by
  obtain ⟨w, hw, hfd, hasked, mac, hmac, haddr⟩ := hanswered
  exact ⟨w, hanswers hw, hfd, hasked, mac, hlearned hmac, haddr⟩

/-- Along every run which leaves waiting clients alone, a client which waits
keeps its place and its open connection until it is answered. -/
theorem waitingClient_stays_until_answered
    {process later : Process}
    (hreach : Transition.Reachable Process.step LeavesWaiting
      Process.Initial process)
    (hrun : Transition.Run Process.step LeavesWaiting process later)
    {fd : ℤ} {ip : IpText} (hfd : fd ≠ noFd)
    (hwaits : process.Waits fd ip) :
    ∃ answers, later.written = answers ++ process.written ∧
      (later.Waits fd ip ∧ ⟨fd, ip⟩ ∈ later.connections ∨
        Answered answers later.learned fd ip) := by
  have hinv := hrun.invariant
    (fun state => state.Sound ∧
      ∃ answers, state.written = answers ++ process.written ∧
        (state.Waits fd ip ∨ Answered answers state.learned fd ip))
    ⟨sound_of_reachable hreach, [], rfl, .inl hwaits⟩
    (by
      intro state event next hstate hallowed hstep
      obtain ⟨hsound, answers, hwritten, hcases⟩ := hstate
      have heffect := step_effect hsound.packed hstep
      refine ⟨hsound.effect heffect, ?_⟩
      rcases hcases with hstill | hdone
      · obtain ⟨fresh, hfresh, hnext⟩ :=
          heffect.waits hsound hallowed hfd hstill
        refine ⟨fresh ++ answers, ?_, ?_⟩
        · rw [hfresh, hwritten, List.append_assoc]
        · exact hnext.imp_right fun hanswered =>
            hanswered.mono (List.subset_append_left _ _)
              fun _ hpair => hpair
      · obtain ⟨fresh, hfresh⟩ := heffect.written_append
        refine ⟨fresh ++ answers, ?_, .inr ?_⟩
        · rw [hfresh, hwritten, List.append_assoc]
        · exact hdone.mono (List.subset_append_right _ _)
            heffect.learned_subset)
  obtain ⟨hsound, answers, hwritten, hcases⟩ := hinv
  refine ⟨answers, hwritten, hcases.imp_left ?_⟩
  intro hstill
  obtain ⟨entry, hentry, hentryFd⟩ := hstill
  have hopen := hsound.waiting ip entry hentry (hentryFd.trans_ne hfd)
  exact ⟨⟨entry, hentry, hentryFd⟩, hentryFd ▸ hopen⟩

/-- A client waits, the reply arrives, and the client was answered. -/
theorem waitingClient_stays_until_reply :
    ∃ process later,
      Transition.Reachable Process.step LeavesWaiting Process.Initial
        process ∧
      Transition.Run Process.step LeavesWaiting process later ∧
      process.Waits 5 peerIp ∧
      ∃ answers, later.written = answers ++ process.written ∧
        (later.Waits 5 peerIp ∧ ⟨5, peerIp⟩ ∈ later.connections ∨
          Answered answers later.learned 5 peerIp) := by
  obtain ⟨process, hreach, htest⟩ :=
    Transition.exists_reachable_of_replay Process.step LeavesWaiting
      (boot_initial 7 [hostInterface]) [.client 5 peerIp]
      (fun state => decide (state.Waits 5 peerIp) &&
        (Transition.replay Process.step LeavesWaiting state
          [.frame peerReply]).isSome)
      (by decide +kernel)
  simp only [Bool.and_eq_true, decide_eq_true_eq] at htest
  obtain ⟨later, hlater⟩ := Option.isSome_iff_exists.mp htest.2
  have hrun := Transition.run_of_replay hlater
  exact ⟨process, later, hreach, hrun, htest.1,
    waitingClient_stays_until_answered hreach hrun (by decide) htest.1⟩

/-- The awaited host asks for the address of this host. -/
def peerRequest : ArpReqReply :=
  { peerReply with
    op := 1
    ethDest := zeroMac
    targetEth := zeroMac }

/-- A second lookup of the awaited IP closes the first connection, and a
request of the awaited host overwrites its descriptor; in both cases nothing
was ever written to the first client. -/
theorem waitingClient_dropped_unanswered :
    (∃ process later,
      Transition.Reachable Process.step Transition.Unrestricted
        Process.Initial process ∧
      process.step (.client 6 peerIp) = some later ∧
      process.Waits 5 peerIp ∧ ¬ later.Waits 5 peerIp ∧
      5 ∉ later.connections.map Connection.fd ∧
      5 ∉ later.written.map Write.fd) ∧
    (∃ process later,
      Transition.Reachable Process.step Transition.Unrestricted
        Process.Initial process ∧
      process.step (.frame peerRequest) = some later ∧
      process.Waits 5 peerIp ∧ ¬ later.Waits 5 peerIp ∧
      5 ∉ later.written.map Write.fd) := by
  constructor
  · obtain ⟨process, hreach, htest⟩ :=
      Transition.exists_reachable_of_replay Process.step
        Transition.Unrestricted
        (boot_initial 7 [hostInterface]) [.client 5 peerIp]
        (fun state : Process => decide (state.Waits 5 peerIp) &&
          (state.step (.client 6 peerIp)).any fun later : Process =>
            decide (¬ later.Waits 5 peerIp) &&
            decide (5 ∉ later.connections.map Connection.fd) &&
            decide (5 ∉ later.written.map Write.fd))
        (by decide +kernel)
    simp only [Bool.and_eq_true, decide_eq_true_eq,
      Option.any_eq_true] at htest
    obtain ⟨hwaits, later, hstep, ⟨hgone, hclosed⟩, hsilent⟩ := htest
    exact ⟨process, later, hreach, hstep, hwaits, hgone, hclosed,
      hsilent⟩
  · obtain ⟨process, hreach, htest⟩ :=
      Transition.exists_reachable_of_replay Process.step
        Transition.Unrestricted
        (boot_initial 7 [hostInterface]) [.client 5 peerIp]
        (fun state : Process => decide (state.Waits 5 peerIp) &&
          (state.step (.frame peerRequest)).any fun later : Process =>
            decide (¬ later.Waits 5 peerIp) &&
            decide (5 ∉ later.written.map Write.fd))
        (by decide +kernel)
    simp only [Bool.and_eq_true, decide_eq_true_eq,
      Option.any_eq_true] at htest
    obtain ⟨hwaits, later, hstep, hgone, hsilent⟩ := htest
    exact ⟨process, later, hreach, hstep, hwaits, hgone, hsilent⟩

end NetworkProgramming.Arp
