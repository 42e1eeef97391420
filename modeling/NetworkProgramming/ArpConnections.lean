import NetworkProgramming.ArpReplies
import Mathlib.Data.Finset.Basic

/-!
# The connections of the ARP process

A connection should be answered once and closed right after the answer, and
until then its descriptor should wait in the cache.  `send_reply` closes the
descriptor of the cache entry, which is the one it wrote to only when it was
not given another one: an answer from the cache leaves its connection open.
A reply for which nobody waits is written to descriptor zero, and a request
of an awaited host makes the process forget the descriptor which waits.
-/

namespace NetworkProgramming.Arp

open SlotTable

/-! ## The discipline -/

/-- A system call on a client connection. -/
inductive Call where
  | accept (fd : ℤ)
  | write (fd : ℤ)
  | close (fd : ℤ)
  deriving DecidableEq

/-- The open connections, and the one which was answered and has to be closed
next. -/
structure Discipline where
  opened : Finset ℤ
  answered : Option ℤ
  deriving DecidableEq

/-- `none` is a breach of the discipline. -/
def Discipline.call (discipline : Discipline) : Call → Option Discipline
  | .accept fd =>
      if discipline.answered = none ∧ fd ∉ discipline.opened then
        some { discipline with opened := insert fd discipline.opened }
      else none
  | .write fd =>
      if discipline.answered = none ∧ fd ∈ discipline.opened then
        some { discipline with answered := some fd }
      else none
  | .close fd =>
      if discipline.answered = some fd then
        some ⟨discipline.opened.erase fd, none⟩
      else none

def Discipline.calls (discipline : Discipline) :
    List Call → Option Discipline
  | [] => some discipline
  | call :: rest => (discipline.call call).bind fun next => next.calls rest

/-! ## The calls of the process -/

/-- The calls of `send_reply`. -/
def Process.replyCalls (process : Process) (ip : IpText) (fd : ℤ) :
    List Call :=
  match process.entry ip with
  | some entry =>
      .write (if fd ≠ -1 then fd else entry.fd) ::
        if 0 < entry.fd then [.close entry.fd] else []
  | none => []

def Process.calls (process : Process) : ArpEvent → List Call
  | .client connfd ip => .accept connfd :: process.replyCalls ip connfd
  | .frame frame =>
      if frame.identification = identification ∧ frame.op = 2 then
        ((process.updateResponseInCache frame).getD process).replyCalls
          frame.senderIp (-1)
      else []

/-- A process and what is left of the discipline. -/
structure Served where
  process : Process
  discipline : Option Discipline

def Served.step (served : Served) (event : ArpEvent) : Option Served :=
  (served.process.step event).map fun next =>
    ⟨next, served.discipline.bind fun discipline =>
      discipline.calls (served.process.calls event)⟩

def Served.Initial (served : Served) : Prop :=
  ∃ protocol svd, served = ⟨boot protocol svd, some ⟨∅, none⟩⟩

def Process.Pending (process : Process) (fd : ℤ) : Prop :=
  fd ≠ noFd ∧ ∃ ip, process.Waits fd ip

/-- The calls so far were in order, and the open connections are those which
wait. -/
def Served.Tidy (served : Served) : Prop :=
  ∃ opened, served.discipline = some ⟨opened, none⟩ ∧
    ∀ fd, fd ∈ opened ↔ served.process.Pending fd

/-- No client asks for an IP which has an entry, no host asks while a client
waits for it, and no reply comes for which nobody waits. -/
def Uncontested (process : Process) : ArpEvent → Prop
  | .client _ ip =>
      process.entry ip = none ∧ (scan process.cache ip).isSome = true
  | .frame frame => frame.identification = identification →
      (frame.op = 1 → process.srcIp = frame.targetIp →
        ∀ entry ∈ process.entry frame.senderIp, entry.fd = noFd) ∧
      (frame.op = 2 → ∀ i ∈ scanAll process.cache frame.senderIp,
        0 < (process.cache i).fd)

instance (process : Process) (event : ArpEvent) :
    Decidable (Uncontested process event) :=
  match event with
  | .client _ _ => inferInstanceAs (Decidable (_ ∧ _))
  | .frame _ => inferInstanceAs (Decidable (_ → _ ∧ _))

/-! ## What one event does to the connections -/

def ArpCacheDetails.closing (entry : ArpCacheDetails) : List Call :=
  if 0 < entry.fd then [.close entry.fd] else []

/-- An event with its calls and its effect. -/
inductive Process.Traced (process : Process) :
    ArpEvent → List Call → Process → Prop
  | answer {connfd : ℤ} {ip : IpText} {entry : ArpCacheDetails}
      {next : Process} (hpos : 0 < connfd)
      (hfresh : connfd ∉ process.connections.map Connection.fd)
      (hreply : (process.accept connfd ip).Replies next ip entry connfd) :
      process.Traced (.client connfd ip)
        (.accept connfd :: .write connfd :: entry.closing) next
  | request {connfd : ℤ} {ip : IpText} {inserted next : Process}
      (hpos : 0 < connfd)
      (hfresh : connfd ∉ process.connections.map Connection.fd)
      (hnone : process.entry ip = none)
      (hroom : (scan process.cache ip).isSome = true)
      (hputs : (process.accept connfd ip).Puts inserted ip
        ⟨ip, zeroMac, 0, connfd, true⟩)
      (hnext : next = inserted.sendPacket broadcastMac
        { process.prepareArpReqReply 1 with targetIp := ip }) :
      process.Traced (.client connfd ip) [.accept connfd] next
  | full {connfd : ℤ} {ip : IpText} (hpos : 0 < connfd)
      (hfresh : connfd ∉ process.connections.map Connection.fd)
      (hfull : scan process.cache ip = none) :
      process.Traced (.client connfd ip) [.accept connfd]
        { process.accept connfd ip with overrun := true }
  | idle {frame : ArpReqReply} {overrun : Bool}
      (hfree : Uncontested process (.frame frame)) :
      process.Traced (.frame frame) [] { process with overrun := overrun }
  | introduce {frame : ArpReqReply} {inserted next : Process}
      (hid : frame.identification = identification) (hop : frame.op = 1)
      (htarget : process.srcIp = frame.targetIp)
      (hputs : process.Puts inserted frame.senderIp
        ⟨frame.senderIp, frame.senderEth, 0, noFd, true⟩)
      (hnext : next = (inserted.learn frame.senderIp
        frame.senderEth).sendPacket frame.senderEth
          (process.replyTo frame)) :
      process.Traced (.frame frame) [] next
  | overhear {frame : ArpReqReply} {old : ArpCacheDetails}
      {updated : Process} (hfree : Uncontested process (.frame frame))
      (hold : process.entry frame.senderIp = some old ∨
        process.entry frame.senderIp = none ∧ old = unusedEntry)
      (hputs : process.Puts updated frame.senderIp
        (old.resolve frame.senderEth)) :
      process.Traced (.frame frame) []
        (updated.learn frame.senderIp frame.senderEth)
  | resolve {frame : ArpReqReply} {i : Fin 40} {updated next : Process}
      (hid : frame.identification = identification) (hop : frame.op = 2)
      (hall : scanAll process.cache frame.senderIp = some i)
      (hold : process.entry frame.senderIp = some (process.cache i) ∨
        process.entry frame.senderIp = none ∧
          process.cache i = unusedEntry)
      (hputs : process.Puts updated frame.senderIp
        ((process.cache i).resolve frame.senderEth))
      (hreply : (updated.learn frame.senderIp frame.senderEth).Replies next
        frame.senderIp ((process.cache i).resolve frame.senderEth)
        (process.cache i).fd) :
      process.Traced (.frame frame)
        (.write (process.cache i).fd :: (process.cache i).closing) next

section Traces

variable {process : Process}

theorem replyCalls_of_entry
    {ip : IpText} {entry : ArpCacheDetails}
    (hentry : process.entry ip = some entry) (fd : ℤ) :
    process.replyCalls ip fd =
      .write (if fd ≠ -1 then fd else entry.fd) :: entry.closing := by
  simp only [Process.replyCalls, hentry, ArpCacheDetails.closing]

theorem replyCalls_of_none
    {ip : IpText} (hentry : process.entry ip = none) (fd : ℤ) :
    process.replyCalls ip fd = [] := by
  simp only [Process.replyCalls, hentry]

theorem traced_client
    (hpacked : Packed process.cache) {connfd : ℤ} (ip : IpText)
    (hpos : 0 < connfd)
    (hfresh : connfd ∉ process.connections.map Connection.fd) :
    process.Traced (.client connfd ip)
      (process.calls (.client connfd ip))
      (process.serveClient connfd ip) := by
  simp only [Process.calls]
  rcases serveClient_cases hpacked ip hpos with
    ⟨entry, hreplies⟩ | ⟨hnone, hroom, inserted, hputs, heq⟩ |
      ⟨hfull, heq⟩
  · have hentry : process.entry ip = some entry := hreplies.found
    rw [replyCalls_of_entry hentry, if_pos (by omega)]
    exact .answer hpos hfresh hreplies
  · rw [replyCalls_of_none hnone]
    exact .request hpos hfresh hnone hroom hputs heq
  · have hnone : process.entry ip = none := by
      simp [Process.entry, lookup, hfull]
    rw [replyCalls_of_none hnone, heq]
    exact .full hpos hfresh hfull

theorem traced_request
    (hpacked : Packed process.cache) {frame : ArpReqReply}
    (hid : frame.identification = identification) (hop : frame.op = 1) :
    process.Traced (.frame frame) [] (process.handleRequest frame) := by
  have hnotReply : frame.op ≠ 2 := by omega
  rcases handleRequest_cases hpacked frame with
    ⟨_, hscan, heq⟩ | ⟨htarget, inserted, hputs, heq⟩ | ⟨hother, hkept⟩
  · rw [heq]
    refine .idle fun _ => ⟨?_, fun hreply => absurd hreply hnotReply⟩
    intro _ _ entry hentry
    simp [Process.entry, lookup, hscan] at hentry
  · exact .introduce hid hop htarget hputs heq
  · have hfree : Uncontested process (.frame frame) := fun _ =>
      ⟨fun _ htarget => absurd htarget hother,
        fun hreply => absurd hreply hnotReply⟩
    rcases hkept with heq | ⟨old, updated, hold, hputs, heq⟩
    · rw [heq]
      exact .idle hfree
    · rw [heq]
      exact .overhear hfree hold hputs

theorem traced_response
    (hpacked : Packed process.cache) {frame : ArpReqReply}
    (hid : frame.identification = identification) (hop : frame.op = 2) :
    process.Traced (.frame frame) (process.calls (.frame frame))
      (process.handleResponse frame) := by
  simp only [Process.calls, hid, hop, and_self, if_true]
  rcases handleResponse_cases hpacked frame with
    ⟨hall, hupdate, hnone, heq⟩ |
      ⟨i, updated, hall, hupdate, hold, hputs, hreplies⟩
  · rw [hupdate, Option.getD_none, replyCalls_of_none hnone, heq]
    refine .idle fun _ => ⟨fun hrequest => by omega, ?_⟩
    intro _ i hi
    rw [hall] at hi
    cases hi
  · rw [hupdate, Option.getD_some, replyCalls_of_entry hreplies.found]
    exact .resolve hid hop hall hold hputs hreplies

theorem step_traced
    (hpacked : Packed process.cache) {event : ArpEvent} {next : Process}
    (hstep : process.step event = some next) :
    process.Traced event (process.calls event) next := by
  cases step_runs hstep with
  | @client connfd ip hpos hfresh =>
      exact traced_client hpacked ip hpos hfresh
  | @ignored frame hignored =>
      have hcalls : process.calls (.frame frame) = [] := by
        apply if_neg
        rintro ⟨hid, hreply⟩
        exact (hignored hid).2 hreply
      rw [hcalls]
      exact .idle fun hid =>
        ⟨fun hrequest => absurd hrequest (hignored hid).1,
          fun hreply => absurd hreply (hignored hid).2⟩
  | @request frame hid hop =>
      have hcalls : process.calls (.frame frame) = [] := by
        simp [Process.calls, hop]
      rw [hcalls]
      exact traced_request hpacked hid hop
  | response hid hop => exact traced_response hpacked hid hop

end Traces

/-! ## The descriptors which wait -/

section Pending

variable {process next : Process}

def Process.WaitsElsewhere (process : Process) (fd : ℤ) (ip : IpText) :
    Prop :=
  ∃ other, other ≠ ip ∧ process.Waits fd other

theorem Process.Pending.congr
    (hentry : ∀ ip, next.entry ip = process.entry ip) (fd : ℤ) :
    next.Pending fd ↔ process.Pending fd := by
  simp only [Process.Pending, Process.Waits, hentry]

theorem pending_of_entry_eq
    {ip : IpText} {entry : ArpCacheDetails}
    (hentry : ∀ other, next.entry other =
      if other = ip then some entry else process.entry other) (fd : ℤ) :
    next.Pending fd ↔
      fd ≠ noFd ∧ (entry.fd = fd ∨ process.WaitsElsewhere fd ip) := by
  refine and_congr_right fun _ => ?_
  constructor
  · rintro ⟨other, found, hfound, hfd⟩
    rw [hentry] at hfound
    split at hfound
    next =>
      simp only [Option.some.injEq] at hfound
      exact .inl (hfound ▸ hfd)
    next hother => exact .inr ⟨other, hother, found, hfound, hfd⟩
  · rintro (hfd | ⟨other, hother, found, hfound, hfd⟩)
    · exact ⟨ip, entry, by rw [hentry, if_pos rfl], hfd⟩
    · exact ⟨other, found, by rw [hentry, if_neg hother]; exact hfound,
        hfd⟩

/-- A descriptor waits for one IP only. -/
theorem Process.Sound.waits_unique
    (hsound : process.Sound) {fd : ℤ} (hfd : fd ≠ noFd)
    {ip other : IpText} (hip : process.Waits fd ip)
    (hother : process.Waits fd other) :
    other = ip := by
  rcases hip with ⟨entry, hentry, rfl⟩
  rcases hother with ⟨found, hfound, hsame⟩
  have hopen := hsound.askedAt (hsound.waiting ip entry hentry hfd)
  have hopen' := hsound.askedAt
    (hsound.waiting other found hfound (hsame.trans_ne hfd))
  rw [hsame, hopen, Option.some.injEq] at hopen'
  exact hopen'.symm

theorem waitsElsewhere_of_none
    {ip : IpText} (hnone : process.entry ip = none) {fd : ℤ} :
    fd ≠ noFd ∧ process.WaitsElsewhere fd ip ↔ process.Pending fd := by
  refine and_congr_right fun _ => ?_
  constructor
  · rintro ⟨other, _, hwaits⟩
    exact ⟨other, hwaits⟩
  · rintro ⟨other, hwaits⟩
    refine ⟨other, ?_, hwaits⟩
    rintro rfl
    rcases hwaits with ⟨entry, hentry, _⟩
    rw [hnone] at hentry
    cases hentry

theorem Process.Sound.waitsElsewhere_of_some
    (hsound : process.Sound) {ip : IpText} {entry : ArpCacheDetails}
    (hentry : process.entry ip = some entry) {fd : ℤ} :
    fd ≠ noFd ∧ process.WaitsElsewhere fd ip ↔
      process.Pending fd ∧ fd ≠ entry.fd := by
  constructor
  · rintro ⟨hfd, other, hother, hwaits⟩
    refine ⟨⟨hfd, other, hwaits⟩, ?_⟩
    rintro rfl
    exact hother (hsound.waits_unique hfd ⟨entry, hentry, rfl⟩ hwaits)
  · rintro ⟨⟨hfd, other, hwaits⟩, hne⟩
    refine ⟨hfd, other, ?_, hwaits⟩
    rintro rfl
    rcases hwaits with ⟨found, hfound, hsame⟩
    rw [hentry, Option.some.injEq] at hfound
    subst hfound
    exact hne hsame.symm

theorem Process.Sound.fd_pos
    (hsound : process.Sound) {ip : IpText} {entry : ArpCacheDetails}
    (hentry : process.entry ip = some entry) (hfd : entry.fd ≠ noFd) :
    0 < entry.fd :=
  hsound.positive _ (hsound.waiting ip entry hentry hfd)

theorem Process.Sound.not_pending_of_fresh
    (hsound : process.Sound) {fd : ℤ}
    (hfresh : fd ∉ process.connections.map Connection.fd) :
    ¬ process.Pending fd := by
  rintro ⟨hfd, ip, entry, hentry, rfl⟩
  exact hfresh (List.mem_map.mpr
    ⟨_, hsound.waiting ip entry hentry hfd, rfl⟩)

end Pending

/-! ## One event -/

section Events

variable {process next : Process} {opened : Finset ℤ}

theorem Served.tidy_iff_of_some :
    Served.Tidy ⟨next, some ⟨opened, none⟩⟩ ↔
      ∀ fd, fd ∈ opened ↔ next.Pending fd := by
  constructor
  · rintro ⟨found, hfound, hall⟩
    cases hfound
    exact hall
  · intro hall
    exact ⟨opened, rfl, hall⟩

theorem Served.not_tidy_of_answered (fd : ℤ) :
    ¬ Served.Tidy ⟨next, some ⟨opened, some fd⟩⟩ := by
  rintro ⟨found, hfound, _⟩
  cases hfound

theorem Served.not_tidy_of_breach : ¬ Served.Tidy ⟨next, none⟩ := by
  rintro ⟨found, hfound, _⟩
  cases hfound

theorem calls_accept
    {fd : ℤ} (hfresh : fd ∉ opened) (rest : List Call) :
    Discipline.calls ⟨opened, none⟩ (.accept fd :: rest) =
      Discipline.calls ⟨insert fd opened, none⟩ rest := by
  simp [Discipline.calls, Discipline.call, hfresh]

theorem calls_write
    {fd : ℤ} (hopen : fd ∈ opened) (rest : List Call) :
    Discipline.calls ⟨opened, none⟩ (.write fd :: rest) =
      Discipline.calls ⟨opened, some fd⟩ rest := by
  simp [Discipline.calls, Discipline.call, hopen]

theorem calls_write_breach
    {fd : ℤ} (hclosed : fd ∉ opened) (rest : List Call) :
    Discipline.calls ⟨opened, none⟩ (.write fd :: rest) = none := by
  simp [Discipline.calls, Discipline.call, hclosed]

theorem calls_close (fd : ℤ) :
    Discipline.calls ⟨opened, some fd⟩ [.close fd] =
      some ⟨opened.erase fd, none⟩ := by
  simp [Discipline.calls, Discipline.call]

theorem calls_close_breach
    {fd other : ℤ} (hother : other ≠ fd) :
    Discipline.calls ⟨opened, some fd⟩ [.close other] = none := by
  simp [Discipline.calls, Discipline.call, hother.symm]

/-- An answer from the cache never closes the connection it answers. -/
theorem not_tidy_answer
    (hsound : process.Sound)
    (hopened : ∀ fd, fd ∈ opened ↔ process.Pending fd) {connfd : ℤ}
    (hfresh : connfd ∉ process.connections.map Connection.fd)
    {ip : IpText} {entry : ArpCacheDetails}
    (hentry : process.entry ip = some entry) :
    ¬ Served.Tidy ⟨next, Discipline.calls ⟨opened, none⟩
      (.accept connfd :: .write connfd :: entry.closing)⟩ := by
  have hnew : connfd ∉ opened :=
    fun hmem => hsound.not_pending_of_fresh hfresh ((hopened _).mp hmem)
  rw [calls_accept hnew, calls_write (Finset.mem_insert_self _ _)]
  -- the descriptor of the entry is another one, or there is none to close
  unfold ArpCacheDetails.closing
  split
  next hwaits =>
    have hother : entry.fd ≠ connfd := by
      rintro rfl
      exact hfresh (List.mem_map.mpr
        ⟨_, hsound.waiting ip entry hentry hwaits.ne', rfl⟩)
    rw [calls_close_breach hother]
    exact Served.not_tidy_of_breach
  next => exact Served.not_tidy_of_answered connfd

theorem tidy_request
    (hsound : process.Sound)
    (hopened : ∀ fd, fd ∈ opened ↔ process.Pending fd) {connfd : ℤ}
    (hpos : 0 < connfd)
    (hfresh : connfd ∉ process.connections.map Connection.fd)
    {ip : IpText} (hnone : process.entry ip = none)
    {entry : ArpCacheDetails} (hfd : entry.fd = connfd)
    (hentry : ∀ other, next.entry other =
      if other = ip then some entry else process.entry other) :
    Served.Tidy ⟨next, Discipline.calls ⟨opened, none⟩
      [.accept connfd]⟩ := by
  have hnew : connfd ∉ opened :=
    fun hmem => hsound.not_pending_of_fresh hfresh ((hopened _).mp hmem)
  rw [calls_accept hnew]
  refine Served.tidy_iff_of_some.mpr fun fd => ?_
  rw [Finset.mem_insert, hopened, pending_of_entry_eq hentry, hfd,
    and_or_left, waitsElsewhere_of_none hnone]
  refine or_congr_left ?_
  constructor
  · rintro rfl
    exact ⟨hpos.ne', rfl⟩
  · rintro ⟨_, hsame⟩
    exact hsame.symm

theorem tidy_introduce_iff
    (hsound : process.Sound)
    (hopened : ∀ fd, fd ∈ opened ↔ process.Pending fd) {ip : IpText}
    {entry : ArpCacheDetails} (hfd : entry.fd = noFd)
    (hentry : ∀ other, next.entry other =
      if other = ip then some entry else process.entry other) :
    Served.Tidy ⟨next, some ⟨opened, none⟩⟩ ↔
      ∀ old ∈ process.entry ip, old.fd = noFd := by
  have hnext : ∀ fd, next.Pending fd ↔
      fd ≠ noFd ∧ process.WaitsElsewhere fd ip := by
    intro fd
    rw [pending_of_entry_eq hentry, hfd]
    refine and_congr_right fun hne => ?_
    exact or_iff_right hne.symm
  rw [Served.tidy_iff_of_some]
  cases hold : process.entry ip with
  | none =>
      refine iff_of_true ?_ (fun old hmem => by cases hmem)
      intro fd
      rw [hopened, hnext, waitsElsewhere_of_none hold]
  | some old =>
      constructor
      · intro hall found hfound
        cases hfound
        by_contra hwaits
        have hpending : process.Pending old.fd :=
          ⟨hwaits, ip, old, hold, rfl⟩
        have hkept := (hall old.fd).mp ((hopened _).mpr hpending)
        rw [hnext, hsound.waitsElsewhere_of_some hold] at hkept
        exact hkept.2 rfl
      · intro hfree fd
        have hnobody : old.fd = noFd := hfree old rfl
        rw [hopened, hnext, hsound.waitsElsewhere_of_some hold, hnobody]
        exact ⟨fun hpending => ⟨hpending, hpending.1⟩, fun hboth => hboth.1⟩

theorem pending_resolve
    (hsound : process.Sound) {ip : IpText} {old : ArpCacheDetails}
    {mac : Mac}
    (hold : process.entry ip = some old ∨
      process.entry ip = none ∧ old = unusedEntry)
    (hentry : ∀ other, next.entry other =
      if other = ip then some (old.resolve mac)
      else process.entry other) (fd : ℤ) :
    next.Pending fd ↔ process.Pending fd := by
  rw [pending_of_entry_eq hentry]
  rcases hold with hsome | ⟨hnone, rfl⟩
  · rw [and_or_left, hsound.waitsElsewhere_of_some hsome]
    constructor
    · rintro (⟨hfd, hsame⟩ | ⟨hpending, _⟩)
      · exact ⟨hfd, ip, old, hsome, hsame⟩
      · exact hpending
    · intro hpending
      by_cases hsame : fd = old.fd
      · exact .inl ⟨hpending.1, hsame.symm⟩
      · exact .inr ⟨hpending, hsame⟩
  · rw [and_or_left, waitsElsewhere_of_none hnone]
    constructor
    · rintro (⟨hfd, hsame⟩ | hpending)
      · exact absurd hsame.symm hfd
      · exact hpending
    · exact .inr

theorem not_tidy_full
    (hsound : process.Sound)
    (hopened : ∀ fd, fd ∈ opened ↔ process.Pending fd) {connfd : ℤ}
    (hfresh : connfd ∉ process.connections.map Connection.fd)
    (hentry : ∀ ip, next.entry ip = process.entry ip) :
    ¬ Served.Tidy ⟨next, Discipline.calls ⟨opened, none⟩
      [.accept connfd]⟩ := by
  have hidle := hsound.not_pending_of_fresh hfresh
  rw [calls_accept fun hmem => hidle ((hopened _).mp hmem)]
  intro htidy
  have hmem := (Served.tidy_iff_of_some.mp htidy connfd).mp
    (Finset.mem_insert_self _ _)
  exact hidle ((Process.Pending.congr hentry connfd).mp hmem)

theorem tidy_resolve_iff
    (hsound : process.Sound)
    (hopened : ∀ fd, fd ∈ opened ↔ process.Pending fd) {ip : IpText}
    {old : ArpCacheDetails} {mac : Mac} {updated : Process}
    (hold : process.entry ip = some old ∨
      process.entry ip = none ∧ old = unusedEntry)
    (hputs : process.Puts updated ip (old.resolve mac))
    (hreply : (updated.learn ip mac).Replies next ip (old.resolve mac)
      old.fd) :
    Served.Tidy ⟨next, Discipline.calls ⟨opened, none⟩
      (.write old.fd :: old.closing)⟩ ↔ 0 < old.fd := by
  have hlearn : (updated.learn ip mac).Sound := hsound.resolve hold hputs
  have hpending : ∀ fd, (updated.learn ip mac).Pending fd ↔
      process.Pending fd :=
    pending_resolve hsound hold hputs.entry_eq
  -- descriptor zero was never accepted
  have hmem : old.fd ∈ opened ↔ 0 < old.fd := by
    rw [hopened, ← hpending]
    constructor
    · rintro ⟨hfd, _⟩
      have hpos : 0 < (old.resolve mac).fd :=
        hlearn.fd_pos hreply.found hfd
      exact hpos
    · intro hwaits
      exact ⟨hwaits.ne', ip, old.resolve mac, hreply.found, rfl⟩
  by_cases hwaits : 0 < old.fd
  · rw [calls_write (hmem.mpr hwaits), ArpCacheDetails.closing,
      if_pos hwaits, calls_close]
    refine iff_of_true (Served.tidy_iff_of_some.mpr fun fd => ?_) hwaits
    have hnext : next.Pending fd ↔
        fd ≠ noFd ∧ (updated.learn ip mac).WaitsElsewhere fd ip := by
      rw [pending_of_entry_eq hreply.entry_eq]
      exact and_congr_right fun hne => or_iff_right hne.symm
    rw [hnext, hlearn.waitsElsewhere_of_some hreply.found, hpending,
      ← hopened, Finset.mem_erase]
    exact and_comm
  · rw [calls_write_breach fun hopen => hwaits (hmem.mp hopen)]
    exact iff_of_false Served.not_tidy_of_breach hwaits

/-- From an orderly state exactly the uncontested events lead to one. -/
theorem Process.Traced.tidy_iff
    {event : ArpEvent} {calls : List Call}
    (htraced : process.Traced event calls next) (hsound : process.Sound)
    (hopened : ∀ fd, fd ∈ opened ↔ process.Pending fd) :
    Served.Tidy ⟨next, Discipline.calls ⟨opened, none⟩ calls⟩ ↔
      Uncontested process event := by
  cases htraced with
  | answer hpos hfresh hreply =>
      have hfound : process.entry _ = some _ := hreply.found
      refine iff_of_false (not_tidy_answer hsound hopened hfresh hfound) ?_
      rintro ⟨hnone, _⟩
      rw [hnone] at hfound
      cases hfound
  | request hpos hfresh hnone hroom hputs hnext =>
      subst hnext
      exact iff_of_true
        (tidy_request hsound hopened hpos hfresh hnone rfl hputs.entry_eq)
        ⟨hnone, hroom⟩
  | full hpos hfresh hfull =>
      refine iff_of_false
        (not_tidy_full hsound hopened hfresh fun _ => rfl) ?_
      rintro ⟨_, hroom⟩
      rw [hfull] at hroom
      cases hroom
  | idle hfree =>
      exact iff_of_true (Served.tidy_iff_of_some.mpr hopened) hfree
  | introduce hid hop htarget hputs hnext =>
      subst hnext
      refine (tidy_introduce_iff hsound hopened rfl hputs.entry_eq).trans ?_
      constructor
      · intro hfree _
        exact ⟨fun _ _ => hfree, fun hreply => by omega⟩
      · intro hfree
        exact (hfree hid).1 hop htarget
  | overhear hfree hold hputs =>
      refine iff_of_true (Served.tidy_iff_of_some.mpr fun fd => ?_) hfree
      exact (hopened fd).trans
        (pending_resolve hsound hold hputs.entry_eq fd).symm
  | @resolve frame i updated _ hid hop hall hold hputs hreply =>
      refine (tidy_resolve_iff hsound hopened hold hputs hreply).trans ?_
      constructor
      · intro hwaits _
        refine ⟨fun hrequest => by omega, fun _ found hfound => ?_⟩
        rw [hall] at hfound
        cases hfound
        exact hwaits
      · intro hfree
        exact (hfree hid).2 hop i hall

end Events

/-! ## The calls are those of the process -/

def Call.track (fds : List ℤ) : Call → List ℤ
  | .accept fd => fd :: fds
  | .write _ => fds
  | .close fd => fds.filter fun other => decide (other ≠ fd)

def Call.written? : Call → Option ℤ
  | .write fd => some fd
  | _ => none

section Agreement

variable {process next : Process}

theorem closing_track (entry : ArpCacheDetails) (fds : List ℤ) :
    entry.closing.foldl Call.track fds =
      if 0 < entry.fd then fds.filter fun fd => decide (fd ≠ entry.fd)
      else fds := by
  unfold ArpCacheDetails.closing
  split
  next => rfl
  next => rfl

theorem closing_written (entry : ArpCacheDetails) :
    entry.closing.filterMap Call.written? = [] := by
  unfold ArpCacheDetails.closing
  split
  next => rfl
  next => rfl

theorem Process.Replies.connections_fds
    {ip : IpText} {entry : ArpCacheDetails} {fd : ℤ}
    (hreply : process.Replies next ip entry fd) :
    next.connections.map Connection.fd =
      entry.closing.foldl Call.track
        (process.connections.map Connection.fd) := by
  rw [hreply.connections, closing_track]
  split
  next => simp [List.filter_map, Function.comp_def]
  next => rfl

theorem Process.Traced.connections_fds
    {event : ArpEvent} {calls : List Call}
    (htraced : process.Traced event calls next) :
    next.connections.map Connection.fd =
      calls.foldl Call.track (process.connections.map Connection.fd) := by
  cases htraced with
  | answer hpos hfresh hreply => exact hreply.connections_fds
  | request hpos hfresh hnone hroom hputs hnext =>
      subst hnext
      exact congrArg (List.map Connection.fd) hputs.connections_eq
  | full => rfl
  | idle => rfl
  | introduce hid hop htarget hputs hnext =>
      subst hnext
      exact congrArg (List.map Connection.fd) hputs.connections_eq
  | overhear hfree hold hputs =>
      exact congrArg (List.map Connection.fd) hputs.connections_eq
  | @resolve frame i updated _ hid hop hall hold hputs hreply =>
      have hconn : (updated.learn frame.senderIp
          frame.senderEth).connections = process.connections :=
        hputs.connections_eq
      rw [hreply.connections_fds, hconn]
      rfl

theorem Process.Traced.written_fds
    {event : ArpEvent} {calls : List Call}
    (htraced : process.Traced event calls next) :
    next.written.map Write.fd =
      (calls.filterMap Call.written?).reverse ++
        process.written.map Write.fd := by
  cases htraced with
  | answer hpos hfresh hreply =>
      simp [hreply.written, List.filterMap_cons, Call.written?,
        closing_written, Process.accept]
  | request hpos hfresh hnone hroom hputs hnext =>
      subst hnext
      exact congrArg (List.map Write.fd) hputs.written_eq
  | full => rfl
  | idle => rfl
  | introduce hid hop htarget hputs hnext =>
      subst hnext
      exact congrArg (List.map Write.fd) hputs.written_eq
  | overhear hfree hold hputs =>
      exact congrArg (List.map Write.fd) hputs.written_eq
  | @resolve frame i updated _ hid hop hall hold hputs hreply =>
      have hwritten : (updated.learn frame.senderIp
          frame.senderEth).written = process.written :=
        hputs.written_eq
      simp [hreply.written, hwritten, Call.written?, closing_written]

/-- An uncontested event writes to no other descriptor than that of a client.
-/
theorem Process.Traced.writes_pos
    {event : ArpEvent} {calls : List Call}
    (htraced : process.Traced event calls next)
    (hfree : Uncontested process event) :
    ∀ fd ∈ calls.filterMap Call.written?, 0 < fd := by
  cases htraced with
  | answer hpos hfresh hreply =>
      simpa [List.filterMap_cons, Call.written?, closing_written] using hpos
  | request => simp [Call.written?]
  | full => simp [Call.written?]
  | idle => simp
  | introduce => simp
  | overhear => simp
  | resolve hid hop hall hold hputs hreply =>
      have hwaits := (hfree hid).2 hop _ hall
      simpa [Call.written?, closing_written] using hwaits

theorem Discipline.call_tracks
    {discipline after : Discipline} {call : Call} {fds : List ℤ}
    (hfds : ∀ fd, fd ∈ discipline.opened ↔ fd ∈ fds)
    (hcall : discipline.call call = some after) (fd : ℤ) :
    fd ∈ after.opened ↔ fd ∈ call.track fds := by
  cases call with
  | accept connfd =>
      simp only [Discipline.call, Option.ite_none_right_eq_some,
        Option.some.injEq] at hcall
      rcases hcall with ⟨_, rfl⟩
      simp [Call.track, hfds]
  | write connfd =>
      simp only [Discipline.call, Option.ite_none_right_eq_some,
        Option.some.injEq] at hcall
      rcases hcall with ⟨_, rfl⟩
      exact hfds fd
  | close connfd =>
      simp only [Discipline.call, Option.ite_none_right_eq_some,
        Option.some.injEq] at hcall
      rcases hcall with ⟨_, rfl⟩
      simp [Call.track, hfds, and_comm]

/-- As long as the discipline holds, it knows the open descriptors. -/
theorem Discipline.calls_tracks
    {discipline after : Discipline} {calls : List Call} {fds : List ℤ}
    (hfds : ∀ fd, fd ∈ discipline.opened ↔ fd ∈ fds)
    (hcalls : discipline.calls calls = some after) (fd : ℤ) :
    fd ∈ after.opened ↔ fd ∈ calls.foldl Call.track fds := by
  induction calls generalizing discipline fds with
  | nil =>
      simp only [Discipline.calls, Option.some.injEq] at hcalls
      subst hcalls
      exact hfds fd
  | cons call rest ih =>
      simp only [Discipline.calls, Option.bind_eq_some_iff] at hcalls
      rcases hcalls with ⟨middle, hcall, hrest⟩
      exact ih (Discipline.call_tracks hfds hcall) hrest

end Agreement

/-! ## Runs -/

/-- What holds in every state in which the discipline was kept. -/
structure Served.Orderly (served : Served) : Prop where
  sound : served.process.Sound
  tidy : served.Tidy
  tracks : ∀ discipline ∈ served.discipline, ∀ fd,
    fd ∈ discipline.opened ↔
      fd ∈ served.process.connections.map Connection.fd
  writes : ∀ fd ∈ served.process.written.map Write.fd, 0 < fd

theorem Served.Initial.orderly
    {served : Served} (hinit : served.Initial) :
    served.Orderly := by
  rcases hinit with ⟨protocol, svd, rfl⟩
  have hsound := sound_boot protocol svd
  obtain ⟨hwritten, hconn⟩ := boot_untouched protocol svd
  constructor
  case sound => exact hsound
  case tidy =>
    refine Served.tidy_iff_of_some.mpr fun fd => ?_
    refine iff_of_false (Finset.notMem_empty fd) ?_
    exact hsound.not_pending_of_fresh (by simp [hconn])
  case tracks =>
    intro discipline hdiscipline fd
    cases hdiscipline
    simp [hconn]
  case writes => simp [hwritten]

theorem step_tidy_iff
    {served next : Served} {event : ArpEvent}
    (horderly : served.Orderly)
    (hstep : served.step event = some next) :
    next.Tidy ↔ Uncontested served.process event := by
  rcases served with ⟨process, discipline⟩
  rcases horderly.tidy with ⟨opened, hdiscipline, hopened⟩
  dsimp only at hdiscipline
  subst hdiscipline
  rcases Option.map_eq_some_iff.mp hstep with ⟨after, hafter, rfl⟩
  have hsound : process.Sound := horderly.sound
  exact (step_traced hsound.packed hafter).tidy_iff hsound hopened

theorem Served.Orderly.step
    {served next : Served} {event : ArpEvent}
    (horderly : served.Orderly)
    (hfree : Uncontested served.process event)
    (hstep : served.step event = some next) :
    next.Orderly := by
  have htidy := (step_tidy_iff horderly hstep).mpr hfree
  rcases Option.map_eq_some_iff.mp hstep with ⟨after, hafter, rfl⟩
  have htraced := step_traced horderly.sound.packed hafter
  constructor
  case sound =>
    exact horderly.sound.effect (step_effect horderly.sound.packed hafter)
  case tidy => exact htidy
  case tracks =>
    intro discipline hdiscipline fd
    rcases Option.bind_eq_some_iff.mp hdiscipline with
      ⟨before, hbefore, hcalls⟩
    rw [htraced.connections_fds]
    exact Discipline.calls_tracks (horderly.tracks before hbefore) hcalls fd
  case writes =>
    intro fd hfd
    rw [htraced.written_fds, List.mem_append, List.mem_reverse] at hfd
    rcases hfd with hnew | hearlier
    · exact htraced.writes_pos hfree fd hnew
    · exact horderly.writes fd hearlier

/-- Along every uncontested run each connection is answered once and closed
right after, and the open connections are those which wait in the cache; an
event which is contested breaks this, whichever it is. -/
theorem connections_disciplined
    {served : Served}
    (hreach : Transition.Reachable Served.step
      (fun state event => Uncontested state.process event)
      Served.Initial served) :
    served.Tidy ∧
    (∀ fd, fd ∈ served.process.connections.map Connection.fd ↔
      served.process.Pending fd) ∧
    (∀ fd ∈ served.process.written.map Write.fd, 0 < fd) ∧
    ∀ event next, served.step event = some next →
      (next.Tidy ↔ Uncontested served.process event) := by
  have horderly : served.Orderly := hreach.invariant Served.Orderly
    (fun _ hinit => hinit.orderly)
    (fun _ _ _ horderly hfree hstep => horderly.step hfree hstep)
  refine ⟨horderly.tidy, fun fd => ?_, horderly.writes,
    fun event next hstep => step_tidy_iff horderly hstep⟩
  rcases horderly.tidy with ⟨opened, hdiscipline, hopened⟩
  exact (horderly.tracks _ hdiscipline fd).symm.trans (hopened fd)

def freshServed : Served :=
  ⟨boot 7 [hostInterface], some ⟨∅, none⟩⟩

theorem freshServed_initial : freshServed.Initial :=
  ⟨7, [hostInterface], rfl⟩

/-- A client waits and the reply comes: one answer, one close. -/
theorem connections_disciplined_reply :
    ∃ served : Served,
      Transition.Reachable Served.step
        (fun state event => Uncontested state.process event)
        Served.Initial served ∧
      served.process.written.map Write.fd = [5] ∧
      served.process.connections = [] ∧ served.Tidy := by
  obtain ⟨served, hreach, htest⟩ :=
    Transition.exists_reachable_of_replay Served.step
      (fun state event => Uncontested state.process event)
      freshServed_initial [.client 5 peerIp, .frame peerReply]
      (fun served : Served =>
        decide (served.process.written.map Write.fd = [5]) &&
        decide (served.process.connections = []))
      (by decide +kernel)
  simp only [Bool.and_eq_true, decide_eq_true_eq] at htest
  exact ⟨served, hreach, htest.1, htest.2,
    (connections_disciplined hreach).1⟩

/-- A client which is answered from the cache keeps its connection, which
nobody waits for any more, and a second copy of the reply is written to
descriptor zero. -/
theorem connections_left_open :
    (∃ served : Served,
      Transition.Reachable Served.step Transition.Unrestricted
        Served.Initial served ∧
      6 ∈ served.process.written.map Write.fd ∧
      6 ∈ served.process.connections.map Connection.fd ∧
      ¬ served.process.Waits 6 peerIp ∧ ¬ served.Tidy) ∧
    ∃ served : Served,
      Transition.Reachable Served.step Transition.Unrestricted
        Served.Initial served ∧
      noFd ∈ served.process.written.map Write.fd ∧ ¬ served.Tidy := by
  constructor
  · obtain ⟨served, hreach, htest⟩ :=
      Transition.exists_reachable_of_replay Served.step
        Transition.Unrestricted freshServed_initial
        [.client 5 peerIp, .frame peerReply, .client 6 peerIp]
        (fun served : Served =>
          decide (6 ∈ served.process.written.map Write.fd) &&
          decide (6 ∈ served.process.connections.map Connection.fd) &&
          decide (¬ served.process.Waits 6 peerIp) &&
          decide (served.discipline = some ⟨{6}, some 6⟩))
        (by decide +kernel)
    simp only [Bool.and_eq_true, decide_eq_true_eq] at htest
    obtain ⟨⟨⟨hwritten, hopen⟩, hgone⟩, hdiscipline⟩ := htest
    refine ⟨served, hreach, hwritten, hopen, hgone, ?_⟩
    rintro ⟨opened, htidy, _⟩
    rw [hdiscipline] at htidy
    cases htidy
  · obtain ⟨served, hreach, htest⟩ :=
      Transition.exists_reachable_of_replay Served.step
        Transition.Unrestricted freshServed_initial
        [.client 5 peerIp, .frame peerReply, .frame peerReply]
        (fun served : Served =>
          decide (noFd ∈ served.process.written.map Write.fd) &&
          decide (served.discipline = none))
        (by decide +kernel)
    simp only [Bool.and_eq_true, decide_eq_true_eq] at htest
    refine ⟨served, hreach, htest.1, ?_⟩
    rintro ⟨opened, htidy, _⟩
    rw [htest.2] at htidy
    cases htidy

end NetworkProgramming.Arp
