import NetworkProgramming.TransferServerStep

/-!
# The samples of the round-trip time

A datagram carries `ts`, the client sends it back, and `receive_ack` passes
the difference to the current `rtt_ts` to `rtt_stop`.  Both count from
`rtt_base`, which `rtt_init` moves.  `send_file_data` reads `rtt_ts` before it
calls `rtt_init` for the same datagram, leaves `ts` at zero when it sends a
datagram again, and a ping has the `ts` of the datagram before it.  The
difference is the time which has passed when the acknowledged datagram was a
new one and `rtt_init` was not called since it was stamped: so it was not the
first one after the start or after a timeout, and no timeout with another
datagram came in between.

Times are in milliseconds, as `rtt_ts` has them.
-/

namespace NetworkProgramming.Transfer

/-- What `Gettimeofday` returns. -/
def Timeval.Valid (tv : Timeval) : Prop :=
  0 ≤ tv.tvUsec ∧ tv.tvUsec < 1000000

instance (tv : Timeval) : Decidable tv.Valid :=
  inferInstanceAs (Decidable (_ ∧ _))

def Timeval.micros (tv : Timeval) : ℤ :=
  tv.tvSec * 1000000 + tv.tvUsec

def Timeval.millis (tv : Timeval) : ℤ :=
  tv.tvSec * 1000 + tv.tvUsec.tdiv 1000

inductive DatagramKind where
  | new
  | resent
  | ping
  deriving DecidableEq

/-- A datagram with the reading of the clock for its `ts`, if it is new, and
the time of its transmission.  `inits` counts the calls of `rtt_init` before
that reading. -/
structure Transmission where
  datagram : Datagram
  kind : DatagramKind
  stampedAt : Timeval
  sentAt : Timeval
  inits : ℕ
  deriving DecidableEq

/-- The server with all its transmissions, the readings of the clock in
`rtt_init`, newest first, and the last reading of the clock. -/
structure SampleRun where
  server : Server
  sent : List Transmission
  inits : List Timeval
  now : Timeval
  deriving DecidableEq

/-- An acknowledgement answers one of the transmissions. -/
inductive SampleEvent where
  | send (tvTs tvInit sentAt : Timeval)
  | receive (answered : Transmission) (ack : Ack) (tv : Timeval)
  | timeout
  deriving DecidableEq

/-- The clock does not run backwards, and the client echoes `ts`. -/
def SampleRun.Enabled (run : SampleRun) : SampleEvent → Prop
  | .send tvTs tvInit sentAt =>
      sentAt.Valid ∧ tvInit.Valid ∧ run.now.micros ≤ tvTs.micros ∧
        tvTs.micros ≤ tvInit.micros ∧ tvInit.micros ≤ sentAt.micros
  | .receive answered ack tv =>
      tv.Valid ∧ run.now.micros ≤ tv.micros ∧ answered ∈ run.sent ∧
        ack.ts = answered.datagram.config.ts
  | .timeout => True

instance (run : SampleRun) (event : SampleEvent) :
    Decidable (run.Enabled event) :=
  match event with
  | .send _ _ _ => inferInstanceAs (Decidable (_ ∧ _ ∧ _ ∧ _ ∧ _))
  | .receive _ _ _ => inferInstanceAs (Decidable (_ ∧ _ ∧ _ ∧ _))
  | .timeout => inferInstanceAs (Decidable True)

/-- What the server is about to send. -/
def Server.kindOf (server : Server) (datagram : Datagram) : DatagramKind :=
  if datagram.config.type = .ping then .ping
  else if server.config.lastUnackedSeq ≠ -1 then .resent
  else .new

/-- Whether the server calls `rtt_init` for the datagram. -/
def Server.startsTimer (server : Server) (datagram : Datagram) : Bool :=
  decide (datagram.config.type ≠ .ping) && decide (server.config.rttinit = 0)

def SampleRun.transmit (run : SampleRun) (tvTs sentAt : Timeval)
    (datagram : Datagram) : Transmission :=
  ⟨datagram, run.server.kindOf datagram, tvTs, sentAt, run.inits.length⟩

def SampleRun.move (words : List String) (run : SampleRun) :
    SampleEvent → Option SampleRun
  | .send tvTs tvInit sentAt =>
      (run.server.send words tvTs tvInit).map fun sent =>
        { server := sent.1
          sent := sent.2.toList.map (run.transmit tvTs sentAt) ++ run.sent
          inits := if sent.2.any run.server.startsTimer then
            tvInit :: run.inits else run.inits
          now := sentAt }
  | .receive _ ack tv =>
      (run.server.next words (.receive ack tv)).map fun server =>
        { run with server := server, now := tv }
  | .timeout =>
      (run.server.next words .timeout).map fun server =>
        { run with server := server }

def SampleRun.step (words : List String) (run : SampleRun)
    (event : SampleEvent) : Option SampleRun :=
  if run.Enabled event then run.move words event else none

def SampleRun.Initial (run : SampleRun) : Prop :=
  ∃ (server : Server) (now : Timeval), server.Initial ∧ now.Valid ∧
    run = ⟨server, [], [], now⟩

/-- What `receive_ack` passes to `rtt_stop`. -/
def Server.sample (server : Server) (ack : Ack) (tv : Timeval) : ℕ :=
  (((rttTs server.config.rttinfo tv : ℤ) - ack.ts) % 4294967296).toNat

/-- The time relative to the base, before it is cut to 32 bits. -/
def RttInfo.since (info : RttInfo) (tv : Timeval) : ℤ :=
  tv.millis - info.rttBase * 1000

/-- The datagram has the time of its transmission, counted from the base which
is in force now, and the counter has not wrapped around since. -/
def RttInfo.Stamped (info : RttInfo) (answered : Transmission)
    (tv : Timeval) : Prop :=
  answered.datagram.config.ts = rttTs info answered.sentAt ∧
    info.since answered.sentAt / 4294967296 = info.since tv / 4294967296

/-- A new datagram which left in the millisecond of its stamp is acknowledged
before `rtt_init` is called again and before the 32 bits of the counter, which
the last call started, are used up. -/
structure SampleRun.TimedBy (run : SampleRun) (answered : Transmission)
    (tv : Timeval) : Prop where
  kind : answered.kind = .new
  at_once : answered.stampedAt.millis = answered.sentAt.millis
  inits : answered.inits = run.inits.length
  counter : ∃ init ∈ run.inits.head?,
    tv.millis < init.tvSec * 1000 + 4294967296

/-! ## Arithmetic of the timestamps -/

theorem rttTs_eq (info : RttInfo) (tv : Timeval) :
    (rttTs info tv : ℤ) = info.since tv % 4294967296 := by
  unfold rttTs
  rw [Int.toNat_of_nonneg (by omega)]
  unfold RttInfo.since Timeval.millis
  congr 1
  omega

theorem Timeval.millis_le_millis
    {early late : Timeval} (hearly : early.Valid) (hlate : late.Valid)
    (hle : early.micros ≤ late.micros) :
    early.millis ≤ late.millis := by
  unfold Timeval.Valid at hearly hlate
  unfold Timeval.micros at hle
  unfold Timeval.millis
  rw [Int.tdiv_eq_ediv_of_nonneg hearly.1,
    Int.tdiv_eq_ediv_of_nonneg hlate.1]
  omega

theorem Timeval.sec_le_millis
    {early late : Timeval} (hearly : early.Valid) (hlate : late.Valid)
    (hle : early.micros ≤ late.micros) :
    early.tvSec * 1000 ≤ late.millis := by
  have hmillis := Timeval.millis_le_millis hearly hlate hle
  have husec : 0 ≤ early.tvUsec.tdiv 1000 :=
    Int.tdiv_nonneg hearly.1 (by decide)
  unfold Timeval.millis at hmillis ⊢
  omega

/-- Before the counter is used up, it has not wrapped around. -/
theorem RttInfo.since_div_eq
    {info : RttInfo} {init early late : Timeval}
    (hbase : info.rttBase = init.tvSec % 4294967296)
    (hearly : init.tvSec * 1000 ≤ early.millis)
    (hle : early.millis ≤ late.millis)
    (hlate : late.millis < init.tvSec * 1000 + 4294967296) :
    info.since early / 4294967296 = info.since late / 4294967296 := by
  unfold RttInfo.since
  rw [hbase]
  omega

/-- A difference of two 32-bit counters is the difference of what they count
exactly when neither has wrapped around in between. -/
theorem wrapped_sub_iff
    {early late ts : ℤ} (hle : early ≤ late) (hts : 0 ≤ ts) :
    (late % 4294967296 - ts) % 4294967296 = late - early ∧
        ts ≤ late % 4294967296 ↔
      ts = early % 4294967296 ∧
        early / 4294967296 = late / 4294967296 := by
  constructor
  · rintro ⟨hdiff, hnowrap⟩
    omega
  · rintro ⟨hts, hsame⟩
    omega

/-! ## Steps and runs -/

/-- The transmissions and the calls of `rtt_init` are in the past. -/
structure SampleRun.Timely (run : SampleRun) : Prop where
  now_valid : run.now.Valid
  sent_valid : ∀ transmission ∈ run.sent, transmission.sentAt.Valid
  sent_le : ∀ transmission ∈ run.sent,
    transmission.sentAt.micros ≤ run.now.micros
  inits_valid : ∀ init ∈ run.inits, init.Valid
  inits_le : ∀ init ∈ run.inits, init.micros ≤ run.now.micros

theorem SampleRun.step_eq_some_iff
    {words : List String} {run next : SampleRun} {event : SampleEvent} :
    run.step words event = some next ↔
      run.Enabled event ∧ run.move words event = some next := by
  unfold SampleRun.step
  split
  next henabled => simp [henabled]
  next henabled => simp [henabled]

theorem SampleRun.Timely.later
    {run : SampleRun} (htimely : run.Timely) {tv : Timeval}
    (hvalid : tv.Valid) (hlater : run.now.micros ≤ tv.micros)
    (server : Server) :
    SampleRun.Timely { run with server := server, now := tv } := by
  refine ⟨hvalid, htimely.sent_valid, ?_, htimely.inits_valid, ?_⟩
  · intro transmission hsent
    exact (htimely.sent_le transmission hsent).trans hlater
  · intro init hinit
    exact (htimely.inits_le init hinit).trans hlater

theorem SampleRun.Timely.send
    {words : List String} {run next : SampleRun} (htimely : run.Timely)
    {tvTs tvInit sentAt : Timeval}
    (henabled : run.Enabled (.send tvTs tvInit sentAt))
    (hmove : run.move words (.send tvTs tvInit sentAt) = some next) :
    next.Timely := by
  rcases henabled with ⟨hvalid, hvalidInit, hts, hinit, hsent⟩
  simp only [SampleRun.move, Option.map_eq_some_iff] at hmove
  rcases hmove with ⟨⟨server, datagram⟩, _, rfl⟩
  have hkept := htimely.later hvalid (hts.trans (hinit.trans hsent)) server
  have hmem : ∀ transmission ∈
      datagram.toList.map (run.transmit tvTs sentAt) ++ run.sent,
      transmission.sentAt = sentAt ∨ transmission ∈ run.sent := by
    intro transmission hsent
    simp only [List.mem_append, List.mem_map] at hsent
    rcases hsent with ⟨_, _, rfl⟩ | hsent
    · exact .inl rfl
    · exact .inr hsent
  have hmemInit : ∀ init ∈
      (if datagram.any run.server.startsTimer then tvInit :: run.inits
        else run.inits),
      init = tvInit ∨ init ∈ run.inits := by
    intro init hmem
    split at hmem
    · exact List.mem_cons.mp hmem
    · exact .inr hmem
  refine ⟨hvalid, ?_, ?_, ?_, ?_⟩
  · intro transmission hsent
    rcases hmem transmission hsent with hnew | hold
    · rw [hnew]
      exact hvalid
    · exact hkept.sent_valid transmission hold
  · intro transmission hsent
    rcases hmem transmission hsent with hnew | hold
    · rw [hnew]
    · exact hkept.sent_le transmission hold
  · intro init hmem
    rcases hmemInit init hmem with rfl | hold
    · exact hvalidInit
    · exact hkept.inits_valid init hold
  · intro init hmem
    rcases hmemInit init hmem with rfl | hold
    · exact hsent
    · exact hkept.inits_le init hold

theorem SampleRun.Timely.step
    {words : List String} {run next : SampleRun} {event : SampleEvent}
    (htimely : run.Timely) (hstep : run.step words event = some next) :
    next.Timely := by
  rcases SampleRun.step_eq_some_iff.mp hstep with ⟨henabled, hmove⟩
  cases event with
  | send tvTs tvInit sentAt => exact htimely.send henabled hmove
  | receive answered ack tv =>
      rcases henabled with ⟨hvalid, hlater, _, _⟩
      simp only [SampleRun.move, Option.map_eq_some_iff] at hmove
      rcases hmove with ⟨server, _, rfl⟩
      exact htimely.later hvalid hlater server
  | timeout =>
      simp only [SampleRun.move, Option.map_eq_some_iff] at hmove
      rcases hmove with ⟨server, _, rfl⟩
      exact htimely.later htimely.now_valid le_rfl server

/-- The last or the expected number ends the wait by way of `rtt_stop`. -/
theorem Server.receiveAck_rttinfo
    {server : Server} {wait : AckWait} {ack : Ack}
    (hends : server.config.AckPastLast ack.seq ∨
      (ack.seq : ℤ) = wait.expectedSeqNum) (tv : Timeval) :
    (server.receiveAck wait ack tv).config.rttinfo =
      rttStop server.config.rttinfo (server.sample ack tv) := by
  rcases server.receiveAck_cases wait ack tv with
    ⟨_, heq⟩ | ⟨_, _, heq⟩ | ⟨hlast, hother, _, _⟩ | ⟨hlast, hother, _, _⟩
  · rw [heq]
    rfl
  · rw [heq]
    rfl
  · rcases hends with hends | hends
    · exact absurd hends hlast
    · exact absurd hends hother
  · rcases hends with hends | hends
    · exact absurd hends hlast
    · exact absurd hends hother

theorem SampleRun.receive_rttinfo
    {words : List String} {run next : SampleRun}
    {answered : Transmission} {ack : Ack} {tv : Timeval}
    (hstep : run.step words (.receive answered ack tv) = some next)
    {wait : AckWait} (hpoint : run.server.point = .waiting wait)
    (hends : run.server.config.AckPastLast ack.seq ∨
      (ack.seq : ℤ) = wait.expectedSeqNum) :
    next.server.config.rttinfo =
      rttStop run.server.config.rttinfo (run.server.sample ack tv) := by
  rcases SampleRun.step_eq_some_iff.mp hstep with ⟨_, hmove⟩
  simp only [SampleRun.move, Option.map_eq_some_iff] at hmove
  rcases hmove with ⟨server, hserver, rfl⟩
  cases Server.moves_of_next hserver with
  | receive hother =>
      rw [hpoint] at hother
      cases hother
      exact Server.receiveAck_rttinfo hends tv

/-! ## The stamps of the transmissions -/

theorem rttTs_congr
    {info other : RttInfo} (hbase : info.rttBase = other.rttBase)
    (tv : Timeval) :
    rttTs info tv = rttTs other tv := by
  unfold rttTs
  rw [hbase]

/-- A new datagram which does not start the timer is stamped for the base
which is in force after it. -/
theorem Server.sendPacket_stamped
    {server : Server} (hnew : server.config.lastUnackedSeq = -1)
    (hstarted : server.config.rttinit ≠ 0) (words : List String)
    (packetCount : ℕ) (cwnd rwnd : ℤ) (tvTs tvInit : Timeval) :
    (server.sendPacket words packetCount cwnd rwnd tvTs
        tvInit).2.config.ts =
      rttTs (server.sendPacket words packetCount cwnd rwnd tvTs
        tvInit).1.config.rttinfo tvTs := by
  have hload : (server.load words tvTs).ts =
      rttTs server.config.rttinfo tvTs := by
    rw [Server.load, if_neg (not_not.mpr hnew)]
    rfl
  refine hload.trans (rttTs_congr ?_ tvTs)
  rw [Server.sendPacket_config]
  simp only [if_neg hstarted]
  rfl

theorem Server.sendPacket_base
    {server : Server} (hstarted : server.config.rttinit ≠ 0)
    (words : List String) (packetCount : ℕ) (cwnd rwnd : ℤ)
    (tvTs tvInit : Timeval) :
    (server.sendPacket words packetCount cwnd rwnd tvTs
        tvInit).1.config.rttinfo.rttBase =
      server.config.rttinfo.rttBase := by
  rw [Server.sendPacket_config]
  simp only [if_neg hstarted]
  rfl

theorem Server.sendPacket_newBase
    {server : Server} (hinit : server.config.rttinit = 0)
    (words : List String) (packetCount : ℕ) (cwnd rwnd : ℤ)
    (tvTs tvInit : Timeval) :
    (server.sendPacket words packetCount cwnd rwnd tvTs
        tvInit).1.config.rttinfo.rttBase =
      tvInit.tvSec % 4294967296 := by
  rw [Server.sendPacket_config]
  simp only [if_pos hinit]
  rfl

theorem Server.ackTimeout_base (server : Server) (wait : AckWait) :
    (server.ackTimeout wait).config.rttinfo.rttBase =
      server.config.rttinfo.rttBase := by
  rcases server.ackTimeout_cases wait with
    ⟨_, heq⟩ | ⟨_, _, heq⟩ | ⟨_, _, heq⟩
  all_goals
    rw [heq]
    rfl

/-- Only `rtt_init` moves the base. -/
theorem Server.receiveAck_base
    (server : Server) (wait : AckWait) (ack : Ack) (tv : Timeval) :
    (server.receiveAck wait ack tv).config.rttinfo.rttBase =
      server.config.rttinfo.rttBase := by
  rcases server.receiveAck_cases wait ack tv with
    ⟨_, heq⟩ | ⟨_, _, heq⟩ | ⟨_, _, _, heq⟩ | ⟨_, _, _, heq⟩
  · rw [heq]
    rfl
  · rw [heq]
    rfl
  · rw [heq]
    exact Server.ackTimeout_base _ _
  · rw [heq]
    rfl

theorem Server.sendPacket_type_ne
    (words : List String) (server : Server) (packetCount : ℕ)
    (cwnd rwnd : ℤ) (tvTs tvInit : Timeval) :
    (server.sendPacket words packetCount cwnd rwnd tvTs
      tvInit).2.config.type ≠ .ping := by
  simp only [Server.sendPacket, Loaded.finish]
  split <;> decide

theorem Server.endBurst_type
    {server : Server} {ping : Datagram}
    (hsent : server.endBurst.2 = some ping) :
    ping.config.type = .ping := by
  unfold Server.endBurst at hsent
  grind [Server.pingDatagram]

/-- The base is that of the last call of `rtt_init`, and a new datagram
carries its stamp, counted from it, until the next call. -/
structure SampleRun.Dated (run : SampleRun) : Prop where
  based : ∀ init ∈ run.inits.head?,
    run.server.config.rttinfo.rttBase = init.tvSec % 4294967296
  inits_le : ∀ transmission ∈ run.sent,
    transmission.inits ≤ run.inits.length
  stamped : ∀ transmission ∈ run.sent, transmission.kind = .new →
    transmission.inits = run.inits.length →
      transmission.datagram.config.ts =
          rttTs run.server.config.rttinfo transmission.stampedAt ∧
        ∀ init ∈ run.inits, init.micros ≤ transmission.sentAt.micros

theorem SampleRun.Dated.of_base
    {run : SampleRun} (hdated : run.Dated) {server : Server}
    (hbase : server.config.rttinfo.rttBase =
      run.server.config.rttinfo.rttBase) (now : Timeval) :
    SampleRun.Dated { run with server := server, now := now } := by
  refine ⟨?_, hdated.inits_le, ?_⟩
  · intro init hinit
    exact hbase.trans (hdated.based init hinit)
  · intro transmission hsent hkind hinits
    rcases hdated.stamped transmission hsent hkind hinits with
      ⟨hts, hlater⟩
    exact ⟨hts.trans (rttTs_congr hbase.symm _), hlater⟩

/-- A datagram for which `rtt_init` is called makes all stamps old, its own
included. -/
theorem SampleRun.Dated.restarted
    {run : SampleRun} (hdated : run.Dated) {server : Server}
    {tvInit : Timeval}
    (hbase : server.config.rttinfo.rttBase = tvInit.tvSec % 4294967296)
    (datagram : Datagram) (tvTs sentAt : Timeval) :
    SampleRun.Dated ⟨server, run.transmit tvTs sentAt datagram :: run.sent,
      tvInit :: run.inits, sentAt⟩ := by
  have hold : ∀ transmission ∈
      run.transmit tvTs sentAt datagram :: run.sent,
      transmission.inits ≤ run.inits.length := by
    intro transmission hsent
    rcases List.mem_cons.mp hsent with rfl | hsent
    · exact le_rfl
    · exact hdated.inits_le transmission hsent
  refine ⟨?_, ?_, ?_⟩
  · rintro init ⟨⟩
    exact hbase
  · intro transmission hsent
    exact (hold transmission hsent).trans (Nat.le_succ _)
  · intro transmission hsent _ hinits
    have hle := hold transmission hsent
    rw [List.length_cons] at hinits
    omega

theorem SampleRun.Dated.transmitted
    {run : SampleRun} (hdated : run.Dated) {server : Server}
    (hbase : server.config.rttinfo.rttBase =
      run.server.config.rttinfo.rttBase)
    {datagram : Datagram} {tvTs sentAt : Timeval}
    (hlater : ∀ init ∈ run.inits, init.micros ≤ sentAt.micros)
    (hstamped : run.server.kindOf datagram = .new →
      datagram.config.ts = rttTs server.config.rttinfo tvTs) :
    SampleRun.Dated ⟨server, run.transmit tvTs sentAt datagram :: run.sent,
      run.inits, sentAt⟩ := by
  have hkept := hdated.of_base hbase sentAt
  refine ⟨hkept.based, ?_, ?_⟩
  · intro transmission hsent
    rcases List.mem_cons.mp hsent with rfl | hsent
    · exact le_rfl
    · exact hkept.inits_le transmission hsent
  · intro transmission hsent hkind hinits
    rcases List.mem_cons.mp hsent with rfl | hsent
    · exact ⟨hstamped hkind, hlater⟩
    · exact hkept.stamped transmission hsent hkind hinits

theorem Server.kindOf_new
    {server : Server} {datagram : Datagram}
    (hnew : server.kindOf datagram = .new) :
    server.config.lastUnackedSeq = -1 := by
  unfold Server.kindOf at hnew
  split at hnew
  next => cases hnew
  next =>
    split at hnew
    next => cases hnew
    next hnone => exact not_not.mp hnone

theorem SampleRun.Dated.send
    {words : List String} {run next : SampleRun} (hdated : run.Dated)
    (htimely : run.Timely) {tvTs tvInit sentAt : Timeval}
    (henabled : run.Enabled (.send tvTs tvInit sentAt))
    (hmove : run.move words (.send tvTs tvInit sentAt) = some next) :
    next.Dated := by
  have hlater : ∀ init ∈ run.inits, init.micros ≤ sentAt.micros := by
    rcases henabled with ⟨_, _, hts, hinit, hsent⟩
    intro init hmem
    exact (htimely.inits_le init hmem).trans
      (hts.trans (hinit.trans hsent))
  simp only [SampleRun.move, Option.map_eq_some_iff] at hmove
  rcases hmove with ⟨sent, hsend, rfl⟩
  rcases Server.send_cases hsend with
    ⟨packetCount, cwnd, rwnd, _, _, _, rfl⟩ | rfl
  · have htype := Server.sendPacket_type_ne words run.server packetCount
      cwnd rwnd tvTs tvInit
    by_cases hstarted : run.server.config.rttinit = 0
    · simp only [Option.toList_some, List.map_singleton,
        List.singleton_append, Option.any_some, Server.startsTimer, htype,
        hstarted, ne_eq, not_false_eq_true, decide_true, Bool.and_self,
        if_true]
      exact hdated.restarted
        (Server.sendPacket_newBase hstarted words _ _ _ _ _) _ _ _
    · simp only [Option.toList_some, List.map_singleton,
        List.singleton_append, Option.any_some, Server.startsTimer,
        hstarted, decide_false, Bool.and_false, Bool.false_eq_true,
        if_false]
      refine hdated.transmitted
        (Server.sendPacket_base hstarted words _ _ _ _ _) hlater ?_
      intro hnew
      exact Server.sendPacket_stamped (Server.kindOf_new hnew) hstarted
        words packetCount cwnd rwnd tvTs tvInit
  · have hbase : run.server.endBurst.1.config.rttinfo.rttBase =
        run.server.config.rttinfo.rttBase := by
      rw [Server.endBurst_config]
    cases hsent : run.server.endBurst.2 with
    | none => simpa using hdated.of_base hbase sentAt
    | some ping =>
        have htype := Server.endBurst_type hsent
        simp only [Option.toList_some, List.map_singleton,
          List.singleton_append, Option.any_some, Server.startsTimer, htype,
          ne_eq, not_true_eq_false, decide_false, Bool.false_and,
          Bool.false_eq_true, if_false]
        refine hdated.transmitted hbase hlater ?_
        intro hnew
        rw [Server.kindOf, if_pos htype] at hnew
        cases hnew

theorem SampleRun.Dated.step
    {words : List String} {run next : SampleRun} {event : SampleEvent}
    (hdated : run.Dated) (htimely : run.Timely)
    (hstep : run.step words event = some next) :
    next.Dated := by
  rcases SampleRun.step_eq_some_iff.mp hstep with ⟨henabled, hmove⟩
  cases event with
  | send tvTs tvInit sentAt => exact hdated.send htimely henabled hmove
  | receive answered ack tv =>
      simp only [SampleRun.move, Option.map_eq_some_iff] at hmove
      rcases hmove with ⟨server, hserver, rfl⟩
      cases Server.moves_of_next hserver with
      | receive => exact hdated.of_base (Server.receiveAck_base _ _ _ _) tv
  | timeout =>
      simp only [SampleRun.move, Option.map_eq_some_iff] at hmove
      rcases hmove with ⟨server, hserver, rfl⟩
      cases Server.moves_of_next hserver with
      | timeout => exact hdated.of_base (Server.ackTimeout_base _ _) run.now

theorem SampleRun.of_reachable
    {words : List String} {run : SampleRun}
    (hreach : Transition.Reachable (SampleRun.step words)
      Transition.Unrestricted SampleRun.Initial run) :
    run.Timely ∧ run.Dated := by
  refine hreach.invariant (fun run => run.Timely ∧ run.Dated) ?_ ?_
  · rintro start ⟨server, now, _, hvalid, rfl⟩
    constructor
    · refine ⟨hvalid, ?_, ?_, ?_, ?_⟩ <;>
        exact fun _ hmem => (List.not_mem_nil hmem).elim
    · refine ⟨fun _ hmem => (Option.not_mem_none _ hmem).elim, ?_, ?_⟩ <;>
        exact fun _ hmem => (List.not_mem_nil hmem).elim
  · rintro run event next ⟨htimely, hdated⟩ _ hstep
    exact ⟨htimely.step hstep, hdated.step htimely hstep⟩

/-! ## The samples -/

theorem SampleRun.Timely.millis_le
    {run : SampleRun} (htimely : run.Timely) {answered : Transmission}
    {ack : Ack} {tv : Timeval}
    (henabled : run.Enabled (.receive answered ack tv)) :
    answered.sentAt.millis ≤ tv.millis := by
  rcases henabled with ⟨hvalid, hlater, hsent, _⟩
  exact Timeval.millis_le_millis (htimely.sent_valid _ hsent) hvalid
    ((htimely.sent_le _ hsent).trans hlater)

/-- The difference is the time which has passed, without a wrapped
subtraction, exactly when the stamp is right for the base in force. -/
theorem SampleRun.Timely.sample_iff
    {run : SampleRun} (htimely : run.Timely) {answered : Transmission}
    {ack : Ack} {tv : Timeval}
    (henabled : run.Enabled (.receive answered ack tv)) :
    ((run.server.sample ack tv : ℕ) : ℤ) =
          tv.millis - answered.sentAt.millis ∧
        ack.ts ≤ rttTs run.server.config.rttinfo tv ↔
      run.server.config.rttinfo.Stamped answered tv := by
  have hle := htimely.millis_le henabled
  have hsince : run.server.config.rttinfo.since answered.sentAt ≤
      run.server.config.rttinfo.since tv := by
    unfold RttInfo.since
    omega
  have hdiff : tv.millis - answered.sentAt.millis =
      run.server.config.rttinfo.since tv -
        run.server.config.rttinfo.since answered.sentAt := by
    unfold RttInfo.since
    omega
  have hiff := wrapped_sub_iff hsince (Int.natCast_nonneg ack.ts)
  rw [← rttTs_eq, ← rttTs_eq, Int.ofNat_le, Int.ofNat_inj] at hiff
  unfold RttInfo.Stamped Server.sample
  rw [Int.toNat_of_nonneg (by omega), hdiff, ← henabled.2.2.2]
  exact hiff

theorem SampleRun.Dated.stamped_of_timedBy
    {run : SampleRun} (hdated : run.Dated) (htimely : run.Timely)
    {answered : Transmission} {ack : Ack} {tv : Timeval}
    (henabled : run.Enabled (.receive answered ack tv))
    (htimed : run.TimedBy answered tv) :
    run.server.config.rttinfo.Stamped answered tv := by
  have hsent := henabled.2.2.1
  rcases hdated.stamped answered hsent htimed.kind htimed.inits with
    ⟨hts, hlater⟩
  rcases htimed.counter with ⟨init, hinit, hcounter⟩
  have hmem := List.mem_of_mem_head? hinit
  constructor
  · rw [hts, ← Int.ofNat_inj, rttTs_eq, rttTs_eq]
    unfold RttInfo.since
    rw [htimed.at_once]
  · exact RttInfo.since_div_eq (hdated.based init hinit)
      (Timeval.sec_le_millis (htimely.inits_valid init hmem)
        (htimely.sent_valid answered hsent) (hlater init hmem))
      (htimely.millis_le henabled) hcounter

/-- Over all runs with an honest client and a clock which does not run
backwards: when the acknowledgement of a new datagram ends a wait, and
`rtt_init` was not called since the datagram was stamped, the value passed to
`rtt_stop` is the time since its transmission, and the subtraction does not
wrap. -/
theorem rttSample_eq_elapsed
    {words : List String} {run next : SampleRun}
    (hreach : Transition.Reachable (SampleRun.step words)
      Transition.Unrestricted SampleRun.Initial run)
    {answered : Transmission} {ack : Ack} {tv : Timeval}
    (hstep : run.step words (.receive answered ack tv) = some next)
    {wait : AckWait} (hpoint : run.server.point = .waiting wait)
    (hends : run.server.config.AckPastLast ack.seq ∨
      (ack.seq : ℤ) = wait.expectedSeqNum)
    (htimed : run.TimedBy answered tv) :
    next.server.config.rttinfo =
        rttStop run.server.config.rttinfo (run.server.sample ack tv) ∧
      ((run.server.sample ack tv : ℕ) : ℤ) =
        tv.millis - answered.sentAt.millis ∧
      ack.ts ≤ rttTs run.server.config.rttinfo tv := by
  rcases SampleRun.of_reachable hreach with ⟨htimely, hdated⟩
  have henabled := (SampleRun.step_eq_some_iff.mp hstep).1
  refine ⟨SampleRun.receive_rttinfo hstep hpoint hends, ?_⟩
  exact (htimely.sample_iff henabled).mpr
    (hdated.stamped_of_timedBy htimely henabled htimed)

/-! ## The first two datagrams -/

/-- Whole seconds of the clock. -/
def atSecond (sec : ℤ) : Timeval :=
  ⟨sec, 0⟩

/-- A datagram of the file is sent and the burst ends. -/
def sendAt (sec : ℤ) : List SampleEvent :=
  [.send (atSecond sec) (atSecond sec) (atSecond sec),
    .send (atSecond sec) (atSecond sec) (atSecond sec)]

/-- The first datagram, sent at second `100`, is stamped before
`rtt_init`. -/
def firstSent : Transmission :=
  ⟨⟨⟨0, 100000, 0, .data⟩, "a"⟩, .new, atSecond 100, atSecond 100, 0⟩

/-- The second one is stamped after it. -/
def secondSent : Transmission :=
  ⟨⟨⟨1, 2000, 0, .data⟩, "b"⟩, .new, atSecond 102, atSecond 102, 1⟩

theorem freshSample_initial :
    SampleRun.Initial ⟨freshServer 1, [], [], atSecond 100⟩ :=
  ⟨_, _, freshServer_initial 1, by decide, rfl⟩

def SampleRun.receives (words : List String) (run : SampleRun)
    (answered : Transmission) (ack : Ack) (tv : Timeval) : Bool :=
  (run.step words (.receive answered ack tv)).isSome &&
    run.server.point.wait?.any fun wait =>
      decide ((ack.seq : ℤ) = wait.expectedSeqNum)

theorem SampleRun.exists_of_receives
    {words : List String} {run : SampleRun} {answered : Transmission}
    {ack : Ack} {tv : Timeval}
    (hreceives : run.receives words answered ack tv = true) :
    ∃ next wait,
      run.step words (.receive answered ack tv) = some next ∧
      run.server.point = .waiting wait ∧
      (ack.seq : ℤ) = wait.expectedSeqNum := by
  simp only [SampleRun.receives, Bool.and_eq_true,
    Option.isSome_iff_exists, Option.any_eq_true,
    decide_eq_true_eq] at hreceives
  rcases hreceives with ⟨⟨next, hnext⟩, wait, hwait, hseq⟩
  exact ⟨next, wait, hnext, ServerPoint.mem_wait?_iff.mp hwait, hseq⟩

/-- The second datagram is acknowledged after one second. -/
theorem rttSample_eq_elapsed_second :
    ∃ run next, Transition.Reachable (SampleRun.step ["a", "b"])
        Transition.Unrestricted SampleRun.Initial run ∧
      run.step ["a", "b"] (.receive secondSent ⟨2, 2000, 1⟩
        (atSecond 103)) = some next ∧
      run.TimedBy secondSent (atSecond 103) ∧
      ((run.server.sample ⟨2, 2000, 1⟩ (atSecond 103) : ℕ) : ℤ) =
        (atSecond 103).millis - secondSent.sentAt.millis := by
  obtain ⟨run, hreach, htest⟩ :=
    Transition.exists_reachable_of_replay (SampleRun.step ["a", "b"])
      Transition.Unrestricted freshSample_initial
      (sendAt 100 ++ [.receive firstSent ⟨1, 100000, 1⟩ (atSecond 101)] ++
        sendAt 102)
      (fun run => run.receives ["a", "b"] secondSent ⟨2, 2000, 1⟩
          (atSecond 103) &&
        decide (run.inits = [atSecond 100]))
      (by decide +kernel)
  simp only [Bool.and_eq_true, decide_eq_true_eq] at htest
  rcases htest with ⟨hreceives, hinits⟩
  rcases SampleRun.exists_of_receives hreceives with
    ⟨next, wait, hstep, hpoint, hseq⟩
  have htimed : run.TimedBy secondSent (atSecond 103) := by
    refine ⟨rfl, rfl, ?_, atSecond 100, ?_, by decide⟩
    · rw [hinits]
      rfl
    · rw [hinits]
      rfl
  exact ⟨run, next, hreach, hstep, htimed,
    (rttSample_eq_elapsed hreach hstep hpoint (.inr hseq) htimed).2.1⟩

/-- The first one as well, but the sample is more than seven weeks. -/
theorem rttSample_wraps :
    ∃ run next, Transition.Reachable (SampleRun.step ["a", "b"])
        Transition.Unrestricted SampleRun.Initial run ∧
      run.step ["a", "b"] (.receive firstSent ⟨1, 100000, 1⟩
        (atSecond 101)) = some next ∧
      (atSecond 101).millis - firstSent.sentAt.millis = 1000 ∧
      run.server.sample ⟨1, 100000, 1⟩ (atSecond 101) = 4294868296 ∧
      next.server.config.rttinfo = rttStop run.server.config.rttinfo
        (run.server.sample ⟨1, 100000, 1⟩ (atSecond 101)) := by
  obtain ⟨run, hreach, htest⟩ :=
    Transition.exists_reachable_of_replay (SampleRun.step ["a", "b"])
      Transition.Unrestricted freshSample_initial (sendAt 100)
      (fun run => run.receives ["a", "b"] firstSent ⟨1, 100000, 1⟩
          (atSecond 101) &&
        decide (run.server.sample ⟨1, 100000, 1⟩ (atSecond 101) =
          4294868296))
      (by decide +kernel)
  simp only [Bool.and_eq_true, decide_eq_true_eq] at htest
  rcases htest with ⟨hreceives, hsample⟩
  rcases SampleRun.exists_of_receives hreceives with
    ⟨next, wait, hstep, hpoint, hseq⟩
  exact ⟨run, next, hreach, hstep, by decide, hsample,
    SampleRun.receive_rttinfo hstep hpoint (.inr hseq)⟩

end NetworkProgramming.Transfer
