import NetworkProgramming.TransferServerStep
import Mathlib.Data.Int.GCD
import Mathlib.Tactic.Ring

/-!
# The fields which nobody sets

`udp_reliable_transfer` leaves `isEOF` and the contents of `rttinfo_ptr` of
its `th_config` as they are on the stack.  Two transfers of the same file, with
the same clock readings, acknowledgements and timeouts, are run side by side
from configurations which differ in those fields.  `isEOF` is read before it
is written, the timestamp of the first new datagram is taken before `rtt_init`,
and a closed window keeps the server from `rtt_newpack`.
-/

namespace NetworkProgramming.Transfer

/-! ## A transfer as it is seen from outside -/

/-- The assignments of `udp_reliable_transfer`, followed by those of
`send_file_data`. -/
def udpReliableTransfer (config : ThConfig) (qObj : Datagram)
    (servRwnd : ℤ) : Server :=
  Server.start { config with rwnd := -1, rttinit := 0 } qObj servRwnd

inductive Ending where
  | running
  | returned
  | gaveUp
  deriving DecidableEq, Repr

def Server.ending (server : Server) : Ending :=
  match server.point with
  | .sending _ _ _ => .running
  | .waiting _ => .running
  | .returned => .returned
  | .gaveUp => .gaveUp

/-- One event and the datagrams which it puts on the network. -/
def Server.act (words : List String) (server : Server) :
    ServerEvent → Option (Server × List Datagram)
  | .send tvTs tvInit =>
      (server.send words tvTs tvInit).map fun sent =>
        (sent.1, sent.2.toList)
  | .receive ack tv =>
      match server.point with
      | .waiting wait => some (server.receiveAck wait ack tv, [])
      | _ => none
  | .timeout =>
      match server.point with
      | .waiting wait => some (server.ackTimeout wait, [])
      | _ => none

/-- The datagrams of a transfer and how it ends. -/
def Server.transcript (words : List String) (server : Server)
    (events : List ServerEvent) : Option (List Datagram × Ending) :=
  Transition.transcript (Server.act words) Server.ending server events

/-! ## What is left of the timer -/

/-- A second has eight times an odd number of milliseconds. -/
theorem dvd_thousand_mul_iff (d : ℤ) :
    (4294967296 : ℤ) ∣ d * 1000 ↔ (536870912 : ℤ) ∣ d := by
  have hword : (4294967296 : ℤ) = 536870912 * 8 := by decide
  have hfactor : d * 1000 = d * 125 * 8 := by ring
  rw [hword, hfactor, mul_dvd_mul_iff_right (by decide)]
  constructor
  · intro hdvd
    exact Int.dvd_of_dvd_mul_left_of_gcd_one hdvd (by decide)
  · intro hdvd
    exact hdvd.mul_right 125

/-- Timestamps are the same at every clock reading or at none. -/
theorem rttTs_eq_iff (left right : RttInfo) (tv : Timeval) :
    rttTs left tv = rttTs right tv ↔
      (left.rttBase - right.rttBase) % 536870912 = 0 := by
  have hdiff : (tv.tvSec - left.rttBase) * 1000 + tv.tvUsec.tdiv 1000 -
      ((tv.tvSec - right.rttBase) * 1000 + tv.tvUsec.tdiv 1000) =
      -((left.rttBase - right.rttBase) * 1000) := by ring
  have hnonneg : ∀ ms : ℤ, 0 ≤ ms % 4294967296 :=
    fun ms => Int.emod_nonneg ms (by decide)
  unfold rttTs
  rw [← Int.natCast_inj, Int.toNat_of_nonneg (hnonneg _),
    Int.toNat_of_nonneg (hnonneg _),
    Int.emod_eq_emod_iff_emod_sub_eq_zero, hdiff,
    ← Int.dvd_iff_emod_eq_zero, ← Int.dvd_iff_emod_eq_zero, Int.dvd_neg]
  exact dvd_thousand_mul_iff _

/-- The timers give up together. -/
def RttInfo.GivesUpWith (left right : RttInfo) : Prop :=
  min left.rttNrexmt rttMaxnrexmt = min right.rttNrexmt rttMaxnrexmt

instance (left right : RttInfo) : Decidable (left.GivesUpWith right) :=
  inferInstanceAs (Decidable (_ = _))

theorem RttInfo.GivesUpWith.timeout
    {left right : RttInfo} (hcount : left.GivesUpWith right) :
    (rttTimeout left).2 = (rttTimeout right).2 ∧
    (rttTimeout left).1.GivesUpWith (rttTimeout right).1 := by
  simp only [RttInfo.GivesUpWith, rttMaxnrexmt] at hcount
  constructor
  · rw [Bool.eq_iff_iff, rttTimeout_gives_up_iff, rttTimeout_gives_up_iff]
    simp only [rttMaxnrexmt]
    omega
  · simp only [rttTimeout, RttInfo.GivesUpWith, rttMaxnrexmt]
    omega

/-- Configurations which `send_file_data` cannot tell apart, the counter of
`rtt_timeout` aside. -/
structure ThConfig.Alike (left right : ThConfig) : Prop where
  rwnd : right.rwnd = left.rwnd
  lastUnackedSeq : right.lastUnackedSeq = left.lastUnackedSeq
  rttinit : right.rttinit = left.rttinit
  cwnd : right.cwnd = left.cwnd
  lastPackSeqNo : right.lastPackSeqNo = left.lastPackSeqNo
  ssthresh : right.ssthresh = left.ssthresh
  isEOF : right.isEOF = 1 ↔ left.isEOF = 1
  base : (left.rttinfo.rttBase - right.rttinfo.rttBase) % 536870912 = 0

/-- The alarm only decides when a timeout comes. -/
def ServerPoint.withoutAlarm : ServerPoint → ServerPoint
  | .waiting wait => .waiting { wait with alarmMiliSecs := 0 }
  | point => point

/-- The next action is a datagram of a burst. -/
def Server.Primed (server : Server) : Prop :=
  ∃ packetCount cwnd rwnd,
    server.point = .sending packetCount cwnd rwnd ∧
    (packetCount : ℤ) < min cwnd rwnd ∧ server.config.isEOF ≠ 1

structure Server.SameData (left right : Server) : Prop where
  config : left.config.Alike right.config
  seqNum : right.seqNum = left.seqNum
  fp : right.fp = left.fp
  qObj : right.qObj = left.qObj

/-- The counter is the same from the first datagram on. -/
structure Server.Alike (left right : Server) : Prop
    extends left.SameData right where
  point : right.point.withoutAlarm = left.point.withoutAlarm
  counted : left.config.rttinfo.GivesUpWith right.config.rttinfo ∨ left.Primed

theorem Server.Alike.counted_of_not_sending
    {left right : Server} (halike : left.Alike right)
    (hpoint : ∀ packetCount cwnd rwnd,
      left.point ≠ .sending packetCount cwnd rwnd) :
    left.config.rttinfo.GivesUpWith right.config.rttinfo := by
  rcases halike.counted with hcounted | ⟨packetCount, cwnd, rwnd, hprimed, _⟩
  · exact hcounted
  · exact absurd hprimed (hpoint packetCount cwnd rwnd)

theorem ServerPoint.eq_of_withoutAlarm
    {left right : ServerPoint}
    (hpoint : right.withoutAlarm = left.withoutAlarm)
    (hleft : ∀ wait, left ≠ .waiting wait) :
    right = left := by
  cases left with
  | waiting wait => exact absurd rfl (hleft wait)
  | _ => cases right <;> simp_all [ServerPoint.withoutAlarm]

theorem ServerPoint.eq_waiting_of_withoutAlarm
    {left right : ServerPoint} {wait : AckWait}
    (hpoint : right.withoutAlarm = left.withoutAlarm)
    (hleft : left = .waiting wait) :
    ∃ alarm, right = .waiting { wait with alarmMiliSecs := alarm } := by
  subst hleft
  cases right with
  | waiting wait' =>
      simp only [ServerPoint.withoutAlarm, ServerPoint.waiting.injEq,
        AckWait.mk.injEq] at hpoint
      obtain ⟨hexpected, hprev, hfast, _⟩ := hpoint
      refine ⟨wait'.alarmMiliSecs, ?_⟩
      rw [← hexpected, ← hprev, ← hfast]
  | _ => cases hpoint

/-! ## One datagram -/

/-- Both servers load the same word and stamp it alike. -/
theorem Server.SameData.load
    {left right : Server} (hdata : left.SameData right)
    (words : List String) (tv : Timeval) :
    (right.load words tv).seqNum = (left.load words tv).seqNum ∧
    (right.load words tv).fp = (left.load words tv).fp ∧
    (right.load words tv).buf = (left.load words tv).buf ∧
    (right.load words tv).ts = (left.load words tv).ts ∧
    (left.load words tv).config.Alike (right.load words tv).config := by
  have hconfig := hdata.config
  have hts : rttTs right.config.rttinfo tv = rttTs left.config.rttinfo tv :=
    ((rttTs_eq_iff _ _ tv).mpr hconfig.base).symm
  unfold Server.load
  rw [hconfig.lastUnackedSeq]
  split
  · simp only [Server.loadRetransmit, hconfig.lastUnackedSeq, true_and]
    exact { hconfig with lastUnackedSeq := rfl }
  · simp only [Server.loadNext, hdata.seqNum, hdata.fp, hts,
      hconfig.lastPackSeqNo, true_and]
    split
    · exact { hconfig with lastPackSeqNo := rfl }
    · exact hconfig

theorem Server.SameData.sendPacket
    {left right : Server} (hdata : left.SameData right)
    (words : List String) (packetCount : ℕ) (cwnd rwnd : ℤ)
    (tvTs tvInit : Timeval) :
    (left.sendPacket words packetCount cwnd rwnd tvTs tvInit).1.Alike
      (right.sendPacket words packetCount cwnd rwnd tvTs tvInit).1 ∧
    (left.sendPacket words packetCount cwnd rwnd tvTs tvInit).2 =
      (right.sendPacket words packetCount cwnd rwnd tvTs tvInit).2 := by
  obtain ⟨hseq, hfp, hbuf, hts, hconfig⟩ := hdata.load words tvTs
  have hfinish : ((left.load words tvTs).finish tvInit).2 =
      ((right.load words tvTs).finish tvInit).2 := by
    simp only [Loaded.finish, hseq, hbuf, hts, hconfig.lastPackSeqNo]
  have hstarted : ((left.load words tvTs).finish tvInit).1.Alike
      ((right.load words tvTs).finish tvInit).1 := by
    simp only [Loaded.finish, hconfig.rttinit]
    split
    · exact { hconfig with
        rttinit := rfl
        base := by simp [rttInit, rttNewpack] }
    · exact { hconfig with base := hconfig.base }
  have hseqNum := congrArg Prod.fst hfinish
  have hdatagram := congrArg Prod.snd hfinish
  -- `rtt_newpack` has set the counter of both
  exact ⟨⟨⟨hstarted, hseqNum.symm, hfp, hdatagram.symm⟩, rfl, .inl rfl⟩,
    hdatagram⟩

theorem Server.SameData.endBurst
    {left right : Server} (hdata : left.SameData right)
    (hcounted : left.config.rttinfo.GivesUpWith right.config.rttinfo) :
    left.endBurst.1.Alike right.endBurst.1 ∧
    left.endBurst.2 = right.endBurst.2 := by
  have hconfig := hdata.config
  have hping : right.pingDatagram = left.pingDatagram := by
    simp only [Server.pingDatagram, hdata.qObj, hdata.seqNum]
  unfold Server.endBurst
  simp only [hconfig.isEOF, hconfig.rwnd, hping]
  split
  · exact ⟨⟨{ hdata with config := hconfig }, rfl, .inl hcounted⟩, rfl⟩
  · split
    · refine ⟨⟨{ hdata with qObj := rfl }, ?_, .inl hcounted⟩, rfl⟩
      simp [Server.enterReceiveAck, ServerPoint.withoutAlarm, hdata.seqNum]
    · refine ⟨⟨{ hdata with config := hconfig }, ?_, .inl hcounted⟩, rfl⟩
      simp [Server.enterReceiveAck, ServerPoint.withoutAlarm, hdata.seqNum]

/-! ## The ways out of `receive_ack` -/

/-- A new burst reads only the windows. -/
theorem Server.SameData.startBurst
    {left right : Server} (hdata : left.SameData right)
    (hcounted : left.config.rttinfo.GivesUpWith right.config.rttinfo) :
    left.startBurst.Alike right.startBurst where
  toSameData := { hdata with config := hdata.config }
  point := by
    simp [Server.startBurst, hdata.config.cwnd, hdata.config.rwnd]
  counted := .inl hcounted

theorem Server.SameData.ackTimeout
    {left right : Server} {wait wait' : AckWait}
    (hdata : left.SameData right)
    (hcounted : left.config.rttinfo.GivesUpWith right.config.rttinfo)
    (hprev : wait'.prevSeqNum = wait.prevSeqNum) :
    (left.ackTimeout wait).Alike (right.ackTimeout wait') := by
  have hconfig := hdata.config
  obtain ⟨hgives, hnext⟩ := hcounted.timeout
  have hpast : (wait.prevSeqNum > right.config.lastPackSeqNo ∧
      right.config.lastPackSeqNo ≠ -1) ↔
      (wait.prevSeqNum > left.config.lastPackSeqNo ∧
        left.config.lastPackSeqNo ≠ -1) := by
    rw [hconfig.lastPackSeqNo]
  simp only [Server.ackTimeout, hprev, hpast, ← hgives]
  split
  · apply Server.SameData.startBurst
    · exact { hdata with config := { hconfig with isEOF := Iff.rfl } }
    · exact hcounted
  · split
    · exact
        { hdata with
          config := { hconfig with rttinit := rfl, base := hconfig.base }
          point := rfl
          counted := .inl hnext }
    · apply Server.SameData.startBurst
      · exact
          { hdata with
            config :=
              { hconfig with
                rttinit := rfl
                cwnd := rfl
                ssthresh := by simp only [hconfig.cwnd]
                lastUnackedSeq := by simp only [hconfig.lastUnackedSeq]
                base := hconfig.base } }
      · exact hnext

theorem Server.SameData.ackDone
    {left right : Server} (hdata : left.SameData right)
    (hcounted : left.config.rttinfo.GivesUpWith right.config.rttinfo)
    (ack : Ack) (tv : Timeval) :
    (left.ackDone ack tv).Alike (right.ackDone ack tv) := by
  have hconfig := hdata.config
  apply Server.SameData.startBurst
  · exact
      { hdata with
        config :=
          { hconfig with lastUnackedSeq := rfl, base := hconfig.base } }
  · exact hcounted

theorem AckWait.count_alarm
    (wait : AckWait) (alarm : ℤ) (ack : Ack) :
    AckWait.count { wait with alarmMiliSecs := alarm } ack =
      { wait.count ack with alarmMiliSecs := alarm } := by
  unfold AckWait.count
  split <;> rfl

theorem Server.SameData.receiveAck
    {left right : Server} (hdata : left.SameData right)
    (hcounted : left.config.rttinfo.GivesUpWith right.config.rttinfo)
    (wait : AckWait) (alarm : ℤ) (ack : Ack) (tv : Timeval) :
    (left.receiveAck wait ack tv).Alike
      (right.receiveAck { wait with alarmMiliSecs := alarm } ack tv) := by
  have hconfig := hdata.config
  have hgrow : growCwnd right.config = growCwnd left.config := by
    simp only [growCwnd, hconfig.cwnd, hconfig.ssthresh]
  have hpast : (ack.seq > toUint32 right.config.lastPackSeqNo ∧
      right.config.lastPackSeqNo ≠ -1) ↔
      (ack.seq > toUint32 left.config.lastPackSeqNo ∧
        left.config.lastPackSeqNo ≠ -1) := by
    rw [hconfig.lastPackSeqNo]
  simp only [Server.receiveAck, hpast, hgrow, AckWait.count_alarm]
  split
  · apply Server.SameData.ackDone
    · exact
        { hdata with
          config := { hconfig with cwnd := rfl, isEOF := Iff.rfl } }
    · exact hcounted
  · have hheard : Server.SameData
        { left with config := { left.config with
          cwnd := growCwnd left.config
          rwnd := ack.rwnd } }
        { right with config := { right.config with
          cwnd := growCwnd left.config
          rwnd := ack.rwnd } } :=
      { hdata with config := { hconfig with cwnd := rfl, rwnd := rfl } }
    split
    · exact hheard.ackDone hcounted ack tv
    · split
      · apply hheard.ackTimeout hcounted
        rfl
      · exact
          { hheard with
            config := hheard.config
            point := rfl
            counted := .inl hcounted }

/-! ## The transfer -/

theorem Server.Alike.act
    {left right : Server} (halike : left.Alike right)
    (words : List String) (event : ServerEvent) :
    Option.Rel (fun next next' : Server × List Datagram =>
      next.1.Alike next'.1 ∧ next.2 = next'.2)
      (left.act words event) (right.act words event) := by
  have hpoint := halike.point
  cases hleft : left.point with
  | sending packetCount cwnd rwnd =>
      have hright := ServerPoint.eq_of_withoutAlarm hpoint
        fun _ hwait => by simp [hleft] at hwait
      rw [hleft] at hright
      cases event with
      | send tvTs tvInit =>
          simp only [Server.act, Server.send, hleft, hright, ne_eq,
            halike.config.isEOF]
          split
          · obtain ⟨hnext, hsent⟩ :=
              halike.sendPacket words packetCount cwnd rwnd tvTs tvInit
            exact .some ⟨hnext, by simp [hsent]⟩
          next hends =>
            have hcounted :
                left.config.rttinfo.GivesUpWith right.config.rttinfo := by
              rcases halike.counted with hcounted | hprimed
              · exact hcounted
              · obtain ⟨count, cwnd', rwnd', hsending, hsends⟩ := hprimed
                rw [hleft] at hsending
                cases hsending
                exact absurd hsends hends
            obtain ⟨hnext, hsent⟩ := halike.endBurst hcounted
            exact .some ⟨hnext, by simp [hsent]⟩
      | receive ack tv =>
          simp only [Server.act, hleft, hright]
          exact .none
      | timeout =>
          simp only [Server.act, hleft, hright]
          exact .none
  | waiting wait =>
      obtain ⟨alarm, hright⟩ :=
        ServerPoint.eq_waiting_of_withoutAlarm hpoint hleft
      have hcounted := halike.counted_of_not_sending
        fun _ _ _ hsending => by simp [hleft] at hsending
      cases event with
      | send tvTs tvInit =>
          simp only [Server.act, Server.send, hleft, hright]
          exact .none
      | receive ack tv =>
          simp only [Server.act, hleft, hright]
          exact .some ⟨halike.receiveAck hcounted wait alarm ack tv, rfl⟩
      | timeout =>
          simp only [Server.act, hleft, hright]
          exact .some ⟨halike.ackTimeout hcounted rfl, rfl⟩
  | returned =>
      have hright := ServerPoint.eq_of_withoutAlarm hpoint
        fun _ hwait => by simp [hleft] at hwait
      rw [hleft] at hright
      cases event <;> simp only [Server.act, Server.send, hleft, hright]
      all_goals exact .none
  | gaveUp =>
      have hright := ServerPoint.eq_of_withoutAlarm hpoint
        fun _ hwait => by simp [hleft] at hwait
      rw [hleft] at hright
      cases event <;> simp only [Server.act, Server.send, hleft, hright]
      all_goals exact .none

theorem Server.Alike.ending_eq
    {left right : Server} (halike : left.Alike right) :
    left.ending = right.ending := by
  have hpoint := halike.point
  unfold Server.ending
  cases hleft : left.point <;> cases hright : right.point <;>
    simp_all [ServerPoint.withoutAlarm]

theorem Server.Alike.transcript_eq
    {left right : Server} (halike : left.Alike right)
    (words : List String) (events : List ServerEvent) :
    left.transcript words events = right.transcript words events :=
  Transition.transcript_eq_of_lockstep
    (fun _ _ hpair => hpair.ending_eq)
    (fun _ _ event hpair => hpair.act words event) halike events

/-- With the flag set in both, both return at once. -/
def Server.Finished (left right : Server) : Prop :=
  left.config.isEOF = 1 ∧ right.config.isEOF = 1 ∧
  ((∃ packetCount cwnd rwnd, left.point = .sending packetCount cwnd rwnd ∧
      right.point = .sending packetCount cwnd rwnd) ∨
    (left.point = .returned ∧ right.point = .returned))

theorem Server.Finished.act
    {left right : Server} (hfinished : left.Finished right)
    (words : List String) (event : ServerEvent) :
    Option.Rel (fun next next' : Server × List Datagram =>
      next.1.Finished next'.1 ∧ next.2 = next'.2)
      (left.act words event) (right.act words event) := by
  obtain ⟨heof, heof', hpoint⟩ := hfinished
  rcases hpoint with ⟨packetCount, cwnd, rwnd, hleft, hright⟩ |
    ⟨hleft, hright⟩
  · cases event with
    | send tvTs tvInit =>
        simp only [Server.act, Server.send, Server.endBurst, hleft, hright,
          heof, heof', ne_eq, not_true_eq_false, and_false, if_false,
          if_true, Option.map_some]
        exact .some ⟨⟨heof, heof', .inr ⟨rfl, rfl⟩⟩, rfl⟩
    | receive ack tv =>
        simp only [Server.act, hleft, hright]
        exact .none
    | timeout =>
        simp only [Server.act, hleft, hright]
        exact .none
  · cases event <;> simp only [Server.act, Server.send, hleft, hright]
    all_goals exact .none

theorem Server.Finished.transcript_eq
    {left right : Server} (hfinished : left.Finished right)
    (words : List String) (events : List ServerEvent) :
    left.transcript words events = right.transcript words events := by
  apply Transition.transcript_eq_of_lockstep _ _ hfinished
  · rintro left right ⟨_, _, hpoint⟩
    rcases hpoint with ⟨_, _, _, hleft, hright⟩ | ⟨hleft, hright⟩ <;>
      simp only [Server.ending, hleft, hright]
  · exact fun left right event hpair => hpair.act words event

/-! ## Event lists which tell two transfers apart -/

def epoch : Timeval := ⟨0, 0⟩

theorem Server.transcript_cons
    {words : List String} {server next : Server} {event : ServerEvent}
    {sent : List Datagram}
    (hact : server.act words event = some (next, sent))
    (events : List ServerEvent) :
    server.transcript words (event :: events) =
      (next.transcript words events).map fun rest =>
        (sent ++ rest.1, rest.2) :=
  Transition.transcript_cons hact events

@[simp]
theorem Server.transcript_nil (words : List String) (server : Server) :
    server.transcript words [] = some ([], server.ending) :=
  rfl

theorem Server.act_packet
    {words : List String} {server : Server} {packetCount : ℕ}
    {cwnd rwnd : ℤ} (hpoint : server.point = .sending packetCount cwnd rwnd)
    (hcount : (packetCount : ℤ) < min cwnd rwnd)
    (heof : server.config.isEOF ≠ 1) (tvTs tvInit : Timeval) :
    server.act words (.send tvTs tvInit) =
      some ((server.sendPacket words packetCount cwnd rwnd tvTs tvInit).1,
        [(server.sendPacket words packetCount cwnd rwnd tvTs tvInit).2]) := by
  simp only [Server.act, Server.send, hpoint, if_pos (And.intro hcount heof)]
  rfl

theorem Server.act_endBurst
    {words : List String} {server : Server} {packetCount : ℕ}
    {cwnd rwnd : ℤ} (hpoint : server.point = .sending packetCount cwnd rwnd)
    (hends : ¬ ((packetCount : ℤ) < min cwnd rwnd ∧
      server.config.isEOF ≠ 1)) (tvTs tvInit : Timeval) :
    server.act words (.send tvTs tvInit) =
      some (server.endBurst.1, server.endBurst.2.toList) := by
  simp only [Server.act, Server.send, hpoint, if_neg hends, Option.map_some]

theorem Server.endBurst_ending (server : Server) :
    server.endBurst.1.ending =
      if server.config.isEOF = 1 then .returned else .running := by
  unfold Server.endBurst
  split
  · rfl
  · split <;> rfl

theorem Server.sendPacket_ts
    {server : Server} (hunacked : server.config.lastUnackedSeq = -1)
    (words : List String) (packetCount : ℕ) (cwnd rwnd : ℤ)
    (tvTs tvInit : Timeval) :
    (server.sendPacket words packetCount cwnd rwnd
      tvTs tvInit).2.config.ts = rttTs server.config.rttinfo tvTs := by
  simp [Server.sendPacket, Server.load, hunacked, Loaded.finish,
    Server.loadNext]

/-- The first action shows the flag. -/
theorem udpReliableTransfer_first_ending
    (config : ThConfig) (qObj : Datagram) (servRwnd : ℤ) :
    ((udpReliableTransfer config qObj servRwnd).transcript []
      [.send epoch epoch]).map Prod.snd =
      some (if config.isEOF = 1 then .returned else .running) := by
  have hpoint : (udpReliableTransfer config qObj servRwnd).point =
      .sending 0 1 servRwnd := rfl
  by_cases hsends : ((0 : ℕ) : ℤ) < min 1 servRwnd ∧ config.isEOF ≠ 1
  · rw [Server.transcript_cons
      (Server.act_packet hpoint hsends.1 hsends.2 _ _), if_neg hsends.2]
    rfl
  · rw [Server.transcript_cons (Server.act_endBurst hpoint hsends _ _)]
    simp only [Server.transcript_nil, Option.map_some,
      Server.endBurst_ending]
    rfl

/-- The first new datagram shows the base of the clock.  With a closed window
the client has to open it. -/
def firstDatagram (servRwnd : ℤ) : List ServerEvent :=
  if 1 ≤ servRwnd then [.send epoch epoch]
  else [.send epoch epoch, .receive ⟨0, 0, 1⟩ epoch, .send epoch epoch]

theorem udpReliableTransfer_first_ts
    {config : ThConfig} (heof : config.isEOF ≠ 1)
    (qObj : Datagram) (servRwnd : ℤ) :
    ((udpReliableTransfer config qObj servRwnd).transcript []
      (firstDatagram servRwnd)).map
        (fun report => report.1.getLast?.map fun sent => sent.config.ts) =
      some (some (rttTs config.rttinfo epoch)) := by
  have hpoint : (udpReliableTransfer config qObj servRwnd).point =
      .sending 0 1 servRwnd := rfl
  unfold firstDatagram
  split
  next hopen =>
    have hcount : ((0 : ℕ) : ℤ) < min 1 servRwnd := by omega
    rw [Server.transcript_cons (Server.act_packet hpoint hcount heof _ _)]
    simp only [Server.transcript_nil, Option.map_some, List.append_nil,
      List.getLast?_singleton]
    rw [Server.sendPacket_ts rfl]
    rfl
  next hclosed =>
    have hends : ¬ (((0 : ℕ) : ℤ) < min 1 servRwnd ∧
        config.isEOF ≠ 1) := by omega
    rw [Server.transcript_cons (Server.act_endBurst hpoint hends _ _)]
    -- the wait expects the number `0`, which the client asks for
    have hwait : (udpReliableTransfer config qObj servRwnd).endBurst.1.point
        = .waiting ⟨0, -1, 0, rttStart config.rttinfo⟩ := by
      rw [Server.endBurst_point]
      exact if_neg heof
    have hconfig := (udpReliableTransfer config qObj servRwnd).endBurst_config
    generalize (udpReliableTransfer config qObj servRwnd).endBurst = ended
      at hwait hconfig
    have hopened : ended.1.act [] (.receive ⟨0, 0, 1⟩ epoch) =
        some (Server.ackDone { ended.1 with
          config := ended.1.config.heard ⟨0, 0, 1⟩ } ⟨0, 0, 1⟩ epoch, []) := by
      simp only [Server.act, hwait]
      rcases ended.1.receiveAck_cases _ ⟨0, 0, 1⟩ epoch with
        ⟨hpast, _⟩ | ⟨_, _, heq⟩ | ⟨_, hexpected, _⟩ | ⟨_, hexpected, _⟩
      · exact absurd (by rw [hconfig]; rfl) hpast.2
      · rw [heq]
        rfl
      · exact absurd rfl hexpected
      · exact absurd rfl hexpected
    rw [Server.transcript_cons hopened]
    have hsending : (Server.ackDone { ended.1 with
        config := ended.1.config.heard ⟨0, 0, 1⟩ } ⟨0, 0, 1⟩ epoch).point =
        .sending 0 2 1 := by
      simp only [Server.ackDone, Server.startBurst, ThConfig.heard, hconfig]
      rfl
    have heof' : (Server.ackDone { ended.1 with
        config := ended.1.config.heard ⟨0, 0, 1⟩ }
          ⟨0, 0, 1⟩ epoch).config.isEOF ≠ 1 := by
      simp only [Server.ackDone, Server.startBurst, ThConfig.heard, hconfig]
      exact heof
    rw [Server.transcript_cons
      (Server.act_packet hsending (by decide) heof' _ _)]
    simp only [Server.transcript_nil, Option.map_some, List.nil_append,
      List.append_nil, List.getLast?_concat]
    rw [Server.sendPacket_ts rfl]
    simp only [Server.ackDone, Server.startBurst, ThConfig.heard, hconfig]
    rfl

/-! ## Giving up in front of a closed window -/

/-- Between two timeouts in front of a closed window. -/
structure Server.Shut (server : Server) (nrexmt : ℤ) : Prop where
  point : ∃ cwnd rwnd, server.point = .sending 0 cwnd rwnd ∧ rwnd ≤ 0
  rwnd : server.config.rwnd ≤ 0
  running : server.config.isEOF ≠ 1
  last : server.config.lastPackSeqNo = -1
  counted : server.config.rttinfo.rttNrexmt = nrexmt

/-- The burst which sends nothing, and the alarm. -/
theorem Server.Shut.round
    {server : Server} {nrexmt : ℤ} (hshut : server.Shut nrexmt)
    (words : List String) :
    ∃ (next : Server) (sent : List Datagram),
      (∀ events, server.transcript words
        (.send epoch epoch :: .timeout :: events) =
          (next.transcript words events).map fun rest =>
            (sent ++ rest.1, rest.2)) ∧
      (nrexmt < rttMaxnrexmt → next.Shut (nrexmt + 1)) ∧
      (rttMaxnrexmt ≤ nrexmt → next.ending = .gaveUp) := by
  obtain ⟨cwnd, rwnd, hpoint, hrwnd⟩ := hshut.point
  have hends : ¬ (((0 : ℕ) : ℤ) < min cwnd rwnd ∧
      server.config.isEOF ≠ 1) := by omega
  obtain ⟨wait, hwait⟩ :
      ∃ wait, server.endBurst.1.point = .waiting wait := by
    rw [Server.endBurst_point, if_neg hshut.running]
    exact ⟨_, rfl⟩
  have hconfig := server.endBurst_config
  have halarm : server.endBurst.1.act words .timeout =
      some (server.endBurst.1.ackTimeout wait, []) := by
    simp only [Server.act, hwait]
  refine ⟨server.endBurst.1.ackTimeout wait, server.endBurst.2.toList, ?_⟩
  constructor
  · intro events
    rw [Server.transcript_cons (Server.act_endBurst hpoint hends _ _),
      Server.transcript_cons halarm, Option.map_map]
    rfl
  · rcases server.endBurst.1.ackTimeout_cases wait with
      ⟨hpast, _⟩ | ⟨_, hcount, heq⟩ | ⟨_, hcount, heq⟩
    · exact absurd (by rw [hconfig, hshut.last]) hpast.2
    · rw [hconfig, hshut.counted] at hcount
      refine ⟨fun hless => by omega, fun _ => ?_⟩
      rw [heq]
      rfl
    · rw [hconfig, hshut.counted] at hcount
      refine ⟨fun _ => ?_, fun hmore => by omega⟩
      rw [heq, hconfig]
      exact
        { point := ⟨1, server.config.rwnd, rfl, hshut.rwnd⟩
          rwnd := hshut.rwnd
          running := hshut.running
          last := hshut.last
          counted := by
            simp [Server.startBurst, ThConfig.backOff, rttTimeout,
              hshut.counted] }

def silentRounds : ℕ → List ServerEvent
  | 0 => []
  | count + 1 => .send epoch epoch :: .timeout :: silentRounds count

theorem Server.Shut.ending_succ
    {server : Server} {nrexmt : ℤ} (hshut : server.Shut nrexmt)
    (words : List String) (count : ℕ) :
    ∃ next : Server,
      (server.transcript words (silentRounds (count + 1))).map Prod.snd =
        (next.transcript words (silentRounds count)).map Prod.snd ∧
      (nrexmt < rttMaxnrexmt → next.Shut (nrexmt + 1)) ∧
      (rttMaxnrexmt ≤ nrexmt → next.ending = .gaveUp) := by
  obtain ⟨next, sent, hround, hnext⟩ := hshut.round words
  refine ⟨next, ?_, hnext⟩
  rw [silentRounds, hround, Option.map_map]
  rfl

theorem Server.Shut.ending_of_below
    {server : Server} {nrexmt : ℤ} (hshut : server.Shut nrexmt)
    (words : List String) {count : ℕ}
    (hbelow : nrexmt + count ≤ rttMaxnrexmt) :
    (server.transcript words (silentRounds count)).map Prod.snd =
      some .running := by
  induction count generalizing server nrexmt with
  | zero =>
      obtain ⟨cwnd, rwnd, hpoint, _⟩ := hshut.point
      simp [silentRounds, Server.ending, hpoint]
  | succ count ih =>
      obtain ⟨next, hround, hnext, _⟩ := hshut.ending_succ words _
      rw [hround]
      apply ih (hnext (by omega))
      omega

/-- The last of the rounds finds the counter at its bound. -/
theorem Server.Shut.ending_of_bound
    {server : Server} {nrexmt : ℤ} (hshut : server.Shut nrexmt)
    (words : List String) {count : ℕ}
    (hbound : nrexmt + count = rttMaxnrexmt ∨
      count = 0 ∧ rttMaxnrexmt ≤ nrexmt) :
    (server.transcript words (silentRounds (count + 1))).map Prod.snd =
      some .gaveUp := by
  induction count generalizing server nrexmt with
  | zero =>
      obtain ⟨next, hround, _, hgives⟩ := hshut.ending_succ words 0
      rw [hround, silentRounds, Server.transcript_nil, Option.map_some,
        hgives (by omega)]
  | succ count ih =>
      obtain ⟨next, hround, hnext, _⟩ := hshut.ending_succ words _
      rw [hround]
      apply ih (hnext (by omega))
      omega

/-- A counter which is closer to its bound gives up earlier. -/
theorem Server.Shut.transcript_ne
    {left right : Server} {nrexmt nrexmt' : ℤ} (hleft : left.Shut nrexmt)
    (hright : right.Shut nrexmt') (hless : nrexmt < nrexmt')
    (hbelow : nrexmt < rttMaxnrexmt) (words : List String) :
    ∃ events, left.transcript words events ≠
      right.transcript words events := by
  have hbound : nrexmt' + (rttMaxnrexmt - nrexmt').toNat = rttMaxnrexmt ∨
      (rttMaxnrexmt - nrexmt').toNat = 0 ∧ rttMaxnrexmt ≤ nrexmt' := by omega
  have hroom : nrexmt + ((rttMaxnrexmt - nrexmt').toNat + 1 : ℕ) ≤
      rttMaxnrexmt := by omega
  refine ⟨silentRounds ((rttMaxnrexmt - nrexmt').toNat + 1), fun hsame => ?_⟩
  have hruns := hleft.ending_of_below words hroom
  rw [hsame, hright.ending_of_bound words hbound] at hruns
  cases hruns

theorem udpReliableTransfer_shut
    {config : ThConfig} (heof : config.isEOF ≠ 1) (qObj : Datagram)
    {servRwnd : ℤ} (hclosed : servRwnd ≤ 0) :
    (udpReliableTransfer config qObj servRwnd).Shut
      config.rttinfo.rttNrexmt :=
  ⟨⟨1, servRwnd, rfl, hclosed⟩, hclosed, heof, rfl, rfl⟩

/-! ## When the unset fields do not matter -/

/-- The unset fields of the two configurations are the same as far as a
transfer reads them. -/
def ThConfig.UnsetAlike (left right : ThConfig) (servRwnd : ℤ) : Prop :=
  (left.isEOF = 1 ↔ right.isEOF = 1) ∧
  (left.isEOF ≠ 1 →
    (left.rttinfo.rttBase - right.rttinfo.rttBase) % 536870912 = 0 ∧
    (servRwnd ≤ 0 → left.rttinfo.GivesUpWith right.rttinfo))

theorem ThConfig.UnsetAlike.transcript_eq
    {left right : ThConfig} {servRwnd : ℤ}
    (hunset : left.UnsetAlike right servRwnd) (qObj : Datagram)
    (words : List String) (events : List ServerEvent) :
    (udpReliableTransfer left qObj servRwnd).transcript words events =
      (udpReliableTransfer right qObj servRwnd).transcript words events := by
  by_cases heof : left.isEOF = 1
  · apply Server.Finished.transcript_eq
    exact ⟨heof, hunset.1.mp heof, .inl ⟨0, 1, servRwnd, rfl, rfl⟩⟩
  · obtain ⟨hbase, hcounted⟩ := hunset.2 heof
    apply Server.Alike.transcript_eq
    refine ⟨⟨⟨rfl, rfl, rfl, rfl, rfl, rfl, hunset.1.symm, hbase⟩, rfl, rfl,
      rfl⟩, rfl, ?_⟩
    rcases le_or_gt servRwnd 0 with hclosed | hopen
    · exact .inl (hcounted hclosed)
    · refine .inr ⟨0, 1, servRwnd, rfl, ?_, heof⟩
      omega

/-- Two transfers which differ only in the fields that nobody sets send the
same datagrams and end in the same way, whatever the file and whatever
happens, exactly when those fields agree as far as they are read. -/
theorem transcript_eq_iff_unsetAlike
    (left right : ThConfig) (qObj : Datagram) (servRwnd : ℤ) :
    (∀ words events,
      (udpReliableTransfer left qObj servRwnd).transcript words events =
        (udpReliableTransfer right qObj servRwnd).transcript
          words events) ↔
      left.UnsetAlike right servRwnd := by
  constructor
  · intro hsame
    have heof : left.isEOF = 1 ↔ right.isEOF = 1 := by
      have hleft := udpReliableTransfer_first_ending left qObj servRwnd
      have hright := udpReliableTransfer_first_ending right qObj servRwnd
      rw [hsame, hright, Option.some.injEq] at hleft
      by_cases hflag : left.isEOF = 1 <;>
        by_cases hflag' : right.isEOF = 1 <;> simp_all
    refine ⟨heof, fun hrunning => ⟨?_, fun hclosed => ?_⟩⟩
    · have hrunning' := mt heof.mpr hrunning
      have hleft := udpReliableTransfer_first_ts hrunning qObj servRwnd
      have hright := udpReliableTransfer_first_ts hrunning' qObj servRwnd
      rw [hsame, hright, Option.some.injEq, Option.some.injEq] at hleft
      exact (rttTs_eq_iff _ _ epoch).mp hleft.symm
    · have hleft := udpReliableTransfer_shut hrunning qObj hclosed
      have hright := udpReliableTransfer_shut (mt heof.mpr hrunning) qObj
        hclosed
      by_contra hapart
      simp only [RttInfo.GivesUpWith] at hapart
      rcases lt_trichotomy left.rttinfo.rttNrexmt right.rttinfo.rttNrexmt
        with hless | hequal | hmore
      · obtain ⟨events, hne⟩ :=
          hleft.transcript_ne hright hless (by omega) []
        exact hne (hsame [] events)
      · exact hapart (by rw [hequal])
      · obtain ⟨events, hne⟩ :=
          hright.transcript_ne hleft hmore (by omega) []
        exact hne (hsame [] events).symm
  · exact fun hunset => hunset.transcript_eq qObj

/-- The flag is left over: one transfer sends the first word, the other one
returns without a datagram. -/
theorem transcript_depends_on_isEOF :
    let config : ThConfig := (freshServer 1).config
    let leftover : ThConfig := { config with isEOF := 1 }
    ((udpReliableTransfer config zeroDatagram 1).transcript ["a"]
      [.send epoch epoch]).map Prod.snd = some .running ∧
    (udpReliableTransfer leftover zeroDatagram 1).transcript ["a"]
      [.send epoch epoch] = some ([], .returned) ∧
    (udpReliableTransfer config zeroDatagram 1).transcript ["a"]
        [.send epoch epoch] ≠
      (udpReliableTransfer leftover zeroDatagram 1).transcript ["a"]
        [.send epoch epoch] := by
  decide

end NetworkProgramming.Transfer
