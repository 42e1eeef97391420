import NetworkProgramming.TransferServerStep
import Mathlib.Logic.Function.Iterate

/-!
# One call of `receive_ack`

The loop of `receive_ack` has three ways out at an acknowledgement and one at
the alarm.  Which of them a call takes is said here over the list of the
acknowledgements which arrive, without the locals of the loop: the counter
`fast_retransmit` is compared with the end of that list.
-/

namespace NetworkProgramming.Transfer

/-! ## The call -/

/-- The iterations of the loop, until the function returns.  When nothing
arrives any more the alarm goes off.  The second component is what the call
has not read. -/
def Server.awaitAcks (server : Server) :
    List (Ack × Timeval) → Server × List (Ack × Timeval)
  | [] =>
      match server.point with
      | .waiting wait => (server.ackTimeout wait, [])
      | _ => (server, [])
  | (ack, tv) :: arrivals =>
      match server.point with
      | .waiting wait => (server.receiveAck wait ack tv).awaitAcks arrivals
      | _ => (server, (ack, tv) :: arrivals)

def Server.callReceiveAck (server : Server)
    (arrivals : List (Ack × Timeval)) : Server × List (Ack × Timeval) :=
  server.enterReceiveAck.awaitAcks arrivals

theorem Server.awaitAcks_of_not_waiting
    {server : Server} (hpoint : ∀ wait, server.point ≠ .waiting wait)
    (arrivals : List (Ack × Timeval)) :
    server.awaitAcks arrivals = (server, arrivals) := by
  cases arrivals with
  | nil =>
      unfold Server.awaitAcks
      split
      next wait hwait => exact absurd hwait (hpoint wait)
      next => rfl
  | cons arrival arrivals =>
      unfold Server.awaitAcks
      split
      next wait hwait => exact absurd hwait (hpoint wait)
      next => rfl

/-! ## What the call is meant to do -/

inductive AckExit where
  | eof
  | done
  | fast
  deriving DecidableEq, Repr

/-- The way out at the last of the acknowledgements `heard`. -/
def ackExit (lastPackSeqNo seqNo : ℤ) (heard : List Ack) : Option AckExit :=
  match heard.getLast? with
  | none => none
  | some ack =>
      if lastPackSeqNo ≠ -1 ∧ (ack.seq : ℤ) > lastPackSeqNo then some .eof
      else if (ack.seq : ℤ) = seqNo + 1 then some .done
      else if List.replicate 4 ack.seq <:+ heard.map Ack.seq then some .fast
      else none

/-- The congestion window after `count` acknowledgements. -/
def ThConfig.grownCwnd (config : ThConfig) (count : ℕ) : ℤ :=
  (fun cwnd =>
    if config.ssthresh ≠ -1 ∧ cwnd ≥ config.ssthresh then cwnd + 1
    else cwnd * 2)^[count] config.cwnd

/-- The window which the last acknowledgement advertised. -/
def ThConfig.heardRwnd (config : ThConfig) (heard : List Ack) : ℤ :=
  heard.getLast?.elim config.rwnd fun ack => ack.rwnd

/-- The number which the last acknowledgement asked for. -/
def ThConfig.heardSeq (config : ThConfig) (heard : List Ack) : ℤ :=
  heard.getLast?.elim config.lastUnackedSeq fun ack => ack.seq

/-- Multiplicative decrease and the request for a resend, unless
`rtt_timeout` gives up. -/
def ThConfig.BacksOff (config : ThConfig) (heard : List Ack)
    (after : Server) : Prop :=
  if (rttTimeout config.rttinfo).2 then
    after.point = .gaveUp ∧
      after.config.cwnd = config.grownCwnd heard.length
  else
    after.config.ssthresh = (config.grownCwnd heard.length).tdiv 2 ∧
    after.config.cwnd = 1 ∧
    after.config.rwnd = config.heardRwnd heard ∧
    after.config.lastUnackedSeq = config.heardSeq heard ∧
    after.config.isEOF = config.isEOF

/-- What a call leaves behind which has read `heard`; without a way out at
the last acknowledgement it ended with the alarm. -/
def ThConfig.Leaves (config : ThConfig) (heard : List Ack)
    (after : Server) : Option AckExit → Prop
  | some .eof =>
      after.config.isEOF = 1 ∧
      after.config.cwnd = config.grownCwnd heard.length
  | some .done =>
      after.config.lastUnackedSeq = -1 ∧
      after.config.rwnd = config.heardRwnd heard ∧
      after.config.cwnd = config.grownCwnd heard.length ∧
      after.config.isEOF = config.isEOF
  | some .fast => config.BacksOff heard after
  | none => config.BacksOff heard after

theorem ThConfig.grownCwnd_succ (config : ThConfig) (count : ℕ) :
    config.grownCwnd (count + 1) =
      growCwnd { config with cwnd := config.grownCwnd count } := by
  unfold ThConfig.grownCwnd
  rw [Function.iterate_succ_apply']
  rfl

@[simp]
theorem ThConfig.heardRwnd_concat
    (config : ThConfig) (heard : List Ack) (ack : Ack) :
    config.heardRwnd (heard ++ [ack]) = ack.rwnd := by
  simp [ThConfig.heardRwnd]

/-! ## Repeated acknowledgements -/

/-- `fast_retransmit` counts the repetitions of the last number. -/
def AckWait.Streak (wait : AckWait) (seqs : List ℕ) : Prop :=
  (seqs = [] ∧ wait.prevSeqNum = -1 ∧ wait.fastRetransmit = 0) ∨
  ∃ (before : List ℕ) (seq : ℕ),
    seqs = before ++ List.replicate (wait.fastRetransmit + 1) seq ∧
    before.getLast? ≠ some seq ∧
    wait.prevSeqNum = seq

theorem getLast?_append_replicate
    (before : List ℕ) (count seq : ℕ) :
    (before ++ List.replicate (count + 1) seq).getLast? = some seq := by
  rw [List.replicate_succ', ← List.append_assoc]
  exact List.getLast?_concat

theorem AckWait.Streak.count
    {wait : AckWait} {seqs : List ℕ} (hstreak : wait.Streak seqs)
    (ack : Ack) :
    (wait.count ack).Streak (seqs ++ [ack.seq]) := by
  rcases hstreak with ⟨rfl, hprev, _⟩ | ⟨before, seq, rfl, hbefore, hprev⟩
  · have hfirst : wait.prevSeqNum ≠ ack.seq := by omega
    refine .inr ⟨[], ack.seq, ?_, by simp, wait.count_prevSeqNum ack⟩
    simp [AckWait.count, hfirst]
  · refine .inr ?_
    by_cases hsame : wait.prevSeqNum = ack.seq
    · have hseq : seq = ack.seq := by omega
      refine ⟨before, seq, ?_, hbefore, ?_⟩
      · simp only [AckWait.count, if_pos hsame]
        rw [List.replicate_succ' (n := wait.fastRetransmit + 1), hseq,
          List.append_assoc]
      · rw [wait.count_prevSeqNum, hseq]
    · have hseq : seq ≠ ack.seq := by omega
      refine ⟨before ++ List.replicate (wait.fastRetransmit + 1) seq,
        ack.seq, ?_, ?_, wait.count_prevSeqNum ack⟩
      · simp [AckWait.count, hsame]
      · rw [getLast?_append_replicate]
        simpa using hseq

theorem AckWait.Streak.prevSeqNum
    {wait : AckWait} {heard : List Ack}
    (hstreak : wait.Streak (heard.map Ack.seq)) :
    wait.prevSeqNum =
      heard.getLast?.elim (-1 : ℤ) fun ack => (ack.seq : ℤ) := by
  have hlast := List.getLast?_map (f := Ack.seq) (l := heard)
  rcases hstreak with ⟨hnil, hprev, _⟩ | ⟨before, seq, hseqs, _, hprev⟩
  · rw [List.map_eq_nil_iff.mp hnil]
    exact hprev
  · rw [hseqs, getLast?_append_replicate] at hlast
    cases hheard : heard.getLast? with
    | none => simp [hheard] at hlast
    | some ack =>
        rw [hheard, Option.map_some, Option.some.injEq] at hlast
        rw [hprev, hlast]
        rfl

/-- The counter reaches three with the fourth of four equal numbers. -/
theorem AckWait.Streak.fast_iff
    {wait : AckWait} {seqs : List ℕ} {seq : ℕ}
    (hstreak : wait.Streak (seqs ++ [seq]))
    (hcount : wait.fastRetransmit ≤ 3) :
    wait.fastRetransmit = 3 ↔
      List.replicate 4 seq <:+ seqs ++ [seq] := by
  rcases hstreak with ⟨hnil, _⟩ | ⟨before, last, hseqs, hbefore, _⟩
  · simp at hnil
  · have hlast : last = seq := by
      have := getLast?_append_replicate before wait.fastRetransmit last
      rw [← hseqs] at this
      simpa using this.symm
    subst hlast
    rw [hseqs]
    constructor
    · intro hthree
      rw [hthree]
      exact List.suffix_append _ _
    · intro hsuffix
      by_contra hfew
      -- the first of the four stands in `before`
      obtain ⟨earlier, heq⟩ := hsuffix
      have hsplit : List.replicate 4 last =
          List.replicate (2 - wait.fastRetransmit + 1) last ++
            List.replicate (wait.fastRetransmit + 1) last := by
        rw [← List.replicate_add]
        congr 1
        omega
      rw [hsplit, ← List.append_assoc, List.append_cancel_right_eq] at heq
      apply hbefore
      rw [← heq]
      exact getLast?_append_replicate _ _ _

/-! ## The loop -/

/-- The state of the loop after the acknowledgements `heard`, none of which
was a way out.  Below `-1`, which `send_file_data` never stores, the two
comparisons with the last packet would differ. -/
structure Server.Hears (server : Server) (wait : AckWait)
    (config : ThConfig) (seqNo : ℤ) (heard : List Ack) : Prop where
  last_ge : -1 ≤ config.lastPackSeqNo
  point : server.point = .waiting wait
  expected : wait.expectedSeqNum = seqNo + 1
  streak : wait.Streak (heard.map Ack.seq)
  fewer : wait.fastRetransmit < 3
  config_eq : server.config =
    { config with
      cwnd := config.grownCwnd heard.length
      rwnd := config.heardRwnd heard }
  passed : ∀ k ≤ heard.length,
    ackExit config.lastPackSeqNo seqNo (heard.take k) = none

theorem Server.hears_enterReceiveAck
    {server : Server} (hlast : -1 ≤ server.config.lastPackSeqNo) :
    server.enterReceiveAck.Hears
      ⟨server.seqNum + 1, -1, 0, rttStart server.config.rttinfo⟩
      server.config server.seqNum [] where
  last_ge := hlast
  point := rfl
  expected := rfl
  streak := .inl ⟨rfl, rfl, rfl⟩
  fewer := Nat.zero_lt_succ 2
  config_eq := rfl
  passed := fun _ _ => by simp [ackExit]

/-- The common end of the alarm and of the fast retransmit. -/
theorem Server.ackTimeout_backsOff
    {server : Server} {wait : AckWait} {config : ThConfig}
    {heard : List Ack}
    (hconfig : server.config =
      { config with
        cwnd := config.grownCwnd heard.length
        rwnd := config.heardRwnd heard })
    (hstreak : wait.Streak (heard.map Ack.seq))
    (hinside : ¬ config.PastLast wait.prevSeqNum) :
    config.BacksOff heard (server.ackTimeout wait) := by
  have hrtt : server.config.rttinfo = config.rttinfo := by rw [hconfig]
  have hlast : ¬ server.config.PastLast wait.prevSeqNum := by
    rw [hconfig]
    exact hinside
  unfold ThConfig.BacksOff
  rcases server.ackTimeout_cases wait with
    ⟨hpast, _⟩ | ⟨_, hnrexmt, heq⟩ | ⟨_, hnrexmt, heq⟩
  · exact absurd hpast hlast
  · rw [hrtt] at hnrexmt
    rw [if_pos ((rttTimeout_gives_up_iff _).mpr hnrexmt), heq, hconfig]
    exact ⟨rfl, rfl⟩
  · rw [hrtt] at hnrexmt
    have hgoes : ¬ (rttTimeout config.rttinfo).2 = true := by
      rw [rttTimeout_gives_up_iff]
      omega
    have hseq : (server.config.backOff wait).lastUnackedSeq =
        config.heardSeq heard := by
      have hprev := hstreak.prevSeqNum
      simp only [ThConfig.backOff, ThConfig.heardSeq, hprev, hconfig]
      cases heard.getLast? with
      | none => simp
      | some ack =>
          have : (ack.seq : ℤ) ≠ -1 := by omega
          simp [this]
    rw [if_neg hgoes, heq]
    refine ⟨?_, rfl, ?_, hseq, ?_⟩ <;>
      simp [Server.startBurst, ThConfig.backOff, hconfig]

theorem Server.Hears.alarm
    {server : Server} {wait : AckWait} {config : ThConfig} {seqNo : ℤ}
    {heard : List Ack} (hhears : server.Hears wait config seqNo heard) :
    config.Leaves heard (server.ackTimeout wait) none := by
  have hlast := hhears.last_ge
  have hprev := hhears.streak.prevSeqNum
  have hnone := hhears.passed heard.length le_rfl
  rw [List.take_length] at hnone
  apply Server.ackTimeout_backsOff hhears.config_eq hhears.streak
  rintro ⟨hpast, hset⟩
  rw [hprev] at hpast
  cases hheard : heard.getLast? with
  | none =>
      rw [hheard, Option.elim_none] at hpast
      omega
  | some ack =>
      rw [hheard, Option.elim_some] at hpast
      rw [ackExit, hheard] at hnone
      simp [hset, hpast] at hnone

section Hears

variable {server : Server} {wait : AckWait} {config : ThConfig} {seqNo : ℤ}
variable {heard : List Ack}

theorem Server.Hears.growCwnd_eq
    (hhears : server.Hears wait config seqNo heard) (ack : Ack) :
    growCwnd server.config =
      config.grownCwnd (heard ++ [ack]).length := by
  rw [List.length_append, List.length_singleton,
    ThConfig.grownCwnd_succ, hhears.config_eq]
  rfl

theorem Server.Hears.heard_eq
    (hhears : server.Hears wait config seqNo heard) (ack : Ack) :
    server.config.heard ack =
      { config with
        cwnd := config.grownCwnd (heard ++ [ack]).length
        rwnd := config.heardRwnd (heard ++ [ack]) } := by
  rw [ThConfig.heard, hhears.growCwnd_eq ack, config.heardRwnd_concat,
    hhears.config_eq]

theorem Server.Hears.ackPastLast_iff
    (hhears : server.Hears wait config seqNo heard) (ack : Ack) :
    server.config.AckPastLast ack.seq ↔
      config.lastPackSeqNo ≠ -1 ∧
        (ack.seq : ℤ) > config.lastPackSeqNo := by
  rw [hhears.config_eq]
  exact (ThConfig.ackPastLast_iff hhears.last_ge).trans and_comm

theorem Server.Hears.count_le
    (hhears : server.Hears wait config seqNo heard) (ack : Ack) :
    (wait.count ack).fastRetransmit ≤ 3 := by
  have hfewer := hhears.fewer
  unfold AckWait.count
  split
  · exact hfewer
  · exact Nat.zero_le 3

/-- The tests of the loop, in their order, for one more acknowledgement. -/
theorem Server.Hears.ackExit_concat
    (hhears : server.Hears wait config seqNo heard) (ack : Ack) :
    ackExit config.lastPackSeqNo seqNo (heard ++ [ack]) =
      if server.config.AckPastLast ack.seq then some .eof
      else if (ack.seq : ℤ) = wait.expectedSeqNum then some .done
      else if (wait.count ack).fastRetransmit = 3 then some .fast
      else none := by
  have hfast := AckWait.Streak.fast_iff (hhears.streak.count ack)
    (hhears.count_le ack)
  simp only [ackExit, List.getLast?_concat, List.map_append,
    List.map_singleton, hhears.ackPastLast_iff, hhears.expected, hfast]

theorem Server.Hears.passed_concat
    (hhears : server.Hears wait config seqNo heard) {ack : Ack}
    (hnone : ackExit config.lastPackSeqNo seqNo (heard ++ [ack]) = none) :
    ∀ k ≤ (heard ++ [ack]).length,
      ackExit config.lastPackSeqNo seqNo ((heard ++ [ack]).take k) =
        none := by
  intro k hk
  rcases Nat.lt_or_ge heard.length k with hlong | hshort
  · have hlength : (heard ++ [ack]).length ≤ k := by
      rw [List.length_append, List.length_singleton]
      exact hlong
    rw [List.take_of_length_le hlength]
    exact hnone
  · rw [List.take_append_of_le_length hshort]
    exact hhears.passed k hshort

/-- What one more acknowledgement does: the loop goes on, or the function has
returned. -/
theorem Server.Hears.receiveAck
    (hhears : server.Hears wait config seqNo heard)
    (ack : Ack) (tv : Timeval) :
    (ackExit config.lastPackSeqNo seqNo (heard ++ [ack]) = none ∧
      (server.receiveAck wait ack tv).Hears (wait.count ack) config seqNo
        (heard ++ [ack])) ∨
    (∃ exit, ackExit config.lastPackSeqNo seqNo (heard ++ [ack]) =
        some exit ∧
      (∀ other, (server.receiveAck wait ack tv).point ≠ .waiting other) ∧
      config.Leaves (heard ++ [ack]) (server.receiveAck wait ack tv)
        (some exit)) := by
  have hexit := hhears.ackExit_concat ack
  have hheard := hhears.heard_eq ack
  have hstreak : (wait.count ack).Streak ((heard ++ [ack]).map Ack.seq) := by
    rw [List.map_append]
    exact hhears.streak.count ack
  rcases server.receiveAck_cases wait ack tv with
    ⟨hlast, heq⟩ | ⟨hlast, hexpected, heq⟩ |
    ⟨hlast, hexpected, hthree, heq⟩ | ⟨hlast, hexpected, hthree, heq⟩
  · rw [if_pos hlast] at hexit
    refine .inr ⟨.eof, hexit, ?_, ?_⟩
    · rw [heq]
      exact fun _ hpoint => by cases hpoint
    · rw [heq]
      exact ⟨rfl, hhears.growCwnd_eq ack⟩
  · rw [if_neg hlast, if_pos hexpected] at hexit
    refine .inr ⟨.done, hexit, ?_, ?_⟩
    · rw [heq]
      exact fun _ hpoint => by cases hpoint
    · rw [heq, hheard]
      exact ⟨rfl, rfl, rfl, rfl⟩
  · rw [if_neg hlast, if_neg hexpected, if_pos hthree] at hexit
    refine .inr ⟨.fast, hexit, ?_, ?_⟩
    · rw [heq]
      exact Server.ackTimeout_not_waiting _ _
    · rw [heq]
      apply Server.ackTimeout_backsOff hheard hstreak
      rw [wait.count_prevSeqNum]
      intro hpast
      exact hlast ((hhears.ackPastLast_iff ack).mpr hpast.symm)
  · rw [if_neg hlast, if_neg hexpected, if_neg hthree] at hexit
    have hfewer : (wait.count ack).fastRetransmit < 3 :=
      lt_of_le_of_ne (hhears.count_le ack) hthree
    refine .inl ⟨hexit, ?_⟩
    rw [heq]
    refine ⟨hhears.last_ge, rfl, ?_, hstreak, hfewer, hheard,
      hhears.passed_concat hexit⟩
    rw [wait.count_expectedSeqNum]
    exact hhears.expected

end Hears

/-- The whole loop, from any of its iterations on. -/
theorem Server.Hears.awaitAcks
    {server : Server} {wait : AckWait} {config : ThConfig} {seqNo : ℤ}
    {heard : List Ack} (hhears : server.Hears wait config seqNo heard)
    (arrivals : List (Ack × Timeval)) :
    ∃ read rest : List (Ack × Timeval),
      arrivals = read ++ rest ∧
      (server.awaitAcks arrivals).2 = rest ∧
      (∀ k < heard.length + read.length,
        ackExit config.lastPackSeqNo seqNo
          ((heard ++ read.map Prod.fst).take k) = none) ∧
      (ackExit config.lastPackSeqNo seqNo (heard ++ read.map Prod.fst) =
        none → rest = []) ∧
      config.Leaves (heard ++ read.map Prod.fst)
        (server.awaitAcks arrivals).1
        (ackExit config.lastPackSeqNo seqNo
          (heard ++ read.map Prod.fst)) := by
  induction arrivals generalizing server wait heard with
  | nil =>
      have hnone := hhears.passed heard.length le_rfl
      rw [List.take_length] at hnone
      have hcall : server.awaitAcks [] = (server.ackTimeout wait, []) := by
        rw [Server.awaitAcks, hhears.point]
      refine ⟨[], [], rfl, ?_, ?_, fun _ => rfl, ?_⟩
      · rw [hcall]
      · intro k hk
        rw [List.map_nil, List.append_nil]
        exact hhears.passed k (Nat.le_of_lt hk)
      · rw [List.map_nil, List.append_nil, hnone, hcall]
        exact hhears.alarm
  | cons arrival arrivals ih =>
      obtain ⟨ack, tv⟩ := arrival
      have hcall : server.awaitAcks ((ack, tv) :: arrivals) =
          (server.receiveAck wait ack tv).awaitAcks arrivals := by
        rw [Server.awaitAcks, hhears.point]
      rw [hcall]
      rcases hhears.receiveAck ack tv with
        ⟨_, hnext⟩ | ⟨exit, hexit, hpoint, hleaves⟩
      · -- the loop goes on with one more acknowledgement heard
        obtain ⟨read, rest, hsplit, hrest, hpassed, hall, hleaves⟩ :=
          ih hnext
        have hmap : heard ++ ((ack, tv) :: read).map Prod.fst =
            heard ++ [ack] ++ read.map Prod.fst := by simp
        refine ⟨(ack, tv) :: read, rest, by rw [hsplit]; rfl, hrest, ?_⟩
        rw [hmap]
        refine ⟨?_, hall, hleaves⟩
        intro k hk
        apply hpassed
        simp only [List.length_append, List.length_cons,
          List.length_nil] at hk ⊢
        omega
      · rw [Server.awaitAcks_of_not_waiting hpoint]
        refine ⟨[(ack, tv)], arrivals, rfl, rfl, ?_, ?_, ?_⟩
        · intro k hk
          have hshort : k ≤ heard.length := Nat.lt_succ_iff.mp hk
          rw [List.take_append_of_le_length hshort]
          exact hhears.passed k hshort
        · intro hnone
          rw [List.map_singleton, hexit] at hnone
          cases hnone
        · rw [List.map_singleton, hexit]
          exact hleaves

/-- `receive_ack` reads up to and including the first acknowledgement which
is a way out, everything if there is none, and leaves behind what that way
out prescribes.  The last packet is `-1` or a number which was sent. -/
theorem receive_ack_outcome
    {server : Server} (hlast : -1 ≤ server.config.lastPackSeqNo)
    (arrivals : List (Ack × Timeval)) :
    ∃ count ≤ arrivals.length,
      (∀ k < count,
        ackExit server.config.lastPackSeqNo server.seqNum
          ((arrivals.map Prod.fst).take k) = none) ∧
      (ackExit server.config.lastPackSeqNo server.seqNum
          ((arrivals.map Prod.fst).take count) = none →
        count = arrivals.length) ∧
      (server.callReceiveAck arrivals).2 = arrivals.drop count ∧
      server.config.Leaves ((arrivals.map Prod.fst).take count)
        (server.callReceiveAck arrivals).1
        (ackExit server.config.lastPackSeqNo server.seqNum
          ((arrivals.map Prod.fst).take count)) := by
  obtain ⟨read, rest, rfl, hrest, hpassed, hall, hleaves⟩ :=
    (Server.hears_enterReceiveAck hlast).awaitAcks arrivals
  have hread : ((read ++ rest).map Prod.fst).take read.length =
      read.map Prod.fst := by
    rw [List.map_append, List.take_left' (List.length_map _)]
  rw [List.nil_append] at hall hleaves
  refine ⟨read.length, by simp, ?_, ?_, ?_, ?_⟩
  · intro k hk
    have hearlier : ((read ++ rest).map Prod.fst).take k =
        (read.map Prod.fst).take k := by
      rw [List.map_append,
        List.take_append_of_le_length (by simpa using hk.le)]
    rw [hearlier]
    apply hpassed
    simpa using hk
  · intro hnone
    rw [hread] at hnone
    simp [hall hnone]
  · rw [List.drop_left]
    exact hrest
  · rw [hread]
    exact hleaves

/-! ## The fourth of four equal numbers -/

/-- A server which waits for the number `6`, with the last packet known. -/
def waitingServer : Server :=
  { freshServer 5 with
    seqNum := 5
    config := { (freshServer 5).config with
      lastPackSeqNo := 9
      cwnd := 8 } }

/-- Two repetitions do not count when another number comes in between. -/
def repeatedAcks : List (Ack × Timeval) :=
  [2, 2, 3, 2, 2, 2, 2, 6].map fun seq => (⟨seq, 0, seq + 1⟩, midnight)

/-- The seventh acknowledgement ends the call, and the eighth is left. -/
theorem receive_ack_outcome_fast :
    -1 ≤ waitingServer.config.lastPackSeqNo ∧
    (waitingServer.callReceiveAck repeatedAcks).2 = repeatedAcks.drop 7 ∧
    waitingServer.config.Leaves ((repeatedAcks.map Prod.fst).take 7)
      (waitingServer.callReceiveAck repeatedAcks).1 (some .fast) := by
  have hlast : -1 ≤ waitingServer.config.lastPackSeqNo := by decide
  obtain ⟨count, hle, hnone, hall, hrest, hleaves⟩ :=
    receive_ack_outcome hlast repeatedAcks
  have hearlier : ∀ k < 7, ackExit waitingServer.config.lastPackSeqNo
      waitingServer.seqNum ((repeatedAcks.map Prod.fst).take k) =
        none := by
    decide
  have hfast : ackExit waitingServer.config.lastPackSeqNo
      waitingServer.seqNum ((repeatedAcks.map Prod.fst).take 7) =
        some .fast := by
    decide
  have hlength : repeatedAcks.length = 8 := rfl
  have hseven : count = 7 := by
    rcases Nat.lt_trichotomy count 7 with hless | heq | hmore
    · have := hall (hearlier count hless)
      omega
    · exact heq
    · have := hnone 7 hmore
      rw [hfast] at this
      cases this
  subst hseven
  rw [hfast] at hleaves
  exact ⟨hlast, hrest, hleaves⟩

end NetworkProgramming.Transfer
