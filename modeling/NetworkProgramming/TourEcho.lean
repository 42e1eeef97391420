import NetworkProgramming.TourPing

/-!
# Echo replies

The `pgfd` branch of `main` in `hw4/tour.c` and `proc_v4`.  The identifier of
a packet is read twice: behind a header of 20 bytes, which decides whether
`proc_v4` is called, and behind the header as long as it says it is.  A packet
which passes the first test and is too short ends the process, and so does
one whose sender has no name.

The packet overwrites the beginning of `output`, a buffer of `MAXLINE` bytes
which may still hold the route received in the same round.
-/

namespace NetworkProgramming.Tour

open MemoryImage

/-- The answers of the resolver: the name of an address, and for a name its
canonical form and its first address as text. -/
structure Resolver where
  gethostbyaddr : List UInt8 → Option (List UInt8)
  hostServ : List UInt8 → Option (List UInt8 × List UInt8)

structure PingReport where
  icmplen : ℤ
  canonname : List UInt8
  host : List UInt8
  seq : ℕ
  ttl : ℕ
  rtt : TimeVal
  deriving DecidableEq

/-- How the branch ends.  All but the first two end the process: `err_quit`
for a message which is shorter than it has to be, or for a name which does
not resolve; the name of a NULL pointer; and a name too long for `host`. -/
inductive PingOutcome where
  | ignored
  | reported (report : PingReport)
  | tooShort (icmplen : ℤ) (least : ℕ)
  | unresolved
  | nullPointer
  | overrun
  deriving DecidableEq

def PingOutcome.Ends : PingOutcome → Prop
  | .ignored | .reported _ => False
  | .tooShort _ _ | .unresolved | .nullPointer | .overrun => True

def tvSub (out sent : TimeVal) : TimeVal :=
  let usec := out.tvUsec - sent.tvUsec
  if usec < 0 then ⟨out.tvSec - 1 - sent.tvSec, usec + 1000000⟩
  else ⟨out.tvSec - sent.tvSec, usec⟩

def timeAt (memory : List UInt8) (offset : ℕ) : TimeVal :=
  ⟨ofSignedWord ((memory.drop offset).take 8),
    ofSignedWord ((memory.drop (offset + 8)).take 8)⟩

def headerLength (memory : List UInt8) : ℕ :=
  -- `ip_hl` is the low half of the first byte
  4 * ((byteAt memory 0).toNat % 16)

/-- `proc_v4` behind its checks: the names are looked up and the line is
printed. -/
def printReply (resolver : Resolver) (memory : List UInt8) (icmplen : ℤ)
    (tvrecv : TimeVal) (srcIp : List UInt8) : PingOutcome :=
  match resolver.gethostbyaddr srcIp with
  | none => .nullPointer
  | some name =>
      match resolver.hostServ name with
      | none => .unresolved
      | some (canonname, host) =>
          let hlen1 := headerLength memory
          .reported
            { icmplen := icmplen
              canonname := canonname
              host := host
              seq := halfwordAt memory (hlen1 + 6)
              ttl := (byteAt memory 8).toNat
              rtt := tvSub tvrecv (timeAt memory (hlen1 + 8)) }

/-- `proc_v4`; `memory` is all of `output`, of which `len` bytes were
received. -/
def procV4 (resolver : Resolver) (pid : ℕ) (memory : List UInt8) (len : ℕ)
    (tvrecv : TimeVal) (srcIp : List UInt8) : PingOutcome :=
  let hlen1 := headerLength memory
  let icmplen : ℤ := len - hlen1
  if icmplen < 8 then .tooShort icmplen 8
  else if byteAt memory hlen1 = 0 then
    if halfwordAt memory (hlen1 + 4) ≠ pid then .ignored
    else if icmplen < 16 then .tooShort icmplen 16
    else printReply resolver memory icmplen tvrecv srcIp
  else .ignored

def receivePacket (output packet : List UInt8) : List UInt8 :=
  copyTo 0 (packet.take 4096) output

def senderAddress (memory : List UInt8) : List UInt8 :=
  (memory.drop 12).take 4

/-- `get_host_from_ip` copies the name to 20 bytes. -/
def Resolver.fitsHost (resolver : Resolver) (ip : List UInt8) : Prop :=
  ∀ name ∈ resolver.gethostbyaddr ip, name.length < 20

instance (resolver : Resolver) (ip : List UInt8) :
    Decidable (resolver.fitsHost ip) :=
  inferInstanceAs (Decidable (∀ name ∈ resolver.gethostbyaddr ip, _))

/-- The `pgfd` branch of `main`. -/
def pgfdBranch (resolver : Resolver) (pid : ℕ) (output packet : List UInt8)
    (now : TimeVal) : PingOutcome :=
  let memory := receivePacket output packet
  let len := (packet.take 4096).length
  let srcIp := senderAddress memory
  if halfwordAt memory 24 = pid then
    if resolver.fitsHost srcIp then
      procV4 resolver pid memory len now srcIp
    else .overrun
  else .ignored

/-! ## What the branch is meant to do -/

def ReplyAt (pid : ℕ) (memory : List UInt8) : Prop :=
  byteAt memory (headerLength memory) = 0 ∧
    halfwordAt memory (headerLength memory + 4) = pid

/-- An echo reply for this process, wherever its IP header ends. -/
structure EchoReply (pid : ℕ) (packet : List UInt8) : Prop where
  long : headerLength packet + 16 ≤ packet.length
  reply : ReplyAt pid packet

/-- Echo replies are reported and everything else is ignored. -/
structure Answers (pid : ℕ) (packet : List UInt8) (outcome : PingOutcome) :
    Prop where
  reply : EchoReply pid packet → ∃ report, outcome = .reported report
  other : ¬ EchoReply pid packet → outcome = .ignored

def Resolver.Names (resolver : Resolver) (ip : List UInt8) : Prop :=
  ((resolver.gethostbyaddr ip).bind resolver.hostServ).isSome = true

/-- Where it does so, with the packet in `memory`: a reply has its identifier
also at offset 24.  A packet with the identifier there has a sender whose name
fits, and at least 8 bytes behind its header; and if these look like a reply,
they are at least 16, and the sender has a name which resolves. -/
structure Handled (resolver : Resolver) (pid : ℕ)
    (packet memory : List UInt8) : Prop where
  fixed : EchoReply pid packet → halfwordAt memory 24 = pid
  fits : halfwordAt memory 24 = pid →
    resolver.fitsHost (senderAddress memory)
  long : halfwordAt memory 24 = pid →
    headerLength memory + 8 ≤ packet.length
  whole : halfwordAt memory 24 = pid → ReplyAt pid memory →
    headerLength memory + 16 ≤ packet.length ∧
      resolver.Names (senderAddress memory)

/-! ## The packet in the buffer -/

section Received

variable {output packet : List UInt8} {pid : ℕ}

theorem headerLength_le (memory : List UInt8) : headerLength memory ≤ 60 := by
  unfold headerLength
  omega

theorem byteAt_receivePacket
    {offset : ℕ} (hsize : offset < 4096) (hlength : offset < packet.length) :
    byteAt (receivePacket output packet) offset = byteAt packet offset := by
  have htaken : offset < (packet.take 4096).length := by
    rw [List.length_take]
    omega
  rw [receivePacket, byteAt_copyTo_zero htaken, byteAt_take hsize]

/-- A reply can be recognised in the buffer, also when the packet does not
fill it and when it is cut off. -/
theorem echoReply_iff :
    EchoReply pid packet ↔
      headerLength (receivePacket output packet) + 16 ≤ packet.length ∧
      ReplyAt pid (receivePacket output packet) := by
  by_cases hempty : packet.length = 0
  · constructor
    · intro hreply
      have hlong := hreply.long
      omega
    · intro hreply
      omega
  · have hhl : headerLength (receivePacket output packet) =
        headerLength packet := by
      unfold headerLength
      rw [byteAt_receivePacket (by omega) (by omega)]
    have hle := headerLength_le packet
    by_cases hlong : headerLength packet + 16 ≤ packet.length
    · have hbyte : ∀ k < 16,
          byteAt (receivePacket output packet) (headerLength packet + k) =
            byteAt packet (headerLength packet + k) :=
        fun k hk => byteAt_receivePacket (by omega) (by omega)
      have hreply : ReplyAt pid (receivePacket output packet) ↔
          ReplyAt pid packet := by
        unfold ReplyAt halfwordAt
        rw [hhl, hbyte 4 (by omega), Nat.add_assoc, hbyte 5 (by omega)]
        have htype := hbyte 0 (by omega)
        rw [Nat.add_zero] at htype
        rw [htype]
      rw [hreply, hhl]
      exact ⟨fun h => ⟨h.long, h.reply⟩, fun h => ⟨h.1, h.2⟩⟩
    · rw [hhl]
      exact iff_of_false (fun hreply => hlong hreply.long)
        fun hreply => hlong hreply.1

end Received

/-! ## The outcome -/

section Outcome

variable {resolver : Resolver} {pid len : ℕ} {packet memory : List UInt8}
variable {tvrecv : TimeVal} {srcIp : List UInt8}

theorem printReply_cases (icmplen : ℤ) :
    ((∃ report, printReply resolver memory icmplen tvrecv srcIp =
        .reported report) ∧ resolver.Names srcIp) ∨
      ((printReply resolver memory icmplen tvrecv srcIp).Ends ∧
        ¬ resolver.Names srcIp) := by
  unfold printReply Resolver.Names
  cases resolver.gethostbyaddr srcIp with
  | none => exact .inr ⟨trivial, by simp⟩
  | some name =>
      rw [Option.bind_some]
      cases hserv : resolver.hostServ name with
      | none =>
          simp only [hserv]
          exact .inr ⟨trivial, by simp⟩
      | some found =>
          simp only [hserv]
          exact .inl ⟨⟨_, rfl⟩, rfl⟩

theorem procV4_cases :
    (procV4 resolver pid memory len tvrecv srcIp = .ignored ∧
      headerLength memory + 8 ≤ len ∧ ¬ ReplyAt pid memory) ∨
    ((∃ report, procV4 resolver pid memory len tvrecv srcIp =
        .reported report) ∧
      headerLength memory + 16 ≤ len ∧ ReplyAt pid memory ∧
      resolver.Names srcIp) ∨
    ((procV4 resolver pid memory len tvrecv srcIp).Ends ∧
      ¬ (headerLength memory + 8 ≤ len ∧ (ReplyAt pid memory →
        headerLength memory + 16 ≤ len ∧ resolver.Names srcIp))) := by
  unfold procV4 ReplyAt
  dsimp only
  split
  next hshort => exact .inr (.inr ⟨trivial, by omega⟩)
  next hlong =>
    split
    next htype =>
      split
      next hid =>
        exact .inl ⟨rfl, by omega, fun hreply => hid hreply.2⟩
      next hid =>
        rw [not_not] at hid
        split
        next hcut =>
          refine .inr (.inr ⟨trivial, fun hall => ?_⟩)
          have hwhole := (hall.2 ⟨htype, hid⟩).1
          omega
        next hwhole =>
          rcases printReply_cases
              ((len : ℤ) - (headerLength memory : ℤ)) with
            ⟨hreported, hnames⟩ | ⟨hends, hnames⟩
          · exact .inr (.inl
              ⟨hreported, by omega, ⟨htype, hid⟩, hnames⟩)
          · exact .inr (.inr
              ⟨hends, fun hall => hnames (hall.2 ⟨htype, hid⟩).2⟩)
    next htype =>
      exact .inl ⟨rfl, by omega, fun hreply => htype hreply.1⟩

theorem not_answers_of_ends
    {outcome : PingOutcome} (hends : outcome.Ends) :
    ¬ Answers pid packet outcome := by
  intro hanswers
  by_cases hreply : EchoReply pid packet
  · obtain ⟨report, hreported⟩ := hanswers.reply hreply
    rw [hreported] at hends
    exact hends
  · rw [hanswers.other hreply] at hends
    exact hends

theorem procV4_answers_iff
    {output : List UInt8} (hmemory : memory = receivePacket output packet)
    (hlen : len = (packet.take 4096).length) :
    Answers pid packet (procV4 resolver pid memory len tvrecv srcIp) ↔
      headerLength memory + 8 ≤ packet.length ∧
      (ReplyAt pid memory → headerLength memory + 16 ≤ packet.length ∧
        resolver.Names srcIp) := by
  have hecho : EchoReply pid packet ↔
      headerLength memory + 16 ≤ packet.length ∧ ReplyAt pid memory := by
    rw [hmemory]
    exact echoReply_iff
  -- a header ends in front of where a long packet is cut off
  have hbound := headerLength_le memory
  have hcut : ∀ k ≤ 16, headerLength memory + k ≤ len ↔
      headerLength memory + k ≤ packet.length := by
    intro k hk
    rw [hlen, List.length_take]
    omega
  have hcases := @procV4_cases resolver pid len memory tvrecv srcIp
  rw [hcut 8 (by omega), hcut 16 (by omega)] at hcases
  rcases hcases with ⟨hignored, hlong, hreply⟩ |
    ⟨hreported, hlong, hreply, hnames⟩ | ⟨hends, hnot⟩
  · rw [hignored]
    refine iff_of_true ⟨fun h => ?_, fun _ => rfl⟩
      ⟨hlong, fun h => absurd h hreply⟩
    exact absurd (hecho.mp h).2 hreply
  · refine iff_of_true ⟨fun _ => hreported, fun h => ?_⟩
      ⟨by omega, fun _ => ⟨hlong, hnames⟩⟩
    exact absurd (hecho.mpr ⟨hlong, hreply⟩) h
  · exact iff_of_false (not_answers_of_ends hends) hnot

end Outcome

/-- For every packet, whatever its length and the length of its header, and
for every content of the buffer: echo replies are reported and all other
packets ignored exactly when the condition is met. -/
theorem pgfdBranch_answers_iff
    (resolver : Resolver) (pid : ℕ) (output packet : List UInt8)
    (now : TimeVal) :
    Answers pid packet (pgfdBranch resolver pid output packet now) ↔
      Handled resolver pid packet (receivePacket output packet) := by
  unfold pgfdBranch
  dsimp only
  split
  next hfixed =>
    split
    next hfits =>
      rw [procV4_answers_iff rfl rfl]
      constructor
      · intro hlong
        exact ⟨fun _ => hfixed, fun _ => hfits, fun _ => hlong.1,
          fun _ => hlong.2⟩
      · intro hhandled
        exact ⟨hhandled.long hfixed, hhandled.whole hfixed⟩
    next hfits =>
      exact iff_of_false (not_answers_of_ends trivial)
        fun hhandled => hfits (hhandled.fits hfixed)
  next hfixed =>
    constructor
    · intro hanswers
      refine ⟨fun hreply => ?_, fun h => absurd h hfixed,
        fun h => absurd h hfixed, fun h => absurd h hfixed⟩
      obtain ⟨report, hreported⟩ := hanswers.reply hreply
      cases hreported
    · intro hhandled
      exact ⟨fun hreply => absurd (hhandled.fixed hreply) hfixed,
        fun _ => rfl⟩

def bareHeader (words : ℕ) : List UInt8 :=
  UInt8.ofNat (64 + words) :: List.replicate (4 * words - 1) 0

def replyHead : List UInt8 :=
  [0, 0, 0, 0, 0x67, 0x12, 1, 0]

def oneName : Resolver where
  gethostbyaddr := fun _ => some [118, 109, 49]
  hostServ := fun name => some (name, [49])

/-- A message of 10 bytes with the identifier of the process ends it; a reply
behind a header with options is not reported. -/
theorem pgfdBranch_broken :
    (pgfdBranch oneName 4711 (List.replicate 4096 0)
        (bareHeader 5 ++ replyHead ++ [0, 0]) ⟨0, 0⟩ = .tooShort 10 16 ∧
      ¬ EchoReply 4711 (bareHeader 5 ++ replyHead ++ [0, 0])) ∧
    pgfdBranch oneName 4711 (List.replicate 4096 0)
        (bareHeader 6 ++ replyHead ++ List.replicate 16 0) ⟨0, 0⟩ =
      .ignored ∧
    EchoReply 4711 (bareHeader 6 ++ replyHead ++ List.replicate 16 0) := by
  refine ⟨⟨by decide +kernel, ?_⟩, by decide +kernel, ?_⟩
  · intro hreply
    have hlong := hreply.long
    revert hlong
    decide +kernel
  · constructor
    · decide +kernel
    · constructor
      · decide +kernel
      · decide +kernel

end NetworkProgramming.Tour
