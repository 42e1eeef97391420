import Mathlib.Data.Rat.Defs

/-!
# Datagrams and the retransmission timer of the file transfer

`common.h` declares the header which travels in front of every payload, and
`rtt.c` keeps the round-trip estimators of one connection.  Clock readings are
arguments of the functions which call `Gettimeofday`.  The two `float`
estimators are exact rationals here; no branch of the transfer reads them
except through `rttMinmax`.

Sequence numbers are `int` and `uint32_t` words in the source.  They are
unbounded here, which is the same thing as long as a file has fewer than
`2 ^ 31 - 1` words.
-/

namespace NetworkProgramming.Transfer

inductive DataType where
  | ack
  | ping
  | data
  | eof
  deriving DecidableEq, Repr

structure UdpData where
  seq : ℕ
  ts : ℕ
  rwnd : ℕ
  type : DataType
  deriving DecidableEq, Repr

/-- The part of a `query_obj` which is sent: the header and the text buffer. -/
structure Datagram where
  config : UdpData
  buf : String
  deriving DecidableEq, Repr

/-- The fields of an acknowledgement which the client sets and the server
reads.  The client leaves `type` and `buf` of its own `query_obj`
uninitialised. -/
structure Ack where
  seq : ℕ
  ts : ℕ
  rwnd : ℕ
  deriving DecidableEq, Repr

/-- A `query_obj` after `bzero`. -/
def zeroDatagram : Datagram :=
  ⟨⟨0, 0, 0, .ack⟩, ""⟩

/-- Conversion of an `int` to `uint32_t`. -/
def toUint32 (x : ℤ) : ℕ :=
  if 0 ≤ x then x.toNat else (x + 4294967296).toNat

theorem toUint32_of_nonneg {x : ℤ} (hx : 0 ≤ x) :
    (toUint32 x : ℤ) = x := by
  unfold toUint32
  rw [if_pos hx]
  exact Int.toNat_of_nonneg hx

theorem le_toUint32 (x : ℤ) : x ≤ toUint32 x := by
  by_cases hx : 0 ≤ x
  · have hsame := toUint32_of_nonneg hx
    omega
  · omega

/-! ## Round-trip estimators -/

structure Timeval where
  tvSec : ℤ
  tvUsec : ℤ
  deriving DecidableEq, Repr

structure RttInfo where
  rttRtt : ℤ
  rttSrtt : ℚ
  rttRttvar : ℚ
  rttRto : ℤ
  rttNrexmt : ℤ
  rttBase : ℤ
  deriving DecidableEq, Repr

def rttRxtmin : ℤ := 1000
def rttRxtmax : ℤ := 3000
def rttMaxnrexmt : ℤ := 12

/-- Conversion of a floating-point value to `int`, towards zero. -/
def truncate (x : ℚ) : ℤ :=
  if 0 ≤ x then x.floor else x.ceil

/-- The macro `RTT_RTOCALC`. -/
def RttInfo.rtoCalc (info : RttInfo) : ℚ :=
  info.rttSrtt + 4 * info.rttRttvar

def rttMinmax (rto : ℤ) : ℤ :=
  if rto < rttRxtmin then rttRxtmin
  else if rto > rttRxtmax then rttRxtmax
  else rto

def rttInit (info : RttInfo) (tv : Timeval) : RttInfo :=
  let fresh : RttInfo :=
    { info with
      rttBase := tv.tvSec % 4294967296
      rttRtt := 0
      rttSrtt := 0
      rttRttvar := 3 / 4 }
  { fresh with rttRto := rttMinmax (truncate fresh.rtoCalc) }

def rttTs (info : RttInfo) (tv : Timeval) : ℕ :=
  (((tv.tvSec - info.rttBase) * 1000 + tv.tvUsec.tdiv 1000) % 4294967296).toNat

def rttNewpack (info : RttInfo) : RttInfo :=
  { info with rttNrexmt := 0 }

def rttStart (info : RttInfo) : ℤ :=
  truncate (info.rttRto + 1 / 2)

/-- `ms` is a `uint32_t` which is stored in an `int` field. -/
def rttStop (info : RttInfo) (ms : ℕ) : RttInfo :=
  let rtt : ℤ := if ms < 2147483648 then ms else (ms : ℤ) - 4294967296
  let delta := truncate (rtt - info.rttSrtt)
  let srtt := info.rttSrtt + delta.tdiv 8
  let rttvar := info.rttRttvar + ((delta.natAbs : ℚ) - info.rttRttvar) / 4
  let measured : RttInfo :=
    { info with rttRtt := rtt, rttSrtt := srtt, rttRttvar := rttvar }
  { measured with rttRto := rttMinmax (truncate measured.rtoCalc) }

/-- The second component is `true` when the source returns `-1`: it is time to
give up. -/
def rttTimeout (info : RttInfo) : RttInfo × Bool :=
  let nrexmt := info.rttNrexmt + 1
  ({ info with rttRto := rttMinmax (info.rttRto * 2), rttNrexmt := nrexmt },
    decide (nrexmt > rttMaxnrexmt))

end NetworkProgramming.Transfer
