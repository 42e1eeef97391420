import Mathlib.Data.List.Basic
import Mathlib.Data.Vector.Basic
import Mathlib.Tactic.Common

/-!
# Addresses

Both the router of `hw3` and the address resolution of `hw4` keep an IP
address as text in a `char` array of `IP_LEN` bytes and a hardware address as
`IF_HADDR` raw bytes.  Text is compared with `strcmp` and copied with
`strcpy`, so only the bytes in front of the terminator count.
-/

namespace NetworkProgramming

/-- The text in a `char` array of the given size: the bytes in front of the
terminating zero, which has to fit as well. -/
structure CString (size : ℕ) where
  bytes : List UInt8
  nonzero : ∀ b ∈ bytes, b ≠ 0
  fits : bytes.length < size
  deriving DecidableEq

/-- `IP_LEN` is 20 in both programs. -/
abbrev IpText := CString 20

theorem CString.nonzero_nil : ∀ b ∈ ([] : List UInt8), b ≠ 0 := by
  simp

/-- The text of a zeroed array. -/
def emptyIp : IpText :=
  ⟨[], CString.nonzero_nil, by decide⟩

theorem numberedIp_nonzero (k : ℕ) :
    ∀ b ∈ [UInt8.ofNat (k % 255 + 1)], b ≠ 0 := by
  intro b hb hzero
  rw [List.mem_singleton] at hb
  have hnat := congrArg UInt8.toNat (hb.symm.trans hzero)
  simp only [UInt8.toNat_ofNat', UInt8.toNat_zero] at hnat
  omega

/-- Different addresses for long runs: those of the numbers below 255 are
different. -/
def numberedIp (k : ℕ) : IpText :=
  ⟨[UInt8.ofNat (k % 255 + 1)], numberedIp_nonzero k, by simp⟩

theorem numberedIp_ne_emptyIp (k : ℕ) : numberedIp k ≠ emptyIp := by
  intro hempty
  cases congrArg CString.bytes hempty

theorem numberedIp_inj
    {k l : ℕ} (hk : k < 255) (hl : l < 255)
    (hsame : numberedIp k = numberedIp l) :
    k = l := by
  have hbytes := congrArg CString.bytes hsame
  have hbyte := (List.cons.inj hbytes).1
  have hnat := congrArg UInt8.toNat hbyte
  simp only [UInt8.toNat_ofNat'] at hnat
  omega

/-- A hardware address: `IF_HADDR` bytes, zero bytes included. -/
abbrev Mac := List.Vector UInt8 6

def zeroMac : Mac :=
  ⟨[0, 0, 0, 0, 0, 0], rfl⟩

def broadcastMac : Mac :=
  ⟨[255, 255, 255, 255, 255, 255], rfl⟩

/-- `server_details`, one interface as `populate_server_details` lists it. -/
structure ServerDetails where
  ip : IpText
  mac : Mac
  index : ℤ
  deriving DecidableEq

end NetworkProgramming
