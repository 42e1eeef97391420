import NetworkProgramming.ArpLookups
import NetworkProgramming.MemoryImage
import Mathlib.Data.List.TakeWhile

/-!
# The answer to a lookup

`send_reply` writes the bytes of a `struct hwaddr` to the connection of the
client, and `areq` copies the bytes it reads into the struct of its caller.
The hardware address is copied with `memcpy`, but its length is taken with
`strlen`, which stops at a zero byte of the address.
-/

namespace NetworkProgramming.Arp

open MemoryImage

/-- The sizes of the fields of `struct hwaddr`, which is packed. -/
def hwaddrSizes : List ℕ :=
  [4, 2, 1, 8]

/-- The bytes copied to `sendline`. -/
def Hwaddr.image (hwa : Hwaddr) : List UInt8 :=
  [signedWord 4 hwa.sllIfindex, word 2 hwa.sllHatype, word 1 hwa.sllHalen,
    hwa.sllAddr].flatten

def Hwaddr.ofImage (bytes : List UInt8) : Hwaddr :=
  let fields := hwaddrSizes.splitLengths bytes
  { sllIfindex := ofSignedWord (fields.getD 0 [])
    sllHatype := ofWord (fields.getD 1 [])
    sllHalen := ofWord (fields.getD 2 [])
    sllAddr := fields.getD 3 [] }

/-- The struct after `bzero`. -/
def Hwaddr.zeroed : Hwaddr :=
  ⟨0, 0, 0, List.replicate 8 0⟩

/-- The result of `areq` and the struct it leaves to its caller.  `answer` is
what can be read from the connection before the timeout of one second. -/
def areq (answer : Option (List UInt8)) : ℤ × Hwaddr :=
  match answer with
  | some recvline => (0, Hwaddr.ofImage recvline)
  | none => (1, Hwaddr.zeroed)

/-- The values which the fields of the struct can take. -/
structure Hwaddr.Fits (hwa : Hwaddr) : Prop where
  ifindex_min : -2 ^ 31 ≤ hwa.sllIfindex
  ifindex_max : hwa.sllIfindex < 2 ^ 31
  hatype : hwa.sllHatype < 2 ^ 16
  halen : hwa.sllHalen < 2 ^ 8
  addr : hwa.sllAddr.length = 8

theorem Hwaddr.Fits.ofImage_image
    {hwa : Hwaddr} (hfits : hwa.Fits) :
    Hwaddr.ofImage hwa.image = hwa := by
  have hfields : hwaddrSizes.splitLengths hwa.image =
      [signedWord 4 hwa.sllIfindex, word 2 hwa.sllHatype,
        word 1 hwa.sllHalen, hwa.sllAddr] := by
    have hsplit := splitLengths_flatten
      [signedWord 4 hwa.sllIfindex, word 2 hwa.sllHatype,
        word 1 hwa.sllHalen, hwa.sllAddr]
    simp only [List.map_cons, List.map_nil, length_signedWord, length_word,
      hfits.addr] at hsplit
    exact hsplit
  have hindex : ofSignedWord (signedWord 4 hwa.sllIfindex) =
      hwa.sllIfindex :=
    ofSignedWord_signedWord_of_le hfits.ifindex_min hfits.ifindex_max
  have hhatype : ofWord (word 2 hwa.sllHatype) = hwa.sllHatype :=
    ofWord_word_of_lt hfits.hatype
  have hhalen : ofWord (word 1 hwa.sllHalen) = hwa.sllHalen :=
    ofWord_word_of_lt hfits.halen
  simp only [Hwaddr.ofImage, hfields, List.getD_cons_zero,
    List.getD_cons_succ, hindex, hhatype, hhalen]

/-! ## The length of the address -/

theorem strlenMac_le (mac : Mac) : strlenMac mac ≤ 6 := by
  have hle : strlenMac mac ≤ mac.toList.length :=
    (List.takeWhile_prefix _).length_le
  rw [List.Vector.toList_length] at hle
  exact hle

theorem strlenMac_eq_six_iff (mac : Mac) :
    strlenMac mac = 6 ↔ 0 ∉ mac.toList := by
  constructor
  · intro hlength hzero
    have hall : mac.toList.takeWhile (fun b => decide (b ≠ 0)) =
        mac.toList := by
      apply (List.takeWhile_prefix _).eq_of_length
      rw [List.Vector.toList_length]
      exact hlength
    have hnonzero := List.takeWhile_eq_self_iff.mp hall 0 hzero
    simp at hnonzero
  · intro hnonzero
    have hall : mac.toList.takeWhile (fun b => decide (b ≠ 0)) =
        mac.toList := by
      apply List.takeWhile_eq_self_iff.mpr
      intro b hb
      have hne : b ≠ 0 := fun hzero => hnonzero (hzero ▸ hb)
      exact decide_eq_true hne
    rw [strlenMac, hall, List.Vector.toList_length]

/-! ## The round trip -/

/-- The struct tells the caller of `areq` what the entry holds. -/
structure Hwaddr.Describes (hwa : Hwaddr) (entry : ArpCacheDetails) :
    Prop where
  address : hwa.sllAddr.take 6 = entry.mac.toList
  index : hwa.sllIfindex = entry.index
  hatype : hwa.sllHatype = 1
  halen : hwa.sllHalen = 6

theorem fits_hwaddr
    {entry : ArpCacheDetails} (hmin : -2 ^ 31 ≤ entry.index)
    (hmax : entry.index < 2 ^ 31) :
    entry.hwaddr.Fits where
  ifindex_min := hmin
  ifindex_max := hmax
  hatype := by
    change 1 < 2 ^ 16
    decide
  halen := (strlenMac_le entry.mac).trans_lt (by decide)
  addr := by
    simp [ArpCacheDetails.hwaddr]

theorem describes_hwaddr_iff (entry : ArpCacheDetails) :
    entry.hwaddr.Describes entry ↔ 0 ∉ entry.mac.toList := by
  rw [← strlenMac_eq_six_iff]
  constructor
  · intro hdescribes
    exact hdescribes.halen
  · intro hlength
    have haddress : entry.hwaddr.sllAddr.take 6 = entry.mac.toList :=
      List.take_left' (List.Vector.toList_length _)
    exact ⟨haddress, rfl, rfl, hlength⟩

/-- `send_reply` finds the entry for the IP and answers the client, and the
struct which `areq` returns describes the entry exactly when the hardware
address has no zero byte.  The index is an `int`. -/
theorem areq_describes_iff
    {process : Process} {ip : IpText} {entry : ArpCacheDetails}
    (hentry : process.entry ip = some entry)
    (hmin : -2 ^ 31 ≤ entry.index) (hmax : entry.index < 2 ^ 31)
    (fd : ℤ) :
    ∃ next w, process.sendReply ip fd = some next ∧
      next.written = w :: process.written ∧
      w.fd = (if fd ≠ -1 then fd else entry.fd) ∧
      (areq (some w.hwaddr.image)).1 = 0 ∧
      ((areq (some w.hwaddr.image)).2.Describes entry ↔
        0 ∉ entry.mac.toList) := by
  obtain ⟨i, hslot, hfind⟩ := exists_allFind hentry
  have hwritten := written_replyFrom process i fd
  rw [hslot] at hwritten
  refine ⟨_, _, hfind.reply fd, hwritten, rfl, rfl, ?_⟩
  have hread : (areq (some entry.hwaddr.image)).2 = entry.hwaddr :=
    (fits_hwaddr hmin hmax).ofImage_image
  rw [hread]
  exact describes_hwaddr_iff entry

/-- A host whose hardware address has no zero byte. -/
def brightInterface : ServerDetails :=
  ⟨numberedIp 1, ⟨[2, 12, 41, 1, 1, 1], rfl⟩, 3⟩

theorem areq_describes_bright :
    ∃ next w, (boot 7 [brightInterface]).sendReply brightInterface.ip 5 =
        some next ∧
      w ∈ next.written ∧ w.fd = 5 ∧
      (areq (some w.hwaddr.image)).2.Describes
        ⟨brightInterface.ip, brightInterface.mac, 3, noFd, true⟩ := by
  have hentry : (boot 7 [brightInterface]).entry brightInterface.ip =
      some ⟨brightInterface.ip, brightInterface.mac, 3, noFd, true⟩ := by
    decide +kernel
  obtain ⟨next, w, hreply, hwritten, hfd, _, hiff⟩ :=
    areq_describes_iff hentry (by decide) (by decide) 5
  refine ⟨next, w, hreply, ?_, hfd, hiff.mpr (by decide +kernel)⟩
  rw [hwritten]
  exact List.mem_cons_self

/-- The address of the host begins with a zero byte, and a client which asks
for it is told that it has no bytes. -/
theorem areq_halen_zero :
    ∃ process, Transition.Reachable Process.step Transition.Unrestricted
        Process.Initial process ∧
      process.entry hostInterface.ip =
        some ⟨hostInterface.ip, hostInterface.mac, 2, noFd, true⟩ ∧
      ∃ w ∈ process.written, w.fd = 5 ∧
        w.asked = some hostInterface.ip ∧
        (areq (some w.hwaddr.image)).2.sllHalen = 0 ∧
        ¬ (areq (some w.hwaddr.image)).2.Describes
          ⟨hostInterface.ip, hostInterface.mac, 2, noFd, true⟩ := by
  obtain ⟨process, hreach, htest⟩ :=
    Transition.exists_reachable_of_replay Process.step
      Transition.Unrestricted
      (boot_initial 7 [hostInterface]) [.client 5 hostInterface.ip]
      (fun state : Process =>
        decide (state.entry hostInterface.ip = some
          ⟨hostInterface.ip, hostInterface.mac, 2, noFd, true⟩) &&
        state.written.any fun w => decide (w.fd = 5) &&
          decide (w.asked = some hostInterface.ip) &&
          decide ((areq (some w.hwaddr.image)).2.sllHalen = 0))
      (by decide +kernel)
  simp only [Bool.and_eq_true, decide_eq_true_eq, List.any_eq_true]
    at htest
  obtain ⟨hentry, w, hw, ⟨hfd, hasked⟩, hzero⟩ := htest
  refine ⟨process, hreach, hentry, w, hw, hfd, hasked, hzero, ?_⟩
  intro hdescribes
  have hsix := hdescribes.halen
  rw [hzero] at hsix
  cases hsix

end NetworkProgramming.Arp
