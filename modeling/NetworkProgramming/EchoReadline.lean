import NetworkProgramming.LineSplit

/-!
# Reading lines

The programs of `Assignment1` read with `readline` of the library in
`unpv13e`.  It takes bytes from a buffer which `read` fills, and stores them
in the array of its caller up to a newline.  When the loop ends because the
array is full, `n` counts the terminating zero as well: a caller which hands
on `n` bytes hands on a zero byte behind every `MAXLINE - 1` bytes without a
newline.
-/

namespace NetworkProgramming.Echo

open LineSplit

/-- `MAXLINE`. -/
def maxline : ℕ :=
  4096

def newline : UInt8 :=
  10

/-- What a call of `readline` has stored for its caller, and the bytes which
are left in the buffer of the library, `rl_cnt` of them at `rl_bufptr`. -/
structure Reader where
  line : List UInt8
  rest : List UInt8
  deriving DecidableEq

def Reader.empty : Reader :=
  ⟨[], []⟩

theorem Reader.eq_empty
    {reader : Reader} (hline : reader.line = [])
    (hrest : reader.rest = []) :
    reader = .empty := by
  cases reader with
  | mk line rest =>
      subst hline
      subst hrest
      rfl

/-- The bytes of the array which the result `n` counts, at the end of the
loop. -/
def returned (line : List UInt8) : List UInt8 :=
  if line.getLast? = some newline then line else line ++ [0]

/-- One `my_read` which finds a byte in the buffer, and the result of
`readline` if this byte ends its loop. -/
def Reader.store (reader : Reader) :
    Option (Reader × Option (List UInt8)) :=
  match reader.rest with
  | [] => none
  | c :: rest =>
      let line := reader.line ++ [c]
      if c = newline ∨ line.length + 1 = maxline then
        some (⟨[], rest⟩, some (returned line))
      else some (⟨line, rest⟩, none)

/-- Without a byte in the buffer `my_read` calls `read`. -/
theorem Reader.store_eq_none_iff {reader : Reader} :
    reader.store = none ↔ reader.rest = [] := by
  rcases hrest : reader.rest with _ | ⟨c, rest⟩
  · simp [Reader.store, hrest]
  · by_cases hends : c = newline ∨
        (reader.line ++ [c]).length + 1 = maxline
    · simp only [Reader.store, hrest, if_pos hends, reduceCtorEq]
    · simp only [Reader.store, hrest, if_neg hends, reduceCtorEq]

/-! ## A stream which is handed on line by line -/

/-- What is handed on for the complete lines of a stream. -/
def echoLines (taken : List UInt8) : List UInt8 :=
  render newline (maxline - 1) returned taken

/-- The line which is not complete.  At the end of the stream `readline`
returns it as it is. -/
def openLine (taken : List UInt8) : List UInt8 :=
  unfinished newline (maxline - 1) taken

/-- What is handed on for a stream which has ended. -/
def echoAll (taken : List UInt8) : List UInt8 :=
  echoLines taken ++ openLine taken

/-- No line is longer than the array. -/
def FitsLines (taken : List UInt8) : Prop :=
  Short newline (maxline - 1) taken

instance (taken : List UInt8) : Decidable (FitsLines taken) :=
  inferInstanceAs (Decidable (Short _ _ _))

theorem echoLines_isPrefix (taken more : List UInt8) :
    echoLines taken <+: echoLines (taken ++ more) :=
  render_isPrefix returned taken more

theorem echoLines_isPrefix_echoAll (taken more : List UInt8) :
    echoLines taken <+: echoAll (taken ++ more) :=
  (echoLines_isPrefix taken more).trans (List.prefix_append _ _)

theorem FitsLines.of_isPrefix
    {taken whole : List UInt8} (hfits : FitsLines whole)
    (hpre : taken <+: whole) :
    FitsLines taken :=
  Short.of_isPrefix hfits hpre

theorem FitsLines.echoLines_eq_flatten
    {taken : List UInt8} (hfits : FitsLines taken) :
    echoLines taken = (lines newline (maxline - 1) taken).flatten := by
  apply render_eq_flatten
  intro line hline
  rw [returned, if_pos (hfits line hline)]

theorem FitsLines.echoLines_append
    {taken : List UInt8} (hfits : FitsLines taken) :
    echoLines taken ++ openLine taken = taken := by
  rw [hfits.echoLines_eq_flatten, openLine, flatten_lines_append]

theorem FitsLines.echoAll_eq
    {taken : List UInt8} (hfits : FitsLines taken) :
    echoAll taken = taken :=
  hfits.echoLines_append

theorem FitsLines.echoLines_eq
    {taken : List UInt8} (hfits : FitsLines taken)
    (hopen : openLine taken = []) :
    echoLines taken = taken := by
  have hwhole := hfits.echoLines_append
  rw [hopen, List.append_nil] at hwhole
  exact hwhole

theorem FitsLines.echoLines_isPrefix_self
    {taken : List UInt8} (hfits : FitsLines taken) :
    echoLines taken <+: taken :=
  ⟨openLine taken, hfits.echoLines_append⟩

/-! ## What a reader has handed on -/

/-- Of the bytes which `read` returned, `consumed` are those which `my_read`
handed out. -/
structure Reader.Reads (reader : Reader) (taken consumed : List UInt8) :
    Prop where
  taken : taken = consumed ++ reader.rest
  line : reader.line = openLine consumed

theorem Reader.reads_empty : Reader.empty.Reads [] [] :=
  ⟨rfl, rfl⟩

theorem Reader.Reads.fill
    {reader : Reader} {taken consumed : List UInt8}
    (hreads : reader.Reads taken consumed) (hrest : reader.rest = [])
    (chunk : List UInt8) :
    Reader.Reads ⟨reader.line, chunk⟩ (taken ++ chunk) consumed := by
  have htaken := hreads.taken
  rw [hrest, List.append_nil] at htaken
  refine ⟨?_, hreads.line⟩
  rw [htaken]

theorem Reader.Reads.store
    {reader next : Reader} {taken consumed : List UInt8}
    {result : Option (List UInt8)}
    (hreads : reader.Reads taken consumed)
    (hstore : reader.store = some (next, result)) :
    ∃ after, next.Reads taken after ∧
      echoLines after = echoLines consumed ++ result.getD [] := by
  rcases hrest : reader.rest with _ | ⟨c, rest⟩
  · simp [Reader.store, hrest] at hstore
  · have htaken : taken = (consumed ++ [c]) ++ rest := by
      rw [hreads.taken, hrest]
      simp
    have hends : (c = newline ∨
          (reader.line ++ [c]).length + 1 = maxline) ↔
        Ends newline (maxline - 1) (openLine consumed) c := by
      rw [Ends, hreads.line, List.length_append, List.length_singleton]
      exact or_congr_right (by simp only [maxline]; omega)
    simp only [Reader.store, hrest] at hstore
    by_cases hcomplete : Ends newline (maxline - 1) (openLine consumed) c
    · rw [if_pos (hends.mpr hcomplete), Option.some.injEq,
        Prod.mk.injEq] at hstore
      obtain ⟨rfl, rfl⟩ := hstore
      refine ⟨consumed ++ [c], ⟨htaken, ?_⟩, ?_⟩
      · exact (unfinished_concat_of_ends hcomplete).symm
      · rw [echoLines, render_concat_of_ends returned hcomplete, hreads.line]
        rfl
    · rw [if_neg (fun h => hcomplete (hends.mp h)), Option.some.injEq,
        Prod.mk.injEq] at hstore
      obtain ⟨rfl, rfl⟩ := hstore
      refine ⟨consumed ++ [c], ⟨htaken, ?_⟩, ?_⟩
      · rw [hreads.line]
        exact (unfinished_concat_of_not_ends hcomplete).symm
      · rw [echoLines, render_concat_of_not_ends returned hcomplete]
        simp [echoLines]

end NetworkProgramming.Echo
