import NetworkProgramming.EchoServer

/-!
# The echo client

`Assignment1/code/echo_cli.c` waits with `select` for its socket and for the
keyboard, and reads a line with `Readline` from whichever is ready.  The
`readline` it is linked with has one static buffer for all descriptors.  What
a `read` leaves in it behind the first line is handed out by the next call,
also when this call is for the other descriptor: a line of the server can be
sent to the server again, as if it had been typed.

When no `read` returns more than the line which is being read, the client
shows what was typed, line by line and in order.
-/

namespace NetworkProgramming.Echo

open Transition

inductive Source where
  | socket
  | stdin
  deriving DecidableEq

/-- One of the descriptors of the client: what `read` returned, and whether
it has returned 0. -/
structure Input where
  taken : List UInt8
  ended : Bool
  deriving DecidableEq

/-- `keys` has been typed and not been read.  `call` is the descriptor of the
`Readline` which has not returned, and `none` in `select`. -/
structure Client where
  keys : List UInt8
  keysDone : Bool
  inputs : Source → Input
  reader : Reader
  call : Option Source
  shown : List (List UInt8)
  wrote : List UInt8
  ended : Bool

def Client.connected : Client where
  keys := []
  keysDone := false
  inputs := fun _ => ⟨[], false⟩
  reader := .empty
  call := none
  shown := []
  wrote := []
  ended := false

def Client.typed (client : Client) : List UInt8 :=
  (client.inputs .stdin).taken ++ client.keys

/-- What `printf` shows of an array: it stops at a zero byte. -/
def shownText (line : List UInt8) : List UInt8 :=
  line.takeWhile fun b => decide (b ≠ 0)

def Client.printed (client : Client) : List UInt8 :=
  (client.shown.map shownText).flatten

/-! ## One call of `Readline` -/

/-- The call returns with some bytes. -/
def Client.handOn (client : Client) (line : List UInt8) :
    Source → Client
  | .socket =>
      { client with call := none, shown := client.shown ++ [line] }
  | .stdin =>
      { client with call := none, wrote := client.wrote ++ line }

/-- What goes to the socket when the call returns. -/
def sentFor (line : List UInt8) : Source → List UInt8
  | .socket => []
  | .stdin => line

/-- `my_read` finds a byte in the buffer.  The second component is what the
client writes to its socket. -/
def Client.store (client : Client) : Option (Client × List UInt8) :=
  client.call.bind fun source =>
    client.reader.store.map fun stored =>
      let next := { client with reader := stored.1 }
      match stored.2 with
      | none => (next, [])
      | some line => (next.handOn line source, sentFor line source)

/-- The bytes which `read` can return, if the server has written `answer`. -/
def Client.available (client : Client) (answer : List UInt8) :
    Source → List UInt8
  | .socket => answer.drop (client.inputs .socket).taken.length
  | .stdin => client.keys

/-- `my_read` calls `read`, and gets `n` bytes. -/
def Client.read (client : Client) (answer : List UInt8) (n : ℕ) :
    Option Client :=
  client.call.bind fun source =>
    let fresh := client.available answer source
    let input := client.inputs source
    if client.reader.rest = [] ∧ input.ended = false ∧
        0 < n ∧ n ≤ maxline ∧ n ≤ fresh.length then
      some { client with
        keys := if source = .stdin then client.keys.drop n else client.keys
        inputs := Function.update client.inputs source
          ⟨input.taken ++ fresh.take n, false⟩
        reader := ⟨client.reader.line, fresh.take n⟩ }
    else none

/-- `read` returns 0.  Without any bytes the client is done, whichever
descriptor it is. -/
def Client.eof (client : Client) : Option (Client × List UInt8) :=
  client.call.bind fun source =>
    let line := client.reader.line
    let seen := { client with
      inputs := Function.update client.inputs source
        ⟨(client.inputs source).taken, true⟩
      reader := .empty }
    if client.reader.rest = [] then
      if line = [] then
        some ({ seen with call := none, ended := true }, [])
      else some (seen.handOn line source, sentFor line source)
    else none

/-! ## Clients and server -/

structure Deployment where
  server : Server
  clients : ℕ → Client

/-- The peer does something if it can. -/
def Connection.after (connection : Connection) (event : PeerEvent) :
    Connection :=
  (connection.peer event).getD connection

def Server.hears (server : Server) (c : ℕ) (event : PeerEvent) : Server :=
  { server with
    connections := Function.update server.connections c
      ((server.connections c).after event) }

/-- A client with its new state, and what it writes. -/
def Deployment.moves (state : Deployment) (c : ℕ) (client : Client)
    (bytes : List UInt8) : Deployment where
  server := state.server.hears c (.send bytes)
  clients := Function.update state.clients c client

/-- The client exits, and its socket is closed. -/
def Deployment.exits (state : Deployment) (c : ℕ) (client : Client) :
    Deployment where
  server := state.server.hears c .finish
  clients := Function.update state.clients c { client with ended := true }

inductive DeploymentEvent where
  | server (event : ServerEvent)
  | keys (c : ℕ) (bytes : List UInt8)
  | keysDone (c : ℕ)
  | select (c : ℕ) (source : Source)
  | read (c : ℕ) (n : ℕ)
  | store (c : ℕ)
  | eof (c : ℕ)
  | interrupt (c : ℕ)

/-- Connection `c` is one of an echo client, which still runs. -/
def Deployment.Active (state : Deployment) (c : ℕ) : Prop :=
  c < state.server.accepted ∧
    (state.server.connections c).service = .echo ∧
    (state.clients c).ended = false

instance (state : Deployment) (c : ℕ) : Decidable (state.Active c) :=
  inferInstanceAs (Decidable (_ ∧ _ ∧ _))

/-- Bytes which the client could read. -/
def Deployment.available (state : Deployment) (c : ℕ) (source : Source) :
    List UInt8 :=
  (state.clients c).available (state.server.connections c).answer source

/-- `read` would return 0 once the bytes are read. -/
def Deployment.Over (state : Deployment) (c : ℕ) : Source → Prop
  | .socket => (state.server.connections c).isOpen = false ∨
      state.server.exited = true
  | .stdin => (state.clients c).keysDone = true

instance (state : Deployment) (c : ℕ) (source : Source) :
    Decidable (state.Over c source) :=
  match source with
  | .socket => inferInstanceAs (Decidable (_ ∨ _))
  | .stdin => inferInstanceAs (Decidable (_ = _))

/-- What clients do is not an event of the server alone. -/
def ServerEvent.isClient : ServerEvent → Bool
  | .peer _ (.send _) | .peer _ .finish => true
  | .peer _ .reset | .accept _ _ | .start _ | .store _ | .tick _ _
  | .read _ _ | .write _ _ | .readError _ | .badWrite _ => false

def Deployment.step (shared : Bool) (state : Deployment) :
    DeploymentEvent → Option Deployment
  | .server event =>
      if event.isClient = false then
        (state.server.step shared event).map fun server =>
          { state with server := server }
      else none
  | .keys c bytes =>
      if (state.clients c).keysDone = false then
        some { state with
          clients := Function.update state.clients c
            { state.clients c with
              keys := (state.clients c).keys ++ bytes } }
      else none
  | .keysDone c =>
      some { state with
        clients := Function.update state.clients c
          { state.clients c with keysDone := true } }
  | .select c source =>
      if state.Active c ∧ (state.clients c).call = none ∧
          (state.available c source ≠ [] ∨ state.Over c source) then
        some { state with
          clients := Function.update state.clients c
            { state.clients c with call := some source } }
      else none
  | .read c n =>
      if state.Active c then
        ((state.clients c).read (state.server.connections c).answer n).map
          fun client => { state with
            clients := Function.update state.clients c client }
      else none
  | .store c =>
      if state.Active c then
        (state.clients c).store.map fun after =>
          state.moves c after.1 after.2
      else none
  | .eof c =>
      if state.Active c ∧ ∀ source, (state.clients c).call = some source →
          state.available c source = [] ∧ state.Over c source then
        (state.clients c).eof.map fun after =>
          if after.1.ended = true then state.exits c after.1
          else state.moves c after.1 after.2
      else none
  | .interrupt c =>
      if state.Active c then some (state.exits c (state.clients c)) else none

/-- The bytes end with the line to which they are added, or before it
ends. -/
def oneLine : List UInt8 → List UInt8 → Bool
  | _, [] => true
  | line, c :: rest =>
      if c = newline ∨ (line ++ [c]).length + 1 = maxline then rest.isEmpty
      else oneLine (line ++ [c]) rest

/-- No client reads beyond the line it waits for, and threads begin before
the next connection is accepted. -/
def Deployment.LineReads (state : Deployment) : DeploymentEvent → Prop
  | .server event => state.server.Prompt event
  | .read c n => ∀ source, (state.clients c).call = some source →
      oneLine (state.clients c).reader.line
        ((state.available c source).take n) = true
  | .keys _ _ | .keysDone _ | .select _ _ | .store _ | .eof _
  | .interrupt _ => True

instance (state : Deployment) (event : DeploymentEvent) :
    Decidable (state.LineReads event) :=
  match event with
  | .server event => inferInstanceAs (Decidable (state.server.Prompt event))
  | .read c n => inferInstanceAs (Decidable (∀ source,
      (state.clients c).call = some source →
        oneLine (state.clients c).reader.line
          ((state.available c source).take n) = true))
  | .keys _ _ | .keysDone _ | .select _ _ | .store _ | .eof _
  | .interrupt _ => inferInstanceAs (Decidable True)

/-! ## What a client has handed on -/

/-- The reader as far as it concerns a descriptor. -/
def Client.view (client : Client) (source : Source) : Reader :=
  if client.call = some source then client.reader else .empty

/-- What the calls for a descriptor have returned. -/
def Client.handed (client : Client) : Source → List UInt8
  | .socket => client.shown.flatten
  | .stdin => client.wrote

/-- The lines of the descriptor were handed on, or all its bytes if `read`
has returned 0. -/
inductive Input.Hands (input : Input) (reader : Reader)
    (handed : List UInt8) : Prop
  | reading (consumed : List UInt8)
      (reads : reader.Reads input.taken consumed)
      (handed_eq : handed = echoLines consumed)
      (ongoing : input.ended = false)
  | flushed
      (ended : input.ended = true)
      (reader_eq : reader = .empty)
      (handed_eq : handed = echoAll input.taken)

structure Client.Keeps (client : Client) : Prop where
  resting : client.call = none → client.reader = .empty
  single : oneLine client.reader.line client.reader.rest = true
  hands : ∀ source, (client.inputs source).Hands (client.view source)
    (client.handed source)

theorem Reader.store_oneLine
    {reader next : Reader} {result : Option (List UInt8)}
    (hone : oneLine reader.line reader.rest = true)
    (hstore : reader.store = some (next, result)) :
    (result = none ∧ oneLine next.line next.rest = true ∧
      next ≠ .empty) ∨
    ∃ line, result = some line ∧ next = .empty := by
  rcases hrest : reader.rest with _ | ⟨c, rest⟩
  · simp [Reader.store, hrest] at hstore
  · rw [hrest, oneLine] at hone
    simp only [Reader.store, hrest] at hstore
    by_cases hends : c = newline ∨
        (reader.line ++ [c]).length + 1 = maxline
    · rw [if_pos hends, List.isEmpty_iff] at hone
      rw [if_pos hends, Option.some.injEq, Prod.mk.injEq] at hstore
      obtain ⟨rfl, rfl⟩ := hstore
      exact .inr ⟨_, rfl, by rw [hone, Reader.empty]⟩
    · rw [if_neg hends] at hone
      rw [if_neg hends, Option.some.injEq, Prod.mk.injEq] at hstore
      obtain ⟨rfl, rfl⟩ := hstore
      refine .inl ⟨rfl, hone, ?_⟩
      intro hempty
      have hline := congrArg Reader.line hempty
      simp [Reader.empty] at hline

theorem Input.Hands.store
    {input : Input} {reader next : Reader} {handed : List UInt8}
    {result : Option (List UInt8)}
    (hhands : input.Hands reader handed)
    (hstore : reader.store = some (next, result)) :
    input.Hands next (handed ++ result.getD []) := by
  cases hhands with
  | reading consumed hreads hhanded hongoing =>
      obtain ⟨after, hafter, hlines⟩ := hreads.store hstore
      refine .reading after hafter ?_ hongoing
      rw [hlines, hhanded]
  | flushed _ hempty =>
      rw [hempty] at hstore
      cases hstore

theorem Input.Hands.fill
    {input : Input} {reader : Reader} {handed : List UInt8}
    (hhands : input.Hands reader handed) (hrest : reader.rest = [])
    (hongoing : input.ended = false) (chunk : List UInt8) :
    Input.Hands ⟨input.taken ++ chunk, false⟩ ⟨reader.line, chunk⟩
      handed := by
  cases hhands with
  | reading consumed hreads hhanded =>
      exact .reading consumed (hreads.fill hrest chunk) hhanded rfl
  | flushed hended =>
      rw [hongoing] at hended
      cases hended

/-- At the end of the stream the line is handed on as it is. -/
theorem Input.Hands.eof
    {input : Input} {reader : Reader} {handed : List UInt8}
    (hhands : input.Hands reader handed) (hrest : reader.rest = []) :
    Input.Hands ⟨input.taken, true⟩ .empty (handed ++ reader.line) := by
  cases hhands with
  | reading consumed hreads hhanded =>
      refine .flushed rfl rfl ?_
      have htaken := hreads.taken
      rw [hrest, List.append_nil] at htaken
      rw [hhanded, hreads.line, htaken, echoAll]
  | flushed _ hempty hhanded =>
      refine .flushed rfl rfl ?_
      rw [hempty, Reader.empty, List.append_nil]
      exact hhanded

/-- Of a stream without long lines, nothing but its beginning is handed
on. -/
theorem Input.Hands.handed_isPrefix
    {input : Input} {reader : Reader} {handed : List UInt8}
    (hhands : input.Hands reader handed) (hfits : FitsLines input.taken) :
    handed <+: input.taken := by
  cases hhands with
  | reading consumed hreads hhanded =>
      have hpart : consumed <+: input.taken :=
        ⟨reader.rest, hreads.taken.symm⟩
      rw [hhanded]
      exact (hfits.of_isPrefix hpart).echoLines_isPrefix_self.trans hpart
  | flushed _ _ hhanded =>
      rw [hhanded, hfits.echoAll_eq]

section Keeps

variable {client next : Client} {source : Source}

theorem Client.view_of_none (hcall : client.call = none)
    (source : Source) : client.view source = .empty := by
  rw [Client.view, hcall, if_neg (by simp)]

theorem Client.view_of_call (hcall : client.call = some source) :
    client.view source = client.reader := by
  rw [Client.view, if_pos hcall]

theorem Client.view_of_other {other : Source}
    (hcall : client.call = some source) (hother : other ≠ source) :
    client.view other = .empty := by
  rw [Client.view, hcall, if_neg]
  intro hsame
  exact hother (Option.some.inj hsame).symm

theorem Client.keeps_of_call
    (hcall : client.call = some source)
    (hsingle : oneLine client.reader.line client.reader.rest = true)
    (hcurrent : (client.inputs source).Hands client.reader
      (client.handed source))
    (hothers : ∀ other, other ≠ source →
      (client.inputs other).Hands .empty (client.handed other)) :
    client.Keeps := by
  refine ⟨?_, hsingle, ?_⟩
  · intro hnone
    rw [hcall] at hnone
    cases hnone
  · intro other
    by_cases hother : other = source
    · subst hother
      rw [Client.view_of_call hcall]
      exact hcurrent
    · rw [Client.view_of_other hcall hother]
      exact hothers other hother

theorem Client.keeps_of_none
    (hcall : client.call = none) (hreader : client.reader = .empty)
    (hhands : ∀ source,
      (client.inputs source).Hands .empty (client.handed source)) :
    client.Keeps := by
  refine ⟨fun _ => hreader, ?_, ?_⟩
  · rw [hreader]
    rfl
  · intro source
    rw [Client.view_of_none hcall]
    exact hhands source

/-- What concerns neither descriptor. -/
theorem Client.Keeps.of_eq
    (hkeeps : client.Keeps)
    (hinputs : next.inputs = client.inputs)
    (hreader : next.reader = client.reader)
    (hcall : next.call = client.call)
    (hshown : next.shown = client.shown)
    (hwrote : next.wrote = client.wrote) :
    next.Keeps := by
  refine ⟨?_, ?_, ?_⟩
  · rw [hcall, hreader]
    exact hkeeps.resting
  · rw [hreader]
    exact hkeeps.single
  · intro source
    have hview : next.view source = client.view source := by
      rw [Client.view, Client.view, hcall, hreader]
    have hhanded : next.handed source = client.handed source := by
      cases source with
      | socket => rw [Client.handed, Client.handed, hshown]
      | stdin => rw [Client.handed, Client.handed, hwrote]
    rw [hinputs, hview, hhanded]
    exact hkeeps.hands source

theorem Client.Keeps.select
    (hkeeps : client.Keeps) (hcall : client.call = none)
    (source : Source) :
    Client.Keeps { client with call := some source } := by
  have hempty := hkeeps.resting hcall
  have hhands : ∀ other,
      (client.inputs other).Hands .empty (client.handed other) := by
    intro other
    have hother := hkeeps.hands other
    rw [Client.view_of_none hcall] at hother
    exact hother
  refine Client.keeps_of_call rfl hkeeps.single ?_ fun other _ =>
    hhands other
  change (client.inputs source).Hands client.reader (client.handed source)
  rw [hempty]
  exact hhands source

theorem Client.handed_handOn
    (client : Client) (line : List UInt8) (source other : Source) :
    (client.handOn line source).handed other =
      if other = source then client.handed other ++ line
      else client.handed other := by
  cases source with
  | socket =>
      cases other with
      | socket => simp [Client.handOn, Client.handed]
      | stdin => rfl
  | stdin =>
      cases other with
      | socket => rfl
      | stdin => rfl

theorem Client.call_handOn
    (client : Client) (line : List UInt8) (source : Source) :
    (client.handOn line source).call = none := by
  cases source with
  | socket => rfl
  | stdin => rfl

theorem Client.inputs_handOn
    (client : Client) (line : List UInt8) (source : Source) :
    (client.handOn line source).inputs = client.inputs := by
  cases source with
  | socket => rfl
  | stdin => rfl

theorem Client.reader_handOn
    (client : Client) (line : List UInt8) (source : Source) :
    (client.handOn line source).reader = client.reader := by
  cases source with
  | socket => rfl
  | stdin => rfl

/-- The call for a descriptor returns. -/
theorem Client.keeps_handOn
    {line : List UInt8} (hreader : client.reader = .empty)
    (hcurrent : (client.inputs source).Hands .empty
      (client.handed source ++ line))
    (hothers : ∀ other, other ≠ source →
      (client.inputs other).Hands .empty (client.handed other)) :
    (client.handOn line source).Keeps := by
  refine Client.keeps_of_none (client.call_handOn line source) ?_ ?_
  · rw [Client.reader_handOn, hreader]
  · intro other
    rw [Client.inputs_handOn, Client.handed_handOn]
    by_cases hother : other = source
    · subst hother
      rw [if_pos rfl]
      exact hcurrent
    · rw [if_neg hother]
      exact hothers other hother

theorem Client.Keeps.others
    (hkeeps : client.Keeps) (hcall : client.call = some source)
    {other : Source} (hother : other ≠ source) :
    (client.inputs other).Hands .empty (client.handed other) := by
  have hhands := hkeeps.hands other
  rw [Client.view_of_other hcall hother] at hhands
  exact hhands

theorem Client.Keeps.current
    (hkeeps : client.Keeps) (hcall : client.call = some source) :
    (client.inputs source).Hands client.reader (client.handed source) := by
  have hhands := hkeeps.hands source
  rw [Client.view_of_call hcall] at hhands
  exact hhands

theorem Client.Keeps.store
    (hkeeps : client.Keeps) {bytes : List UInt8}
    (hstore : client.store = some (next, bytes)) :
    next.Keeps := by
  obtain ⟨source, hcall, hstore⟩ := Option.bind_eq_some_iff.mp hstore
  obtain ⟨⟨reader, result⟩, hreader, hstore⟩ :=
    Option.map_eq_some_iff.mp hstore
  have hcurrent := (hkeeps.current hcall).store hreader
  rcases Reader.store_oneLine hkeeps.single hreader with
    ⟨rfl, hsingle, _⟩ | ⟨line, rfl, rfl⟩
  · simp only [Prod.mk.injEq] at hstore
    obtain ⟨rfl, rfl⟩ := hstore
    rw [Option.getD_none, List.append_nil] at hcurrent
    exact Client.keeps_of_call hcall hsingle hcurrent
      fun other hother => hkeeps.others hcall hother
  · simp only [Prod.mk.injEq] at hstore
    obtain ⟨rfl, rfl⟩ := hstore
    exact Client.keeps_handOn rfl hcurrent
      fun other hother => hkeeps.others hcall hother

theorem Client.Keeps.read
    (hkeeps : client.Keeps) {answer : List UInt8} {n : ℕ}
    (hone : ∀ source, client.call = some source →
      oneLine client.reader.line
        ((client.available answer source).take n) = true)
    (hread : client.read answer n = some next) :
    next.Keeps := by
  obtain ⟨source, hcall, hread⟩ := Option.bind_eq_some_iff.mp hread
  simp only [Option.ite_none_right_eq_some, Option.some.injEq] at hread
  obtain ⟨⟨hrest, hongoing, _⟩, rfl⟩ := hread
  refine Client.keeps_of_call hcall (hone source hcall) ?_ ?_
  · dsimp only
    rw [Function.update_self]
    exact (hkeeps.current hcall).fill hrest hongoing _
  · intro other hother
    dsimp only
    rw [Function.update_of_ne hother]
    exact hkeeps.others hcall hother

theorem Client.Keeps.eof
    (hkeeps : client.Keeps) {bytes : List UInt8}
    (heof : client.eof = some (next, bytes)) :
    next.Keeps := by
  obtain ⟨source, hcall, heof⟩ := Option.bind_eq_some_iff.mp heof
  simp only [Option.ite_none_right_eq_some] at heof
  obtain ⟨hrest, heof⟩ := heof
  have hcurrent := (hkeeps.current hcall).eof hrest
  split at heof
  next hline =>
    simp only [Option.some.injEq, Prod.mk.injEq] at heof
    obtain ⟨rfl, rfl⟩ := heof
    rw [hline, List.append_nil] at hcurrent
    refine Client.keeps_of_none rfl rfl ?_
    intro other
    dsimp only
    by_cases hother : other = source
    · subst hother
      rw [Function.update_self]
      exact hcurrent
    · rw [Function.update_of_ne hother]
      exact hkeeps.others hcall hother
  next =>
    simp only [Option.some.injEq, Prod.mk.injEq] at heof
    obtain ⟨rfl, rfl⟩ := heof
    refine Client.keeps_handOn rfl ?_ ?_
    · dsimp only
      rw [Function.update_self]
      exact hcurrent
    · intro other hother
      dsimp only
      rw [Function.update_of_ne hother]
      exact hkeeps.others hcall hother

end Keeps

end NetworkProgramming.Echo
