import TcFrame.ConnectionInput
import TcFrame.ConnectionSilent
import TcFrame.LengthFieldCodec

/-! One connection of the echo server that main builds: its message callback is the codec's
OnMessage, and the codec answers every message. OnMessage runs round by round; what its
sends do to the connection stands above it on the stack, and other threads interleave.
Nobody else sends; anybody may close the connection at any time. -/
namespace TcFrame.EchoServer
open LengthFieldCodec
open Connection (setInput)

/- `received` is what readv has returned so far, `decoded` the messages handed to the
codec's callback. -/
structure World where
  connection : Connection.World
  received : Bytes
  decoded : List Bytes

inductive Action where
  | connection (a : Connection.Action)
  | onMessage
  deriving DecidableEq, Repr

def reply (message : Bytes) : Bytes := if message = ping then pong else message

/- Send on the connection, in the loop's thread. -/
def send (c : Connection.World) (data : Bytes) : Connection.World :=
  Connection.runInline (Connection.request c Connection.loopThread (.send data))

def handleHeartbeat (c : Connection.World) (message : Bytes) : Option Connection.World :=
  if message = ping then some (send c pongFrame) else none

def codecSend (c : Connection.World) (message : Bytes) : Connection.World :=
  if c.conn.isConnected then send c (framed message) else c

def messageCallback (c : Connection.World) (message : Bytes) : Connection.World :=
  match handleHeartbeat c message with
  | some c' => c'
  | none => codecSend c message

/- The next round of OnMessage. -/
def onMessage (maxFrameLen : Nat) (w : World) (below : List Frame) : World :=
  let returned : Connection.World := { w.connection with stack := below }
  match nextRound maxFrameLen w.connection.conn.inputBuffer with
  | .returns => { w with connection := returned }
  | .refuses =>
    { w with connection := Connection.runInline (Connection.request returned Connection.loopThread .forceClose) }
  | .delivers message left =>
    { w with
      connection := messageCallback (setInput w.connection left) message
      decoded := w.decoded ++ [message] }

def step (maxFrameLen : Nat) (w : World) : Action → Option World
  | .connection a =>
    if Connection.sends a = true ∨ Connection.returns w.connection a then none
    else (Connection.step w.connection a).map (fun c =>
      { w with connection := c, received := w.received ++ Connection.readBytes a })
  | .onMessage =>
    match w.connection.stack with
    | .messageCallback :: below => some (onMessage maxFrameLen w below)
    | _ => none

inductive Step (maxFrameLen : Nat) (w : World) : World → Prop where
  | connection {a c} (silent : Connection.sends a = false) (busy : ¬ Connection.returns w.connection a)
      (taken : Connection.step w.connection a = some c) :
      Step maxFrameLen w { w with connection := c, received := w.received ++ Connection.readBytes a }
  | onMessage {below} (top : w.connection.stack = .messageCallback :: below) :
      Step maxFrameLen w (onMessage maxFrameLen w below)

theorem stepCases {maxFrameLen : Nat} {w w' : World} {a : Action} (taken : step maxFrameLen w a = some w') :
    Step maxFrameLen w w' := by
  cases a with
  | connection a =>
    simp only [step] at taken
    split at taken <;> try contradiction
    rename_i fine
    obtain ⟨c,made,same⟩ := Option.map_eq_some_iff.mp taken
    subst same
    exact .connection (Bool.eq_false_iff.mpr (fun s => fine (.inl s))) (fun r => fine (.inr r)) made
  | onMessage =>
    simp only [step] at taken
    split at taken <;> cases taken
    exact .onMessage (by assumption)

/- The input side: the stream is the decoded frames and what is left in the buffer, and
when OnMessage is not running no message can be taken off that. -/
structure Input (maxFrameLen : Nat) (w : World) : Prop where
  valid : w.connection.conn.inputBuffer.Valid
  whole : w.received = w.decoded.flatMap frame ++ w.connection.conn.inputBuffer.readable
  legal : ∀ m ∈ w.decoded, m.length ≤ limit maxFrameLen
  set : w.connection.conn.callbacks.message = true
  idle : Frame.messageCallback ∉ w.connection.stack →
    next maxFrameLen w.connection.conn.inputBuffer.readable = none

def answers (decoded : List Bytes) : Bytes := decoded.flatMap (fun m => frame (reply m))

/- The output side: what passed SendInLoop are the answers to the decoded messages, up to
the point where the connection was no longer Connected. -/
structure Output (w : World) : Prop where
  stream : Connection.Stream w.connection.ep (Connection.streamOf w.connection)
  ordered : Connection.Ordered w.connection
  own : ∀ m ∈ w.connection.sent, m.sender = Connection.loopThread
  fresh : w.connection.state = .connecting → w.received = []
  prefix_ : Connection.streamOf w.connection <+: answers w.decoded
  whole : w.connection.state = .connecting ∨ w.connection.state = .connected →
    Connection.streamOf w.connection = answers w.decoded

section Send
open Connection

/- Every call of the callback sends one frame, or the connection is not Connected. -/
theorem messageCallbackSends (c : Connection.World) (message : Bytes) :
    messageCallback c message = send c (frame (reply message)) ∨
      c.state ≠ .connected ∧ messageCallback c message = c := by
  unfold messageCallback handleHeartbeat
  by_cases heartbeat : message = ping
  · simp only [if_pos heartbeat, reply]
    exact .inl (congrArg (send c) pongFramed)
  · simp only [if_neg heartbeat, reply, codecSend]
    split
    · exact .inl (congrArg (send c) (framedFrame message))
    · rename_i other
      exact .inr ⟨fun connected => other (isConnectedIff.mpr connected),rfl⟩

theorem sendConnected {c : Connection.World} (connected : c.state = .connected) (data : Bytes) :
    streamOf (send c data) = streamOf c ++ data ∧ (send c data).state = .connected := by
  have passes : c.ep.conn.isConnected = true := isConnectedIff.mpr connected
  have handed : request c loopThread (.send data) =
      ({ c with sent := c.sent ++ [⟨loopThread,c.sent.length,data⟩] },
        some (.sendInLoop ⟨loopThread,c.sent.length,data⟩)) := by
    simp only [request, Endpoint.send, if_pos passes]
  have passed := execPassed (w := { c with sent := c.sent ++ [⟨loopThread,c.sent.length,data⟩] })
    (m := ⟨loopThread,c.sent.length,data⟩) passes
  simp only [send, runInline, handed]
  refine ⟨?_,?_⟩
  · rw [streamOf, passed]
    simp [streamOf]
  · rw [sendState]
    exact connected

theorem sendRefused {c : Connection.World} (left : c.state ≠ .connected) (data : Bytes) :
    streamOf (send c data) = streamOf c ∧ (send c data).state = c.state := by
  have refuses : ¬ c.ep.conn.isConnected = true := fun connected => left (isConnectedIff.mp connected)
  simp only [send, runInline, request, Endpoint.send, if_neg refuses]
  exact ⟨rfl,rfl⟩

/- All senders are the loop's thread, whose messages are never queued. -/
theorem nothingQueued {c : Connection.World} (ordered : Ordered c) (own : ∀ m ∈ c.sent, m.sender = loopThread)
    (m : Message) : Functor.sendInLoop m ∉ c.queue := by
  intro queued
  have known : m ∈ messages c.queue := List.mem_filterMap.mpr ⟨_,queued,rfl⟩
  have listed : m ∈ fromSender m.sender (c.passed ++ messages c.queue ++ flying c m.sender) := by
    simp [fromSender, known]
  have sent : m ∈ c.sent := List.mem_of_mem_filter ((ordered.order m.sender).mem listed)
  exact ordered.queued m known (own m sent)

end Send

section Steps
variable {maxFrameLen : Nat} {w : World}

theorem answersAppend (ms : List Bytes) (m : Bytes) : answers (ms ++ [m]) = answers ms ++ frame (reply m) := by
  simp [answers]

/- A step of the connection that is not OnMessage's. -/
theorem inputConnection {a : Connection.Action} {c : Connection.World} (h : Input maxFrameLen w)
    (busy : ¬ Connection.returns w.connection a) (taken : Connection.step w.connection a = some c) :
    Input maxFrameLen { w with connection := c, received := w.received ++ Connection.readBytes a } := by
  have set : c.conn.callbacks.message = true := by rw [Connection.stepCallbacks taken]; exact h.set
  cases Connection.inputStep taken busy with
  | aside nothing input kept =>
    refine ⟨input ▸ h.valid,?_,h.legal,set,fun out => ?_⟩
    · simp only [nothing, List.append_nil, input]
      exact h.whole
    · rw [input]
      exact h.idle (fun there => out (kept there))
  | read up some_ input calls =>
    obtain ⟨valid,readable⟩ := Buffer.readFromFdKeeps h.valid (Connection.readBytes a)
    refine ⟨input ▸ valid,?_,h.legal,set,fun out => absurd (calls h.set) out⟩
    simp only [input, readable, h.whole, List.append_assoc]

theorem outputConnection {a : Connection.Action} {c : Connection.World} (h : Output w) (silent : Connection.sends a = false)
    (busy : ¬ Connection.returns w.connection a) (taken : Connection.step w.connection a = some c) :
    Output { w with connection := c, received := w.received ++ Connection.readBytes a } := by
  obtain ⟨sent,passes⟩ := Connection.silentLogs taken silent
  have passed := passes (nothingQueued h.ordered h.own)
  have bytes : Connection.streamOf c = Connection.streamOf w.connection := by
    rw [Connection.streamOf, passed]
    rfl
  refine ⟨Connection.streamStep h.stream taken,Connection.orderedStep h.ordered taken,by rw [sent]; exact h.own,?_,
    bytes ▸ h.prefix_,fun early => bytes ▸ h.whole (Connection.stepEarly taken early)⟩
  intro fresh
  have before := Connection.stepBegun taken fresh
  cases Connection.inputStep taken busy with
  | aside nothing input kept =>
    simp only [nothing, List.append_nil]
    exact h.fresh before
  | read up => exact absurd before up

/- OnMessage returns with no message to take off the front. -/
theorem inputReturned {c : Connection.World} (h : Input maxFrameLen w)
    (stops : next maxFrameLen w.connection.conn.inputBuffer.readable = none)
    (input : c.conn.inputBuffer = w.connection.conn.inputBuffer)
    (callbacks : c.conn.callbacks = w.connection.conn.callbacks) : Input maxFrameLen { w with connection := c } :=
  ⟨input ▸ h.valid,by simp only [input]; exact h.whole,h.legal,callbacks ▸ h.set,fun _ => by rw [input]; exact stops⟩

/- A message leaves the buffer, and what its answer does keeps OnMessage on the stack. -/
theorem inputDelivered {message : Bytes} {left : Buffer} {below : List Frame} (h : Input maxFrameLen w)
    (top : w.connection.stack = .messageCallback :: below) (valid : left.Valid)
    (item : next maxFrameLen w.connection.conn.inputBuffer.readable = some (message,left.readable)) :
    Input maxFrameLen
      { w with
        connection := messageCallback (setInput w.connection left) message
        decoded := w.decoded ++ [message] } := by
  obtain ⟨front,small⟩ := nextExact.mp item
  have beside : Connection.Aside (setInput w.connection left) (messageCallback (setInput w.connection left) message) := by
    rcases messageCallbackSends (setInput w.connection left) message with sent | ⟨_,same⟩
    · rw [sent]
      exact Connection.asideUser _ _
    · rw [same]
      exact ⟨rfl,rfl,[],rfl⟩
  have there : Frame.messageCallback ∈ (setInput w.connection left).stack := by
    simp only [setInput, top]
    exact List.mem_cons_self
  refine ⟨beside.input ▸ valid,?_,fun m member => ?_,beside.callbacks ▸ h.set,
    fun out => absurd (Connection.aboveKept beside there) out⟩
  · have input : (messageCallback (setInput w.connection left) message).conn.inputBuffer = left := beside.input
    simp only [input, h.whole, front]
    simp
  · rcases List.mem_append.mp member with old | new
    · exact h.legal m old
    · rw [List.mem_singleton.mp new]
      exact small

theorem outputReturned {below : List Frame} (h : Output w) :
    Output { w with connection := { w.connection with stack := below } } :=
  ⟨h.stream,Connection.orderedSame h.ordered rfl rfl rfl rfl,h.own,h.fresh,h.prefix_,h.whole⟩

theorem outputRefused (h : Output w) :
    Output
      { w with connection :=
        Connection.runInline (Connection.request w.connection Connection.loopThread .forceClose) } := by
  obtain ⟨sent,passed⟩ := @Connection.silentUser w.connection .forceClose (by simp)
  have bytes : Connection.streamOf (Connection.runInline
      (Connection.request w.connection Connection.loopThread .forceClose)) = Connection.streamOf w.connection := by
    rw [Connection.streamOf, passed]
    rfl
  exact ⟨Connection.streamUser h.stream _,Connection.orderedUser h.ordered _,by rw [sent]; exact h.own,
    fun fresh => h.fresh (Connection.userBegun fresh),bytes ▸ h.prefix_,
    fun early => bytes ▸ h.whole (Connection.userState early)⟩

theorem outputDelivered {message : Bytes} {left : Buffer} (h : Output w) (begun : w.connection.state ≠ .connecting) :
    Output
      { w with
        connection := messageCallback (setInput w.connection left) message
        decoded := w.decoded ++ [message] } := by
  have stream : Connection.Stream (setInput w.connection left).ep (Connection.streamOf (setInput w.connection left)) :=
    ⟨h.stream.valid,h.stream.whole,h.stream.total,h.stream.counter⟩
  have ordered : Connection.Ordered (setInput w.connection left) := Connection.orderedSame h.ordered rfl rfl rfl rfl
  have longer : answers w.decoded <+: answers (w.decoded ++ [message]) := by
    rw [answersAppend]
    exact List.prefix_append _ _
  rcases messageCallbackSends (setInput w.connection left) message with sent | ⟨left_,same⟩
  · rw [sent]
    refine ⟨Connection.streamUser stream _,Connection.orderedUser ordered _,?_,
      fun fresh => absurd (Connection.userBegun (w := setInput w.connection left) fresh) begun,?_,fun early => ?_⟩
    · intro m member
      rw [send, Connection.userSent] at member
      rcases List.mem_append.mp member with old | new
      · exact h.own m old
      · rw [List.mem_singleton.mp new]
    · by_cases connected : (setInput w.connection left).state = .connected
      · have all : Connection.streamOf (setInput w.connection left) = answers w.decoded := h.whole (.inr connected)
        have whole : Connection.streamOf (send (setInput w.connection left) (frame (reply message))) =
            answers (w.decoded ++ [message]) := by rw [(sendConnected connected _).1, answersAppend, all]
        exact whole ▸ List.prefix_rfl
      · rw [(sendRefused connected _).1]
        exact h.prefix_.trans longer
    · have connected := (Connection.userState (w := setInput w.connection left) early).resolve_left begun
      rw [(sendConnected connected _).1, answersAppend]
      exact congrArg (· ++ frame (reply message)) (h.whole (.inr connected))
  · rw [same]
    exact ⟨stream,ordered,h.own,fun fresh => absurd fresh begun,h.prefix_.trans longer,
      fun early => absurd (early.resolve_left begun) left_⟩

end Steps

theorem echoStep {maxFrameLen : Nat} {w w' : World} {a : Action} (h : Input maxFrameLen w ∧ Output w)
    (taken : step maxFrameLen w a = some w') : Input maxFrameLen w' ∧ Output w' := by
  obtain ⟨input,output⟩ := h
  cases stepCases taken with
  | connection silent busy done => exact ⟨inputConnection input busy done,outputConnection output silent busy done⟩
  | @onMessage below top =>
    have spec := roundCases maxFrameLen input.valid
    unfold onMessage
    generalize nextRound maxFrameLen w.connection.conn.inputBuffer = r at spec
    cases spec with
    | returns stops legal => exact ⟨inputReturned input stops rfl rfl,outputReturned output⟩
    | refuses illegal =>
      have stops := nextNone.mpr (.inr (.inr illegal))
      have closes := Connection.asideUser { w.connection with stack := below } .forceClose
      exact ⟨inputReturned input stops closes.input closes.callbacks,outputRefused (outputReturned output)⟩
    | delivers valid item =>
      have begun : w.connection.state ≠ .connecting := by
        intro fresh
        have none_ := output.fresh fresh
        rw [input.whole, List.append_eq_nil_iff] at none_
        rw [none_.2] at item
        cases item
      exact ⟨inputDelivered input top valid item,outputDelivered output begun⟩

/- A new connection whose message callback is set. -/
structure Wired (w : World) : Prop where
  initial : Connection.Initial w.connection
  set : w.connection.conn.callbacks.message = true
  input : w.connection.conn.inputBuffer.Valid ∧ w.connection.conn.inputBuffer.readable = []
  nothing : w.received = [] ∧ w.decoded = []

theorem echoWired {maxFrameLen : Nat} {w : World} (h : Wired w) : Input maxFrameLen w ∧ Output w := by
  have bytes : Connection.streamOf w.connection = [] := by rw [Connection.streamOf, h.initial.logs.2]; rfl
  have none_ : answers w.decoded = [] := by rw [h.nothing.2]; rfl
  refine ⟨⟨h.input.1,?_,?_,h.set,fun _ => ?_⟩,Connection.streamInitial h.initial,Connection.orderedInitial h.initial,
    ?_,fun _ => h.nothing.1,?_,fun _ => by rw [bytes, none_]⟩
  · rw [h.nothing.1, h.nothing.2, h.input.2]
    rfl
  · simp [h.nothing.2]
  · rw [h.input.2]
    exact nextNone.mpr (.inl (by decide))
  · simp [h.initial.logs.1]
  · rw [bytes]
    exact List.nil_prefix

/- In every run: the socket has accepted a prefix of the answers to the messages of the
input stream; and while Connected with nothing pending and no handler executing, all of
them. -/
theorem echoed {maxFrameLen : Nat} {s w : World} {as : List Action} (start : Wired s)
    (reached : Machine.run (step maxFrameLen) s as = some w) :
    ∃ messages rest, Framed maxFrameLen w.received messages rest ∧ w.decoded <+: messages ∧
      w.connection.accepted <+: answers w.decoded ∧
      (w.connection.state = .connected → w.connection.pending = [] → w.connection.stack = [] →
        w.connection.accepted = answers messages) := by
  obtain ⟨input,output⟩ := Machine.invariant (fun _ _ _ h taken => echoStep h taken) (echoWired start) reached
  have left := framedDecodes.mpr ((framing maxFrameLen).decodesDrain w.connection.conn.inputBuffer.readable)
  have whole : w.connection.accepted ++ w.connection.pending = Connection.streamOf w.connection := output.stream.whole
  let later := ((framing maxFrameLen).drain w.connection.conn.inputBuffer.readable).1
  refine ⟨w.decoded ++ later,_,⟨?_,?_,left.stops⟩,List.prefix_append _ _,?_,fun connected empty idle => ?_⟩
  · rw [input.whole, List.flatMap_append, List.append_assoc, ← left.split]
  · intro m member
    rcases List.mem_append.mp member with old | new
    · exact input.legal m old
    · exact left.legal m new
  · exact (whole ▸ List.prefix_append _ _).trans output.prefix_
  · have stops := input.idle (by rw [idle]; exact List.not_mem_nil)
    have none_ : later = [] := congrArg Prod.fst ((framing maxFrameLen).drainNone stops)
    rw [none_, List.append_nil, ← output.whole (.inr connected), ← whole, empty,
      List.append_nil]

/- A connection as the server of main makes it, its input buffer cut to eight bytes. -/
def accepted (fd : Fd) : World := ⟨Connection.fresh fd ⟨true,true,true,true,true⟩ 262144 8,[],[]⟩

theorem acceptedWired (fd : Fd) : Wired (accepted fd) :=
  ⟨Connection.freshInitial _ _ _ _,rfl,⟨Buffer.newValid _,Buffer.newReadable _⟩,rfl,rfl⟩

/- PING and a message of one byte in two reads; the answers leave in two writes. -/
def pingAndOne : List Action :=
  [.connection .establish,.connection .ret,.connection (.event (.read (.ok [0,0,0,4,80,73]))),.onMessage,
    .connection (.event (.read (.ok [78,71,0,0,0,1,7]))),.onMessage,.connection .resume,.onMessage,
    .connection .resume,.onMessage,.connection (.event (.write (.ok 3))),.connection (.event (.write (.ok 10))),.connection .ret]

theorem echoedPing : ∃ w, Machine.run (step 4194304) (accepted 3) pingAndOne = some w ∧
    w.connection.accepted = [0,0,0,4,80,79,78,71,0,0,0,1,7] ∧
    ∃ messages rest, Framed 4194304 w.received messages rest ∧ w.connection.accepted = answers messages := by
  have reached : ∃ w, Machine.run (step 4194304) (accepted 3) pingAndOne = some w ∧
      w.connection.accepted = [0,0,0,4,80,79,78,71,0,0,0,1,7] ∧ w.connection.state = .connected ∧
      w.connection.pending = [] ∧ w.connection.stack = [] := ⟨_,rfl,rfl,rfl,rfl,rfl⟩
  obtain ⟨w,run,bytes,connected,empty,idle⟩ := reached
  obtain ⟨messages,rest,framed,_,_,all⟩ := echoed (acceptedWired 3) run
  exact ⟨w,run,bytes,messages,rest,framed,all connected empty idle⟩

end TcFrame.EchoServer
