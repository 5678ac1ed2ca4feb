import TcFrame.EchoSession
import TcFrame.TcpServerStreams

/-! The echo server of main with all its clients, on any number of loops. The message callback
of every connection is OnMessage of the one codec, which answers each message on the connection
it came from. Its rounds are steps, with all that the server, the other connections and the other
threads do in between. Nobody else sends; anybody may close a connection at any time. -/
namespace TcFrame.EchoService
open LengthFieldCodec TcpServer Machine
open EchoServer (reply answers answersAppend)
open Connection (rank rankBegun Stream fromSender fromSenderAppend)
open Endpoint (Same sameRun sameResume sameRequest sameChange)

inductive Action where
  | server (a : TcpServer.Action)
  | onMessage (t : ThreadId)
  deriving DecidableEq, Repr

/- The codec takes from the input buffer. -/
def withInput (e : Endpoint) (b : Buffer) : Endpoint := { e with conn := { e.conn with inputBuffer := b } }

def setInput (w : World) (c : ConnId) (b : Buffer) : World := w.putHost (w.host.put c (withInput (w.host.endpoint c) b))

def handleHeartbeat (w : World) (t : ThreadId) (c : ConnId) (message : Bytes) : Option Effect :=
  if message = ping then some (callConn w t c (.send pongFrame)) else none

def codecSend (w : World) (t : ThreadId) (c : ConnId) (message : Bytes) : Effect :=
  if (w.conn c).isConnected then callConn w t c (.send (framed message)) else (w,[])

def messageCallback (w : World) (t : ThreadId) (c : ConnId) (message : Bytes) : Effect :=
  match handleHeartbeat w t c message with
  | some out => out
  | none => codecSend w t c message

/- The next round of OnMessage for connection `c`, on thread `t`. -/
def onMessage (maxFrameLen : Nat) (w : World) (t : ThreadId) (c : ConnId) (below : List Act) : World :=
  match nextRound maxFrameLen (w.conn c).inputBuffer with
  | .returns => settle t below (w,[])
  | .refuses => settle t below (callConn w t c .forceClose)
  | .delivers message left => settle t (w.stack t) (messageCallback (setInput w c left) t c message)

/- The message callback of a connection returns. -/
def returns (w : World) : TcpServer.Action → Bool
  | .ret t =>
    match w.stack t with
    | .conn _ .messageCallback :: _ => true
    | _ => false
  | _ => false

def step (maxFrameLen : Nat) (w : World) : Action → Option World
  | .server a => if (sendOf a).isSome ∨ returns w a then none else TcpServer.step w a
  | .onMessage t =>
    match w.stack t with
    | .conn c .messageCallback :: below => some (onMessage maxFrameLen w t c below)
    | _ => none

/- Of each connection: what readv has returned, the messages handed to the codec's callback;
and the messages that were sent. -/
structure Journal where
  received : ConnId → Bytes
  decoded : ConnId → List Bytes
  log : Sendings

def blank : Journal := ⟨fun _ => [],fun _ => [],nothingSent⟩

def readOf (c : ConnId) : TcpServer.Action → Bytes
  | .event d (.read (.ok bs)) => if d = c then bs else []
  | _ => []

/- The message that the next round on thread `t` takes off. -/
def taken (maxFrameLen : Nat) (w : World) (t : ThreadId) : Option (ConnId × Bytes) :=
  match w.stack t with
  | .conn c .messageCallback :: _ =>
    match nextRound maxFrameLen (w.conn c).inputBuffer with
    | .delivers message _ => some (c,message)
    | _ => none
  | _ => none

def answer (message : Bytes) : Bytes := if message = ping then pongFrame else framed message

def note (maxFrameLen : Nat) (w : World) (a : Action) (w' : World) (j : Journal) : Journal :=
  match a with
  | .server a => { j with received := fun c => j.received c ++ readOf c a, log := noteSends w a w' j.log }
  | .onMessage t =>
    match taken maxFrameLen w t with
    | some (c,message) =>
      { j with
        decoded := Function.update j.decoded c (j.decoded c ++ [message])
        log := noteSends w (.user t (.conn c (.send (answer message)))) w' j.log }
    | none => j

theorem answerFrame (message : Bytes) : answer message = frame (reply message) := by
  unfold answer reply
  split
  · exact pongFramed
  · exact framedFrame message

theorem putSelf (w : World) (c : ConnId) : w.putHost (w.host.put c (w.host.endpoint c)) = w := by
  simp [World.putHost, Host.put, Host.endpoint]

/- The callback of the codec sends one frame. -/
theorem messageCallbackSends (w : World) (t : ThreadId) (c : ConnId) (message : Bytes) :
    messageCallback w t c message = callConn w t c (.send (answer message)) := by
  unfold messageCallback handleHeartbeat answer
  by_cases heartbeat : message = ping
  · simp only [if_pos heartbeat]
  · simp only [if_neg heartbeat, codecSend]
    split
    · rfl
    · rename_i off
      have refused : ¬ (w.host.endpoint c).conn.isConnected = true := off
      simp only [callConn, Endpoint.request, Endpoint.send, if_neg refused]
      rw [putSelf]
      rfl

inductive Step (maxFrameLen : Nat) (w : World) : Action → World → Prop where
  | server {a w'} (silent : sendOf a = none) (busy : returns w a = false) (took : TcpServer.step w a = some w') :
      Step maxFrameLen w (.server a) w'
  | onMessage {t c below} (top : w.stack t = .conn c .messageCallback :: below) :
      Step maxFrameLen w (.onMessage t) (onMessage maxFrameLen w t c below)

theorem stepCases {maxFrameLen : Nat} {w w' : World} {a : Action} (took : step maxFrameLen w a = some w') :
    Step maxFrameLen w a w' := by
  cases a with
  | server a =>
    simp only [step] at took
    split at took
    · cases took
    · rename_i fine
      refine .server (Option.not_isSome_iff_eq_none.mp (fun s => fine (.inl s))) ?_ took
      exact Bool.eq_false_iff.mpr (fun r => fine (.inr r))
  | onMessage t =>
    simp only [step] at took
    split at took <;> cases took
    exact .onMessage (by assumption)

/- OnMessage is under way for a connection. -/
def calling (w : World) (c : ConnId) : Prop := .conn c .messageCallback ∈ w.stack (w.host.loopOf c)

section Steps
variable {w w' : World} {c : ConnId}

/- What is not on top stays. -/
theorem underKept {f : Act} {t t' : ThreadId} {a below : List Act} {o : Effect} (split : w.stack t' = a ++ below)
    (stack : o.1.stack = w.stack) (other : f ∉ a) (there : f ∈ w.stack t) : f ∈ (settle t' below o).stack t := by
  simp only [settle, stack, Function.update_apply]
  split
  · rename_i here
    rw [here, split] at there
    exact List.mem_append_right _ ((List.mem_append.mp there).resolve_left other)
  · exact there

/- No step takes a message callback off a stack but its own return. -/
theorem callbackKept {a : TcpServer.Action} {t : ThreadId} (busy : returns w a = false)
    (took : TcpServer.step w a = some w') (there : .conn c .messageCallback ∈ w.stack t) :
    .conn c .messageCallback ∈ w'.stack t := by
  have pushed : ∀ {t' : ThreadId} {o : Effect}, o.1.stack = w.stack →
      .conn c .messageCallback ∈ (settle t' (w.stack t') o).stack t := fun stack =>
    underKept (a := []) rfl stack List.not_mem_nil there
  have idlePushed : ∀ {t' : ThreadId} {o : Effect}, w.stack t' = [] → o.1.stack = w.stack →
      .conn c .messageCallback ∈ (settle t' [] o).stack t := fun idle stack =>
    underKept (a := []) idle stack List.not_mem_nil there
  cases takenCases took with
  | start runs =>
    unfold startServer
    split <;> exact there
  | userConn runs known => exact pushed rfl
  | userStop runs => exact pushed rfl
  | @goOn t' f below out top went =>
    refine underKept (topSplit top) (goOnStack went) (fun here => ?_) there
    rw [← List.mem_singleton.mp here] at went
    cases went
  | @ret t' f below top callback =>
    refine underKept (topSplit top) rfl (fun here => ?_) there
    rw [← List.mem_singleton.mp here] at top
    simp [returns, top] at busy
  | runQueued idle head loop handled => exact idlePushed idle rfl
  | poll idle => exact there
  | accept idle ready free =>
    refine idlePushed idle ?_
    unfold newConnection
    dsimp only
    split <;> rfl
  | event idle known up ok => exact idlePushed idle rfl
  | scanIdle between armed => exact idlePushed (betweenIdle between) rfl
  | checkTimer between armed =>
    refine idlePushed (betweenIdle between) ?_
    split
    · exact (servesFinalize w false).stack
    · rfl
  | deadlineTimer between armed => exact idlePushed (betweenIdle between) (servesFinalize _ true).stack

/- What nobody but the handlers of a connection and its codec touches. -/
structure Spared (w w' : World) (c : ConnId) : Prop where
  input : (w'.conn c).inputBuffer = (w.conn c).inputBuffer
  callbacks : (w'.conn c).callbacks = (w.conn c).callbacks
  loop : w'.host.loopOf c = w.host.loopOf c

theorem sparedHost (host : w'.host = w.host) : Spared w w' c := by
  refine ⟨?_,?_,?_⟩
  · rw [World.connSame host]
  · rw [World.connSame host]
  · rw [host]

theorem sparedPut {d : ConnId} {e : Endpoint} {t : ThreadId} {below acts : List Act}
    (input : d = c → e.conn.inputBuffer = (w.conn c).inputBuffer)
    (callbacks : d = c → e.conn.callbacks = (w.conn c).callbacks) :
    Spared w (settle t below (w.putHost (w.host.put d e),acts)) c := by
  refine ⟨?_,?_,rfl⟩
  · exact World.connPutCases (P := fun conn => conn.inputBuffer = (w.conn c).inputBuffer) (fun here => input here.symm)
      (fun _ => rfl)
  · exact World.connPutCases (P := fun conn => conn.callbacks = (w.conn c).callbacks) (fun here => callbacks here.symm)
      (fun _ => rfl)

theorem sparedCall {d : ConnId} (t t' : ThreadId) (below acts : List Act) (call : UserCall) :
    Spared w (settle t below ((callConn w t' d call).1,acts)) c := by
  have kept := (requestStateOnly (w.host.endpoint d) t' call).1.rest
  refine sparedPut (fun here => ?_) (fun here => ?_)
  · subst here
    rw [kept]
    rfl
  · subst here
    rw [kept]
    rfl

/- A step of the server that is no event of this connection. -/
theorem sparedStep {a : TcpServer.Action} (r : Registry w) (p : Placed w) (took : TcpServer.step w a = some w')
    (known : c < w.host.next) (quiet : ∀ ev, a ≠ .event c ev) : Spared w w' c := by
  cases turnCases r p took with
  | @member t d top below out known' home split does =>
    cases does with
    | @resume f own =>
      refine sparedPut (fun here => ?_) (fun here => ?_) <;> subst here
      · exact Connection.inputResume (w.host.endpoint d) f
      · exact (sameResume (w.host.endpoint d) f).callbacks
    | @run f =>
      refine sparedPut (fun here => ?_) (fun here => ?_) <;> subst here
      · exact Connection.inputRun (w.host.endpoint d) f
      · exact (sameRun (w.host.endpoint d)).callbacks
    | @event ev idle up ok =>
      refine sparedPut (fun here => ?_) (fun here => ?_) <;> exact absurd rfl (here ▸ quiet ev)
  | request known' split caller => exact sparedCall _ _ _ _ _
  | remove known' ran split does => exact sparedHost does.host
  | serve split own calm does => exact sparedHost does.host
  | accept idle free made =>
    obtain ⟨conn,loop⟩ := made.old c known
    exact ⟨by rw [conn],by rw [conn],loop⟩
  | _ => exact sparedHost rfl

/- OnMessage has nothing to take off, and a connection with an illegal header is closed. -/
structure Stopped (maxFrameLen : Nat) (buffer : Buffer) (state : ConnectionState) : Prop where
  none_ : next maxFrameLen buffer.readable = none
  closed : IllegalHeader maxFrameLen buffer.readable → ¬ early state

/- A connection whose input buffer nobody touches; OnMessage is still under way, or it has
returned with nothing more to take off. -/
structure Leaves (maxFrameLen : Nat) (w w' : World) (c : ConnId) : Prop extends Spared w w' c where
  forward : rank (w.conn c).state ≤ rank (w'.conn c).state
  idle : ¬ calling w' c → ¬ calling w c ∨ Stopped maxFrameLen (w.conn c).inputBuffer (w'.conn c).state

/- A connection on its own: what has been received are the decoded frames and what is left in
the buffer, from which no message can be taken off unless OnMessage is under way; what has been
sent are the answers to the decoded messages, as long as it was open. -/
structure Echoes (maxFrameLen : Nat) (w : World) (j : Journal) (c : ConnId) : Prop where
  set : (w.conn c).callbacks.message = true
  valid : (w.conn c).inputBuffer.Valid
  whole : j.received c = (j.decoded c).flatMap frame ++ (w.conn c).inputBuffer.readable
  legal : ∀ m ∈ j.decoded c, m.length ≤ limit maxFrameLen
  idle : ¬ calling w c → Stopped maxFrameLen (w.conn c).inputBuffer (w.conn c).state
  fresh : (w.conn c).state = .connecting → j.received c = []
  own : ∀ m ∈ j.log.sent c, m.sender = w.host.loopOf c
  behind : ((j.log.sent c).map Message.data).flatten <+: answers (j.decoded c)
  answered : early (w.conn c).state → ((j.log.sent c).map Message.data).flatten = answers (j.decoded c)

/- What any server keeps. -/
structure Base (w : World) (log : Sendings) : Prop where
  registry : Registry w
  placed : Placed w
  births : Births w
  streams : Streams w log

structure Service (maxFrameLen : Nat) (w : World) (j : Journal) : Prop extends Base w j.log where
  set : w.server.callbacks.message = true
  unborn : ∀ c, w.host.next ≤ c → j.received c = [] ∧ j.decoded c = []
  echoes : ∀ c < w.host.next, Echoes maxFrameLen w j c

variable {maxFrameLen : Nat} {j j' : Journal} {log : Sendings}

theorem baseStep (h : Base w log) {a : TcpServer.Action} (took : TcpServer.step w a = some w') :
    Base w' (noteSends w a w' log) :=
  ⟨(registryStep h.registry took).1,placedStep h.registry h.placed took,birthsStep h.registry h.placed h.births took,
    streamsStep h.registry h.placed h.births h.streams took⟩

theorem echoesLeft (h : Echoes maxFrameLen w j c) (l : Leaves maxFrameLen w w' c) (received : j'.received c = j.received c)
    (decoded : j'.decoded c = j.decoded c) (sent : j'.log.sent c = j.log.sent c) : Echoes maxFrameLen w' j' c := by
  refine ⟨?_,?_,?_,?_,fun out => ?_,fun begun => ?_,?_,?_,fun up => ?_⟩
  · rw [l.callbacks]
    exact h.set
  · rw [l.input]
    exact h.valid
  · rw [received, decoded, l.input]
    exact h.whole
  · rw [decoded]
    exact h.legal
  · rw [l.input]
    rcases l.idle out with before | stopped
    · exact ⟨(h.idle before).none_,fun illegal up => (h.idle before).closed illegal (earlyRank l.forward up)⟩
    · exact stopped
  · rw [received]
    exact h.fresh (rankBegun l.forward begun)
  · rw [sent, l.loop]
    exact h.own
  · rw [sent, decoded]
    exact h.behind
  · rw [sent, decoded]
    exact h.answered (earlyRank l.forward up)

/- Nothing has been read from a connection that is Connecting. -/
theorem echoesBegun (h : Echoes maxFrameLen w j c) (some_ : (w.conn c).inputBuffer.readable ≠ []) :
    (w.conn c).state ≠ .connecting := by
  intro fresh
  have none_ := h.fresh fresh
  rw [h.whole, List.append_eq_nil_iff] at none_
  exact some_ none_.2

/- A read: the bytes go to the end of the input buffer, and OnMessage is called. -/
theorem echoesRead (h : Echoes maxFrameLen w j c) {bs : Bytes} (some_ : bs ≠ []) (up : (w.conn c).state ≠ .connecting)
    (received : j'.received c = j.received c ++ bs) (decoded : j'.decoded c = j.decoded c)
    (sent : j'.log.sent c = j.log.sent c) :
    Echoes maxFrameLen (settle (w.host.loopOf c) [] (ofConn w c (Connection.handle (w.host.endpoint c) (.read (.ok bs))))) j' c := by
  have made : Connection.handle (w.host.endpoint c) (.read (.ok bs)) = _ := Connection.handleReadBytes (w.host.endpoint c) some_
  have set : (w.host.endpoint c).conn.callbacks.message = true := h.set
  obtain ⟨valid,readable⟩ := Buffer.readFromFdKeeps h.valid bs
  rw [made, ofConn]
  refine ⟨?_,?_,?_,?_,fun out => absurd ?_ out,fun begun => ?_,?_,?_,fun early => ?_⟩
  · rw [connSettle, World.connPut]
    exact h.set
  · rw [connSettle, World.connPut]
    exact valid
  · rw [connSettle, World.connPut, received, decoded, h.whole, List.append_assoc]
    exact congrArg _ readable.symm
  · rw [decoded]
    exact h.legal
  · simp [calling, settle, World.putHost, Host.put, TcpConnection.call, set]
  · rw [connSettle, World.connPut] at begun
    exact absurd begun up
  · rw [sent]
    exact h.own
  · rw [sent, decoded]
    exact h.behind
  · rw [connSettle, World.connPut] at early
    rw [sent, decoded]
    exact h.answered early

/- The other events of a connection. -/
theorem handleInput (e : Endpoint) {ev : Connection.Event} (nothing : readOf c (.event c ev) = []) :
    (Connection.handle e ev).1.conn.inputBuffer = e.conn.inputBuffer := by
  cases ev with
  | read r =>
    cases r with
    | ok bs =>
      have none_ : bs = [] := by simpa [readOf] using nothing
      subst none_
      exact Connection.inputClose e
    | error errno =>
      simp only [Connection.handle, Endpoint.handleRead]
      split
      · rfl
      · exact Connection.inputClose e
  | write r => exact Connection.inputWrite e r
  | close => exact Connection.inputClose e
  | error => exact Connection.inputClose e

/- The server's own callbacks are set once and for all. -/
theorem callbacksStep {a : TcpServer.Action} (r : Registry w) (p : Placed w) (took : TcpServer.step w a = some w') :
    w'.server.callbacks = w.server.callbacks := by
  cases turnCases r p took with
  | @remove d below out known ran split does =>
    obtain ⟨t,rest,act,top⟩ := removalTop ran
    subst act
    have removes : TcpServer.step w (.goOn t) = some (settle t rest (removeInLoop w d)) := by
      simp [TcpServer.step, top, goOn, runInLoop, runTask]
    rw [took, Option.some.injEq] at removes
    rw [removes]
    simp only [settle, removeInLoop]
    split
    · rfl
    · split <;> rfl
  | serve split own calm does => exact does.callbacks
  | accept idle free made act =>
    subst act
    cases takenCases took with
    | accept idle ready free => simp [settle, newConnection, made.on]
  | _ => rfl

/- A connection that a step has made. -/
theorem bornStep {a : TcpServer.Action} (r : Registry w) (p : Placed w) (took : TcpServer.step w a = some w')
    (unknown : w.host.next ≤ c) (known : c < w'.host.next) : ∃ fd bufferSize, w'.conn c = TcpConnection.create c fd
      { w.server.callbacks with close := true, highWaterMark := true } w.server.highWaterMarkBytes bufferSize := by
  cases turnCases r p took with
  | remove known' ran split does => exact absurd (does.host ▸ known) (Nat.not_lt.mpr unknown)
  | serve split own calm does => exact absurd (does.host ▸ known) (Nat.not_lt.mpr unknown)
  | @accept fd bufferSize _ idle free made act =>
    rw [made.next] at known
    have here : c = w.host.next := Nat.le_antisymm (Nat.le_of_lt_succ known) unknown
    subst act
    cases takenCases took with
    | accept idle ready free =>
      refine ⟨fd,bufferSize,?_⟩
      simp [here, settle, newConnection, made.on, World.conn, Host.add]
  | _ => exact absurd known (Nat.not_lt.mpr unknown)

theorem echoesBorn {fd : Fd} {callbacks : Callbacks} {mark bufferSize : Nat}
    (new : w.conn c = TcpConnection.create c fd callbacks mark bufferSize) (set : callbacks.message = true)
    (received : j.received c = []) (decoded : j.decoded c = []) (sent : j.log.sent c = []) : Echoes maxFrameLen w j c := by
  have empty : (w.conn c).inputBuffer.readable = [] := by
    rw [new]
    exact Buffer.newReadable _
  refine ⟨?_,?_,?_,?_,fun _ => ?_,fun _ => received,?_,?_,fun _ => ?_⟩
  · rw [new]
    exact set
  · rw [new]
    exact Buffer.newValid _
  · rw [received, decoded, empty]
    rfl
  · simp [decoded]
  · refine ⟨?_,fun illegal => ?_⟩
    · rw [empty]
      exact nextNone.mpr (.inl (by decide))
    · rw [empty] at illegal
      exact absurd illegal.1 (by decide)
  · simp [sent]
  · simp [sent]
  · rw [sent, decoded]
    rfl

theorem readKnown {a : TcpServer.Action} (took : TcpServer.step w a = some w') (unknown : w.host.next ≤ c) : readOf c a = [] := by
  cases a with
  | event d ev =>
    cases takenCases took with
    | event idle known up ok =>
      have other : d ≠ c := Nat.ne_of_lt (Nat.lt_of_lt_of_le known unknown)
      cases ev with
      | read r => cases r <;> simp [readOf, other]
      | _ => rfl
  | _ => rfl

/- A step of the server, as one of its connections has it. -/
theorem echoesServer (h : Service maxFrameLen w j) {a : TcpServer.Action} (silent : sendOf a = none)
    (busy : returns w a = false) (took : TcpServer.step w a = some w') (known : c < w.host.next) :
    Echoes maxFrameLen w' (note maxFrameLen w (.server a) w' j) c := by
  have sent : (note maxFrameLen w (.server a) w' j).log.sent c = j.log.sent c := by simp [note, noteSends, silent, enter]
  have forward := rankStep h.registry h.placed h.births took known
  have mine := h.echoes c known
  by_cases quiet : ∀ ev, a ≠ .event c ev
  · have spared := sparedStep h.registry h.placed took known quiet
    have nothing : readOf c a = [] := by
      cases a with
      | event d ev =>
        have other : d ≠ c := fun same => quiet ev (by rw [same])
        cases ev with
        | read r => cases r <;> simp [readOf, other]
        | _ => rfl
      | _ => rfl
    refine echoesLeft mine ⟨spared,forward,fun out => .inl (fun there => out ?_)⟩ ?_ rfl sent
    · rw [calling, spared.loop]
      exact callbackKept busy took there
    · simp [note, nothing]
  · obtain ⟨ev,act⟩ := not_forall_not.mp quiet
    subst act
    have took' := took
    cases takenCases took with
    | event idle known up ok =>
      by_cases nothing : readOf c (.event c ev) = []
      · have input : Spared w (settle (w.host.loopOf c) [] (ofConn w c (Connection.handle (w.host.endpoint c) ev))) c :=
          sparedPut (fun _ => handleInput (w.host.endpoint c) nothing)
            (fun _ => (sameChange (Connection.handleChange (w.host.endpoint c) ok)).callbacks)
        refine echoesLeft mine ⟨input,forward,fun out => .inl (fun there => out ?_)⟩ ?_ rfl sent
        · rw [calling, input.loop]
          exact callbackKept busy took' there
        · simp [note, nothing]
      · cases ev with
        | read r =>
          cases r with
          | ok bs =>
            have some_ : bs ≠ [] := by simpa [readOf] using nothing
            exact echoesRead mine some_ up (by simp [note, readOf]) rfl sent
          | error errno => exact absurd rfl nothing
        | _ => exact absurd rfl nothing

theorem serviceServer (h : Service maxFrameLen w j) {a : TcpServer.Action} (silent : sendOf a = none)
    (busy : returns w a = false) (took : TcpServer.step w a = some w') :
    Service maxFrameLen w' (note maxFrameLen w (.server a) w' j) := by
  have more := (registryStep h.registry took).2.next
  refine ⟨baseStep h.toBase took,?_,fun c unknown => ?_,fun c known => ?_⟩
  · rw [callbacksStep h.registry h.placed took]
    exact h.set
  · have before := Nat.le_trans more unknown
    obtain ⟨received,decoded⟩ := h.unborn c before
    exact ⟨by simp [note, received, readKnown took before],decoded⟩
  · rcases Nat.lt_or_ge c w.host.next with old | unknown
    · exact echoesServer h silent busy took old
    · obtain ⟨fd,bufferSize,new⟩ := bornStep h.registry h.placed took unknown known
      obtain ⟨received,decoded⟩ := h.unborn c unknown
      refine echoesBorn new h.set ?_ decoded ?_
      · simp [note, received, readKnown took unknown]
      · simp [note, noteSends, silent, enter, (h.streams.unborn c unknown).1]

theorem sameInput (e : Endpoint) (b : Buffer) : Same e (withInput e b) := ⟨rfl,rfl,rfl,.inl rfl⟩

/- Taking from the input buffer of a connection in its callback. -/
theorem baseInput (h : Base w log) {t : ThreadId} (known : c < w.host.next) (home : t = w.host.loopOf c)
    (runs : userRuns (w.stack t) = true) (b : Buffer) : Base (setInput w c b) log := by
  have whole : w.stack t = [] ++ w.stack t := rfl
  have same := sameInput (w.host.endpoint c) b
  have kept : settle t (w.stack t) (ofConn w c (withInput (w.host.endpoint c) b,[])) = setInput w c b := settleKept t rfl
  have states : ∀ d, ((setInput w c b).conn d).state = (w.conn d).state := fun d =>
    World.connPutCases (P := fun conn => conn.state = (w.conn d).state) (fun here => by rw [here]; rfl) (fun _ => rfl)
  rw [← kept]
  refine ⟨(registrySettle h.registry (fun _ member => member) (soundConn h.registry.table known same none)).1,
    placedSettle h.placed (fun _ member => member) (staysConn same home),birthsAside h.births whole ?_,
    streamsAside h.streams whole (fun _ => runs) rfl rfl rfl rfl (fun _ => rfl) (fun _ => rfl) (fun d up => ?_) ?_⟩
  · exact ⟨rfl,rfl,putState .connecting Iff.rfl,rfl,rfl,by simp,by simp [ofConn]⟩
  · exact (states d) ▸ up
  · have stream := h.streams.stream c known
    exact streamPut h.streams.stream ⟨stream.valid,stream.whole,stream.total,stream.counter⟩ (fun _ _ => rfl)

/- ForceClose, called in place of what was on top. -/
theorem baseForceClose (h : Base w log) {t : ThreadId} {d : ConnId} {below : List Act} (known : c < w.host.next)
    (top : w.stack t = .conn d .messageCallback :: below) : Base (settle t below (callConn w t c .forceClose)) log := by
  refine ⟨(registrySettle h.registry (belowTop top) (soundCallConn h.registry.table known t .forceClose none)).1,
    placedSettle h.placed (belowTop top) (staysCall c .forceClose),birthsAside h.births (topSplit top) ?_,
    streamsAside h.streams (topSplit top) (fun none_ => nomatch none_) rfl rfl rfl rfl (fun _ => rfl)
      (callSilent (by simp)) (fun d => ?_) ?_⟩
  · refine ⟨rfl,rfl,putState .connecting (requestBegins _ _ _),rfl,rfl,by simp,fun l d f member => ?_⟩
    obtain ⟨g,made,same⟩ := List.mem_map.mp member
    cases same
    obtain ⟨waits,begun⟩ := requestLeaves (Option.mem_toList.mp made)
    refine ⟨fun established => ?_,fun _ fresh => begun ((requestBegins _ _ _).mpr fresh)⟩
    rw [established] at waits
    cases waits
  · exact earlyRank (rankPut (rankRequest (w.host.endpoint c) t .forceClose) d)
  · exact streamPut h.streams.stream (requestStream (h.streams.stream c known)) (fun _ _ => rfl)

/- ForceClose, from the callback of a connection. -/
theorem forceCloseState (begun : (w.conn c).state ≠ .connecting) (t : ThreadId) :
    ¬ early ((callConn w t c .forceClose).1.conn c).state := by
  have closes : ¬ early ((w.host.endpoint c).forceClose).1.conn.state := by
    unfold Endpoint.forceClose
    split
    · rintro (fresh | up) <;> contradiction
    · rename_i shut
      rintro (fresh | up)
      · exact begun fresh
      · have connected : (w.host.endpoint c).conn.state = .connected := up
        exact shut (by simp [Endpoint.isOpenState, connected])
  exact (World.connPut w c _).symm ▸ closes

/- OnMessage returns, and has found no message; or it has called ForceClose. -/
theorem echoesReturned (h : Service maxFrameLen w j) {t : ThreadId} {d : ConnId} {below : List Act} {out : Effect}
    (known : c < w.host.next) (top : w.stack t = .conn d .messageCallback :: below)
    (stops : Stopped maxFrameLen (w.conn d).inputBuffer (out.1.conn d).state) (stack : out.1.stack = w.stack)
    (spared : Spared w (settle t below out) c) (forward : rank (w.conn c).state ≤ rank (out.1.conn c).state) :
    Echoes maxFrameLen (settle t below out) j c := by
  refine echoesLeft (h.echoes c known) ⟨spared,forward,fun gone => ?_⟩ rfl rfl rfl
  by_cases here : c = d
  · exact .inr (here ▸ stops)
  · refine .inl (fun there => gone ?_)
    rw [calling, spared.loop]
    exact underKept (topSplit top) stack (by simp [here]) there

theorem serviceReturned (h : Service maxFrameLen w j) {t : ThreadId} {below : List Act}
    (top : w.stack t = .conn c .messageCallback :: below)
    (stops : Stopped maxFrameLen (w.conn c).inputBuffer (w.conn c).state) :
    Service maxFrameLen (settle t below (w,[])) j := by
  have took : TcpServer.step w (.ret t) = some (settle t below (w,[])) := by
    rw [TcpServer.step, top]
    rfl
  exact ⟨baseStep h.toBase took,h.set,h.unborn,fun d known =>
    echoesReturned h known top stops rfl (sparedHost rfl) (Nat.le_refl _)⟩

theorem serviceRefused (h : Service maxFrameLen w j) {t : ThreadId} {below : List Act} (known : c < w.host.next)
    (top : w.stack t = .conn c .messageCallback :: below)
    (stops : next maxFrameLen (w.conn c).inputBuffer.readable = none) (begun : (w.conn c).state ≠ .connecting) :
    Service maxFrameLen (settle t below (callConn w t c .forceClose)) j :=
  ⟨baseForceClose h.toBase known top,h.set,h.unborn,fun d known' =>
    echoesReturned h known' top ⟨stops,fun _ => forceCloseState begun t⟩ rfl (sparedCall t t below _ .forceClose)
      (rankPut (rankRequest (w.host.endpoint c) t .forceClose) d)⟩

/- Send stores nothing. -/
theorem callSend (w : World) (t : ThreadId) (c : ConnId) (data : Bytes) : (callConn w t c (.send data)).1 = w := by
  have same : ((w.host.endpoint c).request t (.send data)).1 = w.host.endpoint c := by
    simp only [Endpoint.request, Endpoint.send]
    split <;> rfl
  simp only [callConn, same]
  exact putSelf w c

theorem enterOther {sent : ConnId → List Message} {d : ConnId} {m : Message} (other : d ≠ c) :
    enter w sent (some (c,m)) d = sent d := by
  simp only [enter]
  split
  · exact Function.update_of_ne other _ _
  · rfl

/- A message leaves the input buffer of its connection, and the answer is on its way. -/
theorem echoesDelivered (h : Echoes maxFrameLen w j c) {t : ThreadId} {message : Bytes} {left : Buffer}
    (home : t = w.host.loopOf c) (under : calling w' c) (conn : w'.conn c = { w.conn c with inputBuffer := left })
    (loop : w'.host.loopOf c = w.host.loopOf c) (valid : left.Valid)
    (item : next maxFrameLen (w.conn c).inputBuffer.readable = some (message,left.readable))
    (received : j'.received c = j.received c) (decoded : j'.decoded c = j.decoded c ++ [message])
    (sent : j'.log.sent c = enter w j.log.sent (some (c,⟨t,0,answer message⟩)) c) : Echoes maxFrameLen w' j' c := by
  obtain ⟨front,small⟩ := nextExact.mp item
  have begun : (w.conn c).state ≠ .connecting := echoesBegun h (fun none_ => by
    rw [none_] at item
    cases item)
  have longer : answers (j'.decoded c) = answers (j.decoded c) ++ answer message := by
    rw [decoded, answersAppend, answerFrame]
  have own : ∀ m ∈ j'.log.sent c, m.sender = w.host.loopOf c := by
    intro m member
    rw [sent, enter] at member
    split at member
    · rw [Function.update_self] at member
      rcases List.mem_append.mp member with old | new
      · exact h.own m old
      · rw [List.mem_singleton.mp new]
        exact home
    · exact h.own m member
  have bytes : (w.conn c).state = .connected →
      ((j'.log.sent c).map Message.data).flatten = answers (j'.decoded c) := by
    intro connected
    have on : (w.conn c).isConnected = true := by simp [TcpConnection.isConnected, connected]
    rw [sent, enter, if_pos on, Function.update_self, longer, ← h.answered (.inr connected)]
    simp
  refine ⟨by rw [conn]; exact h.set,by rw [conn]; exact valid,?_,?_,fun out => absurd under out,fun fresh => ?_,?_,?_,
    fun up => ?_⟩
  · rw [conn, received, decoded, h.whole, front]
    simp
  · intro m member
    rw [decoded] at member
    rcases List.mem_append.mp member with old | new
    · exact h.legal m old
    · rw [List.mem_singleton.mp new]
      exact small
  · rw [conn] at fresh
    exact absurd fresh begun
  · rw [loop]
    exact own
  · by_cases connected : (w.conn c).state = .connected
    · rw [bytes connected]
    · have off : ¬ (w.conn c).isConnected = true := by simp [TcpConnection.isConnected, connected]
      rw [sent, enter, if_neg off, longer]
      exact h.behind.trans (List.prefix_append _ _)
  · rw [conn] at up
    exact bytes (up.resolve_left begun)

theorem serviceDelivered (h : Service maxFrameLen w j) {t : ThreadId} {below : List Act} {message : Bytes} {left : Buffer}
    (known : c < w.host.next) (home : t = w.host.loopOf c) (top : w.stack t = .conn c .messageCallback :: below)
    (valid : left.Valid) (item : next maxFrameLen (w.conn c).inputBuffer.readable = some (message,left.readable))
    (note_ : j'.received = j.received ∧ j'.decoded = Function.update j.decoded c (j.decoded c ++ [message]) ∧
      j'.log = ⟨enter w j.log.sent (some (c,⟨t,0,answer message⟩)),j.log.passed⟩) :
    Service maxFrameLen (settle t (w.stack t) (messageCallback (setInput w c left) t c message)) j' := by
  have runs : userRuns (w.stack t) = true := by rw [top]; rfl
  have conn : (setInput w c left).conn c = { w.conn c with inputBuffer := left } := World.connPut w c _
  have others : ∀ d, d ≠ c → (setInput w c left).conn d = w.conn d := fun d other => World.connPutOther w _ other
  have connected : ((setInput w c left).conn c).isConnected = (w.conn c).isConnected := by rw [conn]; rfl
  obtain ⟨received,decoded,logged⟩ := note_
  have kept : (messageCallback (setInput w c left) t c message).1 = setInput w c left := by
    rw [messageCallbackSends]
    exact callSend _ _ _ _
  have took : TcpServer.step (setInput w c left) (.user t (.conn c (.send (answer message)))) =
      some (settle t (w.stack t) (messageCallback (setInput w c left) t c message)) := by
    rw [messageCallbackSends]
    exact if_pos ⟨runs,known⟩
  have base := baseStep (baseInput h.toBase known home runs left) took
  generalize messageCallback (setInput w c left) t c message = out at kept base
  have logs : noteSends (setInput w c left) (.user t (.conn c (.send (answer message)))) (settle t (w.stack t) out) j.log =
      j'.log := by
    rw [logged]
    simp only [noteSends, sendOf, passOf, enter, connected]
  have host : (settle t (w.stack t) out).host = (setInput w c left).host := by simp only [settle, kept]
  have next_ : (settle t (w.stack t) out).host.next = w.host.next := by rw [host]; rfl
  have under : ∀ d, calling w d → calling (settle t (w.stack t) out) d := by
    intro d there
    rw [calling, host]
    exact underKept (a := []) rfl (by rw [kept]; rfl) List.not_mem_nil there
  refine ⟨logs ▸ base,?_,fun d unknown => ?_,fun d known' => ?_⟩
  · simp only [settle, kept]
    exact h.set
  · rw [next_] at unknown
    have other : d ≠ c := Nat.ne_of_gt (Nat.lt_of_lt_of_le known unknown)
    rw [received, decoded, Function.update_of_ne other]
    exact h.unborn d unknown
  · rw [next_] at known'
    by_cases here : d = c
    · subst here
      refine echoesDelivered (h.echoes d known) home (under d ?_) ?_ (by rw [host]; rfl) valid item (by rw [received]) ?_ ?_
      · rw [calling, ← home, top]
        exact List.mem_cons_self
      · rw [World.connSame host, conn]
      · rw [decoded, Function.update_self]
      · rw [logged]
    · have same : (settle t (w.stack t) out).conn d = w.conn d := by rw [World.connSame host, others d here]
      refine echoesLeft (h.echoes d known') ⟨⟨by rw [same],by rw [same],by rw [host]; rfl⟩,by rw [same],
        fun gone => .inl (fun there => gone (under d there))⟩ (by rw [received]) ?_ ?_
      · rw [decoded, Function.update_of_ne here]
      · rw [logged]
        exact enterOther here

theorem serviceStep (h : Service maxFrameLen w j) {a : Action} (took : step maxFrameLen w a = some w') :
    Service maxFrameLen w' (note maxFrameLen w a w' j) := by
  cases stepCases took with
  | server silent busy took => exact serviceServer h silent busy took
  | @onMessage t c below top =>
    have known : c < w.host.next := topKnown h.registry top c (by simp [Act.conns])
    have spec := roundCases maxFrameLen (h.echoes c known).valid
    unfold onMessage
    simp only [note, taken, top]
    generalize nextRound maxFrameLen (w.conn c).inputBuffer = r at spec
    cases spec with
    | returns stops legal => exact serviceReturned h top ⟨stops,fun illegal => absurd illegal legal⟩
    | refuses illegal =>
      have begun := echoesBegun (h.echoes c known) (fun none_ => by
        rw [none_] at illegal
        exact absurd illegal.1 (by decide))
      exact serviceRefused h known top (nextNone.mpr (.inr (.inr illegal))) begun
    | delivers valid item =>
      rw [← top]
      exact serviceDelivered h known (topFits h.placed top) top valid item ⟨rfl,rfl,rfl⟩

/- A server whose message callback has been set. -/
structure Wired (w : World) : Prop where
  initial : Initial w
  set : w.server.callbacks.message = true

theorem serviceWired (start : Wired w) : Service maxFrameLen w blank := by
  refine ⟨⟨registryInitial start.initial,placedInitial start.initial,birthsInitial start.initial,
    streamsInitial start.initial⟩,start.set,fun c _ => ⟨rfl,rfl⟩,fun c known => ?_⟩
  obtain ⟨threadNum,callbacks,mark,idleTimeout,same⟩ := start.initial
  subst same
  exact absurd known (Nat.not_lt_zero c)

/- All messages of a connection come from the thread of its loop, so none waits in a queue. -/
theorem ownPassed (h : Service maxFrameLen w j) (known : c < w.host.next) :
    j.log.passed c <+: j.log.sent c ∧ ((w.conn c).state = .connected → w.stack (w.host.loopOf c) = [] →
      j.log.passed c = j.log.sent c) := by
  have own := (h.echoes c known).own
  have lined := h.streams.lined c
  have all : ∀ ms : List Message, (∀ m ∈ ms, m.sender = w.host.loopOf c) → fromSender (w.host.loopOf c) ms = ms :=
    fun ms from_ => List.filter_eq_self.mpr (fun m member => beq_iff_eq.mpr (from_ m member))
  have passed : ∀ m ∈ j.log.passed c, m.sender = w.host.loopOf c := by
    intro m member
    have there : m ∈ fromSender m.sender (j.log.passed c) := List.mem_filter.mpr ⟨member,beq_iff_eq.mpr rfl⟩
    exact own m (List.mem_of_mem_filter ((lined.first m.sender).subset there))
  have first := lined.first (w.host.loopOf c)
  rw [all _ own, all _ passed] at first
  refine ⟨first,fun connected idle => ?_⟩
  have whole := lined.whole (.inr connected) (w.host.loopOf c)
  have hand : inHand w c (w.host.loopOf c) = [] := by rw [inHand, idle]; rfl
  have queue : fromSender (w.host.loopOf c) (inLoopQueue w c) = [] :=
    Connection.fromSenderOther (h.streams.straight c)
  rw [line, hand, if_pos rfl, List.append_nil, List.append_nil, fromSenderAppend, queue, List.append_nil, all _ own,
    all _ passed] at whole
  exact whole

end Steps

/- Nothing is under way for a connection. -/
structure AtRest (w : World) (c : ConnId) : Prop where
  connected : (w.conn c).state = .connected
  drained : (w.conn c).outputBuffer.readable = []
  idle : w.stack (w.host.loopOf c) = []

/- What a client has got for the bytes that the server has read from it. -/
structure Served (maxFrameLen : Nat) (w : World) (j : Journal) (c : ConnId) : Prop where
  behind : (w.conn c).socket.accepted <+: answers (j.decoded c)
  decoded : ∃ messages rest, Framed maxFrameLen (j.received c) messages rest ∧ j.decoded c <+: messages ∧
    (IllegalHeader maxFrameLen rest → w.stack (w.host.loopOf c) = [] → (w.conn c).state ≠ .connected) ∧
    (AtRest w c → (w.conn c).socket.accepted = answers messages)

/- What a client has got for requests within the limit. -/
structure Replied (maxFrameLen : Nat) (w : World) (j : Journal) (c : ConnId) (requests : List Bytes) : Prop where
  decoded : j.decoded c <+: requests
  unharmed : nextRound maxFrameLen (w.conn c).inputBuffer ≠ .refuses
  replies : ∀ most part messages rest, part <+: (w.conn c).socket.accepted → Framed most part messages rest →
    messages <+: requests.map reply
  all : j.received c = requests.flatMap frame → AtRest w c → (w.conn c).socket.accepted = answers requests

section Result
variable {maxFrameLen : Nat} {w : World} {j : Journal} {c : ConnId}

theorem servedReached (h : Service maxFrameLen w j) (known : c < w.host.next) : Served maxFrameLen w j c := by
  have mine := h.echoes c known
  obtain ⟨first,all⟩ := ownPassed h known
  have stream : (w.conn c).socket.accepted ++ (w.conn c).outputBuffer.readable =
      ((j.log.passed c).map Message.data).flatten := (h.streams.stream c known).whole
  have behind : ((j.log.passed c).map Message.data).flatten <+: ((j.log.sent c).map Message.data).flatten := by
    obtain ⟨more,split⟩ := first
    rw [← split, List.map_append, List.flatten_append]
    exact List.prefix_append _ _
  refine ⟨(stream ▸ List.prefix_append _ _).trans (behind.trans mine.behind),?_⟩
  have left := framedDecodes.mpr ((framing maxFrameLen).decodesDrain (w.conn c).inputBuffer.readable)
  have stopped : w.stack (w.host.loopOf c) = [] → Stopped maxFrameLen (w.conn c).inputBuffer (w.conn c).state := fun idle =>
    mine.idle (by rw [calling, idle]; exact List.not_mem_nil)
  refine ⟨j.decoded c ++ ((framing maxFrameLen).drain (w.conn c).inputBuffer.readable).1,_,⟨?_,?_,left.stops⟩,
    List.prefix_append _ _,fun illegal idle up => ?_,fun rest => ?_⟩
  · rw [mine.whole, List.flatMap_append, List.append_assoc, ← left.split]
  · intro m member
    rcases List.mem_append.mp member with old | new
    · exact mine.legal m old
    · exact left.legal m new
  · rw [(framing maxFrameLen).drainNone (stopped idle).none_] at illegal
    exact (stopped idle).closed illegal (.inr up)
  · have none_ : ((framing maxFrameLen).drain (w.conn c).inputBuffer.readable).1 = [] :=
      congrArg Prod.fst ((framing maxFrameLen).drainNone (stopped rest.idle).none_)
    rw [rest.drained, List.append_nil, all rest.connected rest.idle, mine.answered (.inr rest.connected)] at stream
    rw [stream, none_, List.append_nil]

theorem legalShort {ms : List Bytes} (legal : ∀ m ∈ ms, m.length ≤ limit maxFrameLen) : ∀ m ∈ ms, m.length < 4294967296 := by
  intro m member
  have small := legal m member
  simp only [limit] at small
  omega

theorem repliedReached (h : Service maxFrameLen w j) (known : c < w.host.next) {requests : List Bytes}
    (legal : ∀ m ∈ requests, m.length ≤ limit maxFrameLen) (part : j.received c <+: requests.flatMap frame) :
    Replied maxFrameLen w j c requests := by
  have mine := h.echoes c known
  obtain ⟨behind,messages,rest,cut,_,_,all⟩ := servedReached h known
  obtain ⟨later,split,left⟩ := EchoSession.takenPrefix (mine.whole ▸ part) (legalShort mine.legal) (legalShort legal)
  refine ⟨⟨later,split.symm⟩,fun refused => ?_,fun most part messages rest got framed_ => ?_,fun read quiet => ?_⟩
  · have spec := roundCases maxFrameLen mine.valid
    rw [refused] at spec
    cases spec with
    | refuses illegal =>
      exact EchoSession.partLegal left (fun n member => legal n (split ▸ List.mem_append_right _ member)) illegal
  · have way := got.trans behind
    rw [framed_.split, EchoSession.answersFrames] at way
    have short : ∀ n ∈ (j.decoded c).map reply, n.length < 4294967296 := by
      intro n member
      obtain ⟨m,there,same⟩ := List.mem_map.mp member
      exact same ▸ EchoSession.replySmall (legalShort mine.legal m there)
    obtain ⟨more,answered,_⟩ := EchoSession.takenPrefix way (legalShort framed_.legal) short
    rw [split, List.map_append, answered, List.append_assoc]
    exact List.prefix_append _ _
  · have whole : Framed maxFrameLen (j.received c) requests [] := ⟨by rw [read, List.append_nil],legal,.inl (by decide)⟩
    have same : messages = requests := congrArg Prod.fst ((framedUnique cut).symm.trans (framedUnique whole))
    rw [all quiet, same]

end Result

/- In every run of the service, for each of its clients, whatever the others send and whoever
closes: the client has got the first of the answers to the messages read from it, in their order,
and at rest all of them; with an illegal header it does not stay connected. A client whose requests are within the limit is not closed by the codec
and gets the replies to its own requests, in order, and nothing else. -/
theorem clientsServed {maxFrameLen : Nat} {s w : World} {j : Journal} {as : List Action} {c : ConnId} (start : Wired s)
    (reached : run (recording (step maxFrameLen) (note maxFrameLen)) (s,blank) as = some (w,j)) (known : c < w.host.next) :
    Served maxFrameLen w j c ∧ ∀ requests, (∀ m ∈ requests, m.length ≤ limit maxFrameLen) →
      j.received c <+: requests.flatMap frame → Replied maxFrameLen w j c requests := by
  have keep : ∀ w a w' j, Service maxFrameLen w j → step maxFrameLen w a = some w' →
      Service maxFrameLen w' (note maxFrameLen w a w' j) := fun _ _ _ _ h took => serviceStep h took
  have first : Service maxFrameLen s blank := serviceWired start
  have h := recordingInvariant keep first reached
  exact ⟨servedReached h known,fun requests legal part => repliedReached h known legal part⟩

/- Two clients on two sub loops: the first sends PING, in two pieces, the other one byte. -/
def twoClients : List Action :=
  [.server .start,.server .poll,.server (.accept 5 8),.server (.goOn 0),.server (.runQueued 1),.server (.goOn 1),
    .server .poll,.server (.accept 6 8),.server (.goOn 0),.server (.runQueued 2),.server (.goOn 2),
    .server (.event 0 (.read (.ok [0,0,0,4,80,73]))),.server (.event 1 (.read (.ok [0,0,0,1,7]))),.onMessage 1,
    .onMessage 2,.server (.event 0 (.read (.ok [78,71]))),.onMessage 1,.server (.goOn 2),.server (.goOn 2),.onMessage 2,
    .server (.goOn 1),.server (.goOn 1),.onMessage 1,.server (.event 0 (.write (.ok 8))),
    .server (.event 1 (.write (.ok 5)))]

def echoing : World := constructed 2 ⟨false,true,false,false,false⟩ 262144 false

/- What has been read from a client, and whether anything is under way for it. -/
structure Glance where
  received : Bytes
  state : ConnectionState
  pending : Bytes
  idle : Bool
  deriving DecidableEq

def glance (w : World) (j : Journal) (c : ConnId) : Glance :=
  ⟨j.received c,(w.conn c).state,(w.conn c).outputBuffer.readable,(w.stack (w.host.loopOf c)).isEmpty⟩

theorem glanceRest {w : World} {j : Journal} {c : ConnId} {bs : Bytes} (seen : glance w j c = ⟨bs,.connected,[],true⟩) :
    j.received c = bs ∧ AtRest w c := by
  obtain ⟨read,connected,drained,idle⟩ := Glance.mk.inj seen
  exact ⟨read,connected,drained,List.isEmpty_iff.mp idle⟩

theorem clientsServedTwo : ∃ w j, run (recording (step 4194304) (note 4194304)) (echoing,blank) twoClients = some (w,j) ∧
    (w.conn 0).socket.accepted = answers [ping] ∧ (w.conn 1).socket.accepted = answers [[7]] := by
  have reached : (run (recording (step 4194304) (note 4194304)) (echoing,blank) twoClients).map (fun x =>
      (x.1.host.next,glance x.1 x.2 0,glance x.1 x.2 1)) =
      some (2,⟨frame ping,.connected,[],true⟩,⟨frame [7],.connected,[],true⟩) := by
    decide +kernel
  obtain ⟨⟨w,j⟩,reads,made⟩ := Option.map_eq_some_iff.mp reached
  obtain ⟨two,seen⟩ := Prod.mk.inj made
  obtain ⟨seen,seen'⟩ := Prod.mk.inj seen
  obtain ⟨read,rest⟩ := glanceRest seen
  obtain ⟨read',rest'⟩ := glanceRest seen'
  have wired : Wired echoing := ⟨⟨2,⟨false,true,false,false,false⟩,262144,false,rfl⟩,rfl⟩
  have served := clientsServed wired reads (c := 0) (by rw [two]; decide)
  have served' := clientsServed wired reads (c := 1) (by rw [two]; decide)
  have whole : j.received 0 = [ping].flatMap frame := by rw [read]; rfl
  have whole' : j.received 1 = [[7]].flatMap frame := by rw [read']; rfl
  exact ⟨w,j,reads,(served.2 [ping] (by decide) (whole ▸ List.prefix_rfl)).all whole rest,
    (served'.2 [[7]] (by decide) (whole' ▸ List.prefix_rfl)).all whole' rest'⟩

end TcFrame.EchoService
