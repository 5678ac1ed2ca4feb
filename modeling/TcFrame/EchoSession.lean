import TcFrame.CodecPeer
import TcFrame.EchoServer
import Mathlib.Data.List.Infix

/-! A client and the echo server, each with its own loop, callers and scheduler, and TCP
between them: what one end has read is what the socket of the other end has accepted, up to
some point. The client has a codec of its own, sends through it from any thread, its message
callback included, and decodes what comes back. -/
namespace TcFrame
namespace Connection
open Endpoint

/- What the socket has accepted is never taken back. -/
theorem acceptedChange {e e' : Endpoint} {frames : List Frame} (change : Change e e' frames) :
    e.conn.socket.accepted <+: e'.conn.socket.accepted := by
  cases change with
  | ignored => exact List.prefix_rfl
  | established fresh => exact List.prefix_rfl
  | closed up done shape =>
    rw [done.socket]
  | received bs => exact List.prefix_rfl
  | wrotePart connected accepted left => exact List.prefix_append _ _
  | wroteAll connected accepted left => exact List.prefix_append _ _
  | shutting pending =>
    obtain ⟨ch,conn,_⟩ := watchWritingConn e
    rw [conn]

theorem acceptedExec {w : World} {f : Functor} (fresh : f = .connectEstablished → w.state = .connecting) :
    w.accepted <+: (exec w f).accepted := by
  rw [World.accepted, World.accepted, (execRun w f).1]
  cases f with
  | sendInLoop m =>
    cases passes : w.ep.conn.isConnected with
    | true =>
      rw [Endpoint.run, (sendInLoopPassed passes).1]
      exact List.prefix_rfl
    | false =>
      rw [Endpoint.run, sendInLoopRefused passes]
  | connectEstablished => exact acceptedChange (runChange w.ep (by simp) fresh)
  | connectDestroyed => exact acceptedChange (connectDestroyedChange w.ep)
  | shutdownInLoop => exact acceptedChange (shutdownInLoopChange w.ep)
  | forceCloseInLoop => exact acceptedChange (forceCloseInLoopChange w.ep)

theorem acceptedRequest (w : World) (t : ThreadId) (c : UserCall) : (request w t c).1.accepted = w.accepted := by
  cases c <;> simp only [request, send, shutdown, forceClose] <;> split <;> rfl

theorem acceptedUser (w : World) (c : UserCall) : w.accepted <+: (runInline (request w loopThread c)).accepted := by
  unfold runInline
  split
  · rw [acceptedRequest]
  · rename_i f handed
    rw [← acceptedRequest w loopThread c]
    exact acceptedExec (fun same => absurd same (handedBegun handed))

theorem acceptedResume (e : Endpoint) (f : Frame) : (e.resume f).1.conn.socket.accepted = e.conn.socket.accepted := by
  cases f with
  | sendTail =>
    obtain ⟨ch,conn,_⟩ := watchWritingConn e
    simp only [Endpoint.resume, conn]
  | closeSocket =>
    simp only [Endpoint.resume, closeSocket]
    split <;> rfl
  | _ => rfl

theorem acceptedStep {w w' : World} {a : Action} (taken : step w a = some w') : w.accepted <+: w'.accepted := by
  cases stepCases taken with
  | establish idle fresh => exact acceptedExec (fun _ => fresh)
  | destroy idle => exact acceptedExec (by simp)
  | event idle up ok => exact acceptedChange (handleChange w.ep ok)
  | @runQueued f rest idle head fresh => exact @acceptedExec { w with queue := rest } f fresh
  | @resume f below top own =>
    have same := acceptedResume w.ep f
    simp only [World.accepted, continueWith, same]
    exact List.prefix_rfl
  | user runs => exact acceptedUser w _
  | @foreign t c other free =>
    have same := acceptedRequest w t c
    exact same.symm ▸ List.prefix_rfl
  | environment done =>
    obtain ⟨poller,isOpen,same,_⟩ := environmentCases done
    subst same
    exact List.prefix_rfl
  | _ => exact List.prefix_rfl

end Connection

namespace EchoSession
open LengthFieldCodec
open Connection (setInput loopThread)
open EchoServer (reply answers)

/- One end: a connection with what has been read on it and decoded. -/
abbrev Side := EchoServer.World

inductive ClientAction where
  | send (t : ThreadId) (message : Bytes)
  | connection (a : Connection.Action)
  | onMessage
  deriving DecidableEq, Repr

/- The next round of the client's OnMessage. What its callback sends are steps of their own. -/
def clientMessage (maxFrameLen : Nat) (w : Side) (below : List Frame) : Side :=
  let returned : Connection.World := { w.connection with stack := below }
  match nextRound maxFrameLen w.connection.conn.inputBuffer with
  | .returns => { w with connection := returned }
  | .refuses =>
    { w with connection := Connection.runInline (Connection.request returned loopThread .forceClose) }
  | .delivers message left =>
    { w with connection := setInput w.connection left, decoded := w.decoded ++ [message] }

def clientStep (maxFrameLen : Nat) (w : Side) : ClientAction → Option Side
  | .send t message =>
    (CodecPeer.step w.connection (.send t message)).map (fun c => { w with connection := c })
  | .connection a =>
    if Connection.returns w.connection a then none
    else (CodecPeer.step w.connection (.other a)).map (fun c =>
      { w with connection := c, received := w.received ++ Connection.readBytes a })
  | .onMessage =>
    match w.connection.stack with
    | .messageCallback :: below => some (clientMessage maxFrameLen w below)
    | _ => none

structure Session where
  client : Side
  server : Side

inductive Action where
  | client (a : ClientAction)
  | server (a : EchoServer.Action)
  deriving DecidableEq, Repr

def step (maxFrameLen : Nat) (s : Session) : Action → Option Session
  | .client a =>
    (clientStep maxFrameLen s.client a).bind (fun c =>
      if c.received <+: s.server.connection.accepted then some { s with client := c } else none)
  | .server a =>
    (EchoServer.step maxFrameLen s.server a).bind (fun v =>
      if v.received <+: s.client.connection.accepted then some { s with server := v } else none)

inductive Step (maxFrameLen : Nat) (s : Session) : Session → Prop where
  | client {a c} (taken : clientStep maxFrameLen s.client a = some c)
      (carried : c.received <+: s.server.connection.accepted) : Step maxFrameLen s { s with client := c }
  | server {a v} (taken : EchoServer.step maxFrameLen s.server a = some v)
      (carried : v.received <+: s.client.connection.accepted) : Step maxFrameLen s { s with server := v }

theorem stepCases {maxFrameLen : Nat} {s s' : Session} {a : Action} (taken : step maxFrameLen s a = some s') :
    Step maxFrameLen s s' := by
  cases a with
  | client a =>
    obtain ⟨c,made,last⟩ := Option.bind_eq_some_iff.mp taken
    split at last <;> cases last
    exact .client made (by assumption)
  | server a =>
    obtain ⟨v,made,last⟩ := Option.bind_eq_some_iff.mp taken
    split at last <;> cases last
    exact .server made (by assumption)

/- Both ends by themselves, and the two streams between them. -/
structure Sound (maxFrameLen : Nat) (s : Session) : Prop where
  input : EchoServer.Input maxFrameLen s.client
  framing : CodecPeer.Framing s.client.connection
  server : EchoServer.Input maxFrameLen s.server ∧ EchoServer.Output s.server
  upstream : s.server.received <+: s.client.connection.accepted
  downstream : s.client.received <+: s.server.connection.accepted

/- The messages taken off some part of a stream of frames are the first of the stream. -/
theorem takenPrefix {ms ns : List Bytes} {rest : Bytes} (way : ms.flatMap frame ++ rest <+: ns.flatMap frame)
    (short : ∀ m ∈ ms, m.length < 4294967296) (small : ∀ n ∈ ns, n.length < 4294967296) :
    ∃ later, ns = ms ++ later ∧ rest <+: later.flatMap frame := by
  induction ms generalizing ns with
  | nil => exact ⟨ns,rfl,way⟩
  | cons m ms ih =>
    obtain ⟨more,whole⟩ := way
    cases ns with
    | nil =>
      have size := congrArg List.length whole
      simp only [List.flatMap_cons, List.flatMap_nil, List.length_append, frameLength, List.length_nil] at size
      omega
    | cons n ns =>
      simp only [List.flatMap_cons, List.append_assoc] at whole
      have cut := whole
      simp only [frame, List.append_assoc] at cut
      obtain ⟨header,body⟩ := List.append_inj cut (by rw [hostToNetLongLength, hostToNetLongLength])
      have size := congrArg netToHostLong header
      rw [netToHostLongEncoded (short m List.mem_cons_self), netToHostLongEncoded (small n List.mem_cons_self)] at size
      have same := (List.append_inj body size).1
      subst same
      obtain ⟨later,split,left⟩ := ih ⟨more,by rw [List.append_assoc]; exact List.append_cancel_left whole⟩
        (fun x member => short x (List.mem_cons_of_mem _ member)) (fun x member => small x (List.mem_cons_of_mem _ member))
      exact ⟨later,by rw [split, List.cons_append],left⟩

/- A part of a stream of legal frames does not begin with an illegal header. -/
theorem partLegal {maxFrameLen : Nat} {ns : List Bytes} {rest : Bytes} (way : rest <+: ns.flatMap frame)
    (legal : ∀ n ∈ ns, n.length ≤ limit maxFrameLen) : ¬ IllegalHeader maxFrameLen rest := by
  rintro ⟨header,large⟩
  obtain ⟨more,whole⟩ := way
  cases ns with
  | nil =>
    have none_ := (List.append_eq_nil_iff.mp whole).1
    rw [none_] at header
    cases header
  | cons n ns =>
    have here := legal n List.mem_cons_self
    have small : n.length ≤ 2147483647 := Nat.le_trans here (Nat.min_le_right _ _)
    rw [← announcedStable header more, whole, List.flatMap_cons, announcedFrame small] at large
    omega

theorem clientFraming {maxFrameLen : Nat} {w w' : Side} {a : ClientAction} (h : CodecPeer.Framing w.connection)
    (taken : clientStep maxFrameLen w a = some w') : CodecPeer.Framing w'.connection := by
  cases a with
  | send t message =>
    obtain ⟨c,made,same⟩ := Option.map_eq_some_iff.mp taken
    subst same
    exact CodecPeer.framedStep h made
  | connection a =>
    simp only [clientStep] at taken
    split at taken
    · cases taken
    · obtain ⟨c,made,same⟩ := Option.map_eq_some_iff.mp taken
      subst same
      exact CodecPeer.framedStep h made
  | onMessage =>
    simp only [clientStep] at taken
    split at taken <;> cases taken
    rename_i below top
    have returned : CodecPeer.Framing { w.connection with stack := below } :=
      ⟨Connection.orderedSame h.ordered rfl rfl rfl rfl,h.stream,h.framed_⟩
    unfold clientMessage
    split
    · exact returned
    · refine ⟨Connection.orderedUser returned.ordered _,Connection.streamUser returned.stream _,?_⟩
      rw [(Connection.silentUser _ (by simp)).1]
      exact h.framed_
    · exact ⟨Connection.orderedSame h.ordered rfl rfl rfl rfl,
        ⟨h.stream.valid,h.stream.whole,h.stream.total,h.stream.counter⟩,h.framed_⟩

theorem sendReads (t : ThreadId) (data : Bytes) : Connection.readBytes (Connection.callBy t (.send data)) = [] := by
  unfold Connection.callBy
  split <;> rfl

theorem clientInput {maxFrameLen : Nat} {w w' : Side} {a : ClientAction} (h : EchoServer.Input maxFrameLen w)
    (taken : clientStep maxFrameLen w a = some w') : EchoServer.Input maxFrameLen w' := by
  cases a with
  | send t message =>
    obtain ⟨c,made,same⟩ := Option.map_eq_some_iff.mp taken
    subst same
    simp only [CodecPeer.step] at made
    split at made
    · have busy : ¬ Connection.returns w.connection (Connection.callBy t (.send (framed message))) := by
        rintro ⟨back,_⟩
        unfold Connection.callBy at back
        split at back <;> cases back
      have kept := EchoServer.inputConnection h busy made
      rw [sendReads, List.append_nil] at kept
      exact kept
    · cases made
      exact h
  | connection a =>
    simp only [clientStep] at taken
    split at taken
    · cases taken
    · rename_i busy
      obtain ⟨c,made,same⟩ := Option.map_eq_some_iff.mp taken
      subst same
      simp only [CodecPeer.step] at made
      split at made
      · cases made
      · exact EchoServer.inputConnection h busy made
  | onMessage =>
    simp only [clientStep] at taken
    split at taken <;> cases taken
    rename_i below top
    have spec := roundCases maxFrameLen h.valid
    unfold clientMessage
    generalize nextRound maxFrameLen w.connection.conn.inputBuffer = r at spec
    cases spec with
    | returns stops legal => exact EchoServer.inputReturned h stops rfl rfl
    | refuses illegal =>
      have closes := Connection.asideUser { w.connection with stack := below } .forceClose
      exact EchoServer.inputReturned h (nextNone.mpr (.inr (.inr illegal))) closes.input closes.callbacks
    | @delivers message left valid item =>
      obtain ⟨front,small⟩ := nextExact.mp item
      refine ⟨valid,?_,?_,h.set,fun out => absurd (top ▸ List.mem_cons_self) out⟩
      · simp only [setInput, Connection.World.conn] at front ⊢
        rw [h.whole, Connection.World.conn, front]
        simp
      · intro m member
        rcases List.mem_append.mp member with old | new
        · exact h.legal m old
        · rw [List.mem_singleton.mp new]
          exact small

theorem clientAccepted {maxFrameLen : Nat} {w w' : Side} {a : ClientAction}
    (taken : clientStep maxFrameLen w a = some w') : w.connection.accepted <+: w'.connection.accepted := by
  cases a with
  | send t message =>
    obtain ⟨c,made,same⟩ := Option.map_eq_some_iff.mp taken
    subst same
    simp only [CodecPeer.step] at made
    split at made
    · exact Connection.acceptedStep made
    · cases made
      exact List.prefix_rfl
  | connection a =>
    simp only [clientStep] at taken
    split at taken
    · cases taken
    · obtain ⟨c,made,same⟩ := Option.map_eq_some_iff.mp taken
      subst same
      simp only [CodecPeer.step] at made
      split at made
      · cases made
      · exact Connection.acceptedStep made
  | onMessage =>
    simp only [clientStep] at taken
    split at taken <;> cases taken
    rename_i below top
    unfold clientMessage
    split
    · exact List.prefix_rfl
    · exact Connection.acceptedUser { w.connection with stack := below } .forceClose
    · exact List.prefix_rfl

theorem serverAccepted {maxFrameLen : Nat} {w w' : Side} {a : EchoServer.Action}
    (taken : EchoServer.step maxFrameLen w a = some w') : w.connection.accepted <+: w'.connection.accepted := by
  cases EchoServer.stepCases taken with
  | connection silent busy made => exact Connection.acceptedStep made
  | @onMessage below top =>
    unfold EchoServer.onMessage
    split
    · exact List.prefix_rfl
    · exact Connection.acceptedUser { w.connection with stack := below } .forceClose
    · rename_i message left round
      rcases EchoServer.messageCallbackSends (setInput w.connection left) message with sent | ⟨_,same⟩
      · simp only [sent]
        exact Connection.acceptedUser (setInput w.connection left) _
      · simp only [same]
        exact List.prefix_rfl

theorem soundStep {maxFrameLen : Nat} {s s' : Session} {a : Action} (h : Sound maxFrameLen s)
    (taken : step maxFrameLen s a = some s') : Sound maxFrameLen s' := by
  cases stepCases taken with
  | client made carried =>
    exact ⟨clientInput h.input made,clientFraming h.framing made,h.server,h.upstream.trans (clientAccepted made),carried⟩
  | server made carried =>
    exact ⟨h.input,h.framing,EchoServer.echoStep h.server made,carried,h.downstream.trans (serverAccepted made)⟩

/- Both connections are new, with their message callbacks set. -/
structure Started (s : Session) : Prop where
  client : EchoServer.Wired s.client
  server : EchoServer.Wired s.server

theorem soundStarted {maxFrameLen : Nat} {s : Session} (h : Started s) : Sound maxFrameLen s := by
  refine ⟨(EchoServer.echoWired h.client).1,CodecPeer.framedInitial h.client.initial,EchoServer.echoWired h.server,?_,?_⟩
  · rw [h.server.nothing.1]
    exact List.nil_prefix
  · rw [h.client.nothing.1]
    exact List.nil_prefix

/- Nothing is under way: all that was sent has been written and read, at both ends, no handler
is executing, and the server has not begun to close. -/
structure Quiet (s : Session) : Prop where
  connected : s.server.connection.state = .connected
  written : s.client.connection.pending = [] ∧ s.server.connection.pending = []
  read : s.server.received = s.client.connection.accepted ∧ s.client.received = s.server.connection.accepted
  idle : s.client.connection.stack = [] ∧ s.server.connection.stack = []

def requests (s : Session) : List Bytes := CodecPeer.transmitted s.client.connection

theorem replySmall {m : Bytes} (small : m.length < 4294967296) : (reply m).length < 4294967296 := by
  unfold reply
  split
  · decide
  · exact small

theorem answersFrames (ms : List Bytes) : answers ms = (ms.map reply).flatMap frame :=
  (List.flatMap_map reply frame ms).symm

section Reached
variable {maxFrameLen : Nat} {s : Session}

theorem requestsRead (h : Sound maxFrameLen s) : s.server.received <+: (requests s).flatMap frame := by
  refine h.upstream.trans ?_
  rw [requests, ← CodecPeer.streamFrames h.framing]
  exact List.prefix_append _ _

theorem answersRead (h : Sound maxFrameLen s) : s.client.received <+: (s.server.decoded.map reply).flatMap frame := by
  have whole : s.server.connection.accepted ++ s.server.connection.pending = Connection.streamOf s.server.connection :=
    h.server.2.stream.whole
  rw [← answersFrames]
  exact (h.downstream.trans (whole ▸ List.prefix_append _ _)).trans h.server.2.prefix_

theorem decodedShort (h : EchoServer.Input maxFrameLen s.server) : ∀ m ∈ s.server.decoded, m.length < 4294967296 := by
  intro m member
  have legal := h.legal m member
  simp only [limit] at legal
  omega

/- What the server has taken off its stream, and what it has left. -/
theorem serverTaken (h : Sound maxFrameLen s) (small : ∀ m ∈ requests s, m.length < 4294967296) :
    ∃ later, requests s = s.server.decoded ++ later ∧
      s.server.connection.conn.inputBuffer.readable <+: later.flatMap frame := by
  have way := requestsRead h
  rw [h.server.1.whole] at way
  exact takenPrefix way (decodedShort h.server.1) small

theorem clientTaken (h : Sound maxFrameLen s) : ∃ later, s.server.decoded.map reply = s.client.decoded ++ later ∧
    s.client.connection.conn.inputBuffer.readable <+: later.flatMap frame := by
  have way := answersRead h
  rw [h.input.whole] at way
  refine takenPrefix way ?_ ?_
  · intro m member
    have legal := h.input.legal m member
    simp only [limit] at legal
    omega
  · intro n member
    obtain ⟨m,there,same⟩ := List.mem_map.mp member
    exact same ▸ replySmall (decodedShort h.server.1 m there)

/- A reply is as long as the message. -/
theorem replyLength (m : Bytes) : (reply m).length = m.length := by
  unfold reply
  split
  · rename_i same
    rw [same]
    rfl
  · rfl

/- When all has been read, nothing is left to take. -/
theorem readAll {w : Side} {ns : List Bytes} (h : EchoServer.Input maxFrameLen w) (idle : w.connection.stack = [])
    (all : w.received = ns.flatMap frame) (legal : ∀ n ∈ ns, n.length ≤ limit maxFrameLen) : w.decoded = ns := by
  have stops := nextNone.mp (h.idle (by rw [idle]; exact List.not_mem_nil))
  have cut : Framed maxFrameLen w.received w.decoded _ := ⟨h.whole,h.legal,stops⟩
  have whole : Framed maxFrameLen w.received ns [] := ⟨by rw [all, List.append_nil],legal,.inl (by decide)⟩
  exact congrArg Prod.fst ((framedUnique cut).symm.trans (framedUnique whole))

end Reached

/- The client of a server as main builds it; the input buffers are cut to eight bytes. -/
def opened : Session := ⟨⟨Connection.fresh 7 ⟨true,true,false,true,false⟩ 262144 8,[],[]⟩,EchoServer.accepted 3⟩

theorem openedStarted : Started opened :=
  ⟨⟨Connection.freshInitial _ _ _ _,rfl,⟨Buffer.newValid _,Buffer.newReadable _⟩,rfl,rfl⟩,EchoServer.acceptedWired 3⟩

/- PING and a message of one byte, written in one piece and read in two; the answers come back
in one. -/
def pingPong : List Action :=
  [.server (.connection .establish),.server (.connection .ret),.client (.connection .establish),
    .client (.connection .ret),.client (.send 1 ping),.client (.connection (.push 1)),.client (.connection .runQueued),
    .client (.connection .resume),.client (.send 2 [7]),.client (.connection (.push 2)),.client (.connection .runQueued),
    .client (.connection .resume),.client (.connection (.event (.write (.ok 13)))),
    .server (.connection (.event (.read (.ok [0,0,0,4,80,73])))),.server .onMessage,
    .server (.connection (.event (.read (.ok [78,71,0,0,0,1,7])))),.server .onMessage,.server (.connection .resume),
    .server .onMessage,.server (.connection .resume),.server .onMessage,
    .server (.connection (.event (.write (.ok 13)))),.server (.connection .ret),
    .client (.connection (.event (.read (.ok [0,0,0,4,80,79,78,71,0,0,0,1,7])))),.client .onMessage,.client .onMessage,
    .client .onMessage]

end EchoSession
end TcFrame
