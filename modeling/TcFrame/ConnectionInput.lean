import TcFrame.ConnectionDrain
import TcFrame.ConnectionOnce

/-! The input side of a connection. Only a successful read changes the input buffer, and it
calls the message callback; nothing but its own return takes that callback off the stack. -/
namespace TcFrame.Connection
open Endpoint

theorem inputClose (e : Endpoint) : e.handleClose.1.conn.inputBuffer = e.conn.inputBuffer := by
  unfold handleClose
  split
  · rfl
  · exact (removeIfAddedClosed (disconnectClosed e)).input

theorem inputWatch (e : Endpoint) : e.watchWriting.conn.inputBuffer = e.conn.inputBuffer := by
  obtain ⟨ch,conn,_⟩ := watchWritingConn e
  rw [conn]

theorem inputWrite (e : Endpoint) (r : WriteResult) : (e.handleWrite r).1.conn.inputBuffer = e.conn.inputBuffer := by
  simp only [handleWrite]
  split
  · rfl
  · split
    · exact inputClose e
    · split
      · split
        · exact inputClose _
        · rfl
      · rfl
    · split
      · rfl
      · exact inputClose e

theorem inputRun (e : Endpoint) (f : Functor) : (e.run f).1.conn.inputBuffer = e.conn.inputBuffer := by
  cases f with
  | connectEstablished => rfl
  | connectDestroyed =>
    simp only [Endpoint.run, connectDestroyed]
    split
    · exact (removeIfAddedClosed (disconnectClosed e)).input
    · rfl
  | sendInLoop m =>
    cases passes : e.conn.isConnected with
    | true => rw [Endpoint.run, (sendInLoopPassed passes).1]; rfl
    | false => rw [Endpoint.run, sendInLoopRefused passes]
  | shutdownInLoop =>
    simp only [Endpoint.run, shutdownInLoop]
    split
    · exact inputWatch e
    · exact inputClose e
  | forceCloseInLoop =>
    simp only [Endpoint.run, forceCloseInLoop]
    split
    · exact (disconnectClosed e).input
    · rfl

theorem inputResume (e : Endpoint) (f : Frame) : (e.resume f).1.conn.inputBuffer = e.conn.inputBuffer := by
  cases f with
  | sendTail => exact inputWatch e
  | closeSocket =>
    simp only [Endpoint.resume, closeSocket]
    split <;> rfl
  | _ => rfl

/- The bytes of a successful read. -/
def readBytes : Action → Bytes
  | .event (.read (.ok bs)) => bs
  | _ => []

/- User code takes from the input buffer. -/
def setInput (w : World) (b : Buffer) : World :=
  { w with ep := { w.ep with conn := { w.ep.conn with inputBuffer := b } } }

/- What a call or a functor leaves alone: the input buffer, the callbacks, and what is on
the stack already. -/
structure Aside (w w' : World) : Prop where
  input : w'.conn.inputBuffer = w.conn.inputBuffer
  callbacks : w'.conn.callbacks = w.conn.callbacks
  above : ∃ frames, w'.stack = frames ++ w.stack

theorem asideExec (w : World) (f : Functor) : Aside w (exec w f) := by
  refine ⟨?_,execCallbacks w f,_,(execRun w f).2⟩
  rw [World.conn, (execRun w f).1]
  exact inputRun w.ep f

theorem asideRequest (w : World) (t : ThreadId) (c : UserCall) : Aside w (request w t c).1 := by
  have called := requestCalled w t c
  refine ⟨?_,called.callbacks,[],called.stack⟩
  cases c <;> simp only [request, send, shutdown, forceClose] <;> split <;> rfl

theorem asideUser (w : World) (c : UserCall) : Aside w (runInline (request w loopThread c)) := by
  have first := asideRequest w loopThread c
  unfold runInline
  split
  · exact first
  · rename_i f handed
    have second := asideExec (request w loopThread c).1 f
    obtain ⟨frames,stack⟩ := second.above
    exact ⟨second.input.trans first.input,second.callbacks.trans first.callbacks,frames,
      by rw [stack, (requestCalled w loopThread c).stack]⟩

theorem aboveKept {w w' : World} (h : Aside w w') (there : Frame.messageCallback ∈ w.stack) :
    Frame.messageCallback ∈ w'.stack := by
  obtain ⟨frames,stack⟩ := h.above
  rw [stack]
  exact List.mem_append_right _ there

/- The message callback returns. -/
def returns (w : World) (a : Action) : Prop := a = .ret ∧ w.stack.head? = some .messageCallback

instance (w : World) (a : Action) : Decidable (returns w a) := by unfold returns; infer_instance

/- What a step does on the input side. -/
inductive InputStep (w w' : World) (a : Action) : Prop where
  | aside (nothing : readBytes a = []) (input : w'.conn.inputBuffer = w.conn.inputBuffer)
      (kept : Frame.messageCallback ∈ w.stack → Frame.messageCallback ∈ w'.stack)
  | read (up : w.state ≠ .connecting) (some_ : readBytes a ≠ [])
      (input : w'.conn.inputBuffer = w.conn.inputBuffer.readFromFd (readBytes a))
      (calls : w.conn.callbacks.message = true → Frame.messageCallback ∈ w'.stack)

theorem inputAside {w w' : World} {a : Action} (h : Aside w w') (nothing : readBytes a = []) : InputStep w w' a :=
  .aside nothing h.input (aboveKept h)

theorem handleReadBytes (e : Endpoint) {bs : Bytes} (some_ : bs ≠ []) :
    e.handleRead (.ok bs) = ({ e with conn := { e.conn with
      inputBuffer := e.conn.inputBuffer.readFromFd bs
      totalBytesRead := e.conn.totalBytesRead + bs.length } },
      TcpConnection.call e.conn.callbacks.message .messageCallback) := if_neg some_

theorem readInput {w : World} (idle : w.stack = []) (up : w.state ≠ .connecting) (r : ReadResult) :
    InputStep w (continueWith w (w.ep.handleRead r) []) (.event (.read r)) := by
  cases r with
  | ok bs =>
    by_cases none : bs = []
    · subst none
      exact .aside rfl (inputClose w.ep) (by simp [idle])
    · rw [handleReadBytes w.ep none]
      refine .read up none rfl (fun set => ?_)
      have set' : w.ep.conn.callbacks.message = true := set
      simp [continueWith, TcpConnection.call, set']
  | error errno =>
    refine .aside rfl ?_ (by simp [idle])
    simp only [handleRead, continueWith, World.conn]
    split
    · rfl
    · exact inputClose w.ep

theorem inputStep {w w' : World} {a : Action} (taken : step w a = some w') (busy : ¬ returns w a) :
    InputStep w w' a := by
  cases stepCases taken with
  | establish idle fresh => exact inputAside (asideExec _ _) rfl
  | destroy idle => exact inputAside (asideExec _ _) rfl
  | @event ev idle up ok =>
    cases ev with
    | read r => exact readInput idle up r
    | write r => exact .aside rfl (inputWrite w.ep r) (by simp [idle])
    | close => exact .aside rfl (inputClose w.ep) (by simp [idle])
    | error => exact .aside rfl (inputClose w.ep) (by simp [idle])
  | @runQueued f rest idle head fresh =>
    have ran := asideExec { w with queue := rest } f
    have kept := aboveKept ran
    exact .aside rfl ran.input kept
  | @resume f below top own =>
    refine .aside rfl (inputResume w.ep f) (fun there => ?_)
    rw [top] at there
    rcases List.mem_cons.mp there with here | under
    · rw [← here] at own
      cases own
    · exact List.mem_append_right _ under
  | @ret f below top callback =>
    refine .aside rfl rfl (fun there => ?_)
    rw [top] at there
    rcases List.mem_cons.mp there with here | under
    · exact absurd ⟨rfl,by rw [top, ← here]; rfl⟩ busy
    · exact under
  | user runs => exact inputAside (asideUser w _) rfl
  | @foreign t c other free =>
    have asked := asideRequest w t c
    have kept := aboveKept asked
    exact .aside rfl asked.input kept
  | push flying => exact .aside rfl rfl (fun there => there)
  | environment done =>
    obtain ⟨poller,isOpen,same,_⟩ := environmentCases done
    subst same
    exact .aside rfl rfl (fun there => there)

/- A step that reads nothing leaves the input buffer as it is. -/
theorem inputKept {w w' : World} {a : Action} (taken : step w a = some w') (nothing : readBytes a = []) :
    w'.conn.inputBuffer = w.conn.inputBuffer := by
  by_cases back : returns w a
  · obtain ⟨same,_⟩ := back
    subst same
    cases stepCases taken with
    | ret top callback => rfl
  · cases inputStep taken back with
    | aside none_ input kept => exact input
    | read up some_ input calls => exact absurd nothing some_

theorem stepCallbacks {w w' : World} {a : Action} (taken : step w a = some w') :
    w'.conn.callbacks = w.conn.callbacks := by
  cases stepCases taken with
  | establish idle fresh => exact execCallbacks w _
  | destroy idle => exact execCallbacks w _
  | event idle up ok => exact (sameChange (handleChange w.ep ok)).callbacks
  | @runQueued f rest idle head fresh => exact execCallbacks { w with queue := rest } f
  | @resume f below top own => exact (sameResume w.ep f).callbacks
  | user runs => exact (asideUser w _).callbacks
  | foreign other free => exact (asideRequest w _ _).callbacks
  | environment done =>
    obtain ⟨poller,isOpen,same,_⟩ := environmentCases done
    subst same
    rfl
  | _ => rfl

theorem rankBegun {s s' : ConnectionState} (forward : rank s ≤ rank s') (fresh : s' = .connecting) : s = .connecting := by
  rw [fresh] at forward
  cases s <;> first | rfl | cases forward

theorem userBegun {w : World} {c : UserCall} (fresh : (runInline (request w loopThread c)).state = .connecting) :
    w.state = .connecting := by
  unfold runInline at fresh
  split at fresh
  · exact rankBegun (requestCalled w _ _).forward fresh
  · rename_i f handed
    have before := rankBegun (execRank (fun same => absurd same (handedBegun handed))) fresh
    exact rankBegun (requestCalled w _ _).forward before

/- No step goes back to Connecting. -/
theorem stepBegun {w w' : World} {a : Action} (taken : step w a = some w') (fresh : w'.state = .connecting) :
    w.state = .connecting := by
  cases stepCases taken with
  | establish idle fresh' => exact fresh'
  | destroy idle => exact rankBegun (execRank (by simp)) fresh
  | event idle up ok => exact rankBegun (changeRank (handleChange w.ep ok)) fresh
  | @runQueued f rest idle head start => exact rankBegun (@execRank { w with queue := rest } f start) fresh
  | @resume f below top own => simpa [continueWith, World.state, resumeState] using fresh
  | user runs => exact userBegun fresh
  | foreign other free => exact rankBegun (requestCalled w _ _).forward fresh
  | environment done =>
    obtain ⟨poller,isOpen,same,_⟩ := environmentCases done
    subst same
    exact fresh
  | _ => exact fresh

/- ForceClose in the loop's thread: the connection is Disconnected when it returns. -/
theorem forceCloseEnds {w : World} (begun : w.state ≠ .connecting) :
    (runInline (request w loopThread .forceClose)).state = .disconnected := by
  cases isOpen : w.ep.isOpenState with
  | true =>
    have handed : request w loopThread .forceClose =
        ({ w with ep := w.ep.setState .disconnecting },some .forceCloseInLoop) := by
      simp only [request, forceClose, isOpen, if_true]
    have leaving : (w.ep.setState .disconnecting).isOpenState = true := rfl
    have closes : (w.ep.setState .disconnecting).forceCloseInLoop.1 = (w.ep.setState .disconnecting).disconnect := by
      simp only [forceCloseInLoop, leaving, if_true]
    simp only [runInline, handed]
    rw [World.state, (execRun _ _).1, Endpoint.run, closes]
    exact (disconnectClosed _).state
  | false =>
    have nothing : request w loopThread .forceClose = ({ w with ep := w.ep },none) := by
      simp [request, forceClose, isOpen]
    simp only [runInline, nothing]
    exact shutState isOpen begun

/- A Disconnected connection does not watch for input. -/
def Deaf (e : Endpoint) : Prop := e.conn.state = .disconnected → e.conn.channel.events.read = false

theorem deafOther {e : Endpoint} (up : e.conn.state ≠ .disconnected) : Deaf e := fun ended => absurd ended up

theorem deafWatch {e : Endpoint} (h : Deaf e) : Deaf e.watchWriting := by
  obtain ⟨ch,conn,_,_,events⟩ := watchWritingConn e
  intro ended
  rw [conn] at ended ⊢
  rw [events]
  exact h ended

theorem deafChange {e e' : Endpoint} {frames : List Frame} (h : Deaf e) (change : Change e e' frames) : Deaf e' := by
  cases change with
  | ignored => exact h
  | established fresh => exact deafOther (by simp [enableReading, setState])
  | closed up done shape => exact fun _ => by rw [done.events]; rfl
  | received bs => exact h
  | wrotePart connected => exact deafOther (by simp [written, connected])
  | wroteAll connected => exact deafOther (by simp [disableWriting, written, connected])
  | shutting pending => exact deafWatch h

theorem deafExec {w : World} (h : Deaf w.ep) {f : Functor} (fresh : f = .connectEstablished → w.state = .connecting) :
    Deaf (exec w f).ep := by
  rw [(execRun w f).1]
  cases f with
  | sendInLoop m =>
    cases passes : w.ep.conn.isConnected with
    | true => rw [Endpoint.run, (sendInLoopPassed passes).1]; exact h
    | false => rw [Endpoint.run, sendInLoopRefused passes]; exact h
  | connectEstablished => exact deafChange h (runChange w.ep (by simp) fresh)
  | connectDestroyed => exact deafChange h (connectDestroyedChange w.ep)
  | shutdownInLoop => exact deafChange h (shutdownInLoopChange w.ep)
  | forceCloseInLoop => exact deafChange h (forceCloseInLoopChange w.ep)

theorem deafRequest {w : World} (h : Deaf w.ep) (t : ThreadId) (c : UserCall) : Deaf (request w t c).1.ep := by
  cases c <;> simp only [request, send, shutdown, forceClose] <;> split <;>
    first | exact h | exact deafOther (by simp [setState])

theorem deafStep {w w' : World} {a : Action} (h : Deaf w.ep) (taken : step w a = some w') : Deaf w'.ep := by
  cases stepCases taken with
  | establish idle fresh => exact deafExec h (fun _ => fresh)
  | destroy idle => exact deafExec h (by simp)
  | event idle up ok => exact deafChange h (handleChange w.ep ok)
  | @runQueued f rest idle head fresh => exact @deafExec { w with queue := rest } h f fresh
  | @resume f below top own =>
    cases f with
    | sendTail => exact deafWatch h
    | closeSocket =>
      simp only [continueWith, Endpoint.resume, closeSocket]
      split <;> exact h
    | _ => exact h
  | user runs =>
    have asked := deafRequest h loopThread
    unfold runInline
    split
    · exact asked _
    · rename_i f handed
      exact deafExec (asked _) (fun same => absurd same (handedBegun handed))
  | foreign other free => exact deafRequest h _ _
  | environment done =>
    obtain ⟨poller,isOpen,same,_⟩ := environmentCases done
    subst same
    exact h
  | _ => exact h

theorem deafReachable {w : World} (h : Reachable w) : Deaf w.ep := by
  refine Machine.reachableInvariant (fun s start => deafOther ?_) (fun _ _ _ => deafStep) h
  have fresh : s.ep.conn.state = .connecting := start.state
  rw [fresh]
  simp

end TcFrame.Connection
