import TcFrame.ConnectionDrain

/-! Write interest. SendInLoop asks for writable events whatever it appended, HandleWrite
gives them up when the output is empty. A message without bytes upsets the two: the
next writable event finds nothing to write and takes that for an error. -/
namespace TcFrame.Connection
open Endpoint Machine

/- SendInLoop with no bytes, on a connected connection that has nothing to write. -/
def sendsNothing (w : World) (data : Bytes) : Bool :=
  w.conn.isConnected && data.isEmpty && w.conn.outputBuffer.readableBytes == 0

def emptySend (w : World) : Action → Bool
  | .user (.send data) => sendsNothing w data
  | .runQueued =>
    match w.queue with
    | .sendInLoop m :: _ => sendsNothing w m.data
    | _ => false
  | _ => false

/- While Connected the interest is there exactly for pending output, or SendInLoop has
still to ask for it. Before, there is neither. -/
structure Matched (e : Endpoint) (stack : List Frame) : Prop where
  early : e.conn.state = .connecting →
    e.conn.outputBuffer.readableBytes = 0 ∧ e.conn.channel.events.write = false ∧ Frame.sendTail ∉ stack
  watched : e.conn.state = .connected → e.conn.channel.events.write = true → 0 < e.conn.outputBuffer.readableBytes
  pending : e.conn.state = .connected → 0 < e.conn.outputBuffer.readableBytes →
    e.conn.channel.events.write = true ∨ Frame.sendTail ∈ stack
  tail : e.conn.state = .connected → Frame.sendTail ∈ stack → 0 < e.conn.outputBuffer.readableBytes

theorem matchedLeft {e : Endpoint} {stack : List Frame}
    (left : e.conn.state = .disconnecting ∨ e.conn.state = .disconnected) : Matched e stack := by
  rcases left with s | s <;> exact ⟨by simp [s],by simp [s],by simp [s],by simp [s]⟩

/- Frames come and go on top, and none of them is the tail of SendInLoop. -/
theorem matchedStack {e : Endpoint} {stack stack' : List Frame} (h : Matched e stack)
    (same : Frame.sendTail ∈ stack' ↔ Frame.sendTail ∈ stack) : Matched e stack' := by
  refine ⟨?_,h.watched,?_,?_⟩
  · rw [same]; exact h.early
  · rw [same]; exact h.pending
  · rw [same]; exact h.tail

/- Two endpoints with one state, one output buffer and one interest. -/
theorem matchedSame {e e' : Endpoint} {stack : List Frame} (h : Matched e stack)
    (state : e'.conn.state = e.conn.state) (output : e'.conn.outputBuffer = e.conn.outputBuffer)
    (events : e'.conn.channel.events = e.conn.channel.events) : Matched e' stack := by
  refine ⟨?_,?_,?_,?_⟩
  · rw [state, output, events]; exact h.early
  · rw [state, output, events]; exact h.watched
  · rw [state, output, events]; exact h.pending
  · rw [state, output]; exact h.tail

theorem callNoTail {isSet : Bool} {f : Frame} (other : f ≠ .sendTail) (below : List Frame) :
    Frame.sendTail ∈ TcpConnection.call isSet f ++ below ↔ Frame.sendTail ∈ below := by
  cases isSet <;> simp [TcpConnection.call, other.symm]

theorem writtenBytes {e : Endpoint} (valid : e.conn.outputBuffer.Valid) {n : Nat}
    (accepted : n ≤ e.conn.outputBuffer.readableBytes) :
    (e.written n).conn.outputBuffer.readableBytes = e.conn.outputBuffer.readableBytes - n := by
  obtain ⟨valid',readable⟩ := Buffer.writeToFdKeeps valid accepted
  have shorter := congrArg List.length readable
  rwa [List.length_drop, Buffer.readableLength valid, Buffer.readableLength valid'] at shorter

theorem appendedBytes {e : Endpoint} (valid : e.conn.outputBuffer.Valid) (data : Bytes) :
    (e.appended data).conn.outputBuffer.readableBytes = e.conn.outputBuffer.readableBytes + data.length := by
  have grown := congrArg List.length (Buffer.appendReadable valid data)
  rwa [List.length_append, Buffer.readableLength valid, Buffer.readableLength (Buffer.appendValid valid data)] at grown

theorem watchingEvents (e : Endpoint) : e.watchWriting.conn.state = e.conn.state ∧
    e.watchWriting.conn.outputBuffer = e.conn.outputBuffer ∧ e.watchWriting.conn.channel.events.write = true := by
  obtain ⟨ch,conn,_,_,events⟩ := watchWritingConn e
  rw [conn]
  exact ⟨rfl,rfl,by simp [events]⟩

theorem matchedWatch {e : Endpoint} {below : List Frame} (up : e.conn.state ≠ .connecting)
    (some_ : e.conn.state = .connected → 0 < e.conn.outputBuffer.readableBytes) : Matched e.watchWriting below := by
  obtain ⟨state,output,events⟩ := watchingEvents e
  refine ⟨?_,?_,?_,?_⟩
  · rw [state]; exact fun early => absurd early up
  · rw [state, output]; exact fun connected _ => some_ connected
  · exact fun _ _ => .inl events
  · rw [state, output]; exact fun connected _ => some_ connected

/- What a handler or a functor other than SendInLoop does. HandleWrite runs on an empty
stack only, the others leave the output as it is. -/
theorem matchedChange {e e' : Endpoint} {frames below : List Frame} (h : Matched e below)
    (valid : e.conn.outputBuffer.Valid) (change : Change e e' frames)
    (clear : Frame.sendTail ∉ below ∨ e'.conn.outputBuffer = e.conn.outputBuffer) : Matched e' (frames ++ below) := by
  cases change with
  | ignored => exact h
  | established fresh =>
    obtain ⟨empty,quiet,noTail⟩ := h.early fresh
    have same := EpollPoller.updateChannelSame e.isOpen e.poller e.conn.channel.enableReading
    have write : (e.setState .connected).enableReading.conn.channel.events.write = false := by
      rw [enableReading, updateChannelConn]
      exact (congrArg Events.write same.2.2).trans quiet
    have output : (e.setState .connected).enableReading.conn.outputBuffer.readableBytes = 0 := empty
    have tail : Frame.sendTail ∉ TcpConnection.call e.conn.callbacks.connection .connectionCallback ++ below := by
      rw [callNoTail (by simp)]
      exact noTail
    have state : (e.setState .connected).enableReading.conn.state = .connected := rfl
    refine ⟨fun early => ?_,fun _ on => ?_,fun _ some_ => ?_,fun _ member => absurd member tail⟩
    · rw [state] at early
      cases early
    · rw [write] at on
      cases on
    · omega
  | closed open_ done frames => exact matchedLeft (.inr done.state)
  | received bs => exact matchedStack (matchedSame h rfl rfl rfl) (callNoTail (by simp) below)
  | @wrotePart n connected accepted left =>
    have bytes := writtenBytes valid accepted
    have before : 0 < e.conn.outputBuffer.readableBytes := by omega
    have state : (e.written n).conn.state = .connected := connected
    refine ⟨fun early => ?_,fun _ _ => Nat.pos_of_ne_zero left,fun _ _ => ?_,fun _ _ => Nat.pos_of_ne_zero left⟩
    · rw [state] at early
      cases early
    · exact h.pending connected before
  | @wroteAll n connected accepted left =>
    have same := EpollPoller.updateChannelSame e.isOpen e.poller e.conn.channel.disableWriting
    have write : (e.written n).disableWriting.conn.channel.events.write = false := congrArg Events.write same.2.2
    have empty : (e.written n).disableWriting.conn.outputBuffer.readableBytes = 0 := left
    have state : (e.written n).disableWriting.conn.state = .connected := connected
    have noTail : Frame.sendTail ∉ below := by
      rcases clear with none_ | output
      · exact none_
      · intro member
        have some_ := h.tail connected member
        rw [← output] at some_
        omega
    have tail : Frame.sendTail ∉ TcpConnection.call e.conn.callbacks.writeComplete .writeCompleteCallback ++ below := by
      rw [callNoTail (by simp)]
      exact noTail
    refine ⟨fun early => ?_,fun _ on => ?_,fun _ some_ => ?_,fun _ member => absurd member tail⟩
    · rw [state] at early
      cases early
    · rw [write] at on
      cases on
    · omega
  | shutting pending =>
    refine matchedWatch (fun early => ?_) (fun _ => pending)
    have none_ := (h.early early).1
    omega

theorem matchedAppended {e : Endpoint} {below : List Frame} (valid : e.conn.outputBuffer.Valid)
    (connected : e.conn.state = .connected) {data : Bytes}
    (some_ : ¬ (data = [] ∧ e.conn.outputBuffer.readableBytes = 0)) {frames : List Frame}
    (tail : Frame.sendTail ∈ frames) : Matched (e.appended data) (frames ++ below) := by
  have bytes := appendedBytes valid data
  have positive : 0 < (e.appended data).conn.outputBuffer.readableBytes := by
    by_cases empty : data = []
    · have old : e.conn.outputBuffer.readableBytes ≠ 0 := fun none_ => some_ ⟨empty,none_⟩
      omega
    · have new := List.length_pos_of_ne_nil empty
      omega
  have state : (e.appended data).conn.state = .connected := connected
  refine ⟨fun early => ?_,fun _ _ => positive,fun _ _ => .inr (List.mem_append_left _ tail),fun _ _ => positive⟩
  rw [state] at early
  cases early

theorem sendsSome {w : World} {data : Bytes} (passes : w.conn.isConnected = true)
    (some_ : sendsNothing w data = false) : ¬ (data = [] ∧ w.ep.conn.outputBuffer.readableBytes = 0) := by
  rintro ⟨empty,none_⟩
  have none' : w.conn.outputBuffer.readableBytes = 0 := none_
  simp [sendsNothing, passes, empty, none'] at some_

theorem runOutput {e : Endpoint} {f : Functor} (other : ∀ m, f ≠ .sendInLoop m) :
    (e.run f).1.conn.outputBuffer = e.conn.outputBuffer := by
  have closed : e.handleClose.1.conn.outputBuffer = e.conn.outputBuffer := by
    unfold handleClose
    split
    · rfl
    · exact (removeIfAddedClosed (disconnectClosed e)).output
  cases f with
  | connectEstablished => rfl
  | sendInLoop m => exact absurd rfl (other m)
  | connectDestroyed =>
    simp only [Endpoint.run, connectDestroyed]
    split
    · exact (removeIfAddedClosed (disconnectClosed e)).output
    · rfl
  | shutdownInLoop =>
    simp only [Endpoint.run, shutdownInLoop]
    split
    · exact (watchingEvents e).2.1
    · exact closed
  | forceCloseInLoop =>
    simp only [Endpoint.run, forceCloseInLoop]
    split
    · exact (disconnectClosed e).output
    · rfl

theorem matchedExec {w : World} (h : Matched w.ep w.stack) (valid : w.ep.conn.outputBuffer.Valid) {f : Functor}
    (fresh : f = .connectEstablished → w.state = .connecting)
    (some_ : ∀ m, f = .sendInLoop m → sendsNothing w m.data = false) : Matched (exec w f).ep (exec w f).stack := by
  obtain ⟨ep,stack⟩ := execRun w f
  rw [ep, stack]
  cases f with
  | sendInLoop m =>
    cases passes : w.ep.conn.isConnected with
    | true =>
      obtain ⟨ep',notify,frames⟩ := @sendInLoopPassed w.ep m.data passes
      have connected : w.ep.conn.state = .connected := by simpa [TcpConnection.isConnected] using passes
      rw [Endpoint.run, ep', frames]
      exact matchedAppended valid connected (sendsSome passes (some_ m rfl)) (by simp)
    | false =>
      rw [Endpoint.run, sendInLoopRefused passes]
      exact h
  | _ => exact matchedChange h valid (runChange w.ep (by simp) fresh) (.inr (runOutput (by simp)))

theorem matchedRequest {w : World} (h : Matched w.ep w.stack) (t : ThreadId) (c : UserCall) :
    Matched (request w t c).1.ep (request w t c).1.stack := by
  cases c <;> simp only [request, send, shutdown, forceClose] <;> split <;>
    first | exact h | exact matchedLeft (.inl rfl)

theorem matchedResume {e : Endpoint} {f : Frame} {below : List Frame} (h : Matched e (f :: below)) :
    Matched (e.resume f).1 ((e.resume f).2 ++ below) := by
  by_cases tail : f = .sendTail
  · subst tail
    refine matchedWatch (fun early => ?_) (fun connected => h.tail connected List.mem_cons_self)
    exact (h.early early).2.2 List.mem_cons_self
  · have under : Matched e below := matchedStack h (by simp [Ne.symm tail])
    cases f with
    | sendTail => exact absurd rfl tail
    | closeSocket =>
      simp only [Endpoint.resume, closeSocket]
      split
      · exact under
      · exact matchedStack (matchedSame under rfl rfl rfl) (by simp)
    | invalidateSocket => exact matchedSame under rfl rfl rfl
    | _ => exact under

theorem matchedStep {w w' : World} {a : Action} (h : Matched w.ep w.stack) (valid : w.ep.conn.outputBuffer.Valid)
    (some_ : emptySend w a = false) (taken : step w a = some w') : Matched w'.ep w'.stack := by
  cases stepCases taken with
  | establish idle fresh => exact matchedExec h valid (fun _ => fresh) (by simp)
  | destroy idle => exact matchedExec h valid (by simp) (by simp)
  | event idle up ok =>
    rw [idle] at h
    exact matchedChange h valid (handleChange w.ep ok) (.inl (by simp))
  | @runQueued f rest idle head fresh =>
    refine matchedExec (w := { w with queue := rest }) h valid fresh (fun m same => ?_)
    subst same
    have here : sendsNothing w m.data = false := by simpa [emptySend, head] using some_
    exact here
  | @resume f below top own =>
    rw [top] at h
    exact matchedResume h
  | @ret f below top callback =>
    rw [top] at h
    refine matchedStack h ?_
    have other : Frame.sendTail ≠ f := by rintro rfl; cases callback
    simp [other]
  | @user c runs =>
    have called := matchedRequest h loopThread c
    unfold runInline
    split
    · exact called
    · rename_i f handed
      have valid' : (request w loopThread c).1.ep.conn.outputBuffer.Valid := by
        cases c <;> simp only [request, send, shutdown, forceClose] <;> split <;> exact valid
      have shape := requestHanded handed
      refine matchedExec called valid' (fun same => ?_) (fun m same => ?_)
      · subst same
        cases shape
      · subst same
        cases c with
        | send data =>
          simp only [request, send] at handed
          split at handed <;> cases handed
          rename_i connected
          have passes : w.conn.isConnected = true := connected
          simpa [emptySend, sendsNothing, request, send, World.conn, connected] using some_
        | _ => cases shape
  | @foreign t c other free => exact matchedRequest h t c
  | push held => exact h
  | environment done =>
    obtain ⟨poller,isOpen,same,_⟩ := environmentCases done
    subst same
    exact matchedSame h rfl rfl rfl

theorem matchedInitial {w : World} (h : Initial w) : Matched w.ep w.stack := by
  have fresh : w.ep.conn.state = .connecting := h.state
  have quiet : w.ep.conn.channel.events = Events.none := h.events
  have empty : w.ep.conn.outputBuffer.readableBytes = 0 := by
    have valid : w.ep.conn.outputBuffer.Valid := h.output.1
    have none_ : w.ep.conn.outputBuffer.readable.length = 0 := congrArg List.length h.output.2
    rwa [Buffer.readableLength valid] at none_
  exact ⟨fun _ => ⟨empty,by rw [quiet]; rfl,by simp [h.stack]⟩,by simp [fresh],by simp [fresh],by simp [fresh]⟩

/- A run of sends on a socket without errors: write() takes something of what it is
given, and a writable event comes to a channel that asks for it. -/
def sending (w : World) : Action → Bool
  | .establish | .runQueued | .resume | .ret | .push _ | .environment _ => true
  | .user (.send _) | .foreign _ (.send _) => true
  | .event (.read (.ok received)) => !received.isEmpty
  | .event (.read (.error errno)) => isNormalWouldBlock errno
  | .event (.write (.ok n)) => w.conn.channel.isWriting && decide (0 < n ∨ w.conn.outputBuffer.readableBytes = 0)
  | .event (.write (.error errno)) => w.conn.channel.isWriting && isNormalWouldBlock errno
  | _ => false

theorem sendingHandle {w : World} (connected : w.state = .connected) (matched : Matched w.ep w.stack) {ev : Event}
    (mild : sending w (.event ev) = true) : (handle w.ep ev).1.conn.state = .connected := by
  cases ev with
  | close => cases mild
  | error => cases mild
  | read r =>
    refine calmHandle connected ?_ rfl
    cases r with
    | error errno => exact mild
    | ok received =>
      cases received with
      | nil => cases mild
      | cons b bs => rfl
  | write r =>
    have asked : w.ep.conn.channel.events.write = true := by
      cases r <;> exact (Bool.and_eq_true_iff.mp mild).1
    have some_ : w.conn.outputBuffer.readableBytes ≠ 0 := Nat.ne_of_gt (matched.watched connected asked)
    cases r with
    | error errno => exact calmHandle connected (Bool.and_eq_true_iff.mp mild).2 (by simp [leaves, some_])
    | ok n =>
      have taken := of_decide_eq_true (Bool.and_eq_true_iff.mp mild).2
      have took : n ≠ 0 := Nat.ne_of_gt (taken.resolve_right some_)
      exact calmHandle connected rfl (by simp [leaves, some_, took])

/- Only messages are on their way, so nothing that is run closes the connection. -/
theorem sendingStep {w w' : World} {a : Action} (h : w.state = .connecting ∨ w.state = .connected)
    (only : SendsOnly w) (matched : Matched w.ep w.stack) (mild : sending w a = true)
    (taken : step w a = some w') : w'.state = .connecting ∨ w'.state = .connected := by
  cases stepCases taken with
  | establish idle fresh => exact .inr rfl
  | destroy idle => cases mild
  | event idle up ok => exact .inr (sendingHandle (h.resolve_left up) matched mild)
  | @runQueued f rest idle head fresh =>
    have send_ := only h f (.inl (by simp [head]))
    cases f with
    | sendInLoop m => rw [sendState]; exact h
    | _ => cases send_
  | @resume f below top own =>
    have state : (continueWith w (w.ep.resume f) below).state = w.state := resumeState w.ep f
    rw [state]
    exact h
  | ret top callback => exact h
  | @user c runs =>
    cases c with
    | send data =>
      have called : (request w loopThread (.send data)).1.state = w.state := by
        simp only [request, send]
        split <;> rfl
      unfold runInline
      split
      · rw [called]; exact h
      · rename_i f handed
        cases requestHanded handed
        rw [sendState, called]
        exact h
    | _ => cases mild
  | @foreign t c other free =>
    cases c with
    | send data =>
      have state : (request w t (.send data)).1.state = w.state := by
        simp only [request, send]
        split <;> rfl
      exact state.symm ▸ h
    | _ => cases mild
  | push held => exact h
  | environment done =>
    obtain ⟨poller,isOpen,same,_⟩ := environmentCases done
    subst same
    exact h

theorem pendingIff {w : World} (valid : w.ep.conn.outputBuffer.Valid) :
    w.pending ≠ [] ↔ 0 < w.ep.conn.outputBuffer.readableBytes := by
  rw [← Buffer.readableLength valid, List.length_pos_iff]
  exact Iff.rfl

/- In every run in which SendInLoop never runs with no bytes and nothing to write: an idle
connected connection has write interest exactly when output is pending, a writable event
it asked for finds output, and sends alone leave it connected. -/
theorem interestMatches {s w : World} {as : List Action} (start : Initial s)
    (kept : Throughout step (fun u a => emptySend u a = false) s as) (reached : run step s as = some w) :
    (w.stack = [] → w.state = .connected → (w.conn.channel.isWriting = true ↔ w.pending ≠ [])) ∧
    (∀ r w', w.conn.channel.isWriting = true → w.state = .connected →
      step w (.event (.write r)) = some w' → w.pending ≠ []) ∧
    (Throughout step (fun u a => sending u a = true) s as → w.state = .connecting ∨ w.state = .connected) := by
  have keep : ∀ u a t, Stream u.ep (streamOf u) ∧ Matched u.ep u.stack → emptySend u a = false → step u a = some t →
      Stream t.ep (streamOf t) ∧ Matched t.ep t.stack :=
    fun u a t hu some_ taken => ⟨streamStep hu.1 taken,matchedStep hu.2 hu.1.valid some_ taken⟩
  have first : Stream s.ep (streamOf s) ∧ Matched s.ep s.stack := ⟨streamInitial start,matchedInitial start⟩
  obtain ⟨stream,matched⟩ := invariantWhen keep first kept reached
  have bytes := pendingIff stream.valid
  refine ⟨fun idle connected => ?_,fun r w' asked connected _ => ?_,fun sends => ?_⟩
  · rw [bytes]
    refine ⟨matched.watched connected,fun some_ => (matched.pending connected some_).resolve_right ?_⟩
    simp [idle]
  · rw [bytes]
    exact matched.watched connected asked
  · have both : Throughout step (fun u a => emptySend u a = false ∧ sending u a = true) s as :=
      throughoutAnd kept sends
    have climb : ∀ u a t, (Stream u.ep (streamOf u) ∧ Matched u.ep u.stack) ∧ SendsOnly u ∧
        (u.state = .connecting ∨ u.state = .connected) → emptySend u a = false ∧ sending u a = true →
        step u a = some t → (Stream t.ep (streamOf t) ∧ Matched t.ep t.stack) ∧ SendsOnly t ∧
        (t.state = .connecting ∨ t.state = .connected) :=
      fun u a t hu good taken => ⟨keep u a t hu.1 good.1 taken,sendsOnlyStep hu.2.1 taken,
        sendingStep hu.2.2 hu.2.1 hu.1.2 good.2 taken⟩
    exact (invariantWhen climb ⟨first,sendsOnlyInitial start,.inl start.state⟩ both reached).2.2

/- Two sends, one from the high-water callback of the other, and a partial write. -/
def sendsTwice : List Action :=
  [.establish,.ret,.user (.send [1,2]),.user (.send [3]),.resume,.ret,.resume,.event (.write (.ok 2))]

theorem interestMatchesNested : ∃ w, run step (fresh 3 ⟨true,true,false,true,true⟩ 1 4) sendsTwice = some w ∧
    w.state = .connected ∧ w.pending = [3] ∧ w.conn.channel.isWriting = true := by
  have reached : ∃ w, run step (fresh 3 ⟨true,true,false,true,true⟩ 1 4) sendsTwice = some w ∧
      w.stack = [] ∧ w.state = .connected ∧ w.pending = [3] := ⟨_,rfl,rfl,rfl,rfl⟩
  obtain ⟨w,taken,idle,connected,pending⟩ := reached
  have kept : Throughout step (fun u a => emptySend u a = false) (fresh 3 ⟨true,true,false,true,true⟩ 1 4)
      sendsTwice := by decide
  obtain ⟨same,_⟩ := interestMatches (freshInitial _ _ _ _) kept taken
  exact ⟨w,taken,connected,pending,(same idle connected).mpr (by simp [pending])⟩

/- Send of an empty string closes the connection at the next writable event. -/
def emptyString : List Action := [.establish,.ret,.user (.send []),.resume,.event (.write (.ok 0))]

theorem emptySendCloses : ¬ ∀ s w as, Initial s → run step s as = some w →
    Throughout step (fun u a => sending u a = true) s as → w.state = .connecting ∨ w.state = .connected := by
  intro claimed
  have reached : ∃ w, run step (fresh 3 ⟨true,true,false,true,false⟩ 64 4) emptyString = some w ∧
      w.state = .disconnected := ⟨_,rfl,rfl⟩
  obtain ⟨w,taken,ended⟩ := reached
  have sends : Throughout step (fun u a => sending u a = true) (fresh 3 ⟨true,true,false,true,false⟩ 64 4)
      emptyString := by decide
  have up := claimed _ w _ (freshInitial _ _ _ _) taken sends
  rw [ended] at up
  rcases up with s | s <;> cases s

end TcFrame.Connection
