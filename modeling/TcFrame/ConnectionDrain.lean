import TcFrame.ConnectionStream

/-! Shutdown with bytes still in the output buffer. HandleWrite asks for the state
Connected, which Shutdown has already left: no writable event moves a byte any more. -/
namespace TcFrame.Connection
open Endpoint Machine

/- What a graceful shutdown asks of each later step. -/
structure Drains (w w' : World) (a : Action) : Prop where
  transfers : ∀ n, a = .event (.write (.ok n)) → w.state = .disconnecting →
    w'.accepted = w.accepted ++ w.pending.take n
  waits : w.state = .disconnecting → w'.state = .disconnected → w'.pending = []
  finishes : ∀ n, a = .event (.write (.ok n)) → w.state = .disconnecting → w.pending ≠ [] →
    n = w.pending.length → w'.state = .disconnected

/- No socket error, no close by the peer, no ForceClose. -/
def calm : Action → Bool
  | .event .close | .event .error => false
  | .event (.read (.ok [])) => false
  | .event (.read (.error errno)) | .event (.write (.error errno)) => isNormalWouldBlock errno
  | .user .forceClose | .foreign _ .forceClose => false
  | _ => true

def isShutdown : Action → Bool
  | .user .shutdown | .foreign _ .shutdown => true
  | _ => false

/- The steps that reach the defect: a writable event at which the kernel takes bytes, or
ConnectDestroyed on the connection that never drained. -/
def takesBytes : Action → Bool
  | .event (.write (.ok n)) => decide (0 < n)
  | .destroy => true
  | _ => false

def closing (f : Functor) : Bool := f == .forceCloseInLoop || f == .connectDestroyed

/- No functor that closes the connection is on its way. -/
structure NoClose (w : World) : Prop where
  queue : ∀ f ∈ w.queue, closing f = false
  inFlight : ∀ t f, w.inFlight t = some f → closing f = false

theorem noCloseForeign {w : World} (h : NoClose w) (t : ThreadId) (c : UserCall)
    (mild : ∀ f, (request w t c).2 = some f → closing f = false) :
    NoClose { (request w t c).1 with inFlight := Function.update w.inFlight t (request w t c).2 } := by
  obtain ⟨queue,_,_,_⟩ := requestLogs w t c
  refine ⟨by simp only [queue]; exact h.queue,?_⟩
  intro t' f held
  simp only [Function.update_apply] at held
  split at held
  · exact mild f held
  · exact h.inFlight t' f held

theorem noClosePush {w : World} (h : NoClose w) {t : ThreadId} {f : Functor} (held : w.inFlight t = some f) :
    NoClose { w with queue := w.queue ++ [f], inFlight := Function.update w.inFlight t none } := by
  refine ⟨?_,?_⟩
  · intro g member
    rcases List.mem_append.mp member with old | new
    · exact h.queue g old
    · rw [List.mem_singleton.mp new]; exact h.inFlight t f held
  · intro t' g held'
    simp only [Function.update_apply] at held'
    split at held'
    · cases held'
    · exact h.inFlight t' g held'

theorem noCloseQueued {w : World} (h : NoClose w) {f : Functor} {rest : List Functor}
    (head : w.queue = f :: rest) : NoClose { w with queue := rest } :=
  ⟨fun g member => h.queue g (by rw [head]; exact List.mem_cons_of_mem _ member),h.inFlight⟩

theorem changeState {e e' : Endpoint} {frames : List Frame} (h : Change e e' frames)
    (early : e'.conn.state = .connecting ∨ e'.conn.state = .connected) :
    e.conn.state = .connecting ∨ e.conn.state = .connected := by
  cases h with
  | ignored => exact early
  | established fresh => exact .inl fresh
  | closed open_ done frames => rcases early with s | s <;> rw [done.state] at s <;> cases s
  | received bs => exact early
  | wrotePart connected accepted left => exact .inr connected
  | wroteAll connected accepted left => exact .inr connected
  | shutting pending =>
    obtain ⟨ch,conn,_⟩ := watchWritingConn e
    rw [conn] at early
    exact early

theorem sendState (w : World) (m : Message) : (exec w (.sendInLoop m)).state = w.state := by
  rw [World.state, (execRun w (.sendInLoop m)).1]
  cases passes : w.ep.conn.isConnected with
  | true => rw [Endpoint.run, (sendInLoopPassed passes).1]; rfl
  | false => rw [Endpoint.run, sendInLoopRefused passes]; rfl

theorem execState {w : World} {f : Functor} (fresh : f = .connectEstablished → w.state = .connecting)
    (early : (exec w f).state = .connecting ∨ (exec w f).state = .connected) :
    w.state = .connecting ∨ w.state = .connected := by
  cases f with
  | sendInLoop m => rwa [sendState] at early
  | connectEstablished => exact .inl (fresh rfl)
  | connectDestroyed => exact changeState (connectDestroyedChange w.ep) early
  | shutdownInLoop => exact changeState (shutdownInLoopChange w.ep) early
  | forceCloseInLoop => exact changeState (forceCloseInLoopChange w.ep) early

theorem requestState {w : World} {t : ThreadId} {c : UserCall}
    (early : (request w t c).1.state = .connecting ∨ (request w t c).1.state = .connected) :
    w.state = .connecting ∨ w.state = .connected := by
  cases c with
  | send data =>
    simp only [request, send] at early
    split at early <;> exact early
  | shutdown =>
    simp only [request, shutdown] at early
    split at early
    · simp [World.state, setState] at early
    · exact early
  | forceClose =>
    simp only [request, forceClose] at early
    split at early
    · simp [World.state, setState] at early
    · exact early

theorem handedBegun {w : World} {t : ThreadId} {c : UserCall} {f : Functor} (handed : (request w t c).2 = some f) :
    f ≠ .connectEstablished := by
  have shape := requestHanded handed
  cases shape <;> simp

theorem userState {w : World} {c : UserCall}
    (early : (runInline (request w loopThread c)).state = .connecting ∨
      (runInline (request w loopThread c)).state = .connected) : w.state = .connecting ∨ w.state = .connected := by
  unfold runInline at early
  split at early
  · exact requestState early
  · rename_i f handed
    exact requestState (execState (fun same => absurd same (handedBegun handed)) early)

/- A connection that has left Connecting and Connected stays so. -/
theorem stepEarly {w w' : World} {a : Action} (taken : step w a = some w')
    (early : w'.state = .connecting ∨ w'.state = .connected) : w.state = .connecting ∨ w.state = .connected := by
  cases stepCases taken with
  | establish idle fresh => exact .inl fresh
  | destroy idle => exact execState (by simp) early
  | event idle up ok => exact changeState (handleChange w.ep ok) early
  | @runQueued f rest idle head fresh => exact @execState { w with queue := rest } f fresh early
  | @resume f below top own => simpa [continueWith, World.state, resumeState] using early
  | ret top callback => exact early
  | user runs => exact userState early
  | foreign other free => exact requestState early
  | push held => exact early
  | environment done =>
    obtain ⟨poller,isOpen,same,_⟩ := environmentCases done
    subst same
    exact early

def Underway (w : World) (f : Functor) : Prop := f ∈ w.queue ∨ ∃ t, w.inFlight t = some f

/- Functors come from the calls of other threads only. -/
theorem stepUnderway {w w' : World} {a : Action} (taken : step w a = some w') {f : Functor} (h : Underway w' f) :
    Underway w f ∨ ∃ t c, (request w t c).2 = some f ∧ w'.state = (request w t c).1.state := by
  cases stepCases taken with
  | establish idle fresh => exact .inl h
  | destroy idle => exact .inl h
  | event idle up ok => exact .inl h
  | @runQueued g rest idle head fresh =>
    obtain ⟨_,queue,inFlight,_⟩ := execLogs { w with queue := rest } g
    rw [Underway, queue, inFlight] at h
    exact .inl (h.imp_left (fun member => by rw [head]; exact List.mem_cons_of_mem _ member))
  | resume top own => exact .inl h
  | ret top callback => exact .inl h
  | @user c runs =>
    obtain ⟨queue,_,inFlight,_⟩ := requestLogs w loopThread c
    refine .inl ?_
    unfold runInline at h
    split at h
    · rwa [Underway, queue, inFlight] at h
    · rename_i g handed
      obtain ⟨_,queue',inFlight',_⟩ := execLogs (request w loopThread c).1 g
      rwa [Underway, queue', inFlight', queue, inFlight] at h
  | @foreign t c other free =>
    obtain ⟨queue,_⟩ := requestLogs w t c
    rcases h with queued | ⟨t',held⟩
    · rw [queue] at queued
      exact .inl (.inl queued)
    · simp only [Function.update_apply] at held
      split at held
      · exact .inr ⟨t,c,held,rfl⟩
      · exact .inl (.inr ⟨t',held⟩)
  | @push t g held =>
    refine .inl ?_
    rcases h with queued | ⟨t',held'⟩
    · rcases List.mem_append.mp queued with old | new
      · exact .inl old
      · rw [List.mem_singleton.mp new]
        exact .inr ⟨t,held⟩
    · simp only [Function.update_apply] at held'
      split at held'
      · cases held'
      · exact .inr ⟨t',held'⟩
  | environment done =>
    obtain ⟨poller,isOpen,same,_⟩ := environmentCases done
    subst same
    exact .inl h

def isSend : Functor → Bool
  | .sendInLoop _ => true
  | _ => false

/- Before any close was asked for, only messages are on their way. -/
def SendsOnly (w : World) : Prop :=
  (w.state = .connecting ∨ w.state = .connected) → ∀ f, Underway w f → isSend f = true

theorem sendsOnlyStep {w w' : World} {a : Action} (h : SendsOnly w) (taken : step w a = some w') :
    SendsOnly w' := by
  intro early f under
  rcases stepUnderway taken under with old | ⟨t,c,handed,state⟩
  · exact h (stepEarly taken early) f old
  · rw [state] at early
    cases requestHanded handed with
    | send m => rfl
    | shutdown leaving => simp [leaving] at early
    | forceClose leaving => simp [leaving] at early

theorem sendsOnlyInitial {w : World} (h : Initial w) : SendsOnly w := by
  rintro _ f (queued | ⟨t,held⟩)
  · simp [h.queue] at queued
  · simp [h.inFlight] at held

theorem sendsOnlyReachable {w : World} (h : Reachable w) : SendsOnly w :=
  Machine.reachableInvariant (fun _ => sendsOnlyInitial) (fun _ _ _ => sendsOnlyStep) h

def Unforced (w : World) : Prop := (w.state = .connecting ∨ w.state = .connected) → NoClose w

theorem unforcedReachable {w : World} (h : Reachable w) : Unforced w := by
  intro early
  have mild : ∀ f, Underway w f → closing f = false := by
    intro f under
    have send_ := sendsOnlyReachable h early f under
    cases f <;> first | rfl | cases send_
  exact ⟨fun f queued => mild f (.inl queued),fun t f held => mild f (.inr ⟨t,held⟩)⟩

/- The steps that leave Connected although the socket is fine: a Shutdown, a writable
event at which nothing is written, ConnectDestroyed. -/
def leaves (w : World) : Action → Bool
  | .event (.write (.ok n)) => decide (n = 0) || w.conn.outputBuffer.readableBytes == 0
  | .event (.write (.error _)) => w.conn.outputBuffer.readableBytes == 0
  | .destroy => true
  | a => isShutdown a

theorem isConnectedIff {e : Endpoint} : e.conn.isConnected = true ↔ e.conn.state = .connected := by
  simp [TcpConnection.isConnected]

theorem calmHandle {w : World} (connected : w.state = .connected) {ev : Event} (mild : calm (.event ev) = true)
    (stays : leaves w (.event ev) = false) : (handle w.ep ev).1.conn.state = .connected := by
  have state : w.ep.conn.state = .connected := connected
  have passes : w.ep.conn.isConnected = true := isConnectedIff.mpr state
  cases ev with
  | close => cases mild
  | error => cases mild
  | read r =>
    cases r with
    | error errno =>
      have normal : isNormalWouldBlock errno = true := mild
      simp only [handle, handleRead, normal, if_true]
      exact state
    | ok received =>
      cases received with
      | nil => cases mild
      | cons b bs =>
        simp only [handle, handleRead, reduceCtorEq, if_false]
        exact state
  | write r =>
    cases r with
    | error errno =>
      have normal : isNormalWouldBlock errno = true := mild
      have some_ : w.conn.outputBuffer.readableBytes ≠ 0 := by simpa [leaves] using stays
      have some' : w.ep.conn.outputBuffer.readableBytes ≠ 0 := some_
      simp only [handle, handleWrite, passes, Bool.not_true, Bool.false_eq_true, if_false, if_neg some', normal, if_true]
      exact state
    | ok n =>
      simp only [leaves, Bool.or_eq_false_iff, decide_eq_false_iff_not, beq_eq_false_iff_ne] at stays
      obtain ⟨took,some_⟩ := stays
      have some' : w.ep.conn.outputBuffer.readableBytes ≠ 0 := some_
      have wrote : (w.ep.written n).conn.state = .connected := state
      cases n with
      | zero => exact absurd rfl took
      | succ n =>
        simp only [handle, handleWrite, passes, Bool.not_true, Bool.false_eq_true, if_false, if_neg some']
        split
        · have still : (w.ep.written (n + 1)).disableWriting.conn.state = .connected := wrote
          rw [if_neg (by rw [still]; simp)]
          exact still
        · exact wrote

/- The state a Shutdown leaves a connection with pending bytes in. -/
structure Linger (w : World) : Prop where
  state : w.state = .disconnecting
  pending : w.pending ≠ []
  noClose : NoClose w

theorem pendingReadable {e : Endpoint} (h : e.conn.outputBuffer.readable ≠ []) :
    0 < e.conn.outputBuffer.readableBytes := by
  have some_ := List.length_pos_of_ne_nil h
  simp only [Buffer.readable, List.length_drop, List.length_take] at some_
  simp only [Buffer.readableBytes]
  omega

/- ShutdownInLoop and SendInLoop's tail ask for writable events, no more. -/
theorem lingerWatch {w : World} (h : Linger w) (stack : List Frame) :
    Linger { w with ep := w.ep.watchWriting, stack := stack } := by
  obtain ⟨ch,conn,_⟩ := watchWritingConn w.ep
  refine ⟨?_,?_,⟨h.noClose.queue,h.noClose.inFlight⟩⟩
  · have state : w.ep.conn.state = .disconnecting := h.state
    simp only [World.state, conn, state]
  · have pending : w.ep.conn.outputBuffer.readable ≠ [] := h.pending
    simpa only [World.pending, World.conn, conn] using pending

theorem lingerExec {w : World} (h : Linger w) {f : Functor} (mild : closing f = false)
    (fresh : f = .connectEstablished → w.state = .connecting) : Linger (exec w f) := by
  have state : w.ep.conn.state = .disconnecting := h.state
  cases f with
  | connectEstablished => rw [h.state] at fresh; cases fresh rfl
  | connectDestroyed => cases mild
  | forceCloseInLoop => cases mild
  | sendInLoop m =>
    have refused : w.conn.isConnected = false := by simp [TcpConnection.isConnected, World.conn, state]
    have same : w.ep.sendInLoop m.data = (w.ep,[]) := sendInLoopRefused refused
    simp only [exec, refused, continueWith, Endpoint.run, same]
    exact ⟨h.state,h.pending,h.noClose⟩
  | shutdownInLoop =>
    have waiting : w.ep.shutdownInLoop = (w.ep.watchWriting,[]) := by
      rw [shutdownInLoop, if_pos (pendingReadable h.pending)]
    simp only [exec, continueWith, Endpoint.run, waiting]
    exact lingerWatch h _

/- In state Disconnecting every call but ForceClose falls through. -/
theorem lingerRequest {w : World} (h : Linger w) (t : ThreadId) {c : UserCall} (mild : c ≠ .forceClose) :
    Linger (request w t c).1 ∧ (request w t c).2 = none := by
  have state : w.ep.conn.state = .disconnecting := h.state
  have refused : w.ep.conn.isConnected = false := by simp [TcpConnection.isConnected, state]
  cases c with
  | forceClose => exact absurd rfl mild
  | send data =>
    simp only [request, send, refused]
    exact ⟨⟨h.state,h.pending,⟨h.noClose.queue,h.noClose.inFlight⟩⟩,rfl⟩
  | shutdown =>
    have other : ¬ w.ep.conn.state = .connected := by simp [state]
    simp only [request, shutdown, if_neg other]
    exact ⟨⟨h.state,h.pending,⟨h.noClose.queue,h.noClose.inFlight⟩⟩,trivial⟩

theorem lingerHandle {w : World} (h : Linger w) {ev : Event} (mild : calm (.event ev) = true)
    (dry : takesBytes (.event ev) = false) :
    Linger (continueWith w (handle w.ep ev) []) ∧
      (∀ n, ev = .write (.ok n) → handle w.ep ev = (w.ep,[])) := by
  have state : w.ep.conn.state = .disconnecting := h.state
  have refused : w.ep.conn.isConnected = false := by simp [TcpConnection.isConnected, state]
  have idle : Linger (continueWith w (w.ep,[]) []) := ⟨h.state,h.pending,⟨h.noClose.queue,h.noClose.inFlight⟩⟩
  cases ev with
  | close => cases mild
  | error => cases mild
  | write r =>
    have same : w.ep.handleWrite r = (w.ep,[]) := by simp [handleWrite, refused]
    simp only [handle, same]
    exact ⟨idle,fun _ _ => trivial⟩
  | read r =>
    refine ⟨?_,fun n other => by cases other⟩
    cases r with
    | error errno =>
      have normal : isNormalWouldBlock errno = true := mild
      simp only [handle, handleRead, normal, if_true]
      exact idle
    | ok received =>
      cases received with
      | nil => cases mild
      | cons b bs =>
        simp only [handle, handleRead, reduceCtorEq, if_false]
        exact ⟨h.state,h.pending,⟨h.noClose.queue,h.noClose.inFlight⟩⟩

theorem lingerStep {w w' : World} {a : Action} (h : Linger w) (mild : calm a = true)
    (dry : takesBytes a = false) (taken : step w a = some w') : Linger w' := by
  cases stepCases taken with
  | establish idle fresh => rw [h.state] at fresh; cases fresh
  | destroy idle => cases dry
  | event idle up ok => exact (lingerHandle h mild dry).1
  | @runQueued f rest idle head fresh =>
    have popped : Linger { w with queue := rest } := ⟨h.state,h.pending,noCloseQueued h.noClose head⟩
    exact lingerExec popped (h.noClose.queue f (by simp [head])) fresh
  | @resume f below top own =>
    cases f with
    | sendTail => exact lingerWatch h _
    | closeSocket =>
      simp only [continueWith, resume, closeSocket]
      split <;> exact ⟨h.state,h.pending,⟨h.noClose.queue,h.noClose.inFlight⟩⟩
    | invalidateSocket => exact ⟨h.state,h.pending,⟨h.noClose.queue,h.noClose.inFlight⟩⟩
    | _ => cases own
  | ret top callback => exact ⟨h.state,h.pending,⟨h.noClose.queue,h.noClose.inFlight⟩⟩
  | @user c runs =>
    have gentle : c ≠ .forceClose := by rintro rfl; cases mild
    obtain ⟨kept,handed⟩ := lingerRequest h loopThread gentle
    simp only [runInline, handed]
    exact kept
  | @foreign t c other free =>
    have gentle : c ≠ .forceClose := by rintro rfl; cases mild
    obtain ⟨kept,handed⟩ := lingerRequest h t gentle
    exact ⟨kept.state,kept.pending,noCloseForeign h.noClose t c (by simp [handed])⟩
  | push held => exact ⟨h.state,h.pending,noClosePush h.noClose held⟩
  | environment done =>
    obtain ⟨poller,isOpen,same,_⟩ := environmentCases done
    subst same
    exact ⟨h.state,h.pending,⟨h.noClose.queue,h.noClose.inFlight⟩⟩

/- Of a connection that stays as it is nothing is asked, unless the kernel took bytes. -/
theorem lingerDrains {w w' : World} {a : Action} (h : Linger w) (h' : Linger w') (mild : calm a = true)
    (dry : takesBytes a = false) (taken : step w a = some w') : Drains w w' a := by
  refine ⟨?_,?_,?_⟩
  · intro n same _
    subst same
    have zero : n = 0 := by simpa [takesBytes] using dry
    cases stepCases taken with
    | event idle up ok =>
      have nothing := (lingerHandle h mild dry).2 n rfl
      rw [nothing, zero, List.take_zero, List.append_nil]
      rfl
  · intro _ ended
    rw [h'.state] at ended
    cases ended
  · intro n same _ pending all
    subst same
    have zero : n = 0 := by simpa [takesBytes] using dry
    rw [zero] at all
    exact absurd (List.length_eq_zero_iff.mp all.symm) pending

theorem lingerBroken {w w' : World} {a : Action} (h : Linger w) (wet : takesBytes a = true)
    (taken : step w a = some w') : ¬ Drains w w' a := by
  intro drains
  have state : w.ep.conn.state = .disconnecting := h.state
  cases stepCases taken with
  | destroy idle =>
    have open_ : w.ep.isOpenState = true := by simp [isOpenState, state]
    have done : Closed w.ep w.ep.connectDestroyed.1 := by
      rw [connectDestroyed, if_pos open_]
      exact removeIfAddedClosed (disconnectClosed w.ep)
    have left := drains.waits h.state done.state
    simp only [World.pending, exec, continueWith, Endpoint.run] at left
    rw [done.output] at left
    exact h.pending left
  | @event ev idle up ok =>
    cases ev with
    | write r =>
      cases r with
      | ok n =>
        have some_ : 0 < n := by simpa [takesBytes] using wet
        have refused : w.ep.conn.isConnected = false := by simp [TcpConnection.isConnected, state]
        have same : w.ep.handleWrite (.ok n) = (w.ep,[]) := by simp [handleWrite, refused]
        have moved := drains.transfers n rfl h.state
        simp only [handle, same, continueWith, World.accepted] at moved
        have empty : w.pending.take n = [] := by simpa using moved
        rcases List.take_eq_nil_iff.mp empty with zero | none
        · omega
        · exact h.pending none
      | error errno => cases wet
    | _ => cases wet
  | _ => cases wet

theorem lingerShutdown {w w' : World} {a : Action} (h : NoClose w) (connected : w.state = .connected)
    (pending : w.pending ≠ []) (asked : isShutdown a = true) (taken : step w a = some w') : Linger w' := by
  have state : w.ep.conn.state = .connected := connected
  have out : ∀ t, request w t .shutdown = ({ w with ep := w.ep.setState .disconnecting },some .shutdownInLoop) := by
    intro t
    simp only [request, shutdown, if_pos state]
  have called : Linger { w with ep := w.ep.setState .disconnecting } := ⟨rfl,pending,⟨h.queue,h.inFlight⟩⟩
  cases stepCases taken with
  | @user c runs =>
    cases c with
    | shutdown =>
      simp only [runInline, out]
      exact lingerExec called rfl (by simp)
    | _ => cases asked
  | @foreign t c other free =>
    cases c with
    | shutdown =>
      have kept := noCloseForeign h t .shutdown (by
        intro f handed
        rw [out] at handed
        cases Option.some.inj handed
        rfl)
      simp only [out] at kept ⊢
      exact ⟨rfl,pending,kept⟩
    | _ => cases asked
  | _ => cases asked

theorem lingerRun {w w' : World} {later : List Action} (h : Linger w)
    (mild : ∀ a ∈ later, calm a = true) (reached : Machine.run step w later = some w') :
    Throughout step (fun u a => ∀ u', step u a = some u' → Drains u u' a) w later ↔
      Throughout step (fun _ a => takesBytes a = false) w later := by
  induction later generalizing w with
  | nil => simp [Throughout]
  | cons a as ih =>
    obtain ⟨m,taken,rest⟩ := runCons.mp reached
    simp only [throughoutCons taken, taken, Option.some.injEq, forall_eq']
    have first := mild a (by simp)
    cases dry : takesBytes a with
    | true =>
      have broken := lingerBroken h dry taken
      simp [broken]
    | false =>
      have kept := lingerStep h first dry taken
      have drains := lingerDrains h kept first dry taken
      simp only [drains, true_and]
      exact ih kept (fun b member => mild b (List.mem_cons_of_mem _ member)) rest

/- From a Shutdown with bytes pending on, the connection drains as long as nothing
can be drained: no writable event at which the kernel takes bytes is handled. -/
theorem shutdownDrains {w w' w'' : World} {a : Action} {later : List Action} (start : Reachable w)
    (connected : w.state = .connected) (pending : w.pending ≠ []) (asked : isShutdown a = true)
    (taken : step w a = some w') (mild : ∀ b ∈ later, calm b = true)
    (reached : Machine.run step w' later = some w'') :
    Throughout step (fun u b => ∀ u', step u b = some u' → Drains u u' b) w' later ↔
      Throughout step (fun _ b => takesBytes b = false) w' later := by
  have noClose := unforcedReachable start (.inr connected)
  exact lingerRun (lingerShutdown noClose connected pending asked taken) mild reached

/- Two bytes pending on a connection nobody else touches. -/
def twoPending : List Action := [.establish,.ret,.user (.send [1,2]),.resume]

theorem twoPendingRun : ∃ w w', Reachable w ∧ w.state = .connected ∧ w.pending ≠ [] ∧
    step w (.user .shutdown) = some w' ∧
    (Machine.run step w' [.event (.write (.error 11)),.event (.read (.ok [9]))]).isSome ∧
    (Machine.run step w' [.event (.write (.ok 2))]).isSome := by
  have reached : ∃ w w', Machine.run step (fresh 3 ⟨true,true,false,true,false⟩ 64 4) twoPending = some w ∧
      w.state = .connected ∧ w.pending = [1,2] ∧ step w (.user .shutdown) = some w' ∧
      (Machine.run step w' [.event (.write (.error 11)),.event (.read (.ok [9]))]).isSome ∧
      (Machine.run step w' [.event (.write (.ok 2))]).isSome := ⟨_,_,rfl,rfl,rfl,rfl,rfl,rfl⟩
  obtain ⟨w,w',run,connected,pending,rest⟩ := reached
  exact ⟨w,w',⟨_,_,freshInitial _ _ _ _,run⟩,connected,by simp [pending],rest⟩

/- A write that would block and a read leave the connection waiting. -/
theorem shutdownDrainsBlocked : ∃ w w' w'', Reachable w ∧ step w (.user .shutdown) = some w' ∧
    Machine.run step w' [.event (.write (.error 11)),.event (.read (.ok [9]))] = some w'' ∧
    Throughout step (fun u b => ∀ u', step u b = some u' → Drains u u' b) w'
      [.event (.write (.error 11)),.event (.read (.ok [9]))] := by
  obtain ⟨w,w',start,connected,pending,taken,runs,_⟩ := twoPendingRun
  obtain ⟨w'',reached⟩ := Option.isSome_iff_exists.mp runs
  have mild : ∀ b ∈ [.event (.write (.error 11)),.event (.read (.ok [9]))], calm b = true := by decide
  have dry : Throughout step (fun _ b => takesBytes b = false) w'
      [.event (.write (.error 11)),.event (.read (.ok [9]))] := ⟨rfl,fun _ _ => ⟨rfl,fun _ _ => trivial⟩⟩
  exact ⟨w,w',w'',start,taken,reached,(shutdownDrains start connected pending rfl taken mild reached).mpr dry⟩

/- The kernel takes both bytes of a writable event, and HandleWrite never calls write. -/
theorem shutdownNeverWrites : ¬ ∀ (w w' w'' : World) (a : Action) (later : List Action), Reachable w →
    w.state = .connected → w.pending ≠ [] → isShutdown a = true → step w a = some w' →
    (∀ b ∈ later, calm b = true) → Machine.run step w' later = some w'' →
    Throughout step (fun u b => ∀ u', step u b = some u' → Drains u u' b) w' later := by
  intro claimed
  obtain ⟨w,w',start,connected,pending,taken,_,runs⟩ := twoPendingRun
  obtain ⟨w'',reached⟩ := Option.isSome_iff_exists.mp runs
  have mild : ∀ b ∈ [.event (.write (.ok 2))], calm b = true := by decide
  have drains := claimed w w' w'' _ _ start connected pending rfl taken mild reached
  have linger := lingerShutdown (unforcedReachable start (.inr connected)) connected pending rfl taken
  obtain ⟨dry,_⟩ := (lingerRun linger mild reached).mp drains
  cases dry

end TcFrame.Connection
