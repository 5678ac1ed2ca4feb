import TcFrame.ConnectionStream

/-! A closed connection and the poller. Both SendInLoop's tail and ShutdownInLoop may
enable writing on a connection that was closed in the meantime, which enters its
channel into the poller again. -/
namespace TcFrame.EpollPoller

/- A channel is entered only under its own descriptor. -/
theorem updateChannelHome (isOpen : Fd → Bool) {p : EpollPoller} {ch : Channel} {id : Nat}
    (home : ∀ fd, p.fdToChannel fd = some id → fd = ch.fd) :
    ∀ fd, (p.updateChannel isOpen ch).1.fdToChannel fd = some id → fd = ch.fd := by
  intro fd found
  by_cases same : fd = ch.fd
  · exact same
  · by_cases quiet : ch.events = Events.none
    · rw [updateChannelMapNone _ _ quiet, Function.update_of_ne same] at found
      exact home fd found
    · rw [updateChannelMapSome _ _ quiet, Function.update_of_ne same] at found
      exact home fd found

end TcFrame.EpollPoller

namespace TcFrame.Connection
open Endpoint Machine

/- What a closed connection must have left behind: nothing. -/
structure Gone (e : Endpoint) : Prop where
  socket : e.conn.socket.fd = none
  events : e.conn.channel.events = Events.none
  map : ∀ fd, e.poller.fdToChannel fd ≠ some e.conn.channel.id

/- The two steps that enable writing without a look at the state. -/
def watchesLate (w : World) : Action → Bool
  | .resume => w.stack.head? == some .sendTail && w.state == .disconnected
  | .runQueued =>
    w.queue.head? == some .shutdownInLoop && w.state == .disconnected &&
      decide (0 < w.conn.outputBuffer.readableBytes)
  | _ => false

/- The close of the socket is done or is still on the stack. -/
structure Released (e : Endpoint) (stack : List Frame) : Prop where
  events : e.conn.channel.events = Events.none
  map : ∀ fd, e.poller.fdToChannel fd ≠ some e.conn.channel.id
  socket : e.conn.socket.fd = none ∨ Frame.closeSocket ∈ stack ∨ Frame.invalidateSocket ∈ stack

structure Tidy (e : Endpoint) (stack : List Frame) : Prop where
  home : ∀ fd, e.poller.fdToChannel fd = some e.conn.channel.id → fd = e.conn.channel.fd
  released : e.conn.state = .disconnected → Released e stack

theorem homeUpdate {e : Endpoint} {ch : Channel} (id : ch.id = e.conn.channel.id) (fd : ch.fd = e.conn.channel.fd)
    (home : ∀ fd, e.poller.fdToChannel fd = some e.conn.channel.id → fd = e.conn.channel.fd) :
    ∀ fd, (e.updateChannel ch).poller.fdToChannel fd = some (e.updateChannel ch).conn.channel.id →
      fd = (e.updateChannel ch).conn.channel.fd := by
  obtain ⟨id',fd',_⟩ := EpollPoller.updateChannelSame e.isOpen e.poller ch
  have kept := EpollPoller.updateChannelHome e.isOpen (by rw [fd]; exact home)
  simp only [updateChannel, id', fd', id]
  exact kept

theorem homeWatch {e : Endpoint}
    (home : ∀ fd, e.poller.fdToChannel fd = some e.conn.channel.id → fd = e.conn.channel.fd) :
    ∀ fd, e.watchWriting.poller.fdToChannel fd = some e.watchWriting.conn.channel.id →
      fd = e.watchWriting.conn.channel.fd := by
  unfold watchWriting
  split
  · exact home
  · exact homeUpdate rfl rfl home

theorem tidyOpen {e : Endpoint} {stack : List Frame}
    (home : ∀ fd, e.poller.fdToChannel fd = some e.conn.channel.id → fd = e.conn.channel.fd)
    (up : e.conn.state ≠ .disconnected) : Tidy e stack :=
  ⟨home,fun ended => absurd ended up⟩

theorem tidyClosed {e e' : Endpoint} {below stack : List Frame} (h : Tidy e below) (done : Closed e e')
    (closes : Frame.closeSocket ∈ stack) : Tidy e' stack := by
  have gone : ∀ fd, e'.poller.fdToChannel fd ≠ some e'.conn.channel.id := by
    intro fd found
    rw [done.map, done.id, Function.update_apply] at found
    split at found
    · cases found
    · exact absurd (h.home fd found) (by assumption)
  exact ⟨fun fd found => absurd found (gone fd),fun _ => ⟨done.events,gone,.inr (.inl closes)⟩⟩

theorem tidyStack {e : Endpoint} {stack stack' : List Frame} (h : Tidy e stack)
    (closes : Frame.closeSocket ∈ stack → Frame.closeSocket ∈ stack')
    (invalidates : Frame.invalidateSocket ∈ stack → Frame.invalidateSocket ∈ stack') : Tidy e stack' := by
  refine ⟨h.home,fun ended => ?_⟩
  obtain ⟨events,map,socket⟩ := h.released ended
  exact ⟨events,map,socket.imp_right (fun frames => frames.imp closes invalidates)⟩

theorem tidyChange {e e' : Endpoint} {frames below : List Frame} (h : Tidy e below)
    (up : e.conn.state ≠ .disconnected) (change : Change e e' frames) : Tidy e' (frames ++ below) := by
  cases change with
  | ignored => exact h
  | established fresh => exact tidyOpen (homeUpdate rfl rfl h.home) (by simp [enableReading, setState])
  | closed open_ done frames =>
    refine tidyClosed h done ?_
    rcases frames with same | same | same <;> simp [same]
  | received bs => exact tidyOpen h.home up
  | @wrotePart n connected accepted left => exact tidyOpen h.home up
  | @wroteAll n connected accepted left =>
    have home : ∀ fd, (e.written n).poller.fdToChannel fd = some (e.written n).conn.channel.id →
        fd = (e.written n).conn.channel.fd := h.home
    exact tidyOpen (homeUpdate rfl rfl home) up
  | shutting pending =>
    obtain ⟨ch,conn,_⟩ := watchWritingConn e
    exact tidyOpen (homeWatch h.home) (by rw [conn]; exact up)

/- In state Disconnected the handlers still read, and nothing else. -/
theorem handleOver {e : Endpoint} (ended : e.conn.state = .disconnected) (ev : Event) :
    handle e ev = (e,[]) ∨ ∃ bs, handle e ev =
      ({ e with conn := { e.conn with
        inputBuffer := e.conn.inputBuffer.readFromFd bs
        totalBytesRead := e.conn.totalBytesRead + bs.length } },
        TcpConnection.call e.conn.callbacks.message .messageCallback) := by
  have closed : e.handleClose = (e,[]) := by rw [handleClose, if_pos ended]
  cases ev with
  | close => exact .inl closed
  | error => exact .inl closed
  | write r =>
    have refused : e.conn.isConnected = false := by simp [TcpConnection.isConnected, ended]
    exact .inl (by simp [handle, handleWrite, refused])
  | read r =>
    cases r with
    | error errno =>
      refine .inl ?_
      simp only [handle, handleRead, closed, ite_self]
    | ok received =>
      by_cases empty : received = []
      · exact .inl (by simp only [handle, handleRead, if_pos empty, closed])
      · exact .inr ⟨received,by simp only [handle, handleRead, if_neg empty]⟩

theorem runOver {e : Endpoint} (ended : e.conn.state = .disconnected) {f : Functor} (old : f ≠ .connectEstablished)
    (timely : f = .shutdownInLoop → e.conn.outputBuffer.readableBytes = 0) : e.run f = (e,[]) := by
  have shut : e.isOpenState = false := by simp [isOpenState, ended]
  cases f with
  | connectEstablished => exact absurd rfl old
  | connectDestroyed => simp [Endpoint.run, connectDestroyed, shut]
  | sendInLoop m => exact sendInLoopRefused (by simp [TcpConnection.isConnected, ended])
  | shutdownInLoop => simp [Endpoint.run, shutdownInLoop, timely rfl, handleClose, ended]
  | forceCloseInLoop => simp [Endpoint.run, forceCloseInLoop, shut]

theorem tidyEvent {e : Endpoint} {below : List Frame} (h : Tidy e below) {ev : Event}
    (ok : possible e ev = true) : Tidy (handle e ev).1 ((handle e ev).2 ++ below) := by
  by_cases ended : e.conn.state = .disconnected
  · rcases handleOver ended ev with same | ⟨bs,same⟩ <;> rw [same]
    · exact h
    · have grown := tidyStack h (List.mem_append_right (TcpConnection.call e.conn.callbacks.message .messageCallback))
        (List.mem_append_right _)
      exact ⟨grown.home,fun ended => ⟨(grown.released ended).events,(grown.released ended).map,(grown.released ended).socket⟩⟩
  · exact tidyChange h ended (handleChange e ok)

theorem tidyRun {e : Endpoint} {below : List Frame} (h : Tidy e below) {f : Functor}
    (fresh : f = .connectEstablished → e.conn.state = .connecting)
    (timely : f = .shutdownInLoop → e.conn.state = .disconnected → e.conn.outputBuffer.readableBytes = 0) :
    Tidy (e.run f).1 ((e.run f).2 ++ below) := by
  by_cases ended : e.conn.state = .disconnected
  · have old : f ≠ .connectEstablished := fun same => by rw [fresh same] at ended; cases ended
    rw [runOver ended old (fun same => timely same ended)]
    exact h
  · cases f with
    | sendInLoop m =>
      cases passes : e.conn.isConnected with
      | true =>
        have home : ∀ fd, (e.appended m.data).poller.fdToChannel fd = some e.conn.channel.id →
            fd = e.conn.channel.fd := h.home
        rw [Endpoint.run, (sendInLoopPassed passes).1]
        exact tidyOpen home ended
      | false => rw [Endpoint.run, sendInLoopRefused passes]; exact h
    | _ => exact tidyChange h ended (runChange e (by simp) fresh)

theorem tidyExec {w : World} (h : Tidy w.ep w.stack) {f : Functor}
    (fresh : f = .connectEstablished → w.state = .connecting)
    (timely : f = .shutdownInLoop → w.state = .disconnected → w.conn.outputBuffer.readableBytes = 0) :
    Tidy (exec w f).ep (exec w f).stack := by
  obtain ⟨ep,stack⟩ := execRun w f
  rw [ep, stack]
  exact tidyRun h fresh timely

theorem tidyRequest {w : World} (h : Tidy w.ep w.stack) (t : ThreadId) (c : UserCall) :
    Tidy (request w t c).1.ep (request w t c).1.stack := by
  have left : Tidy (w.ep.setState .disconnecting) w.stack := tidyOpen h.home (by simp [setState])
  cases c with
  | send data =>
    simp only [request, send]
    split <;> exact h
  | shutdown =>
    simp only [request, shutdown]
    split
    · exact left
    · exact h
  | forceClose =>
    simp only [request, forceClose]
    split
    · exact left
    · exact h

theorem tidyResume {e : Endpoint} {f : Frame} {below : List Frame} (h : Tidy e (f :: below))
    (own : f.isCallback = false) (timely : f = .sendTail → e.conn.state ≠ .disconnected) :
    Tidy (e.resume f).1 ((e.resume f).2 ++ below) := by
  cases f with
  | sendTail =>
    obtain ⟨ch,conn,_⟩ := watchWritingConn e
    exact tidyOpen (homeWatch h.home) (by rw [resume, conn]; exact timely rfl)
  | closeSocket =>
    simp only [resume, closeSocket]
    split
    · rename_i shut
      exact ⟨h.home,fun ended => ⟨(h.released ended).events,(h.released ended).map,.inl shut⟩⟩
    · exact ⟨h.home,fun ended => ⟨(h.released ended).events,(h.released ended).map,.inr (.inr (by simp))⟩⟩
  | invalidateSocket =>
    exact ⟨h.home,fun ended => ⟨(h.released ended).events,(h.released ended).map,.inl rfl⟩⟩
  | _ => cases own

theorem tidyStep {w w' : World} {a : Action} (h : Tidy w.ep w.stack) (timely : watchesLate w a = false)
    (taken : step w a = some w') : Tidy w'.ep w'.stack := by
  cases stepCases taken with
  | establish idle fresh => exact tidyExec h (fun _ => fresh) (by simp)
  | destroy idle => exact tidyExec h (by simp) (by simp)
  | event idle up ok =>
    rw [idle] at h
    exact tidyEvent h ok
  | @runQueued f rest idle head fresh =>
    have popped : Tidy ({ w with queue := rest } : World).ep w.stack := h
    refine tidyExec popped fresh (fun same ended => ?_)
    have late : ¬ 0 < w.conn.outputBuffer.readableBytes := by
      simpa [watchesLate, head, same, show w.state = .disconnected from ended] using timely
    exact Nat.eq_zero_of_not_pos late
  | @resume f below top own =>
    rw [top] at h
    refine tidyResume h own (fun same ended => ?_)
    have late : ¬ w.state = .disconnected := by simpa [watchesLate, top, same] using timely
    exact late ended
  | @ret f below top callback =>
    rw [top] at h
    refine tidyStack h ?_ ?_
    · intro member
      rcases List.mem_cons.mp member with here | there
      · subst here; cases callback
      · exact there
    · intro member
      rcases List.mem_cons.mp member with here | there
      · subst here; cases callback
      · exact there
  | @user c runs =>
    have called := tidyRequest h loopThread c
    unfold runInline
    split
    · exact called
    · rename_i f handed
      have shape := requestHanded handed
      cases shape with
      | shutdown leaving => exact tidyExec called (by simp) (fun _ ended => by rw [leaving] at ended; cases ended)
      | _ => exact tidyExec called (by simp) (by simp)
  | @foreign t c other free => exact tidyRequest h t c
  | push held => exact h
  | environment done =>
    obtain ⟨poller,isOpen,same,kept⟩ := environmentCases done
    subst same
    exact ⟨fun fd found => h.home fd (kept fd found),fun ended =>
      ⟨(h.released ended).events,fun fd found => (h.released ended).map fd (kept fd found),(h.released ended).socket⟩⟩

theorem tidyInitial {w : World} (h : Initial w) : Tidy w.ep w.stack := by
  have state : w.ep.conn.state = .connecting := h.state
  exact ⟨fun fd found => absurd found (h.unknown fd),fun ended => by rw [state] at ended; cases ended⟩

/- Write interest on a closed connection. Nothing clears it any more: every function
that would stops at the state. -/
structure Stuck (e : Endpoint) : Prop where
  state : e.conn.state = .disconnected
  write : e.conn.channel.events.write = true

theorem stuckWatch {e : Endpoint} (ended : e.conn.state = .disconnected) : Stuck e.watchWriting := by
  obtain ⟨ch,conn,_,_,events⟩ := watchWritingConn e
  exact ⟨by rw [conn]; exact ended,by rw [conn]; simp [events]⟩

theorem stuckRun {e : Endpoint} (h : Stuck e) {f : Functor} (old : f ≠ .connectEstablished) :
    Stuck (e.run f).1 := by
  by_cases late : f = .shutdownInLoop ∧ 0 < e.conn.outputBuffer.readableBytes
  · obtain ⟨same,pending⟩ := late
    rw [same, Endpoint.run, shutdownInLoop, if_pos pending]
    exact stuckWatch h.state
  · rw [runOver h.state old (fun same => Nat.eq_zero_of_not_pos (fun pending => late ⟨same,pending⟩))]
    exact h

theorem requestOver {w : World} (ended : w.state = .disconnected) (t : ThreadId) (c : UserCall) :
    (request w t c).1.ep = w.ep ∧ (request w t c).2 = none := by
  have state : w.ep.conn.state = .disconnected := ended
  cases c <;> simp [request, send, shutdown, forceClose, isOpenState, TcpConnection.isConnected, state]

theorem stuckResume {e : Endpoint} (h : Stuck e) (f : Frame) : Stuck (e.resume f).1 := by
  cases f with
  | sendTail => exact stuckWatch h.state
  | closeSocket =>
    simp only [resume, closeSocket]
    split
    · exact h
    · exact ⟨h.state,h.write⟩
  | invalidateSocket => exact ⟨h.state,h.write⟩
  | _ => exact h

theorem stuckStep {w w' : World} {a : Action} (h : Stuck w.ep) (taken : step w a = some w') : Stuck w'.ep := by
  have early : w.state ≠ .connecting := by
    intro fresh
    have state : w.state = .disconnected := h.state
    rw [state] at fresh
    cases fresh
  cases stepCases taken with
  | establish idle fresh => exact absurd fresh early
  | destroy idle => exact stuckRun h (by simp)
  | @event ev idle up ok =>
    rcases handleOver h.state ev with same | ⟨bs,same⟩
    · simp only [continueWith, same]; exact h
    · simp only [continueWith, same]; exact ⟨h.state,h.write⟩
  | @runQueued f rest idle head fresh =>
    rw [(execRun { w with queue := rest } f).1]
    exact stuckRun h (fun same => early (fresh same))
  | @resume f below top own => exact stuckResume h f
  | ret top callback => exact h
  | @user c runs =>
    obtain ⟨ep,handed⟩ := requestOver h.state loopThread c
    simp only [runInline, handed, ep]
    exact h
  | @foreign t c other free =>
    rw [show ({ (request w t c).1 with inFlight := _ } : World).ep = w.ep from (requestOver h.state t c).1]
    exact h
  | push held => exact h
  | environment done =>
    obtain ⟨poller,isOpen,same,_⟩ := environmentCases done
    subst same
    exact ⟨h.state,h.write⟩

theorem lateStuck {w w' : World} {a : Action} (late : watchesLate w a = true) (taken : step w a = some w') :
    Stuck w'.ep := by
  cases stepCases taken with
  | @runQueued f rest idle head fresh =>
    simp only [watchesLate, head, List.head?_cons, Bool.and_eq_true, beq_iff_eq, Option.some.injEq,
      decide_eq_true_eq] at late
    obtain ⟨⟨same,ended⟩,pending⟩ := late
    have over' : w.ep.conn.state = .disconnected := ended
    have pending' : 0 < w.ep.conn.outputBuffer.readableBytes := pending
    rw [(execRun { w with queue := rest } f).1, same, Endpoint.run, shutdownInLoop, if_pos pending']
    exact stuckWatch over'
  | @resume f below top own =>
    simp only [watchesLate, top, List.head?_cons, Bool.and_eq_true, beq_iff_eq, Option.some.injEq] at late
    rw [late.1]
    exact stuckWatch late.2
  | _ => cases late

/- With no handler on the stack a closed connection has left the poller and its socket
is closed, exactly if on the way neither SendInLoop's tail nor a ShutdownInLoop with
bytes pending ran on it when it was Disconnected already. -/
theorem closedLeavesNothing {s w : World} {as : List Action} (start : Initial s)
    (reached : Machine.run step s as = some w) (idle : w.stack = []) (ended : w.state = .disconnected) :
    Gone w.ep ↔ Throughout step (fun u a => watchesLate u a = false) s as := by
  constructor
  · intro gone
    have enters : ∀ u a t, True → ¬ watchesLate u a = false → step u a = some t → Stuck t.ep := fun u a t _ late =>
      lateStuck (by simpa using late)
    rcases throughoutOr (fun _ _ _ _ _ => trivial) enters (fun _ _ _ => stuckStep) trivial reached with timely | stuck
    · exact timely
    · have write := stuck.write
      rw [gone.events] at write
      cases write
  · intro timely
    have tidy : Tidy w.ep w.stack :=
      invariantWhen (fun _ _ _ => tidyStep) (tidyInitial start) timely reached
    obtain ⟨events,map,socket⟩ := tidy.released ended
    refine ⟨?_,events,map⟩
    simpa [idle] using socket

/- A peer that closes a connection with a byte pending. -/
def peerCloses : List Action :=
  [.establish,.ret,.user (.send [1]),.resume,.event .close,.ret,.resume,.resume]

theorem closedLeavesNothingPeer : ∃ w, Machine.run step (fresh 3 ⟨true,true,false,true,false⟩ 64 4) peerCloses = some w ∧
    Gone w.ep := by
  have reached : ∃ w, Machine.run step (fresh 3 ⟨true,true,false,true,false⟩ 64 4) peerCloses = some w ∧
      w.stack = [] ∧ w.state = .disconnected := ⟨_,rfl,rfl,rfl⟩
  obtain ⟨w,run,idle,ended⟩ := reached
  have timely : Throughout step (fun u a => watchesLate u a = false) (fresh 3 ⟨true,true,false,true,false⟩ 64 4)
      peerCloses := by decide
  exact ⟨w,run,(closedLeavesNothing (freshInitial _ _ _ _) run idle ended).mpr timely⟩

/- The high-water callback closes the connection, then SendInLoop goes on. -/
def closedWhileSending : List Action :=
  [.establish,.ret,.user (.send [1]),.user .forceClose,.resume,.resume,.ret,.ret,.resume]

theorem closedStaysInPoller : ¬ ∀ s w as, Initial s → Machine.run step s as = some w → w.stack = [] →
    w.state = .disconnected → Gone w.ep := by
  intro claimed
  have reached : ∃ w, Machine.run step (fresh 3 ⟨true,true,false,true,true⟩ 1 4) closedWhileSending = some w ∧
      w.stack = [] ∧ w.state = .disconnected ∧ w.ep.poller.fdToChannel 3 = some w.ep.conn.channel.id :=
    ⟨_,rfl,rfl,rfl,rfl⟩
  obtain ⟨w,run,idle,ended,found⟩ := reached
  have gone := claimed _ w _ (freshInitial _ _ _ _) run idle ended
  exact gone.map 3 found

end TcFrame.Connection
