import TcFrame.Host

/-! Closing a connection. Three functions end in Disconnected, each with the close of the
socket and the close callback in its own place; once one of them has, no other does
anything any more. -/
namespace TcFrame.Connection
open Endpoint Machine

/- ConnectDestroyed is public: a callback may call it like the other three. -/
inductive Call where
  | act (a : Action)
  | destroyInside
  deriving DecidableEq, Repr

def perform (w : World) : Call → Option World
  | .act a => step w a
  | .destroyInside => if userRuns w.stack = true then some (exec w .connectDestroyed) else none

def rank : ConnectionState → Nat
  | .connecting => 0
  | .connected => 1
  | .disconnecting => 2
  | .disconnected => 3

/- The close callbacks that have returned, the calls of close(), and whether
ConnectDestroyed was the function that made the connection Disconnected. -/
structure Closings where
  callbacks : Nat
  closes : Nat
  destroyed : Bool
  deriving DecidableEq, Repr

def noClosings : Closings := ⟨0,0,false⟩

def destroys (w : World) : Call → Bool
  | .act .destroy | .destroyInside => true
  | .act .runQueued => w.queue.head? == some .connectDestroyed
  | .act _ => false

def note (w : World) (a : Call) (w' : World) (n : Closings) : Closings :=
  let returned := a == .act .ret && w.stack.head? == some .closeCallback
  let closed := a == .act .resume && w.stack.head? == some .closeSocket && w.conn.socket.fd.isSome
  ⟨if returned then n.callbacks + 1 else n.callbacks,if closed then n.closes + 1 else n.closes,
    n.destroyed || (w.state != .disconnected && w'.state == .disconnected && destroys w a)⟩

/- The frames that only the function that closes the connection leaves. -/
def isClosing : Frame → Bool
  | .closeCallback | .closeSocket | .invalidateSocket => true
  | _ => false

def closingFrames (stack : List Frame) : List Frame := stack.filter isClosing

/- HandleClose makes the callback first, ForceCloseInLoop last, ConnectDestroyed never. -/
def shapes (destroyed : Bool) : List (List Frame) :=
  if destroyed then [[.closeSocket]] else [[.closeCallback,.closeSocket],[.closeSocket,.closeCallback]]

/- One function of the connection, as to closing. -/
inductive Move (e e' : Endpoint) (frames : List Frame) (destroyed : Bool) : Prop where
  | quiet (none_ : closingFrames frames = [])
      (still : e'.conn.state = .disconnected ↔ e.conn.state = .disconnected)
      (fd : e'.conn.socket.fd = e.conn.socket.fd)
  | closes (up : e.conn.state ≠ .disconnected) (ended : e'.conn.state = .disconnected)
      (fd : e'.conn.socket.fd = e.conn.socket.fd) (shape : frames ∈ shapes destroyed)

theorem callQuiet {isSet : Bool} {f : Frame} (other : isClosing f = false) :
    closingFrames (TcpConnection.call isSet f) = [] := by
  cases isSet <;> simp [closingFrames, TcpConnection.call, other]

theorem changeMove {e e' : Endpoint} {frames : List Frame} (h : Change e e' frames)
    (advances : Advances e e' frames) (set : e.conn.callbacks.close = true) : Move e e' frames false := by
  cases h with
  | ignored => exact .quiet rfl Iff.rfl rfl
  | established fresh => exact .quiet (callQuiet rfl) (by simp [setState, enableReading, fresh]) rfl
  | closed up done shape =>
    refine .closes up done.state (by rw [done.socket]) ?_
    have made := advances.closes up done.state set
    rcases shape with same | same | same
    · rw [same, set]; exact List.mem_cons_self
    · rw [same, set]; exact List.mem_cons_of_mem _ List.mem_cons_self
    · rw [same] at made
      simp at made
  | received bs => exact .quiet (callQuiet rfl) Iff.rfl rfl
  | wrotePart connected accepted left => exact .quiet rfl Iff.rfl rfl
  | wroteAll connected accepted left => exact .quiet (callQuiet rfl) Iff.rfl rfl
  | shutting pending =>
    obtain ⟨ch,conn,_⟩ := watchWritingConn e
    exact .quiet rfl (by rw [conn]) (by rw [conn])

theorem handleMove {e : Endpoint} {ev : Event} (ok : possible e ev = true)
    (set : e.conn.callbacks.close = true) : Move e (handle e ev).1 (handle e ev).2 false :=
  changeMove (handleChange e ok) (handleAdvances e ev) set

theorem destroyedMove (e : Endpoint) : Move e e.connectDestroyed.1 e.connectDestroyed.2 true := by
  unfold connectDestroyed
  split
  · rename_i isOpen
    have done := removeIfAddedClosed (disconnectClosed e)
    have up : e.conn.state ≠ .disconnected := by rcases openState isOpen with s | s <;> simp [s]
    exact .closes up done.state (by rw [done.socket]) List.mem_cons_self
  · exact .quiet rfl Iff.rfl rfl

theorem runMove {e : Endpoint} {f : Functor} (fresh : f = .connectEstablished → e.conn.state = .connecting)
    (set : e.conn.callbacks.close = true) : Move e (e.run f).1 (e.run f).2 (f == .connectDestroyed) := by
  cases f with
  | connectDestroyed => exact destroyedMove e
  | sendInLoop m =>
    cases passes : e.conn.isConnected with
    | true =>
      obtain ⟨ep,notify,frames⟩ := @sendInLoopPassed e m.data passes
      refine .quiet ?_ (by rw [Endpoint.run, ep]; exact Iff.rfl) (by rw [Endpoint.run, ep]; rfl)
      rw [Endpoint.run, frames]
      cases notify <;> rfl
    | false =>
      rw [Endpoint.run, sendInLoopRefused passes]
      exact .quiet rfl Iff.rfl rfl
  | connectEstablished => exact changeMove (runChange e (by simp) fresh) (runAdvances e (by simp)) set
  | shutdownInLoop => exact changeMove (runChange e (by simp) (by simp)) (runAdvances e (by simp)) set
  | forceCloseInLoop => exact changeMove (runChange e (by simp) (by simp)) (runAdvances e (by simp)) set

theorem changeRank {e e' : Endpoint} {frames : List Frame} (h : Change e e' frames) :
    rank e.conn.state ≤ rank e'.conn.state := by
  cases h with
  | established fresh => rw [fresh]; exact Nat.zero_le _
  | closed up done shape =>
    rw [done.state]
    cases e.conn.state <;> decide
  | shutting pending => exact Nat.le_of_eq (by rw [watchWritingState])
  | _ => exact Nat.le_refl _

theorem runRank {e : Endpoint} {f : Functor} (fresh : f = .connectEstablished → e.conn.state = .connecting) :
    rank e.conn.state ≤ rank (e.run f).1.conn.state := by
  cases f with
  | sendInLoop m =>
    cases passes : e.conn.isConnected with
    | true => exact Nat.le_of_eq (by rw [Endpoint.run, (sendInLoopPassed passes).1]; rfl)
    | false => exact Nat.le_of_eq (by rw [Endpoint.run, sendInLoopRefused passes])
  | _ => exact changeRank (runChange e (by simp) fresh)

/- A public call only moves the state, and stops short of Disconnected. -/
structure Called (w w' : World) : Prop where
  forward : rank w.state ≤ rank w'.state
  still : w'.state = .disconnected ↔ w.state = .disconnected
  socket : w'.conn.socket = w.conn.socket
  callbacks : w'.conn.callbacks = w.conn.callbacks
  stack : w'.stack = w.stack

theorem requestCalled (w : World) (t : ThreadId) (c : UserCall) : Called w (request w t c).1 := by
  have unchanged : ∀ w' : World, w'.ep = w.ep → w'.stack = w.stack → Called w w' := by
    intro w' ep stack
    have state : w'.state = w.state := congrArg (fun e : Endpoint => e.conn.state) ep
    exact ⟨Nat.le_of_eq (by rw [state]),by rw [state],congrArg (fun e : Endpoint => e.conn.socket) ep,
      congrArg (fun e : Endpoint => e.conn.callbacks) ep,stack⟩
  have leaves : ∀ w' : World, w.state = .connected ∨ w.state = .disconnecting →
      w'.ep = w.ep.setState .disconnecting → w'.stack = w.stack → Called w w' := by
    intro w' open_ ep stack
    have state : w'.state = .disconnecting := congrArg (fun e : Endpoint => e.conn.state) ep
    have socket : w'.conn.socket = w.conn.socket := by rw [World.conn, ep]; rfl
    have callbacks : w'.conn.callbacks = w.conn.callbacks := by rw [World.conn, ep]; rfl
    refine ⟨?_,?_,socket,callbacks,stack⟩
    · rcases open_ with s | s <;> simp [state, s, rank]
    · rcases open_ with s | s <;> simp [state, s]
  cases c with
  | send data =>
    refine unchanged _ ?_ rfl
    simp only [request, send]
    split <;> rfl
  | shutdown =>
    by_cases connected : w.ep.conn.state = .connected
    · exact leaves _ (.inl connected) (by simp only [request, shutdown, if_pos connected]) rfl
    · exact unchanged _ (by simp only [request, shutdown, if_neg connected]) rfl
  | forceClose =>
    by_cases isOpen : w.ep.isOpenState = true
    · exact leaves _ (openState isOpen) (by simp only [request, forceClose, if_pos isOpen]) rfl
    · exact unchanged _ (by simp only [request, forceClose, if_neg isOpen]) rfl

/- What one step does to the frames of the closing function and to the notes. -/
inductive Effect (w w' : World) (n n' : Closings) : Prop where
  | quiet (same : closingFrames w'.stack = closingFrames w.stack)
      (still : w'.state = .disconnected ↔ w.state = .disconnected)
      (fd : w'.conn.socket.fd = w.conn.socket.fd) (notes : n' = n)
  | closes (destroyed : Bool) (up : w.state ≠ .disconnected) (ended : w'.state = .disconnected)
      (fd : w'.conn.socket.fd = w.conn.socket.fd) (frames : List Frame) (shape : frames ∈ shapes destroyed)
      (stack : w'.stack = frames ++ w.stack) (notes : n' = { n with destroyed := n.destroyed || destroyed })
  | called (top : w.stack = .closeCallback :: w'.stack) (state : w'.state = w.state)
      (fd : w'.conn.socket.fd = w.conn.socket.fd) (notes : n' = { n with callbacks := n.callbacks + 1 })
  | closed {below} (top : w.stack = .closeSocket :: below) (stack : w'.stack = .invalidateSocket :: below)
      (state : w'.state = w.state) (valid : w.conn.socket.fd ≠ none) (fd : w'.conn.socket.fd = w.conn.socket.fd)
      (notes : n' = { n with closes := n.closes + 1 })
  | spared (top : w.stack = .closeSocket :: w'.stack) (state : w'.state = w.state)
      (invalid : w.conn.socket.fd = none) (fd : w'.conn.socket.fd = none) (notes : n' = n)
  | invalidated (top : w.stack = .invalidateSocket :: w'.stack) (state : w'.state = w.state)
      (fd : w'.conn.socket.fd = none) (notes : n' = n)

theorem closingAppend (frames stack : List Frame) :
    closingFrames (frames ++ stack) = closingFrames frames ++ closingFrames stack := by
  simp [closingFrames]

theorem noteQuiet {w w' : World} {a : Call} {n : Closings} (ret : a ≠ .act .ret) (resume : a ≠ .act .resume)
    (still : w'.state = .disconnected ↔ w.state = .disconnected) : note w a w' n = n := by
  have noted : (w.state != .disconnected && w'.state == .disconnected) = false := by
    by_cases ended : w.state = .disconnected <;> simp [ended, still]
  simp [note, ret, resume, noted]

theorem noteCloses {w w' : World} {a : Call} {n : Closings} (ret : a ≠ .act .ret) (resume : a ≠ .act .resume)
    (up : w.state ≠ .disconnected) (ended : w'.state = .disconnected) :
    note w a w' n = { n with destroyed := n.destroyed || destroys w a } := by
  have left : (w.state != .disconnected) = true := by simpa using up
  simp [note, ret, resume, left, ended]

/- A function that the step runs on top of the stack. -/
theorem moveEffect {w w' : World} {a : Call} {n : Closings} {e : Endpoint} {frames : List Frame} {destroyed : Bool}
    (move : Move e w'.ep frames destroyed) (stack : w'.stack = frames ++ w.stack)
    (still : e.conn.state = .disconnected ↔ w.state = .disconnected) (fd : e.conn.socket.fd = w.conn.socket.fd)
    (ret : a ≠ .act .ret) (resume : a ≠ .act .resume) (who : destroys w a = destroyed) :
    Effect w w' n (note w a w' n) := by
  cases move with
  | quiet none_ kept fd' =>
    have over_ : w'.state = .disconnected ↔ w.state = .disconnected := kept.trans still
    refine .quiet ?_ over_ (fd'.trans fd) (noteQuiet ret resume over_)
    rw [stack, closingAppend, none_, List.nil_append]
  | closes up ended fd' shape =>
    have up' : w.state ≠ .disconnected := fun over_ => up (still.mpr over_)
    refine .closes destroyed up' ended (fd'.trans fd) frames shape stack ?_
    rw [noteCloses ret resume up' ended, who]

theorem execEffect {w u : World} {a : Call} {n : Closings} {f : Functor}
    (fresh : f = .connectEstablished → u.state = .connecting) (set : u.conn.callbacks.close = true)
    (stack : u.stack = w.stack) (still : u.state = .disconnected ↔ w.state = .disconnected)
    (fd : u.conn.socket.fd = w.conn.socket.fd) (ret : a ≠ .act .ret) (resume : a ≠ .act .resume)
    (who : destroys w a = (f == .connectDestroyed)) : Effect w (exec u f) n (note w a (exec u f) n) := by
  obtain ⟨ep,frames⟩ := execRun u f
  have move : Move u.ep (exec u f).ep (u.ep.run f).2 (f == .connectDestroyed) := by
    rw [ep]
    exact runMove fresh set
  exact moveEffect move (by rw [frames, stack]) still fd ret resume who

theorem execRank {u : World} {f : Functor} (fresh : f = .connectEstablished → u.state = .connecting) :
    rank u.state ≤ rank (exec u f).state := by
  rw [World.state, World.state, (execRun u f).1]
  exact runRank fresh

theorem execCallbacks (u : World) (f : Functor) : (exec u f).conn.callbacks = u.conn.callbacks := by
  rw [World.conn, (execRun u f).1]
  exact (sameRun u.ep).callbacks

theorem resumeEffect {w : World} {f : Frame} {below : List Frame} {n : Closings} (top : w.stack = f :: below)
    (own : f.isCallback = false) :
    Effect w (continueWith w (w.ep.resume f) below) n (note w (.act .resume) (continueWith w (w.ep.resume f) below) n) := by
  have state : (continueWith w (w.ep.resume f) below).state = w.state := resumeState w.ep f
  have noted : (w.state != .disconnected && (continueWith w (w.ep.resume f) below).state == .disconnected) = false := by
    rw [state]
    cases w.state <;> rfl
  cases f with
  | sendTail =>
    obtain ⟨ch,conn,_⟩ := watchWritingConn w.ep
    refine .quiet ?_ (by rw [state]) ?_ (by simp [note, top, noted])
    · rw [top]; rfl
    · simp only [continueWith, World.conn, Endpoint.resume, conn]
  | closeSocket =>
    cases valid : w.conn.socket.fd with
    | none =>
      have same : w.ep.resume .closeSocket = (w.ep,[]) := by
        simp only [Endpoint.resume, closeSocket, show w.ep.conn.socket.fd = none from valid]
      rw [same] at state noted ⊢
      exact .spared top state valid valid (by simp [note, top, valid, noted])
    | some fd =>
      have opened : w.ep.conn.socket.fd = some fd := valid
      have shut : (w.ep.resume .closeSocket).2 = [.invalidateSocket] ∧
          (w.ep.resume .closeSocket).1.conn.socket.fd = some fd := by
        simp only [Endpoint.resume, closeSocket, opened]
        exact ⟨trivial,trivial⟩
      refine .closed top ?_ state (by simp [valid]) (shut.2.trans valid.symm) (by simp [note, top, valid, noted])
      rw [continueWith, shut.1]
      rfl
  | invalidateSocket => exact .invalidated top state rfl (by simp [note, top, noted])
  | _ => cases own

theorem retEffect {w : World} {f : Frame} {below : List Frame} {n : Closings} (top : w.stack = f :: below)
    (callback : f.isCallback = true) :
    Effect w { w with stack := below } n (note w (.act .ret) { w with stack := below } n) := by
  have noted : (w.state != .disconnected && w.state == .disconnected) = false := by cases w.state <;> rfl
  by_cases closing : f = .closeCallback
  · subst closing
    refine .called top rfl rfl ?_
    simp [note, top, show World.state { w with stack := below } = w.state from rfl, noted]
  · refine .quiet ?_ Iff.rfl rfl ?_
    · rw [top]
      cases f <;> first | rfl | exact absurd rfl closing | cases callback
    · simp [note, top, closing, show World.state { w with stack := below } = w.state from rfl, noted]

/- One step: the state goes forward, the callbacks stay set. -/
structure Advance (w w' : World) (n n' : Closings) : Prop where
  forward : rank w.state ≤ rank w'.state
  callbacks : w'.conn.callbacks = w.conn.callbacks
  effect : Effect w w' n n'

theorem advance {w w' : World} {a : Call} {n : Closings} (set : w.conn.callbacks.close = true)
    (taken : perform w a = some w') : Advance w w' n (note w a w' n) := by
  cases a with
  | destroyInside =>
    simp only [perform] at taken
    split at taken <;> cases taken
    exact ⟨execRank (by simp),execCallbacks _ _,execEffect (by simp) set rfl Iff.rfl rfl (by simp) (by simp) rfl⟩
  | act a =>
    cases stepCases taken with
    | establish idle fresh =>
      exact ⟨execRank (fun _ => fresh),execCallbacks _ _,
        execEffect (fun _ => fresh) set rfl Iff.rfl rfl (by simp) (by simp) rfl⟩
    | destroy idle =>
      exact ⟨execRank (by simp),execCallbacks _ _,execEffect (by simp) set rfl Iff.rfl rfl (by simp) (by simp) rfl⟩
    | @event ev idle up ok =>
      refine ⟨changeRank (handleChange w.ep ok),(sameChange (handleChange w.ep ok)).callbacks,?_⟩
      exact moveEffect (handleMove ok set) (by rw [idle]; rfl) Iff.rfl rfl (by simp) (by simp) rfl
    | @runQueued f rest idle head fresh =>
      refine ⟨execRank (u := { w with queue := rest }) fresh,execCallbacks _ _,?_⟩
      exact execEffect fresh set rfl Iff.rfl rfl (by simp) (by simp) (by simp [destroys, head])
    | @resume f below top own =>
      refine ⟨?_,(sameResume w.ep f).callbacks,resumeEffect top own⟩
      exact Nat.le_of_eq (by rw [World.state, World.state]; exact congrArg rank (resumeState w.ep f).symm)
    | @ret f below top callback => exact ⟨Nat.le_refl _,rfl,retEffect top callback⟩
    | @user c runs =>
      have called := requestCalled w loopThread c
      unfold runInline
      split
      · refine ⟨called.forward,called.callbacks,.quiet (by rw [called.stack]) called.still (by rw [called.socket]) ?_⟩
        exact noteQuiet (by simp) (by simp) called.still
      · rename_i f handed
        have shape := requestHanded handed
        have old : f ≠ .connectEstablished := by cases shape <;> simp
        have other : (f == .connectDestroyed) = false := by cases shape <;> rfl
        refine ⟨Nat.le_trans called.forward (execRank (fun same => absurd same old)),
          (execCallbacks _ _).trans called.callbacks,?_⟩
        exact execEffect (fun same => absurd same old) (by rw [called.callbacks]; exact set) called.stack called.still
          (by rw [called.socket]) (by simp) (by simp) other.symm
    | @foreign t c other free =>
      have called := requestCalled w t c
      refine ⟨called.forward,called.callbacks,.quiet ?_ called.still ?_ (noteQuiet (by simp) (by simp) called.still)⟩
      · exact congrArg closingFrames called.stack
      · exact congrArg Socket.fd called.socket
    | push flying => exact ⟨Nat.le_refl _,rfl,.quiet rfl Iff.rfl rfl (noteQuiet (by simp) (by simp) Iff.rfl)⟩
    | environment done =>
      obtain ⟨poller,isOpen,same,_⟩ := environmentCases done
      subst same
      exact ⟨Nat.le_refl _,rfl,.quiet rfl Iff.rfl rfl (noteQuiet (by simp) (by simp) Iff.rfl)⟩

/- How far the closing has come: what is left of it on the stack, whether the socket is
valid, and the notes. -/
inductive Stage : List Frame → Bool → Closings → Prop where
  | handle : Stage [.closeCallback,.closeSocket] true ⟨0,0,false⟩
  | handleSocket : Stage [.closeSocket] true ⟨1,0,false⟩
  | handleStore : Stage [.invalidateSocket] true ⟨1,1,false⟩
  | force : Stage [.closeSocket,.closeCallback] true ⟨0,0,false⟩
  | forceStore : Stage [.invalidateSocket,.closeCallback] true ⟨0,1,false⟩
  | forceCallback : Stage [.closeCallback] false ⟨0,1,false⟩
  | destroySocket : Stage [.closeSocket] true ⟨0,0,true⟩
  | destroyStore : Stage [.invalidateSocket] true ⟨0,1,true⟩
  | done (destroyed : Bool) : Stage [] false ⟨if destroyed then 0 else 1,1,destroyed⟩

structure Open (w : World) (n : Closings) : Prop where
  up : w.state ≠ .disconnected
  frames : closingFrames w.stack = []
  valid : w.conn.socket.fd.isSome = true
  notes : n = noClosings

def Staged (w : World) (n : Closings) : Prop :=
  w.state = .disconnected ∧ Stage (closingFrames w.stack) w.conn.socket.fd.isSome n

theorem openEffect {w w' : World} {n n' : Closings} (h : Open w n) (effect : Effect w w' n n') :
    Open w' n' ∨ (Staged w' n' ∧ ∃ frames, w'.stack = frames ++ w.stack) := by
  have top : ∀ {f below}, w.stack = f :: below → isClosing f = false := by
    intro f below top
    have none_ := h.frames
    rw [top, closingFrames, List.filter_eq_nil_iff] at none_
    simpa using none_ f List.mem_cons_self
  cases effect with
  | quiet same still fd notes =>
    exact .inl ⟨fun ended => h.up (still.mp ended),same.trans h.frames,by rw [fd]; exact h.valid,notes.trans h.notes⟩
  | closes destroyed up ended fd frames shape stack notes =>
    refine .inr ⟨⟨ended,?_⟩,frames,stack⟩
    rw [stack, closingAppend, h.frames, List.append_nil, fd, h.valid, notes, h.notes]
    cases destroyed with
    | true =>
      rw [List.mem_singleton.mp shape]
      exact .destroySocket
    | false =>
      rcases List.mem_cons.mp shape with first | second
      · rw [first]; exact .handle
      · rw [List.mem_singleton.mp second]; exact .force
  | called top_ => cases top top_
  | closed top_ => cases top top_
  | spared top_ => cases top top_
  | invalidated top_ => cases top top_

theorem stageCall {rest : List Frame} {valid : Bool} {n : Closings} (h : Stage (.closeCallback :: rest) valid n) :
    Stage rest valid { n with callbacks := n.callbacks + 1 } := by
  cases h
  · exact .handleSocket
  · exact .done false

theorem stageClose {rest : List Frame} {valid : Bool} {n : Closings} (h : Stage (.closeSocket :: rest) valid n) :
    valid = true ∧ Stage (.invalidateSocket :: rest) valid { n with closes := n.closes + 1 } := by
  cases h
  · exact ⟨rfl,.handleStore⟩
  · exact ⟨rfl,.forceStore⟩
  · exact ⟨rfl,.destroyStore⟩

theorem stageStore {rest : List Frame} {valid : Bool} {n : Closings} (h : Stage (.invalidateSocket :: rest) valid n) :
    Stage rest false n := by
  cases h
  · exact .done false
  · exact .forceCallback
  · exact .done true

theorem stagedEffect {w w' : World} {n n' : Closings} (h : Staged w n) (effect : Effect w w' n n') : Staged w' n' := by
  obtain ⟨ended,stage⟩ := h
  cases effect with
  | quiet same still fd notes => exact ⟨still.mpr ended,by rw [same, fd, notes]; exact stage⟩
  | closes destroyed up => exact absurd ended up
  | called top state fd notes =>
    rw [top] at stage
    exact ⟨state.trans ended,by rw [fd, notes]; exact stageCall stage⟩
  | closed top stack state valid fd notes =>
    rw [top] at stage
    exact ⟨state.trans ended,by rw [stack, fd, notes]; exact (stageClose stage).2⟩
  | spared top state invalid fd notes =>
    rw [top, invalid] at stage
    exact absurd (stageClose stage).1 (by simp)
  | invalidated top state fd notes =>
    rw [top] at stage
    exact ⟨state.trans ended,by rw [fd, notes]; exact stageStore stage⟩

/- A connection with a close callback, open or on its way through the closing. -/
structure Once (w : World) (n : Closings) : Prop where
  set : w.conn.callbacks.close = true
  stage : Open w n ∨ Staged w n

theorem onceStep {x y : World × Closings} {a : Call} (h : Once x.1 x.2) (taken : recording perform note x a = some y) :
    Once y.1 y.2 := by
  obtain ⟨step_,noted⟩ := recordingCases taken
  have adv := advance (n := x.2) h.set step_
  rw [← noted] at adv
  refine ⟨by rw [adv.callbacks]; exact h.set,?_⟩
  rcases h.stage with isOpen | staged
  · exact (openEffect isOpen adv.effect).imp_right And.left
  · exact .inr (stagedEffect staged adv.effect)

theorem onceInitial {w : World} (h : Initial w) (set : w.conn.callbacks.close = true) : Once w noClosings := by
  refine ⟨set,.inl ⟨?_,?_,?_,rfl⟩⟩
  · rw [h.state]; simp
  · rw [h.stack]; rfl
  · rw [h.socket]; rfl

/- What a step does to the stack: it pushes, or its top goes on. -/
theorem stackCases {w w' : World} {a : Call} (taken : perform w a = some w') :
    (∃ frames, w'.stack = frames ++ w.stack) ∨
    ∃ f below frames, w.stack = f :: below ∧ w'.stack = frames ++ below := by
  have ran : ∀ (u : World) (f : Functor), u.stack = w.stack → ∃ frames, (exec u f).stack = frames ++ w.stack :=
    fun u f same => ⟨_,by rw [(execRun u f).2, same]⟩
  cases a with
  | destroyInside =>
    simp only [perform] at taken
    split at taken <;> cases taken
    exact .inl (ran _ _ rfl)
  | act a =>
    cases stepCases taken with
    | establish idle fresh => exact .inl (ran _ _ rfl)
    | destroy idle => exact .inl (ran _ _ rfl)
    | @event ev idle up ok => exact .inl ⟨(handle w.ep ev).2,by rw [idle]; rfl⟩
    | runQueued idle head fresh => exact .inl (ran _ _ rfl)
    | resume top own => exact .inr ⟨_,_,_,top,rfl⟩
    | ret top callback => exact .inr ⟨_,_,[],top,rfl⟩
    | @user c runs =>
      have called := (requestCalled w loopThread c).stack
      unfold runInline
      split
      · exact .inl ⟨[],called⟩
      · exact .inl (ran _ _ called)
    | @foreign t c other free => exact .inl ⟨[],(requestCalled w t c).stack⟩
    | push flying => exact .inl ⟨[],rfl⟩
    | environment done =>
      obtain ⟨poller,isOpen,same,_⟩ := environmentCases done
      subst same
      exact .inl ⟨[],rfl⟩

/- The function that closed the connection stands above `base`, or has returned. -/
def Above (base : List Frame) (w : World) : Prop :=
  (∃ top, w.stack = top ++ base) ∨ closingFrames w.stack = []

theorem returnedEffect {w w' : World} {n n' : Closings} (ended : w.state = .disconnected)
    (none_ : closingFrames w.stack = []) (effect : Effect w w' n n') : closingFrames w'.stack = [] := by
  have top : ∀ {f below}, w.stack = f :: below → isClosing f = false := by
    intro f below top
    rw [top, closingFrames, List.filter_eq_nil_iff] at none_
    simpa using none_ f List.mem_cons_self
  cases effect with
  | quiet same => exact same.trans none_
  | closes destroyed up => exact absurd ended up
  | called top_ => cases top top_
  | closed top_ => cases top top_
  | spared top_ => cases top top_
  | invalidated top_ => cases top top_

theorem aboveStep {base : List Frame} {w w' : World} {a : Call} {n n' : Closings} (empty : closingFrames base = [])
    (ended : w.state = .disconnected) (h : Above base w) (effect : Effect w w' n n')
    (taken : perform w a = some w') : Above base w' := by
  rcases h with ⟨top,stack⟩ | none_
  · rcases stackCases taken with ⟨frames,pushed⟩ | ⟨f,below,frames,old,gone⟩
    · exact .inl ⟨frames ++ top,by rw [pushed, stack, List.append_assoc]⟩
    · cases top with
      | nil => exact .inr (returnedEffect ended (by rw [stack]; exact empty) effect)
      | cons g rest =>
        rw [stack, List.cons_append] at old
        cases old
        exact .inl ⟨frames ++ rest,by rw [gone, List.append_assoc]⟩
  · exact .inr (returnedEffect ended none_ effect)

theorem stagedDestroyed {w w' : World} {n n' : Closings} (ended : w.state = .disconnected)
    (effect : Effect w w' n n') : n'.destroyed = n.destroyed := by
  cases effect with
  | closes destroyed up => exact absurd ended up
  | _ => rename_i notes; rw [notes]

/- From the step that made the connection Disconnected on. -/
structure Since (base : List Frame) (destroyed : Bool) (w : World) (n : Closings) : Prop where
  set : w.conn.callbacks.close = true
  staged : Staged w n
  above : Above base w
  who : n.destroyed = destroyed

theorem sinceStep {base : List Frame} {destroyed : Bool} {x y : World × Closings} {a : Call}
    (empty : closingFrames base = []) (h : Since base destroyed x.1 x.2)
    (taken : recording perform note x a = some y) : Since base destroyed y.1 y.2 := by
  obtain ⟨step_,noted⟩ := recordingCases taken
  have adv := advance (n := x.2) h.set step_
  rw [← noted] at adv
  exact ⟨by rw [adv.callbacks]; exact h.set,stagedEffect h.staged adv.effect,
    aboveStep empty h.staged.1 h.above adv.effect step_,(stagedDestroyed h.staged.1 adv.effect).trans h.who⟩

theorem sinceReturned {base : List Frame} {destroyed : Bool} {w : World} {n : Closings}
    (empty : closingFrames base = []) (h : Since base destroyed w n) (returned : w.stack.length ≤ base.length) :
    n.callbacks = (if destroyed then 0 else 1) ∧ n.closes = 1 ∧ w.conn.socket.fd = none := by
  have none_ : closingFrames w.stack = [] := by
    rcases h.above with ⟨top,stack⟩ | none_
    · rw [stack, List.length_append] at returned
      have bare : top = [] := List.eq_nil_of_length_eq_zero (by omega)
      rw [stack, bare]
      exact empty
    · exact none_
  obtain ⟨ended,stage⟩ := h.staged
  have who := h.who
  rw [none_] at stage
  generalize open_ : w.conn.socket.fd.isSome = valid at stage
  cases stage with
  | done destroyed' =>
    subst who
    exact ⟨rfl,rfl,by simpa using open_⟩

theorem stageBounds {frames : List Frame} {valid : Bool} {n : Closings} (h : Stage frames valid n) :
    n.callbacks + frames.count .closeCallback ≤ 1 ∧ n.closes ≤ 1 := by
  cases h with
  | done destroyed => cases destroyed <;> decide
  | _ => decide

theorem onceBounds {w : World} {n : Closings} (h : Once w n) :
    n.callbacks + w.stack.count .closeCallback ≤ 1 ∧ n.closes ≤ 1 := by
  have counted : w.stack.count .closeCallback = (closingFrames w.stack).count .closeCallback := by
    rw [closingFrames, List.count_filter rfl]
  rw [counted]
  rcases h.stage with isOpen | staged
  · rw [isOpen.frames, isOpen.notes]
    decide
  · exact stageBounds staged.2

/- However the functions of one connection follow each other: the state goes forward
only, the close callback is made at most once and the socket closed at most once; and
when the function that made the connection Disconnected has returned, both are done,
but for the callback that ConnectDestroyed does not make. -/
theorem closedOnce {s w : World} {n : Closings} {as : List Call} (start : Initial s)
    (set : s.conn.callbacks.close = true)
    (reached : run (recording perform note) (s,noClosings) as = some (w,n)) :
    (∀ a w', perform w a = some w' → rank w.state ≤ rank w'.state ∧
      (w.state = .disconnected → w'.state = .disconnected)) ∧
    n.callbacks + w.stack.count .closeCallback ≤ 1 ∧ n.closes ≤ 1 ∧
    ∀ a w₁ bs w₂ m, w.state ≠ .disconnected → recording perform note (w,n) a = some (w₁,m) →
      w₁.state = .disconnected → ∀ m₂, run (recording perform note) (w₁,m) bs = some (w₂,m₂) →
      w₂.stack.length ≤ w.stack.length →
      m₂.callbacks = (if destroys w a then 0 else 1) ∧ m₂.closes = 1 ∧ w₂.conn.socket.fd = none := by
  have keep : ∀ x a y, Once x.1 x.2 → recording perform note x a = some y → Once y.1 y.2 := fun _ _ _ => onceStep
  have once : Once w n := invariant keep (onceInitial start set) reached
  obtain ⟨callbacks,closes⟩ := onceBounds once
  refine ⟨?_,callbacks,closes,?_⟩
  · intro a w' taken
    have adv := advance (n := n) once.set taken
    refine ⟨adv.forward,fun ended => ?_⟩
    have forward := adv.forward
    rw [ended] at forward
    cases state : w'.state <;> rw [state] at forward <;> first | rfl | exact absurd forward (by decide)
  · intro a w₁ bs w₂ m up taken ended m₂ rest returned
    obtain ⟨step_,noted⟩ := recordingCases taken
    have adv := advance (n := n) once.set step_
    simp only at noted
    rw [← noted] at adv
    have isOpen : Open w n := once.stage.resolve_right (fun staged => up staged.1)
    rcases openEffect isOpen adv.effect with stillOpen | ⟨staged,above⟩
    · exact absurd ended stillOpen.up
    · have who : m.destroyed = destroys w a := by
        rw [noted]
        have left : (w.state != .disconnected) = true := by simpa using up
        simp [note, isOpen.notes, noClosings, left, ended]
      have first : Since w.stack (destroys w a) w₁ m :=
        ⟨by rw [adv.callbacks]; exact once.set,staged,.inl above,who⟩
      have since : ∀ x b y, Since w.stack (destroys w a) x.1 x.2 → recording perform note x b = some y →
          Since w.stack (destroys w a) y.1 y.2 := fun _ _ _ => sinceStep isOpen.frames
      have last : Since w.stack (destroys w a) w₂ m₂ := invariant since first rest
      exact sinceReturned isOpen.frames last returned

/- ForceClose from within the message callback: it returns to the callback with the
socket closed and the close callback made. -/
def inMessage : List Call := [.act .establish,.act .ret,.act (.event (.read (.ok [1])))]

def forcedOut : List Call := [.act .resume,.act .resume,.act .ret]

theorem closedOnceNested : ∃ w n w₁ m w₂ m₂,
    run (recording perform note) (fresh 3 ⟨true,true,false,true,false⟩ 64 4,noClosings) inMessage = some (w,n) ∧
    w.stack = [.messageCallback] ∧ recording perform note (w,n) (.act (.user .forceClose)) = some (w₁,m) ∧
    run (recording perform note) (w₁,m) forcedOut = some (w₂,m₂) ∧ w₂.stack = [.messageCallback] ∧
    m₂.callbacks = 1 ∧ m₂.closes = 1 ∧ w₂.conn.socket.fd = none := by
  have first : ∃ w n w₁ m w₂ m₂,
      run (recording perform note) (fresh 3 ⟨true,true,false,true,false⟩ 64 4,noClosings) inMessage = some (w,n) ∧
      w.stack = [.messageCallback] ∧ w.state = .connected ∧
      recording perform note (w,n) (.act (.user .forceClose)) = some (w₁,m) ∧ w₁.state = .disconnected ∧
      run (recording perform note) (w₁,m) forcedOut = some (w₂,m₂) ∧ w₂.stack = [.messageCallback] :=
    ⟨_,_,_,_,_,_,rfl,rfl,rfl,rfl,rfl,rfl,rfl⟩
  obtain ⟨w,n,w₁,m,w₂,m₂,reached,stack,state,taken,ended,rest,returned⟩ := first
  obtain ⟨_,_,_,closing⟩ := closedOnce (freshInitial _ _ _ _) rfl reached
  exact ⟨w,n,w₁,m,w₂,m₂,reached,stack,taken,rest,returned,
    closing _ _ _ _ _ (by simp [state]) taken ended _ rest (Nat.le_of_eq (by rw [stack, returned]))⟩

end TcFrame.Connection
