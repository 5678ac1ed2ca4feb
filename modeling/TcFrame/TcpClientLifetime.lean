import Mathlib.Data.Fintype.EquivFin
import TcFrame.TcpClientReconnect

/-! The end of a client. The close callback of its connections, the write callback of the
temporary channel and the timers of DoReconnect have the client's bare address: nothing keeps it
alive for them. The destructor only calls ForceClose on the connection, and what that does is done
when it returns only on the loop's own thread. -/
namespace TcFrame.TcpClient
open Endpoint EpollPoller Machine

/- What is left of a function of the client, or of the caller of one. -/
def Act.ofClient : Act → Bool
  | .conn _ .closeCallback | .connectTail _ | .temporaryTail _ _ | .closeCallback _ | .removeTail => true
  | _ => false

/- The calls that user code makes on the client. -/
def Action.isCall : Action → Bool
  | .connect _ _ _ | .disconnect | .setAutoReconnect _ => true
  | _ => false

def Action.thread : Action → Option ThreadId
  | .user t _ _ | .goOn t | .ret t => some t
  | .setAutoReconnect _ | .environment _ => none
  | _ => some loopThread

/- The steps that read or write a member of the client. -/
def touches (w : World) : Action → Bool
  | .goOn t | .ret t =>
    match w.stack t with
    | f :: _ => f.ofClient
    | [] => false
  | .temporaryEvent _ revents _ _ => !(revents.error || revents.hangUp || !revents.write)
  | .reconnect _ _ _ => true
  | a => a.isCall

/- `dying`: thread `t` is in the destructor, called with `below` on its stack. -/
inductive Stage where
  | alive
  | dying (t : ThreadId) (below : List Act)
  | dead
  deriving DecidableEq, Repr

structure Life where
  world : World
  stage : Stage

inductive LifeAction where
  | client (a : Action)
  | destroy (t : ThreadId)
  | destroyed
  deriving DecidableEq, Repr

def destructor (w : World) (t : ThreadId) : Effect :=
  match w.client.connection with
  | some c => callConn w t c .forceClose
  | none => (w,[])

/- User code no longer calls a client that it destroys, and what the destructor has called
returns before its caller goes on. -/
def permitted (s : Life) (a : Action) : Bool :=
  match s.stage with
  | .alive => true
  | .dying t below => !a.isCall && (a.thread != some t || s.world.stack t != below)
  | .dead => !a.isCall

/- The members are destroyed with the end of the destructor: m_socket closes what it stores. -/
def lifeStep (s : Life) : LifeAction → Option Life
  | .client a => if permitted s a then (step s.world a).map (fun w => { s with world := w }) else none
  | .destroy t =>
    if s.stage = .alive ∧ userRuns (s.world.stack t) = true then
      some ⟨settle t (s.world.stack t) (destructor s.world t),.dying t (s.world.stack t)⟩
    else none
  | .destroyed =>
    match s.stage with
    | .dying t below => if s.world.stack t = below then some ⟨resetSocket s.world,.dead⟩ else none
    | _ => none

/- A step that works on a client that is gone, or is being destroyed by another thread. -/
def strays (s : Life) : LifeAction → Bool
  | .client a =>
    match s.stage with
    | .alive => false
    | .dying t _ => touches s.world a && a.thread != some t
    | .dead => touches s.world a
  | _ => false

inductive LifeStep (s : Life) : LifeAction → Life → Prop where
  | client {a w} (free : permitted s a = true) (taken : step s.world a = some w) :
      LifeStep s (.client a) { s with world := w }
  | destroy {t} (alive : s.stage = .alive) (runs : userRuns (s.world.stack t) = true) :
      LifeStep s (.destroy t) ⟨settle t (s.world.stack t) (destructor s.world t),.dying t (s.world.stack t)⟩
  | destroyed {t below} (dying : s.stage = .dying t below) (ended : s.world.stack t = below) :
      LifeStep s .destroyed ⟨resetSocket s.world,.dead⟩

theorem lifeCases {s s' : Life} {a : LifeAction} (taken : lifeStep s a = some s') : LifeStep s a s' := by
  cases a with
  | client a =>
    simp only [lifeStep] at taken
    split at taken <;> try contradiction
    obtain ⟨w,went,same⟩ := Option.map_eq_some_iff.mp taken
    subst same
    exact .client (by assumption) went
  | destroy t =>
    simp only [lifeStep] at taken
    split at taken <;> cases taken
    rename_i ok
    exact .destroy ok.1 ok.2
  | destroyed =>
    simp only [lifeStep] at taken
    split at taken <;> try contradiction
    rename_i dying
    split at taken <;> cases taken
    exact .destroyed dying (by assumption)

/- When a client may be destroyed on thread `t`: nothing of it is executing on the loop, no timer
is armed, and its connection, if it is open, is closed on the loop's thread without a reconnect. -/
structure Safe (w : World) (t : ThreadId) : Prop where
  calm : ∀ a ∈ w.stack loopThread, a.ofClient = false
  timers : w.timers = 0
  up : ∀ c < w.next, (w.conns c).state ≠ .disconnected → t = loopThread ∧ w.client.connection = some c
  once : (w.client.autoReconnect && w.client.started) = false ∨ ∀ c < w.next, (w.conns c).state = .disconnected
  unheard : t ≠ loopThread → Idle w

/- No function brings a close callback to a connection that is Disconnected. -/
theorem changeQuiet {e e' : Endpoint} {frames : List Frame} (change : Change e e' frames)
    (ended : e.conn.state = .disconnected) : Frame.closeCallback ∉ frames := by
  cases change with
  | ignored => simp
  | established fresh => rw [fresh] at ended; cases ended
  | closed open_ done shape => exact absurd ended open_
  | received bs => exact callNot (by simp)
  | wrotePart connected accepted left => simp
  | wroteAll connected accepted left => exact callNot (by simp)
  | shutting pending => simp

theorem runQuiet {e : Endpoint} {f : Functor} (ended : e.conn.state = .disconnected) (other : f ≠ .connectEstablished) :
    Frame.closeCallback ∉ (e.run f).2 := by
  cases f with
  | sendInLoop m =>
    have off : e.conn.isConnected = false := by simp [TcpConnection.isConnected, ended]
    rw [Endpoint.run, sendInLoopRefused off]
    simp
  | connectEstablished => exact absurd rfl other
  | _ => exact changeQuiet (runChange e (by simp) (by simp)) ended

theorem resumeQuiet (e : Endpoint) (f : Frame) : Frame.closeCallback ∉ (e.resume f).2 := by
  cases f with
  | closeSocket =>
    simp only [Endpoint.resume, closeSocket]
    split <;> simp
  | _ => simp [Endpoint.resume]

/- HandleConnect sets the close callback and establishes at once: between two steps no
connection is Connecting. -/
def Established (w : World) : Prop := ∀ c < w.next, (w.conns c).state ≠ .connecting ∧ (w.conns c).callbacks.close = true

theorem establishedPut {w : World} (h : Established w) {c : ConnId} {e : Endpoint}
    (begun : (w.endpoint c).conn.state ≠ .connecting → e.conn.state ≠ .connecting) (same : Same (w.endpoint c) e) :
    Established (w.put c e) := by
  intro d known
  by_cases here : d = c
  · subst here
    rw [putSame, same.callbacks]
    exact ⟨begun (h d known).1,(h d known).2⟩
  · rw [putOther w e here]
    exact h d known

theorem establishedHandle {w : World} (h : Established w) (fd : Fd) (bufferSize : Nat) :
    Established (handleConnect w fd bufferSize).1 := by
  intro c made
  rcases Nat.lt_succ_iff_lt_or_eq.mp made with old | new
  · have other : c ≠ w.next := Nat.ne_of_lt old
    rw [handleConnect, ofConn, putOther _ _ other, adoptOther old]
    exact h c old
  · subst new
    have same := sameRun ((adopt w fd bufferSize).endpoint w.next) (f := .connectEstablished)
    rw [handleConnect, ofConn, putSame, same.callbacks, World.endpoint, adoptNew]
    exact ⟨by simp [Endpoint.run, connectEstablished, setState, enableReading],rfl⟩

theorem establishedReset {w : World} (h : Established w) : Established (resetSocket w) := by
  obtain ⟨conns,next,_⟩ := resetSocketRest w
  rw [Established, conns, next]
  exact h

theorem establishedConnect {w : World} (h : Established w) (fd : Fd) (bufferSize : Nat) (outcome : Outcome) :
    Established (connect w fd bufferSize outcome).1 := by
  have opened : Established (openSocket { w with client := { w.client with started := true, connecting := true } } fd) :=
    establishedReset (w := { w with client := { w.client with started := true, connecting := true } }) h
  unfold connect
  split
  · exact h
  · cases outcome with
    | connected => exact establishedHandle opened fd bufferSize
    | inProgress => exact opened
    | failed =>
      refine establishedReset ?_
      exact opened

theorem establishedRemoved {w : World} (h : Established w) (ch : Channel) : Established (removeTemporary w ch) := by
  unfold removeTemporary
  split <;> exact h

theorem establishedEvent {w : World} (h : Established w) {k : Nat} {ch : Channel} {revents : Revents} {err bufferSize : Nat}
    {out : Effect} (taken : handleEvent w k ch revents err bufferSize = some out) : Established out.1 := by
  unfold handleEvent at taken
  split at taken
  · cases taken
    exact h
  · unfold writeCallback at taken
    split at taken
    · cases taken
      refine establishedRemoved ?_ ch
      unfold retry
      split <;> exact h
    · split at taken <;> cases taken
      exact establishedHandle h _ bufferSize

theorem establishedStep {w w' : World} {a : Action} (plain : Plain w) (h : Established w) (taken : step w a = some w') :
    Established w' := by
  cases stepCases taken with
  | connect runs fresh => exact establishedConnect h _ _ _
  | disconnect runs =>
    unfold disconnect
    dsimp only
    split
    · exact establishedPut (w := { w with client := { w.client with autoReconnect := false, started := false } }) h
        (requestMonotone _ loopThread .shutdown).1 (sameRequest _ loopThread .shutdown)
    · exact h
  | setAutoReconnect => exact h
  | user runs known => exact establishedPut h (requestMonotone _ _ _).1 (sameRequest _ _ _)
  | close top => exact h
  | resume top own =>
    refine establishedPut h (fun begun => ?_) (sameResume _ _)
    rw [resumeState]
    exact begun
  | @run c f rest top => exact establishedPut h (runAdvances _ (plain.calls loopThread c f (by simp [top]))).begun (sameRun _)
  | post top other => exact h
  | connectTail top => exact establishedReset h
  | temporaryTail top => exact establishedRemoved (establishedReset h) _
  | removeTail top =>
    unfold removeTail
    split <;> exact h
  | ret top callback => exact h
  | runQueued idle head => exact h
  | event idle known ok =>
    exact establishedPut h (handleAdvances _ _).begun (sameChange (Connection.handleChange _ ok))
  | temporaryEvent idle waiting found watched out_ => exact establishedEvent h out_
  | reconnect idle fresh =>
    rw [doReconnectIgnored]
    exact h
  | environment done =>
    obtain ⟨_,_,_,_,same,_⟩ := environmentWithin done
    subst same
    exact h

/- What every step of a run keeps, with the client there or not. -/
structure Fine (w : World) : Prop where
  sound : Sound w
  plain : Plain w
  established : Established w

theorem fineInitial {w : World} (h : Initial w) : Fine w :=
  ⟨soundInitial h,plainInitial h,fun c made => by rw [h.nobody.1] at made; cases made⟩

theorem fineStep {w w' : World} {a : Action} (h : Fine w) (taken : step w a = some w') : Fine w' :=
  ⟨soundStep h.sound taken,plainStep h.plain taken,establishedStep h.plain h.established taken⟩

theorem soundClosed {w : World} (h : Sound w) : Sound (resetSocket w) := by
  have settled : Sound (settle loopThread (w.stack loopThread) (resetSocket w,[])) := soundReset h (List.suffix_refl _)
  rw [← (resetSocketRest w).2.2.2.1, settleSame] at settled
  exact settled

theorem fineReset {w : World} (h : Fine w) : Fine (resetSocket w) := by
  obtain ⟨_,_,_,stack,queue,_⟩ := resetSocketRest w
  have plain : Plain (settle loopThread (w.stack loopThread) (resetSocket w,[])) :=
    plainSettle h.plain (fun _ member => member) stack (fun x member => .inl (by rw [← queue]; exact member)) (by simp)
  rw [← stack, settleSame] at plain
  exact ⟨soundClosed h.sound,plain,establishedReset h.established⟩

/- Nothing has the address of the client, or nothing that does will be reported. -/
structure Gone (w : World) : Prop where
  sound : Sound w
  calm : ∀ a ∈ w.stack loopThread, a.ofClient = false
  timers : w.timers = 0
  ended : ∀ c < w.next, (w.conns c).state = .disconnected
  idle : Idle w

theorem goneSettle {w : World} (h : Gone w) {t : ThreadId} {below : List Act} {out : Effect}
    (sound : Sound (settle t below out)) (under : ∀ a ∈ below, a ∈ w.stack t) (stack : out.1.stack = w.stack)
    (timers : out.1.timers = w.timers) (o : Onward w out.1) (next : out.1.next = w.next) (idle : Idle out.1)
    (acts : ∀ a ∈ out.2, a.ofClient = false) : Gone (settle t below out) := by
  refine ⟨sound,fun a member => ?_,timers.trans h.timers,fun c known => ?_,idle⟩
  · simp only [settle, Function.update_apply] at member
    split at member
    · rename_i home
      rcases List.mem_append.mp member with new | old
      · exact acts a new
      · exact h.calm a (home ▸ under a old)
    · rw [stack] at member
      exact h.calm a member
  · have made : c < w.next := next ▸ known
    exact o.ended c made (h.ended c made)

/- A member function of a connection, all of which are Disconnected. -/
theorem goneConn {w : World} (h : Gone w) {below : List Act} {c : ConnId} {out : Endpoint × List Frame}
    (sound : Sound (settle loopThread below (ofConn w c out))) (under : ∀ a ∈ below, a ∈ w.stack loopThread)
    (known : c < w.next) (works : Works (w.endpoint c) out.1 out.2) (quiet : Frame.closeCallback ∉ out.2) :
    Gone (settle loopThread below (ofConn w c out)) := by
  have within : Within (w.conns c).channel.fd (connectionChannel c) w.poller w.isOpen out.1.poller out.1.isOpen := by
    rw [← h.sound.owned.id c known]
    exact works.inside
  refine goneSettle h sound under rfl rfl (onwardPut works) rfl (idleWithin h.idle within (temporaryNot c) rfl) ?_
  intro a member
  obtain ⟨f,made,same⟩ := List.mem_map.mp member
  subst same
  cases f with
  | closeCallback => exact absurd made quiet
  | _ => rfl

theorem goneCall {w : World} (h : Gone w) {t : ThreadId} {c : ConnId} (call : UserCall)
    (sound : Sound (settle t (w.stack t) (callConn w t c call))) : Gone (settle t (w.stack t) (callConn w t c call)) := by
  have poller : (callConn w t c call).1.poller = w.poller := requestPoller (w.endpoint c) t call
  refine goneSettle h sound (fun _ member => member) rfl rfl (onwardPut (worksRequest (w.endpoint c) t call)) rfl ?_ ?_
  · intro k ch waiting
    rw [poller]
    exact h.idle k ch waiting
  · intro a member
    obtain ⟨f,_,same⟩ := List.mem_map.mp member
    subst same
    rfl

theorem reconnectArmed {w w' : World} {fd : Fd} {bufferSize : Nat} {outcome : Outcome}
    (taken : step w (.reconnect fd bufferSize outcome) = some w') : 0 < w.timers := by
  simp only [step] at taken
  split at taken <;> cases taken
  rename_i ok
  exact ok.2.1

/- What a function of the client has left stands on the loop's stack. -/
theorem clientHome {w : World} (h : Sound w) {t : ThreadId} {f : Act} {below : List Act} (top : w.stack t = f :: below)
    (own : f.ofClient = true) : t = loopThread := by
  have fits := h.fits t f (by simp [top])
  cases f with
  | conn c f => exact fits.1
  | call c f => cases own
  | connectTail c => exact fits.1
  | temporaryTail ch c => exact fits.1
  | closeCallback c => exact fits
  | removeTail => exact fits

theorem goneForeign {w : World} (h : Gone w) {t : ThreadId} {f : Act} {below : List Act} (top : w.stack t = f :: below) :
    f.ofClient = false := by
  by_contra own
  have own' : f.ofClient = true := by simpa using own
  have home := clientHome h.sound top own'
  subst home
  rw [h.calm f (by simp [top])] at own'
  cases own'

theorem goneStep {w w' : World} {a : Action} (h : Gone w) (other : a.isCall = false) (taken : step w a = some w') :
    Gone w' := by
  have sound := soundStep h.sound taken
  have under : ∀ {t f rest}, w.stack t = f :: rest → ∀ a ∈ rest, a ∈ w.stack t := by
    intro t f rest top a member
    rw [top]
    exact List.mem_cons_of_mem _ member
  cases stepCases taken with
  | connect | disconnect | setAutoReconnect => cases other
  | user runs known => exact goneCall h _ sound
  | close top => cases goneForeign h top
  | @resume t c f rest top own =>
    obtain ⟨home,known,ended⟩ := h.sound.fits t (.conn c f) (by simp [top])
    subst home
    exact goneConn h sound (under top) known (worksResume (h.sound.owned.stored c known) ended) (resumeQuiet _ f)
  | @run c f rest top =>
    obtain ⟨known,other⟩ := h.sound.fits loopThread (.call c f) (by simp [top])
    exact goneConn h sound (under top) known (worksRun _ (fun same => absurd same other))
      (runQuiet (h.ended c known) other)
  | post top away => exact goneSettle h sound (under top) rfl rfl (onwardSame rfl rfl rfl) rfl h.idle (by simp)
  | connectTail top => cases goneForeign h top
  | temporaryTail top => cases goneForeign h top
  | removeTail top => cases goneForeign h top
  | ret top callback => exact goneSettle h sound (under top) rfl rfl (onwardSame rfl rfl rfl) rfl h.idle (by simp)
  | runQueued idle head =>
    refine goneSettle h sound (by simp) rfl rfl (onwardSame rfl rfl rfl) rfl h.idle ?_
    intro a member
    rw [List.mem_singleton.mp member]
    rfl
  | event idle known ok =>
    exact goneConn h sound (by simp) known (worksHandle _ ok)
      (changeQuiet (Connection.handleChange _ ok) (h.ended _ known))
  | temporaryEvent idle waiting found watched out_ => exact absurd ⟨found,watched⟩ (h.idle _ _ waiting).2
  | reconnect idle fresh =>
    have armed := reconnectArmed taken
    rw [h.timers] at armed
    exact absurd armed (Nat.lt_irrefl 0)
  | environment done =>
    obtain ⟨fd,id,poller,isOpen,same,_,foreign,within⟩ := environmentWithin done
    subst same
    refine ⟨sound,h.calm,h.timers,h.ended,idleWithin h.idle within (fun k here => ?_) rfl⟩
    rw [← here] at foreign
    simp only [isForeign, temporaryChannel, beq_iff_eq] at foreign
    omega

/- No step touches a client that is gone, and no call is made on it. -/
theorem goneUntouched {w w' : World} {a : Action} (h : Gone w) (other : a.isCall = false) (taken : step w a = some w') :
    touches w a = false := by
  cases a with
  | goOn t | ret t =>
    simp only [touches]
    split
    · rename_i top
      exact goneForeign h top
    · rfl
  | temporaryEvent k revents err bufferSize =>
    cases stepCases taken with
    | temporaryEvent idle waiting found watched out_ => exact absurd ⟨found,watched⟩ (h.idle _ _ waiting).2
  | reconnect fd bufferSize outcome =>
    have armed := reconnectArmed taken
    rw [h.timers] at armed
    exact absurd armed (Nat.lt_irrefl 0)
  | _ => exact other

/- On the loop's thread: what the destructor has called closes every connection that is
still open before it returns, and no reconnect follows. -/
structure Closing (w : World) (below : List Act) : Prop where
  fine : Fine w
  timers : w.timers = 0
  calm : ∀ a ∈ below, a.ofClient = false
  shuts : ∃ top, w.stack loopThread = top ++ below ∧
    ((w.client.autoReconnect && w.client.started) = false ∨ top = []) ∧
    ∀ c < w.next, (w.conns c).state ≠ .disconnected → .call c .forceCloseInLoop ∈ top

/- While the destructor's calls are on the stack, no reconnect is wanted. -/
theorem closingBusy {w : World} {below : List Act} (h : Closing w below) (busy : w.stack loopThread ≠ below) :
    (w.client.autoReconnect && w.client.started) = false := by
  obtain ⟨top,stack,flags,_⟩ := h.shuts
  exact flags.resolve_right (fun none_ => busy (by rw [stack, none_, List.nil_append]))

/- The loop's thread takes the next of the destructor's calls off its stack. -/
theorem closingPop {w : World} {below rest : List Act} {f : Act} (h : Closing w below)
    (busy : w.stack loopThread ≠ below) (first : w.stack loopThread = f :: rest) {out : Effect}
    (fine : Fine (settle loopThread rest out)) (timers : out.1.timers = w.timers)
    (off : (w.client.autoReconnect && w.client.started) = false →
      (out.1.client.autoReconnect && out.1.client.started) = false)
    (still : ∀ c < out.1.next, (out.1.conns c).state ≠ .disconnected →
      c < w.next ∧ (w.conns c).state ≠ .disconnected ∧ f ≠ .call c .forceCloseInLoop) :
    Closing (settle loopThread rest out) below := by
  have quiet := off (closingBusy h busy)
  obtain ⟨top,stack,_,calls⟩ := h.shuts
  obtain ⟨left,same,under⟩ : ∃ left, top = f :: left ∧ rest = left ++ below := by
    cases top with
    | nil => exact absurd stack busy
    | cons g left =>
      rw [stack, List.cons_append] at first
      obtain ⟨here,there⟩ := List.cons.inj first
      exact ⟨left,by rw [here],there.symm⟩
  refine ⟨fine,timers.trans h.timers,h.calm,out.2 ++ left,by simp [settle, under],.inl quiet,fun c made up => ?_⟩
  obtain ⟨known,open_,differs⟩ := still c made up
  have member := calls c known open_
  rw [same] at member
  exact List.mem_append_right _ ((List.mem_cons.mp member).resolve_left (fun here => differs here.symm))

/- A step that adds to the loop's stack, or leaves it alone. -/
theorem closingKeep {w w' : World} {below acts : List Act} (h : Closing w below) (fine : Fine w')
    (stack : w'.stack loopThread = acts ++ w.stack loopThread) (quiet : acts = [] ∨ w.stack loopThread ≠ below)
    (client : w'.client = w.client) (timers : w'.timers = w.timers)
    (still : ∀ c < w'.next, (w'.conns c).state ≠ .disconnected → c < w.next ∧ (w.conns c).state ≠ .disconnected) :
    Closing w' below := by
  obtain ⟨top,stack',flags,calls⟩ := h.shuts
  refine ⟨fine,timers.trans h.timers,h.calm,acts ++ top,?_,?_,fun c made up => ?_⟩
  · rw [stack, stack', List.append_assoc]
  · rw [client]
    rcases quiet with none_ | busy
    · rw [none_]
      exact flags
    · exact .inl (closingBusy h busy)
  · obtain ⟨known,open_⟩ := still c made up
    exact List.mem_append_right _ (calls c known open_)

/- No event is handled before the destructor has returned. -/
theorem closingIdle {w : World} {below : List Act} (h : Closing w below) (idle : w.stack loopThread = []) :
    w.stack loopThread = below := by
  obtain ⟨top,stack,_,_⟩ := h.shuts
  rw [idle] at stack ⊢
  exact (List.append_eq_nil_iff.mp stack.symm).2.symm

theorem settleAside {w : World} {t : ThreadId} {below : List Act} {out : Effect} (away : t ≠ loopThread)
    (stack : out.1.stack = w.stack) : (settle t below out).stack loopThread = [] ++ w.stack loopThread := by
  simp only [settle, Function.update_of_ne (Ne.symm away), stack, List.nil_append]

theorem closingStep {w w' : World} {below : List Act} {a : Action} (h : Closing w below) (other : a.isCall = false)
    (turn : a.thread = some loopThread → w.stack loopThread ≠ below) (taken : step w a = some w') : Closing w' below := by
  have fine := fineStep h.fine taken
  have fits : ∀ {t f rest}, w.stack t = f :: rest → f.Fits w t := by
    intro t f rest first
    exact h.fine.sound.fits t f (by simp [first])
  cases stepCases taken with
  | connect | disconnect | setAutoReconnect => cases other
  | @user t c call runs known =>
    have o : Onward w (callConn w t c call).1 := onwardPut (worksRequest (w.endpoint c) t call)
    have still : ∀ d < w.next, ((callConn w t c call).1.conns d).state ≠ .disconnected →
        d < w.next ∧ (w.conns d).state ≠ .disconnected :=
      fun d made up => ⟨made,fun ended => up (o.ended d made ended)⟩
    by_cases home : t = loopThread
    · subst home
      have pushed : (settle loopThread (w.stack loopThread) (callConn w loopThread c call)).stack loopThread =
          (callConn w loopThread c call).2 ++ w.stack loopThread := by simp [settle]
      exact closingKeep h fine pushed (.inr (turn rfl)) rfl rfl still
    · exact closingKeep h fine (settleAside home rfl) (.inl rfl) rfl rfl still
  | @close t c rest first =>
    have home := clientHome h.fine.sound first rfl
    subst home
    exact closingPop h (turn rfl) first fine rfl (fun off => off) (fun d made up => ⟨made,up,by simp⟩)
  | @resume t c f rest first own =>
    obtain ⟨home,known,ended⟩ := fits first
    subst home
    have o := onwardPut (worksResume (h.fine.sound.owned.stored c known) ended)
    exact closingPop h (turn rfl) first fine rfl (fun off => off)
      (fun d made up => ⟨made,fun ended => up (o.ended d made ended),by simp⟩)
  | @run c f rest first =>
    obtain ⟨known,other⟩ := fits first
    have o := onwardPut (worksRun (w.endpoint c) (fun same => absurd same other))
    refine closingPop h (turn rfl) first fine rfl (fun off => off)
      (fun d made up => ⟨made,fun ended => up (o.ended d made ended),?_⟩)
    rintro ⟨rfl⟩
    refine up ?_
    rw [ofConn, putSame]
    exact forceCloseOver (h.fine.established c known).1
  | post first away =>
    exact closingKeep h fine (settleAside away rfl) (.inl rfl) rfl rfl (fun d made up => ⟨made,up⟩)
  | @connectTail t c rest first =>
    have home := clientHome h.fine.sound first rfl
    subst home
    obtain ⟨conns,next,_⟩ := resetSocketRest w
    obtain ⟨client,_,timers⟩ := resetSocketFlags w
    refine closingPop h (turn rfl) first fine timers (fun off => ?_) (fun d made up => ⟨next ▸ made,?_,by simp⟩)
    · rw [client]
      exact off
    · rwa [conns] at up
  | @temporaryTail t ch c rest first =>
    have home := clientHome h.fine.sound first rfl
    subst home
    obtain ⟨conns,next,_⟩ := resetSocketRest w
    obtain ⟨client,_,timers⟩ := resetSocketFlags w
    have removed : (removeTemporary (resetSocket w) ch).conns = (resetSocket w).conns ∧
        (removeTemporary (resetSocket w) ch).next = (resetSocket w).next ∧
        (removeTemporary (resetSocket w) ch).client = (resetSocket w).client ∧
        (removeTemporary (resetSocket w) ch).timers = (resetSocket w).timers := by
      unfold removeTemporary
      split <;> exact ⟨rfl,rfl,rfl,rfl⟩
    obtain ⟨conns',next',client',timers'⟩ := removed
    refine closingPop h (turn rfl) first fine (timers'.trans timers) (fun off => ?_) (fun d made up => ⟨?_,?_,by simp⟩)
    · rw [client', client]
      exact off
    · rw [← next, ← next']
      exact made
    · rwa [conns', conns] at up
  | @removeTail t rest first =>
    have home := clientHome h.fine.sound first rfl
    subst home
    have stops : removeTail w = { w with client := { w.client with started := false } } := by
      simp [removeTail, closingBusy h (turn rfl)]
    rw [stops] at fine ⊢
    exact closingPop h (turn rfl) first fine rfl (by simp) (fun d made up => ⟨made,up,by simp⟩)
  | @ret t f rest first callback =>
    have home : t = loopThread := by
      have fits := fits first
      cases f with
      | conn c f => exact fits.1
      | closeCallback c => exact fits
      | _ => cases callback
    subst home
    exact closingPop h (turn rfl) first fine rfl (fun off => off)
      (fun d made up => ⟨made,up,by rintro ⟨rfl⟩; cases callback⟩)
  | runQueued idle head => exact absurd (closingIdle h idle) (turn rfl)
  | event idle known ok => exact absurd (closingIdle h idle) (turn rfl)
  | temporaryEvent idle waiting found watched out_ => exact absurd (closingIdle h idle) (turn rfl)
  | reconnect idle fresh => exact absurd (closingIdle h idle) (turn rfl)
  | environment done =>
    obtain ⟨_,_,_,_,same,_⟩ := environmentWithin done
    subst same
    exact closingKeep h fine rfl (.inl rfl) rfl rfl (fun d made up => ⟨made,up⟩)

theorem fineDestructor {w : World} (h : Fine w) (t : ThreadId) : Fine (settle t (w.stack t) (destructor w t)) := by
  unfold destructor
  split
  · rename_i c connection
    exact ⟨soundCall h.sound t (h.sound.owned.connection c connection) .forceClose,plainCall h.plain t c .forceClose,
      establishedPut h.established (requestMonotone _ t .forceClose).1 (sameRequest _ t .forceClose)⟩
  · rw [settleSame]
    exact h

theorem destructorRest (w : World) (t : ThreadId) :
    (destructor w t).1.stack = w.stack ∧ (destructor w t).1.client = w.client ∧ (destructor w t).1.next = w.next ∧
    (destructor w t).1.timers = w.timers ∧ (destructor w t).1.temporaries = w.temporaries ∧
    (destructor w t).1.poller = w.poller ∧
    ∀ d < w.next, ((w.conns d).state = .disconnected ↔ ((destructor w t).1.conns d).state = .disconnected) := by
  unfold destructor
  split
  · rename_i c connection
    refine ⟨rfl,rfl,rfl,rfl,rfl,requestPoller (w.endpoint c) t .forceClose,fun d made => ⟨fun ended => ?_,fun ended => ?_⟩⟩
    · exact (onwardPut (worksRequest (w.endpoint c) t .forceClose)).ended d made ended
    · by_cases here : d = c
      · subst here
        simp only [callConn, putSame] at ended
        exact (requestMonotone (w.endpoint d) t .forceClose).2 ended
      · simpa [callConn, here] using ended
  · exact ⟨rfl,rfl,rfl,rfl,rfl,rfl,fun d _ => Iff.rfl⟩

/- What the destruction keeps, from the destructor's call on. -/
inductive Kept : Life → Prop where
  | closing {w below} (h : Closing w below) : Kept ⟨w,.dying loopThread below⟩
  | elsewhere {w t below} (away : t ≠ loopThread) (h : Gone w) : Kept ⟨w,.dying t below⟩
  | gone {w} (h : Gone w) : Kept ⟨w,.dead⟩

theorem goneReset {w : World} (sound : Sound w) (calm : ∀ a ∈ w.stack loopThread, a.ofClient = false)
    (timers : w.timers = 0) (ended : ∀ c < w.next, (w.conns c).state = .disconnected) : Gone (resetSocket w) := by
  obtain ⟨conns,next,_,stack,_⟩ := resetSocketRest w
  refine ⟨soundClosed sound,?_,(resetSocketFlags w).2.2.trans timers,?_,idleReset sound.temporary⟩
  · rw [stack]
    exact calm
  · rw [conns, next]
    exact ended

theorem openState {e : Endpoint} (begun : e.conn.state ≠ .connecting) (up : e.conn.state ≠ .disconnected) :
    e.isOpenState = true := by
  by_contra shut
  exact up (shutState (by simpa using shut) begun)

theorem forceCloseHands {e : Endpoint} (t : ThreadId) (begun : e.conn.state ≠ .connecting)
    (up : e.conn.state ≠ .disconnected) : (e.request t .forceClose).2 = some .forceCloseInLoop := by
  simp [Endpoint.request, forceClose, openState begun up]

theorem forceCloseNothing {e : Endpoint} (t : ThreadId) (ended : e.conn.state = .disconnected) :
    (e.request t .forceClose).2 = none := by
  simp [Endpoint.request, forceClose, isOpenState, ended]

theorem keptDestroy {w : World} {t : ThreadId} (fine : Fine w) (safe : Safe w t) :
    Kept ⟨settle t (w.stack t) (destructor w t),.dying t (w.stack t)⟩ := by
  by_cases home : t = loopThread
  · subst home
    obtain ⟨_,client,_,timers,_,_,monotone⟩ := destructorRest w loopThread
    refine .closing ⟨fineDestructor fine loopThread,timers.trans safe.timers,safe.calm,(destructor w loopThread).2,
      by simp [settle],?_,fun d made up => ?_⟩
    · rcases safe.once with off | ended
      · exact .inl (by rw [settle, client]; exact off)
      · refine .inr ?_
        unfold destructor
        split
        · rename_i c connection
          have nothing : ((w.endpoint c).request loopThread .forceClose).2 = none :=
            forceCloseNothing loopThread (ended c (fine.sound.owned.connection c connection))
          simp [callConn, nothing]
        · rfl
    · have made' : d < w.next := by rw [← (destructorRest w loopThread).2.2.1]; exact made
      have up' : (w.conns d).state ≠ .disconnected := fun ended => up ((monotone d made').mp ended)
      have handed : ((w.endpoint d).request loopThread .forceClose).2 = some .forceCloseInLoop :=
        forceCloseHands loopThread (fine.established d made').1 up'
      simp [destructor, (safe.up d made' up').2, callConn, handed]
  · have ended : ∀ c < w.next, (w.conns c).state = .disconnected := by
      intro c made
      by_contra up
      exact home (safe.up c made up).1
    have gone : Gone w := ⟨fine.sound,safe.calm,safe.timers,ended,safe.unheard home⟩
    refine .elsewhere home ?_
    unfold destructor
    split
    · rename_i c connection
      exact goneCall gone .forceClose (soundCall fine.sound t (fine.sound.owned.connection c connection) .forceClose)
    · rw [settleSame]
      exact gone

theorem keptStep {s s' : Life} {a : LifeAction} (h : Kept s) (taken : lifeStep s a = some s') :
    Kept s' ∧ strays s a = false := by
  cases h with
  | @closing w below h =>
    cases lifeCases taken with
    | @client a w' free went =>
      simp only [permitted, Bool.and_eq_true, Bool.not_eq_true', Bool.or_eq_true, bne_iff_ne] at free
      obtain ⟨other,turn⟩ := free
      refine ⟨.closing (closingStep h other (fun home => turn.resolve_left (fun away => away home)) went),?_⟩
      simp only [strays, Bool.and_eq_false_iff, bne_eq_false_iff_eq]
      cases a with
      | goOn t | ret t =>
        simp only [touches, Action.thread, Option.some.injEq]
        split
        · rename_i f rest top
          cases own : f.ofClient with
          | false => exact .inl rfl
          | true => exact .inr (clientHome h.fine.sound top own)
        · exact .inl rfl
      | temporaryEvent => exact .inr rfl
      | reconnect => exact .inr rfl
      | _ => exact .inl other
    | destroy alive => cases alive
    | @destroyed t below dying ended =>
      cases dying
      obtain ⟨top,stack,_,calls⟩ := h.shuts
      have back : w.stack loopThread = below := ended
      have returned : top = [] := by
        rw [back] at stack
        simpa using stack
      subst returned
      refine ⟨.gone (goneReset h.fine.sound ?_ h.timers (fun c known => ?_)),rfl⟩
      · rw [back]
        exact h.calm
      · by_contra up
        cases calls c known up
  | @elsewhere w t below away h =>
    cases lifeCases taken with
    | @client a w' free went =>
      simp only [permitted, Bool.and_eq_true, Bool.not_eq_true'] at free
      exact ⟨.elsewhere away (goneStep h free.1 went),by simp [strays, goneUntouched h free.1 went]⟩
    | destroy alive => cases alive
    | destroyed dying ended => exact ⟨.gone (goneReset h.sound h.calm h.timers h.ended),rfl⟩
  | @gone w h =>
    cases lifeCases taken with
    | @client a w' free went =>
      simp only [permitted, Bool.not_eq_true'] at free
      exact ⟨.gone (goneStep h free went),goneUntouched h free went⟩
    | destroy alive => cases alive
    | destroyed dying => cases dying

theorem fineLife {s s' : Life} {a : LifeAction} (h : Fine s.world) (taken : lifeStep s a = some s') : Fine s'.world := by
  cases lifeCases taken with
  | client free went => exact fineStep h went
  | destroy alive runs => exact fineDestructor h _
  | destroyed dying ended => exact fineReset h

/- A continuation in which some step strays. -/
def Strayed (s : Life) : Prop :=
  ∃ bs u b u', run lifeStep s bs = some u ∧ lifeStep u b = some u' ∧ strays u b = true

theorem strayedAfter {s m : Life} {bs : List LifeAction} (first : run lifeStep s bs = some m) (h : Strayed m) :
    Strayed s := by
  obtain ⟨cs,u,b,u',later,went,stray⟩ := h
  exact ⟨bs ++ cs,u,b,u',runAppend first later,went,stray⟩

/- Steps of the loop's thread touch a client that another thread destroys, or has been destroyed. -/
def Behind (stage : Stage) : Prop :=
  stage = .dead ∨ ∃ t below, t ≠ loopThread ∧ stage = .dying t below

theorem otherThread {t : ThreadId} (away : t ≠ loopThread) {a : Action}
    (mine : a.thread = some loopThread ∨ a.thread = none) : a.thread ≠ some t := by
  rcases mine with home | nobody
  · rw [home]
    exact fun same => away (Option.some.inj same).symm
  · simp [nobody]

theorem behindPermits {stage : Stage} (h : Behind stage) (w : World) {a : Action} (other : a.isCall = false)
    (mine : a.thread = some loopThread ∨ a.thread = none) : permitted ⟨w,stage⟩ a = true := by
  rcases h with dead | ⟨t,below,away,dying⟩
  · subst dead
    simp [permitted, other]
  · subst dying
    simp [permitted, other, otherThread away mine]

theorem behindStrays {stage : Stage} (h : Behind stage) {w : World} {a : Action} (mine : a.thread = some loopThread)
    (touched : touches w a = true) : strays ⟨w,stage⟩ (.client a) = true := by
  rcases h with dead | ⟨t,below,away,dying⟩
  · subst dead
    exact touched
  · subst dying
    simp [strays, touched, otherThread away (.inl mine)]

theorem behindStep {stage : Stage} (h : Behind stage) {w w' : World} {a : Action} (other : a.isCall = false)
    (mine : a.thread = some loopThread ∨ a.thread = none) (taken : step w a = some w') :
    lifeStep ⟨w,stage⟩ (.client a) = some ⟨w',stage⟩ := by
  simp [lifeStep, behindPermits h w other mine, taken]

theorem straysNow {stage : Stage} (h : Behind stage) {w w' : World} {a : Action} (other : a.isCall = false)
    (mine : a.thread = some loopThread) (touched : touches w a = true) (taken : step w a = some w') :
    Strayed ⟨w,stage⟩ :=
  ⟨[],⟨w,stage⟩,.client a,⟨w',stage⟩,rfl,behindStep h other (.inl mine) taken,behindStrays h mine touched⟩

theorem unusedThere (w : World) : ∃ fd, w.uses fd = false := by
  obtain ⟨fd,fresh⟩ := Infinite.exists_notMem_finset
    ((w.client.socket.getD none).toList ++ (List.range w.next).filterMap (fun c => (w.conns c).socket.fd)).toFinset
  refine ⟨fd,?_⟩
  simp only [List.mem_toFinset, List.mem_append, Option.mem_toList, List.mem_filterMap, List.mem_range, not_or,
    not_exists, not_and] at fresh
  simp only [World.uses, Bool.or_eq_false_iff, List.any_eq_false, List.mem_range, beq_eq_false_iff_ne, beq_iff_eq]
  refine ⟨fun own => fresh.1 ?_,fun c made => fresh.2 c made⟩
  simp [own]

/- An armed timer runs DoReconnect on the client that is no more. -/
theorem timerStrays {stage : Stage} (h : Behind stage) {w : World} (idle : w.stack loopThread = [])
    (armed : 0 < w.timers) : Strayed ⟨w,stage⟩ := by
  obtain ⟨fd,unused⟩ := unusedThere w
  obtain ⟨w',made⟩ : ∃ w', w' = { w with isOpen := Function.update w.isOpen fd false, poller := w.poller.closed fd } :=
    ⟨_,rfl⟩
  have closes : step w (.environment (.closes fd)) = some w' := by simp [step, environment, unused, made]
  have fresh : isFresh w' fd = true := by
    have unused' : w'.uses fd = false := by rw [made]; exact unused
    have shut : w'.isOpen fd = false := by rw [made]; exact Function.update_self _ _ _
    simp [isFresh, unused', shut]
  have fires : step w' (.reconnect fd 0 .failed) =
      some (settle loopThread [] (doReconnect { w' with timers := w'.timers - 1 } fd 0 .failed)) := by
    rw [step, if_pos ⟨by rw [made]; exact idle,by rw [made]; exact armed,fresh⟩]
  have shuts : run lifeStep ⟨w,stage⟩ [.client (.environment (.closes fd))] = some ⟨w',stage⟩ :=
    runCons.mpr ⟨_,behindStep h rfl (.inr rfl) closes,rfl⟩
  exact strayedAfter shuts (straysNow h rfl rfl rfl fires)

/- The loop's thread works on what is above the destructor's caller, or after the destructor. -/
theorem goesOn {stage : Stage} (h : Behind stage ∨ stage = .dying loopThread []) {w w' : World}
    (busy : w.stack loopThread ≠ []) (taken : step w (.goOn loopThread) = some w') :
    lifeStep ⟨w,stage⟩ (.client (.goOn loopThread)) = some ⟨w',stage⟩ := by
  rcases h with behind | dying
  · exact behindStep behind rfl (.inl rfl) taken
  · subst dying
    have free : permitted ⟨w,.dying loopThread []⟩ (.goOn loopThread) = true := by simp [permitted, Action.isCall, busy]
    simp [lifeStep, free, taken]

theorem forceCloses {e : Endpoint} (begun : e.conn.state ≠ .connecting) (up : e.conn.state ≠ .disconnected)
    (heard : e.conn.callbacks.close = true) : e.run .forceCloseInLoop = (e.disconnect,[.closeSocket,.closeCallback]) := by
  simp [Endpoint.run, forceCloseInLoop, openState begun up, heard, TcpConnection.call]

/- ForceCloseInLoop on an open connection, up to its close callback. -/
theorem closesDown {stage : Stage} (h : Behind stage ∨ stage = .dying loopThread []) {w : World} (fine : Fine w)
    {c : ConnId} (known : c < w.next) (up : (w.conns c).state ≠ .disconnected)
    (top : w.stack loopThread = [.call c .forceCloseInLoop]) :
    ∃ bs w', run lifeStep ⟨w,stage⟩ bs = some ⟨w',stage⟩ ∧ w'.stack loopThread = [.conn c .closeCallback] ∧
      w'.client = w.client ∧ w'.timers = w.timers ∧ w'.next = w.next ∧ ∀ d ≠ c, w'.conns d = w.conns d := by
  obtain ⟨begun,heard⟩ := fine.established c known
  have valid := (fine.sound.owned.up c known up).1
  obtain ⟨w1,first⟩ : ∃ w1, w1 = settle loopThread []
      (w.put c (w.endpoint c).disconnect,[.conn c .closeSocket,.conn c .closeCallback]) := ⟨_,rfl⟩
  have one : step w (.goOn loopThread) = some w1 := by
    simp [step, top, goOn, ofConn, forceCloses (e := w.endpoint c) begun up heard, first]
  have stack1 : w1.stack loopThread = [.conn c .closeSocket,.conn c .closeCallback] := by simp [first, settle]
  have valid1 : (w1.conns c).socket.fd = some (w.conns c).channel.fd := by
    rw [first]
    simp only [settle, putSame, (disconnectClosed (w.endpoint c)).socket]
    exact valid
  obtain ⟨w2,second⟩ : ∃ w2, w2 = settle loopThread [.conn c .closeCallback]
      (w1.put c ((w1.endpoint c).closeSocket).1,[.conn c .invalidateSocket]) := ⟨_,rfl⟩
  have two : step w1 (.goOn loopThread) = some w2 := by
    simp [step, stack1, goOn, Frame.isCallback, ofConn, Endpoint.resume, closeSocket, World.endpoint, valid1, second]
  have stack2 : w2.stack loopThread = [.conn c .invalidateSocket,.conn c .closeCallback] := by simp [second, settle]
  obtain ⟨w3,third⟩ : ∃ w3, w3 = settle loopThread [.conn c .closeCallback]
      (w2.put c (w2.endpoint c).invalidateSocket,[]) := ⟨_,rfl⟩
  have three : step w2 (.goOn loopThread) = some w3 := by
    simp [step, stack2, goOn, Frame.isCallback, ofConn, Endpoint.resume, third]
  refine ⟨[.client (.goOn loopThread),.client (.goOn loopThread),.client (.goOn loopThread)],w3,?_,?_,?_,?_,?_,?_⟩
  · refine runCons.mpr ⟨_,goesOn h (by simp [top]) one,runCons.mpr ⟨_,goesOn h (by simp [stack1]) two,?_⟩⟩
    exact runCons.mpr ⟨_,goesOn h (by simp [stack2]) three,rfl⟩
  · simp [third, settle]
  · simp [third, second, first, settle, World.put]
  · simp [third, second, first, settle, World.put]
  · simp [third, second, first, settle, World.put]
  · intro d other
    simp [third, second, first, settle, other]

/- A connection that is open can be closed later, and HandleRemoveConnection runs. -/
theorem openStrays {stage : Stage} (h : Behind stage) {w : World} (fine : Fine w) (idle : w.stack loopThread = [])
    {c : ConnId} (known : c < w.next) (up : (w.conns c).state ≠ .disconnected) : Strayed ⟨w,stage⟩ := by
  obtain ⟨w1,first⟩ : ∃ w1, w1 = settle loopThread (w.stack loopThread) (callConn w loopThread c .forceClose) := ⟨_,rfl⟩
  have called : step w (.user loopThread c .forceClose) = some w1 := by
    rw [step, if_pos ⟨by simp [idle, userRuns],known⟩, first]
  have handed : ((w.endpoint c).request loopThread .forceClose).2 = some .forceCloseInLoop :=
    forceCloseHands loopThread (fine.established c known).1 up
  have top : w1.stack loopThread = [.call c .forceCloseInLoop] := by
    simp [first, settle, callConn, handed, idle]
  have up1 : (w1.conns c).state ≠ .disconnected := by
    rw [first]
    simp only [settle, callConn, putSame]
    exact fun ended => up ((requestMonotone (w.endpoint c) loopThread .forceClose).2 ended)
  have known1 : c < w1.next := by rw [first]; exact known
  obtain ⟨bs,w2,went,top2,_⟩ := closesDown (.inl h) (fineStep fine called) known1 up1 top
  have removes : step w2 (.goOn loopThread) = some (settle loopThread [] (handleRemoveConnection w2 c)) := by
    simp [step, top2, goOn]
  refine strayedAfter (runCons.mpr ⟨_,behindStep h rfl (.inl rfl) called,went⟩) ?_
  exact straysNow h rfl rfl (by simp [touches, top2, Act.ofClient]) removes

/- HandleRemoveConnection inside the destructor, with what the user's callback does left out. -/
theorem removesInside {w : World} {c : ConnId} (top : w.stack loopThread = [.conn c .closeCallback]) :
    ∃ bs w', run lifeStep ⟨w,.dying loopThread []⟩ bs = some ⟨w',.dying loopThread []⟩ ∧ w'.stack loopThread = [] ∧
      w'.conns = w.conns ∧ w'.next = w.next ∧ w.timers ≤ w'.timers ∧
      ((w.client.autoReconnect && w.client.started) = true → 0 < w'.timers) := by
  obtain ⟨w1,first⟩ : ∃ w1, w1 = settle loopThread [] (handleRemoveConnection w c) := ⟨_,rfl⟩
  have one : step w (.goOn loopThread) = some w1 := by simp [step, top, goOn, first]
  have flags : w1.client.autoReconnect = w.client.autoReconnect ∧ w1.client.started = w.client.started := by
    rw [first]
    exact ⟨rfl,rfl⟩
  -- with the user's callback returned, only the rest of HandleRemoveConnection is left
  obtain ⟨bs,w2,returned,stack2,client,conns,next,timers⟩ : ∃ bs w2,
      run lifeStep ⟨w1,.dying loopThread []⟩ bs = some ⟨w2,.dying loopThread []⟩ ∧
      w2.stack loopThread = [.removeTail] ∧ w2.client = w1.client ∧ w2.conns = w.conns ∧ w2.next = w.next ∧
      w2.timers = w.timers := by
    cases heard : w.client.closeCallback with
    | false =>
      refine ⟨[],w1,rfl,?_,rfl,?_,?_,?_⟩ <;> simp [first, settle, handleRemoveConnection, heard]
    | true =>
      have stack1 : w1.stack loopThread = [.closeCallback c,.removeTail] := by
        simp [first, settle, handleRemoveConnection, heard]
      have returns : lifeStep ⟨w1,.dying loopThread []⟩ (.client (.ret loopThread)) =
          some ⟨settle loopThread [.removeTail] (w1,[]),.dying loopThread []⟩ := by
        simp [lifeStep, permitted, Action.isCall, step, stack1, isCallback]
      refine ⟨[.client (.ret loopThread)],_,runCons.mpr ⟨_,returns,rfl⟩,?_,rfl,?_,?_,?_⟩ <;>
        simp [first, settle, handleRemoveConnection]
  have three : step w2 (.goOn loopThread) = some (settle loopThread [] (removeTail w2,[])) := by
    simp [step, stack2, goOn]
  have whole : run lifeStep ⟨w,.dying loopThread []⟩ (.client (.goOn loopThread) :: (bs ++ [.client (.goOn loopThread)])) =
      some ⟨settle loopThread [] (removeTail w2,[]),.dying loopThread []⟩ :=
    runCons.mpr ⟨_,goesOn (.inr rfl) (by simp [top]) one,
      runAppend returned (runCons.mpr ⟨_,goesOn (.inr rfl) (by simp [stack2]) three,rfl⟩)⟩
  refine ⟨_,_,whole,by simp [settle],?_,?_,?_,fun on => ?_⟩
  · simp only [settle, removeTail]
    split <;> exact conns
  · simp only [settle, removeTail]
    split <;> exact next
  · simp only [settle, removeTail]
    split
    · exact timers ▸ Nat.le_succ _
    · exact Nat.le_of_eq timers.symm
  · have on' : (w2.client.autoReconnect && w2.client.started) = true := by rw [client, flags.1, flags.2, on]
    simp [settle, removeTail, on']

/- Between two events the destructor can always return on the loop's thread. It works on
m_connection only, and a reconnect that is still wanted leaves its timer. -/
theorem destructorReturns {w : World} (fine : Fine w) (idle : w.stack loopThread = []) :
    ∃ bs w', run lifeStep ⟨settle loopThread [] (destructor w loopThread),.dying loopThread []⟩ bs = some ⟨w',.dead⟩ ∧
      w'.stack loopThread = [] ∧ w'.next = w.next ∧ w.timers ≤ w'.timers ∧
      (∀ d, w.client.connection ≠ some d → w'.conns d = w.conns d) ∧
      ∀ c, w.client.connection = some c → (w.conns c).state ≠ .disconnected →
        (w.client.autoReconnect && w.client.started) = true → 0 < w'.timers := by
  have last : ∀ {v : World}, v.stack loopThread = [] →
      run lifeStep ⟨v,.dying loopThread []⟩ [.destroyed] = some ⟨resetSocket v,.dead⟩ := by
    intro v back
    exact runCons.mpr ⟨_,by simp [lifeStep, back],rfl⟩
  have same := settleSame w loopThread
  rw [idle] at same
  cases connection : w.client.connection with
  | none =>
    obtain ⟨conns,next,_,stack,_⟩ := resetSocketRest w
    refine ⟨[.destroyed],resetSocket w,?_,stack ▸ idle,next,Nat.le_of_eq (resetSocketFlags w).2.2.symm,
      fun d _ => by rw [conns],fun c found => by cases found⟩
    rw [destructor, connection, same]
    exact last idle
  | some c =>
    have known := fine.sound.owned.connection c connection
    obtain ⟨v,called⟩ : ∃ v, v = settle loopThread [] (callConn w loopThread c .forceClose) := ⟨_,rfl⟩
    have start : settle loopThread [] (destructor w loopThread) = v := by rw [destructor, connection, called]
    have fine' : Fine v := by
      have destroys := fineDestructor fine loopThread
      rw [idle, start] at destroys
      exact destroys
    have others : ∀ d, some c ≠ some d → v.conns d = w.conns d := by
      intro d other
      have apart : d ≠ c := fun here => other (by rw [here])
      rw [called]
      simp [settle, callConn, apart]
    have rest : v.next = w.next ∧ v.timers = w.timers ∧ v.client = w.client := by
      rw [called]
      exact ⟨rfl,rfl,rfl⟩
    rw [start]
    by_cases ended : (w.conns c).state = .disconnected
    · have nothing : ((w.endpoint c).request loopThread .forceClose).2 = none := forceCloseNothing loopThread ended
      have stack' : v.stack loopThread = [] := by simp [called, settle, callConn, nothing]
      obtain ⟨conns,next,_,stack,_⟩ := resetSocketRest v
      refine ⟨_,_,last stack',stack ▸ stack',next.trans rest.1,Nat.le_of_eq ?_,fun d other => ?_,fun e found up => ?_⟩
      · rw [(resetSocketFlags v).2.2, rest.2.1]
      · rw [conns, others d other]
      · cases found
        exact absurd ended up
    · have handed : ((w.endpoint c).request loopThread .forceClose).2 = some .forceCloseInLoop :=
        forceCloseHands loopThread (fine.established c known).1 ended
      have top : v.stack loopThread = [.call c .forceCloseInLoop] := by simp [called, settle, callConn, handed]
      have up : (v.conns c).state ≠ .disconnected := by
        rw [called]
        simp only [settle, callConn, putSame]
        exact fun shut => ended ((requestMonotone (w.endpoint c) loopThread .forceClose).2 shut)
      obtain ⟨as,w1,closes,top1,client1,timers1,next1,others1⟩ :=
        closesDown (.inr rfl) fine' (by rw [rest.1]; exact known) up top
      obtain ⟨bs,w2,removes,idle2,conns2,next2,timers2,armed⟩ := removesInside top1
      obtain ⟨conns,next,_,stack,_⟩ := resetSocketRest w2
      have timers := (resetSocketFlags w2).2.2
      refine ⟨_,_,runAppend closes (runAppend removes (last idle2)),stack ▸ idle2,?_,?_,fun d other => ?_,
        fun e found _ on => ?_⟩
      · rw [next, next2, next1, rest.1]
      · rw [timers, ← rest.2.1, ← timers1]
        exact timers2
      · rw [conns, conns2, others1 d (fun here => other (by rw [here])), others d other]
      · rw [timers]
        exact armed (by rw [client1, rest.2.2]; exact on)

/- Where the loop's thread has come to when its steps touch the client from outside: behind
the destructor, or beside it. -/
theorem afterwards {w : World} (fine : Fine w) (idle : w.stack loopThread = []) (t : ThreadId) :
    ∃ stage bs u, Behind stage ∧
      run lifeStep ⟨settle t (w.stack t) (destructor w t),.dying t (w.stack t)⟩ bs = some ⟨u,stage⟩ ∧
      u.stack loopThread = [] ∧ u.next = w.next ∧ w.timers ≤ u.timers ∧
      (∀ d < w.next, (t ≠ loopThread ∨ w.client.connection ≠ some d) → (w.conns d).state ≠ .disconnected →
        (u.conns d).state ≠ .disconnected) ∧
      ∀ c, t = loopThread → w.client.connection = some c → (w.conns c).state ≠ .disconnected →
        (w.client.autoReconnect && w.client.started) = true → 0 < u.timers := by
  by_cases home : t = loopThread
  · subst home
    obtain ⟨bs,u,came,idle',next,timers,conns,armed⟩ := destructorReturns fine idle
    refine ⟨.dead,bs,u,.inl rfl,by rw [idle]; exact came,idle',next,timers,fun d _ other up => ?_,fun c _ => armed c⟩
    rw [conns d (other.resolve_left (fun away => away rfl))]
    exact up
  · obtain ⟨stack,_,next,timers,_,_,ended⟩ := destructorRest w t
    refine ⟨.dying t (w.stack t),[],_,.inr ⟨t,w.stack t,home,rfl⟩,rfl,?_,next,Nat.le_of_eq timers.symm,
      fun d made _ up shut => up ((ended d made).mpr shut),fun c here => absurd here home⟩
    exact (settleAside home stack).trans idle

/- Between two events there is no weaker condition: otherwise some continuation strays. -/
theorem unsafeStrays {w : World} (fine : Fine w) (idle : w.stack loopThread = []) {t : ThreadId}
    (kept : ¬ Strayed ⟨settle t (w.stack t) (destructor w t),.dying t (w.stack t)⟩) : Safe w t := by
  obtain ⟨stage,bs,u,behind,came,idle',next,timers,ups,armed⟩ := afterwards fine idle t
  have keep : ∀ (x : Life) (b : LifeAction) (y : Life), Fine x.world → lifeStep x b = some y → Fine y.world :=
    fun _ _ _ h went => fineLife h went
  have start : Fine (Life.mk (settle t (w.stack t) (destructor w t)) (.dying t (w.stack t))).world := fineDestructor fine t
  have fine' : Fine (Life.mk u stage).world := invariant keep start came
  have up : ∀ c < w.next, (w.conns c).state ≠ .disconnected → t = loopThread ∧ w.client.connection = some c := by
    intro c made open_
    by_contra wrong
    have other : t ≠ loopThread ∨ w.client.connection ≠ some c := not_and_or.mp wrong
    exact kept (strayedAfter came (openStrays behind fine' idle' (by rw [next]; exact made) (ups c made other open_)))
  refine ⟨by simp [idle],?_,up,?_,fun away k ch waiting => ?_⟩
  · by_contra some_
    exact kept (strayedAfter came (timerStrays behind idle' (Nat.lt_of_lt_of_le (Nat.pos_of_ne_zero some_) timers)))
  · by_contra both
    obtain ⟨on,open_⟩ := not_or.mp both
    obtain ⟨c,made,open_⟩ : ∃ c < w.next, (w.conns c).state ≠ .disconnected := by simpa using open_
    obtain ⟨home,connection⟩ := up c made open_
    exact kept (strayedAfter came (timerStrays behind idle' (armed c home connection open_ (by simpa using on))))
  · obtain ⟨id,_⟩ := fine.sound.temporary k ch waiting
    refine ⟨id,fun found => ?_⟩
    -- beside the destructor the write callback of the temporary channel runs
    obtain ⟨stack,_,_,_,temporaries,poller,_⟩ := destructorRest w t
    obtain ⟨v,called⟩ : ∃ v, v = settle t (w.stack t) (destructor w t) := ⟨_,rfl⟩
    have idle'' : v.stack loopThread = [] := by
      rw [called]
      exact (settleAside away stack).trans idle
    have waiting' : v.temporaries k = some ch := by rw [called, settle, temporaries]; exact waiting
    have found' : v.poller.Registered ch.fd ch.id := by rw [called, settle, poller]; exact found
    obtain ⟨w',event⟩ : ∃ w', step v (.temporaryEvent k ⟨false,false,false,true⟩ 111 0) = some w' := by
      simp only [step, waiting', idle'', found'.1, Option.isSome_iff_ne_none, ne_eq, found'.2, not_false_eq_true,
        and_self, if_true]
      exact ⟨_,rfl⟩
    rw [← called] at kept
    exact kept (straysNow (.inr ⟨t,w.stack t,away,rfl⟩) rfl rfl rfl event)

/- A connection is made at once, and the client destroyed on the loop between two events. -/
def settledDown : List Action := atOnce ++ [.goOn 0]

def destruction : List LifeAction :=
  [.destroy 0,.client (.goOn 0),.client (.goOn 0),.client (.goOn 0),.client (.goOn 0),.client (.goOn 0),.destroyed,
    .client (.user 3 0 (.send [2]))]

/- On another thread ForceClose only hands its functor to the loop, and HandleRemoveConnection
runs when the client is no more. -/
example : ∃ w u, run step constructed settledDown = some w ∧
    run lifeStep ⟨w,.alive⟩ [.destroy 3,.client (.goOn 3),.destroyed,.client .runQueued,.client (.goOn 0),
      .client (.goOn 0),.client (.goOn 0)] = some u ∧ strays u (.client (.goOn 0)) = true :=
  ⟨_,_,rfl,rfl,rfl⟩

end TcFrame.TcpClient
