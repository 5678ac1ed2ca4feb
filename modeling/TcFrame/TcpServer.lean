import Mathlib.Data.List.AList
import TcFrame.Host

/-! The server: its table of connections, the loops its connections live on and their
threads. Thread 0 runs the main loop, threads 1 to m_thread_num the sub loops, any
other thread only user code. A function runs up to its first RunInLoop or callback; the
rest of it is left on the stack of its thread, where other threads may come between.
Reading and storing the state of a connection of another loop is one step. -/
namespace TcFrame.TcpServer
open Endpoint

def mainLoop : ThreadId := 0

/- What is passed to RunInLoop. -/
inductive Task where
  | conn (c : ConnId) (f : Functor)
  | remove (c : ConnId)
  | stopGracefully (cb : Option Nat)
  deriving DecidableEq, Repr

abbrev Entry := Fd × ConnId

/- What is left of a function. The loops over m_connections run over the entries as they
were when the loop began. -/
inductive Act where
  | conn (c : ConnId) (f : Frame)
  | call (l : ThreadId) (task : Task)
  | removeTail                                       -- HandleRemoveConnection after ConnectDestroyed
  | shutdownAll (rest : List Entry)                  -- StopGracefully's loop
  | stopTail                                         -- StopGracefully after its loop
  | sweep (rest : List Entry) (stale : List ConnId) (force : Bool)  -- FinalizeGracefulStop's first loop
  | forceAll (rest : List Entry)                     -- its last loop
  | finishStop (force : Bool)
  | closeIdle (rest : List ConnId)
  | completeCallback (cb : Nat)
  deriving DecidableEq, Repr

/- The members of TcpServer and of its acceptor. A timer's flag says that it is armed. -/
structure Server where
  threadNum : Nat
  nextLoopIdx : Nat
  started : Bool
  stopping : Bool
  listening : Bool
  connections : AList (fun _ : Fd => ConnId)
  callbacks : Callbacks
  highWaterMarkBytes : Nat
  idleTimeout : Bool
  idleScanTimer : Bool
  checkTimer : Bool
  deadlineTimer : Bool
  shutdownCompleteCallback : Option Nat
  totalConnections : Nat
  closedConnections : Nat

/- `acceptReady`: Poll has returned the listening channel and its handler has not run.
`removed` are the connections whose removal has run, `completed` the completion callbacks
called, `asked` is the last callback that StopGracefully was given for the last stop,
and `deadlineRan` says that the deadline handler of this stop has begun. -/
structure World where
  server : Server
  host : Host
  stack : ThreadId → List Act
  queue : ThreadId → List Task
  acceptReady : Bool
  removed : List ConnId
  completed : List Nat
  asked : Option Nat
  deadlineRan : Bool

namespace World
def entries (w : World) : List Entry := w.server.connections.entries.map (fun x => (x.1,x.2))
def lookup (w : World) (fd : Fd) : Option ConnId := w.server.connections.lookup fd
def noConnections (w : World) : Bool := w.server.connections.entries.isEmpty
def conn (w : World) (c : ConnId) : TcpConnection := w.host.conns c
def putHost (w : World) (h : Host) : World := { w with host := h }
def erase (w : World) (fd : Fd) : World :=
  { w with server := { w.server with connections := w.server.connections.erase fd } }

theorem connSame {w w' : World} (host : w'.host = w.host) : w'.conn = w.conn := by
  unfold conn
  rw [host]

@[simp] theorem connPut (w : World) (c : ConnId) (e : Endpoint) : (w.putHost (w.host.put c e)).conn c = e.conn :=
  w.host.putSame c e

@[simp] theorem connPutOther (w : World) {c d : ConnId} (e : Endpoint) (other : d ≠ c) :
    (w.putHost (w.host.put c e)).conn d = w.conn d :=
  w.host.putOther e other

theorem connPutCases {P : TcpConnection → Prop} {w : World} {c d : ConnId} {e : Endpoint} (mine : d = c → P e.conn)
    (rest : d ≠ c → P (w.conn d)) : P ((w.putHost (w.host.put c e)).conn d) := by
  by_cases here : d = c
  · subst here
    rw [connPut]
    exact mine rfl
  · rw [connPutOther w e here]
    exact rest here

end World

abbrev Effect := World × List Act

/- What a function of connection `c` returned, its frames under the connection's name. -/
def ofConn (w : World) (c : ConnId) (out : Endpoint × List Frame) : Effect :=
  (w.putHost (w.host.put c out.1),out.2.map (.conn c))

/- Send, Shutdown or ForceClose of connection `c`: what it does at once, and its RunInLoop. -/
def callConn (w : World) (t : ThreadId) (c : ConnId) (call : UserCall) : Effect :=
  let out := (w.host.endpoint c).request t call
  (w.putHost (w.host.put c out.1),out.2.toList.map (fun f => .call (w.host.loopOf c) (.conn c f)))

def finalizeGracefulStop (w : World) (force : Bool) : Effect :=
  if w.server.stopping then (w,[.sweep w.entries [] force]) else (w,[])

/- One round of the first loop: a connection that is not Connected leaves the table. -/
def sweepEntry (w : World) (x : Entry) (rest : List Entry) (stale : List ConnId) (force : Bool) : Effect :=
  if (w.conn x.2).isConnected then (w,[.sweep rest stale force])
  else (w.erase x.1,[.sweep rest (stale ++ [x.2]) force])

def sweepEnd (w : World) (stale : List ConnId) (force : Bool) : Effect :=
  (w,stale.map (fun c => .call (w.host.loopOf c) (.conn c .connectDestroyed)) ++
    (if force then [.forceAll w.entries] else []) ++ [.finishStop force])

def finishStop (w : World) (force : Bool) : Effect :=
  if force && !w.noConnections then (w,[])
  else
    let s := w.server
    let cbs := s.shutdownCompleteCallback.toList
    ({ w with
      server := { s with
        checkTimer := false
        deadlineTimer := false
        idleScanTimer := false
        started := false
        stopping := false
        shutdownCompleteCallback := none }
      completed := w.completed ++ cbs },cbs.map .completeCallback)

def stopGracefully (w : World) (cb : Option Nat) : Effect :=
  let s := w.server
  if !s.started then ({ w with completed := w.completed ++ cb.toList },cb.toList.map .completeCallback)
  else if s.stopping then
    ({ w with
      server := { s with
        shutdownCompleteCallback := if cb.isSome then cb else s.shutdownCompleteCallback }
      asked := if cb.isSome then cb else w.asked },[])
  else
    ({ w with
      server := { s with stopping := true, shutdownCompleteCallback := cb, listening := false }
      asked := cb },[.shutdownAll w.entries,.stopTail])

def stopTail (w : World) : Effect :=
  if w.noConnections then finalizeGracefulStop w false
  else ({ w with server := { w.server with checkTimer := true, deadlineTimer := true } },[])

/- The functor of HandleRemoveConnection. -/
def removeInLoop (w : World) (c : ConnId) : Effect :=
  let w' := { w with removed := w.removed ++ [c] }
  match (w.conn c).socket.fd with
  | none => (w',[])
  | some fd =>
    if (w.lookup fd).isNone then (w',[])
    else
      let s := (w'.erase fd).server
      ({ w' with server := { s with closedConnections := s.closedConnections + 1 } },
        [.call (w.host.loopOf c) (.conn c .connectDestroyed),.removeTail])

def removeTail (w : World) : Effect :=
  if w.server.stopping && w.noConnections then finalizeGracefulStop w false else (w,[])

def runTask (w : World) : Task → Effect
  | .conn c f => ofConn w c ((w.host.endpoint c).run f)
  | .remove c => removeInLoop w c
  | .stopGracefully cb => stopGracefully w cb

/- RunInLoop: at once on the loop's own thread, else into the loop's queue. -/
def runInLoop (w : World) (t l : ThreadId) (task : Task) : Effect :=
  if t = l then runTask w task
  else ({ w with queue := Function.update w.queue l (w.queue l ++ [task]) },[])

/- A loop over connections that may close them under its feet: what has left the table
is passed over. -/
def eachEntry (w : World) (t : ThreadId) (call : UserCall) (x : Entry) (again : Act) : Effect :=
  if w.lookup x.1 = some x.2 then
    let out := callConn w t x.2 call
    (out.1,out.2 ++ [again])
  else (w,[again])

def isCallback : Act → Bool
  | .conn _ .closeCallback => false
  | .conn _ f => f.isCallback
  | .completeCallback _ => true
  | _ => false

/- The top of thread t's stack goes on. The close callback is HandleRemoveConnection. -/
def goOn (w : World) (t : ThreadId) : Act → Option Effect
  | .conn c .closeCallback => some (w,[.call mainLoop (.remove c)])
  | .conn c f => if f.isCallback then none else some (ofConn w c ((w.host.endpoint c).resume f))
  | .call l task => some (runInLoop w t l task)
  | .removeTail => some (removeTail w)
  | .shutdownAll [] => some (w,[])
  | .shutdownAll (x :: rest) => some (eachEntry w t .shutdown x (.shutdownAll rest))
  | .stopTail => some (stopTail w)
  | .sweep [] stale force => some (sweepEnd w stale force)
  | .sweep (x :: rest) stale force => some (sweepEntry w x rest stale force)
  | .forceAll [] => some (w,[])
  | .forceAll (x :: rest) => some (eachEntry w t .forceClose x (.forceAll rest))
  | .finishStop force => some (finishStop w force)
  | .closeIdle [] => some (w,[])
  | .closeIdle (c :: rest) =>
    let out := callConn w t c .forceClose
    some (out.1,out.2 ++ [.closeIdle rest])
  | .completeCallback _ => none

def nextLoop (s : Server) : ThreadId := if s.threadNum = 0 then mainLoop else s.nextLoopIdx % s.threadNum + 1

/- HandleNewConnection on a descriptor just accepted. -/
def newConnection (w : World) (fd : Fd) (bufferSize : Nat) : Effect :=
  let s := w.server
  if s.stopping then (w,[])
  else
    let c := w.host.next
    let callbacks := { s.callbacks with close := true, highWaterMark := true }
    let conn := TcpConnection.create c fd callbacks s.highWaterMarkBytes bufferSize
    ({ w with
      server := { s with
        nextLoopIdx := if s.threadNum = 0 then s.nextLoopIdx else s.nextLoopIdx + 1
        totalConnections := s.totalConnections + 1
        connections := s.connections.insert fd c }
      host := w.host.add conn (nextLoop s) fd },[.call (nextLoop s) (.conn c .connectEstablished)])

def startServer (w : World) : World :=
  if w.server.started then w
  else { w with
    server := { w.server with started := true, listening := true, idleScanTimer := w.server.idleTimeout }
    deadlineRan := false }

inductive Request where
  | conn (c : ConnId) (call : UserCall)
  | stopGracefully (cb : Option Nat)
  deriving DecidableEq, Repr

inductive Action where
  | start
  | user (t : ThreadId) (r : Request)
  | goOn (t : ThreadId)
  | ret (t : ThreadId)
  | runQueued (l : ThreadId)
  | poll
  | accept (fd : Fd) (bufferSize : Nat)
  | event (c : ConnId) (ev : Connection.Event)
  | scanIdle (idle : List ConnId)
  | checkTimer
  | deadlineTimer
  deriving DecidableEq, Repr

def userRuns : List Act → Bool
  | [] => true
  | f :: _ => isCallback f

/- Between two events of the main loop, with the listening channel's handler done. -/
def betweenEvents (w : World) : Bool := (w.stack mainLoop).isEmpty && !w.acceptReady

def settle (t : ThreadId) (below : List Act) (out : Effect) : World :=
  { out.1 with stack := Function.update out.1.stack t (out.2 ++ below) }

@[simp] theorem connSettle (t : ThreadId) (below : List Act) (out : Effect) (c : ConnId) :
    (settle t below out).conn c = out.1.conn c := rfl

def step (w : World) : Action → Option World
  | .start => if userRuns (w.stack mainLoop) then some (startServer w) else none
  | .user t (.conn c call) =>
    if userRuns (w.stack t) ∧ c < w.host.next then some (settle t (w.stack t) (callConn w t c call)) else none
  | .user t (.stopGracefully cb) =>
    if userRuns (w.stack t) then some (settle t (w.stack t) (w,[.call mainLoop (.stopGracefully cb)])) else none
  | .goOn t =>
    match w.stack t with
    | f :: below => (goOn w t f).map (settle t below)
    | [] => none
  | .ret t =>
    match w.stack t with
    | f :: below => if isCallback f then some (settle t below (w,[])) else none
    | [] => none
  | .runQueued l =>
    match w.stack l, w.queue l with
    | [], task :: rest =>
      if l ≤ w.server.threadNum ∧ (l = mainLoop → w.acceptReady = false) then
        some (settle l [] ({ w with queue := Function.update w.queue l rest },[.call l task]))
      else none
    | _, _ => none
  | .poll =>
    if w.stack mainLoop = [] then some { w with acceptReady := w.server.listening } else none
  | .accept fd bufferSize =>
    if w.stack mainLoop = [] ∧ w.acceptReady = true ∧ w.host.isOpen fd = false then
      some (settle mainLoop [] (newConnection { w with acceptReady := false } fd bufferSize))
    else none
  | .event c ev =>
    let l := w.host.loopOf c
    if w.stack l = [] ∧ c < w.host.next ∧ (w.conn c).state ≠ .connecting ∧
        Connection.possible (w.host.endpoint c) ev = true then
      some (settle l [] (ofConn w c (Connection.handle (w.host.endpoint c) ev)))
    else none
  | .scanIdle idle =>
    if betweenEvents w ∧ w.server.idleScanTimer then
      let found := (w.entries.map Prod.snd).filter (fun c => (w.conn c).isConnected && idle.contains c)
      some (settle mainLoop [] (w,[.closeIdle found]))
    else none
  | .checkTimer =>
    if betweenEvents w ∧ w.server.checkTimer then
      some (settle mainLoop [] (if w.noConnections then finalizeGracefulStop w false else (w,[])))
    else none
  | .deadlineTimer =>
    if betweenEvents w ∧ w.server.deadlineTimer then
      let w' := { w with server := { w.server with deadlineTimer := false }, deadlineRan := true }
      some (settle mainLoop [] (finalizeGracefulStop w' true))
    else none

/- What returns without doing more: a loop that has come to its end, a callback. -/
def ends : Act → Bool
  | .shutdownAll [] | .forceAll [] | .closeIdle [] => true
  | a => isCallback a

/- The steps with their guards. -/
inductive Step (w : World) : Action → World → Prop where
  | start (runs : userRuns (w.stack mainLoop) = true) : Step w .start (startServer w)
  | userConn {t c call} (runs : userRuns (w.stack t) = true) (known : c < w.host.next) :
      Step w (.user t (.conn c call)) (settle t (w.stack t) (callConn w t c call))
  | userStop {t cb} (runs : userRuns (w.stack t) = true) :
      Step w (.user t (.stopGracefully cb)) (settle t (w.stack t) (w,[.call mainLoop (.stopGracefully cb)]))
  | close {t c below} (top : w.stack t = .conn c .closeCallback :: below) :
      Step w (.goOn t) (settle t below (w,[.call mainLoop (.remove c)]))
  | resume {t c f below} (top : w.stack t = .conn c f :: below) (own : f.isCallback = false) :
      Step w (.goOn t) (settle t below (ofConn w c ((w.host.endpoint c).resume f)))
  | queue {t l task below} (top : w.stack t = .call l task :: below) (other : t ≠ l) :
      Step w (.goOn t)
        (settle t below ({ w with queue := Function.update w.queue l (w.queue l ++ [task]) },[]))
  | run {t c f below} (top : w.stack t = .call t (.conn c f) :: below) :
      Step w (.goOn t) (settle t below (ofConn w c ((w.host.endpoint c).run f)))
  | remove {t c below} (top : w.stack t = .call t (.remove c) :: below) :
      Step w (.goOn t) (settle t below (removeInLoop w c))
  | stop {t cb below} (top : w.stack t = .call t (.stopGracefully cb) :: below) :
      Step w (.goOn t) (settle t below (stopGracefully w cb))
  | removeTail {t below} (top : w.stack t = .removeTail :: below) :
      Step w (.goOn t) (settle t below (removeTail w))
  | shutdownAll {t x rest below} (top : w.stack t = .shutdownAll (x :: rest) :: below) :
      Step w (.goOn t) (settle t below (eachEntry w t .shutdown x (.shutdownAll rest)))
  | stopTail {t below} (top : w.stack t = .stopTail :: below) : Step w (.goOn t) (settle t below (stopTail w))
  | sweepEntry {t x rest stale force below} (top : w.stack t = .sweep (x :: rest) stale force :: below) :
      Step w (.goOn t) (settle t below (sweepEntry w x rest stale force))
  | sweepEnd {t stale force below} (top : w.stack t = .sweep [] stale force :: below) :
      Step w (.goOn t) (settle t below (sweepEnd w stale force))
  | forceAll {t x rest below} (top : w.stack t = .forceAll (x :: rest) :: below) :
      Step w (.goOn t) (settle t below (eachEntry w t .forceClose x (.forceAll rest)))
  | finishStop {t force below} (top : w.stack t = .finishStop force :: below) :
      Step w (.goOn t) (settle t below (finishStop w force))
  | closeIdle {t c rest below} (top : w.stack t = .closeIdle (c :: rest) :: below) :
      Step w (.goOn t) (settle t below
        ((callConn w t c .forceClose).1,(callConn w t c .forceClose).2 ++ [.closeIdle rest]))
  | ends {a t f below} (top : w.stack t = f :: below) (last : ends f = true) : Step w a (settle t below (w,[]))
  | runQueued {l task rest} (idle : w.stack l = []) (head : w.queue l = task :: rest) (loop : l ≤ w.server.threadNum) :
      Step w (.runQueued l) (settle l [] ({ w with queue := Function.update w.queue l rest },[.call l task]))
  | poll (idle : w.stack mainLoop = []) : Step w .poll { w with acceptReady := w.server.listening }
  | accept {fd bufferSize} (idle : w.stack mainLoop = []) (ready : w.acceptReady = true)
      (free : w.host.isOpen fd = false) :
      Step w (.accept fd bufferSize)
        (settle mainLoop [] (newConnection { w with acceptReady := false } fd bufferSize))
  | event {c ev} (idle : w.stack (w.host.loopOf c) = []) (known : c < w.host.next)
      (ok : Connection.possible (w.host.endpoint c) ev = true) :
      Step w (.event c ev)
        (settle (w.host.loopOf c) [] (ofConn w c (Connection.handle (w.host.endpoint c) ev)))
  | scanIdle {idle found} (between : betweenEvents w = true) (among : ∀ c ∈ found, c ∈ w.entries.map Prod.snd) :
      Step w (.scanIdle idle) (settle mainLoop [] (w,[.closeIdle found]))
  | checkTimer {out} (between : betweenEvents w = true)
      (out_ : (w.noConnections = true ∧ out = finalizeGracefulStop w false) ∨ out = (w,[])) :
      Step w .checkTimer (settle mainLoop [] out)
  | deadlineTimer (between : betweenEvents w = true) (armed : w.server.deadlineTimer = true) :
      Step w .deadlineTimer (settle mainLoop [] (finalizeGracefulStop
        { w with server := { w.server with deadlineTimer := false }, deadlineRan := true } true))

theorem goOnCases {w : World} {t : ThreadId} {a : Act} {below : List Act} {out : Effect}
    (top : w.stack t = a :: below) (taken : goOn w t a = some out) : Step w (.goOn t) (settle t below out) := by
  cases a with
  | conn c f =>
    cases f with
    | closeCallback => cases taken; exact .close top
    | sendTail | closeSocket | invalidateSocket => cases taken; exact .resume top rfl
    | _ => cases taken
  | call l task =>
    cases taken
    unfold runInLoop
    split
    · rename_i here
      subst here
      cases task with
      | conn c f => exact .run top
      | remove c => exact .remove top
      | stopGracefully cb => exact .stop top
    · exact .queue top (by assumption)
  | removeTail => cases taken; exact .removeTail top
  | shutdownAll rest =>
    cases rest with
    | nil => cases taken; exact .ends top rfl
    | cons x rest => cases taken; exact .shutdownAll top
  | stopTail => cases taken; exact .stopTail top
  | sweep rest stale force =>
    cases rest with
    | nil => cases taken; exact .sweepEnd top
    | cons x rest => cases taken; exact .sweepEntry top
  | forceAll rest =>
    cases rest with
    | nil => cases taken; exact .ends top rfl
    | cons x rest => cases taken; exact .forceAll top
  | finishStop force => cases taken; exact .finishStop top
  | closeIdle rest =>
    cases rest with
    | nil => cases taken; exact .ends top rfl
    | cons c rest => cases taken; exact .closeIdle top
  | completeCallback cb => cases taken

/- The same with the guards exactly as `step` has them, and what a thread goes on with
left to `goOn`. -/
inductive Taken (w : World) : Action → World → Prop where
  | start (runs : userRuns (w.stack mainLoop) = true) : Taken w .start (startServer w)
  | userConn {t c call} (runs : userRuns (w.stack t) = true) (known : c < w.host.next) :
      Taken w (.user t (.conn c call)) (settle t (w.stack t) (callConn w t c call))
  | userStop {t cb} (runs : userRuns (w.stack t) = true) :
      Taken w (.user t (.stopGracefully cb)) (settle t (w.stack t) (w,[.call mainLoop (.stopGracefully cb)]))
  | goOn {t f below out} (top : w.stack t = f :: below) (went : goOn w t f = some out) :
      Taken w (.goOn t) (settle t below out)
  | ret {t f below} (top : w.stack t = f :: below) (callback : isCallback f = true) :
      Taken w (.ret t) (settle t below (w,[]))
  | runQueued {l task rest} (idle : w.stack l = []) (head : w.queue l = task :: rest) (loop : l ≤ w.server.threadNum)
      (handled : l = mainLoop → w.acceptReady = false) :
      Taken w (.runQueued l) (settle l [] ({ w with queue := Function.update w.queue l rest },[.call l task]))
  | poll (idle : w.stack mainLoop = []) : Taken w .poll { w with acceptReady := w.server.listening }
  | accept {fd bufferSize} (idle : w.stack mainLoop = []) (ready : w.acceptReady = true)
      (free : w.host.isOpen fd = false) :
      Taken w (.accept fd bufferSize)
        (settle mainLoop [] (newConnection { w with acceptReady := false } fd bufferSize))
  | event {c ev} (idle : w.stack (w.host.loopOf c) = []) (known : c < w.host.next)
      (up : (w.conn c).state ≠ .connecting) (ok : Connection.possible (w.host.endpoint c) ev = true) :
      Taken w (.event c ev)
        (settle (w.host.loopOf c) [] (ofConn w c (Connection.handle (w.host.endpoint c) ev)))
  | scanIdle {idle} (between : betweenEvents w = true) (armed : w.server.idleScanTimer = true) :
      Taken w (.scanIdle idle) (settle mainLoop [] (w,[.closeIdle
        ((w.entries.map Prod.snd).filter (fun c => (w.conn c).isConnected && idle.contains c))]))
  | checkTimer (between : betweenEvents w = true) (armed : w.server.checkTimer = true) :
      Taken w .checkTimer (settle mainLoop [] (if w.noConnections then finalizeGracefulStop w false else (w,[])))
  | deadlineTimer (between : betweenEvents w = true) (armed : w.server.deadlineTimer = true) :
      Taken w .deadlineTimer (settle mainLoop [] (finalizeGracefulStop
        { w with server := { w.server with deadlineTimer := false }, deadlineRan := true } true))

theorem takenCases {w w' : World} {a : Action} (h : step w a = some w') : Taken w a w' := by
  cases a with
  | start =>
    simp only [step] at h
    split at h <;> cases h
    exact .start (by assumption)
  | user t r =>
    cases r with
    | conn c call =>
      simp only [step] at h
      split at h <;> cases h
      rename_i ok
      exact .userConn ok.1 ok.2
    | stopGracefully cb =>
      simp only [step] at h
      split at h <;> cases h
      exact .userStop (by assumption)
  | goOn t =>
    simp only [step] at h
    split at h
    · obtain ⟨out,went,made⟩ := Option.map_eq_some_iff.mp h
      subst made
      exact .goOn (by assumption) went
    · cases h
  | ret t =>
    simp only [step] at h
    split at h
    · split at h <;> cases h
      exact .ret (by assumption) (by assumption)
    · cases h
  | runQueued l =>
    simp only [step] at h
    split at h
    · split at h <;> cases h
      rename_i idle head ok
      exact .runQueued idle head ok.1 ok.2
    · cases h
  | poll =>
    simp only [step] at h
    split at h <;> cases h
    exact .poll (by assumption)
  | accept fd bufferSize =>
    simp only [step] at h
    split at h <;> cases h
    rename_i ok
    exact .accept ok.1 ok.2.1 ok.2.2
  | event c ev =>
    simp only [step] at h
    split at h <;> cases h
    rename_i ok
    exact .event ok.1 ok.2.1 ok.2.2.1 ok.2.2.2
  | scanIdle idle =>
    simp only [step] at h
    split at h <;> cases h
    rename_i ok
    exact .scanIdle ok.1 ok.2
  | checkTimer =>
    simp only [step] at h
    split at h <;> cases h
    rename_i ok
    exact .checkTimer ok.1 ok.2
  | deadlineTimer =>
    simp only [step] at h
    split at h <;> cases h
    rename_i ok
    exact .deadlineTimer ok.1 ok.2

theorem endsCallback {f : Act} (callback : isCallback f = true) : ends f = true := by
  cases f <;> first | exact callback | cases callback

theorem stepCases {w w' : World} {a : Action} (h : step w a = some w') : Step w a w' := by
  cases takenCases h with
  | start runs => exact .start runs
  | userConn runs known => exact .userConn runs known
  | userStop runs => exact .userStop runs
  | goOn top went => exact goOnCases top went
  | ret top callback => exact .ends top (endsCallback callback)
  | runQueued idle head loop handled => exact .runQueued idle head loop
  | poll idle => exact .poll idle
  | accept idle ready free => exact .accept idle ready free
  | event idle known up ok => exact .event idle known ok
  | scanIdle between armed => exact .scanIdle between (fun c member => List.mem_of_mem_filter member)
  | checkTimer between armed =>
    refine .checkTimer between ?_
    split
    · exact .inl ⟨by assumption,rfl⟩
    · exact .inr rfl
  | deadlineTimer between armed => exact .deadlineTimer between armed

theorem betweenIdle {w : World} (between : betweenEvents w = true) : w.stack mainLoop = [] := by
  simpa [betweenEvents] using (Bool.and_eq_true_iff.mp between).1

/- A queue after a pop or a push, beside the others. -/
theorem memPopped {α : Type} {q : ThreadId → List α} {l l' : ThreadId} {x y : α} {rest : List α}
    (head : q l = x :: rest) (member : y ∈ Function.update q l rest l') : y ∈ q l' := by
  rw [Function.update_apply] at member
  split at member
  · rename_i here
    rw [here, head]
    exact List.mem_cons_of_mem _ member
  · exact member

theorem memPushed {α : Type} {q : ThreadId → List α} {l l' : ThreadId} {x y : α}
    (member : y ∈ Function.update q l (q l ++ [x]) l') : y ∈ q l' ∨ l' = l ∧ y = x := by
  rw [Function.update_apply] at member
  split at member
  · rename_i here
    rw [here]
    exact (List.mem_append.mp member).imp_right (fun new => ⟨rfl,List.mem_singleton.mp new⟩)
  · exact .inl member

theorem belowTop {w : World} {t : ThreadId} {f : Act} {rest : List Act} (top : w.stack t = f :: rest) :
    ∀ a ∈ rest, a ∈ w.stack t := by
  intro a member
  rw [top]
  exact List.mem_cons_of_mem _ member

/- A server as its constructor leaves it, with its setters called. -/
def constructed (threadNum : Nat) (callbacks : Callbacks) (mark : Nat) (idleTimeout : Bool) : World :=
  { server :=
      { threadNum := threadNum
        nextLoopIdx := 0
        started := false
        stopping := false
        listening := false
        connections := ∅
        callbacks := callbacks
        highWaterMarkBytes := mark
        idleTimeout := idleTimeout
        idleScanTimer := false
        checkTimer := false
        deadlineTimer := false
        shutdownCompleteCallback := none
        totalConnections := 0
        closedConnections := 0 }
    host := Host.empty
    stack := fun _ => []
    queue := fun _ => []
    acceptReady := false
    removed := []
    completed := []
    asked := none
    deadlineRan := false }

def Initial (w : World) : Prop :=
  ∃ threadNum callbacks mark idleTimeout, w = constructed threadNum callbacks mark idleTimeout

end TcFrame.TcpServer
