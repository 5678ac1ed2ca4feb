import TcFrame.TcpServerThreads

/-! What a step of the server can do, sorted by what it works on: a connection, a queue,
the table, or only the server's own flags and the stack. -/
namespace TcFrame.TcpServer
open Endpoint Machine

/- A member function that an action runs on its connection's own loop, with what it takes
from the stack. -/
inductive Member (w : World) (t : ThreadId) (c : ConnId) : Action → List Act → Endpoint × List Frame → Prop where
  | resume {f} (own : f.isCallback = false) : Member w t c (.goOn t) [.conn c f] ((w.host.endpoint c).resume f)
  | run {f} : Member w t c (.goOn t) [.call t (.conn c f)] ((w.host.endpoint c).run f)
  | event {ev} (idle : w.stack t = []) (up : (w.conn c).state ≠ .connecting)
      (ok : Connection.possible (w.host.endpoint c) ev = true) :
      Member w t c (.event c ev) [] (Connection.handle (w.host.endpoint c) ev)

/- Who calls a public function of a connection, and what is left of him. -/
inductive Caller (w : World) (t : ThreadId) (c : ConnId) : Action → List Act → UserCall → List Act → Prop where
  | user {call} (runs : userRuns (w.stack t) = true) : Caller w t c (.user t (.conn c call)) [] call []
  | shutdownAll {fd rest} (listed : w.lookup fd = some c) :
      Caller w t c (.goOn t) [.shutdownAll ((fd,c) :: rest)] .shutdown [.shutdownAll rest]
  | forceAll {fd rest} (listed : w.lookup fd = some c) :
      Caller w t c (.goOn t) [.forceAll ((fd,c) :: rest)] .forceClose [.forceAll rest]
  | closeIdle {rest} : Caller w t c (.goOn t) [.closeIdle (c :: rest)] .forceClose [.closeIdle rest]

/- A loop over the table passes over an entry that has left it. -/
inductive Skips (w : World) : Act → Act → Prop where
  | shutdownAll {x rest} (gone : w.lookup x.1 ≠ some x.2) : Skips w (.shutdownAll (x :: rest)) (.shutdownAll rest)
  | forceAll {x rest} (gone : w.lookup x.1 ≠ some x.2) : Skips w (.forceAll (x :: rest)) (.forceAll rest)

/- What a function of the server leaves that neither calls a connection nor changes the
table. A loop over the table begins with all its entries. -/
def Act.Served (w : World) : Act → Prop
  | .conn _ _ | .forceAll _ => False
  | .call l task => l = mainLoop ∧ ∃ cb, task = .stopGracefully cb
  | .shutdownAll rest => rest = w.entries
  | .sweep rest stale _ => rest = w.entries ∧ stale = []
  | .closeIdle found => ∀ c ∈ found, registered w c = true
  | _ => True

/- What such a function was. -/
def Act.isOwn : Act → Bool
  | .conn _ f => f.isCallback && f != .closeCallback
  | .call _ (.conn _ _) | .call _ (.remove _) | .sweep _ _ _ => false
  | .shutdownAll rest | .forceAll rest => rest.isEmpty
  | .closeIdle rest => rest.isEmpty
  | _ => true

structure Serves (w : World) (out : Effect) : Prop where
  host : out.1.host = w.host
  connections : out.1.server.connections = w.server.connections
  threadNum : out.1.server.threadNum = w.server.threadNum
  callbacks : out.1.server.callbacks = w.server.callbacks
  stack : out.1.stack = w.stack
  queue : out.1.queue = w.queue
  removed : out.1.removed = w.removed
  acts : ∀ a ∈ out.2, a.Served w
  sweeps : ∀ rest stale force, .sweep rest stale force ∈ out.2 → out.2 = [.sweep rest stale force]
  shutdowns : ∀ rest, .shutdownAll rest ∈ out.2 → out.2 = [.shutdownAll rest,.stopTail]

/- The functor of HandleRemoveConnection finds no entry, or takes out the one it finds. -/
structure Removes (w : World) (c : ConnId) (out : Effect) : Prop where
  host : out.1.host = w.host
  threadNum : out.1.server.threadNum = w.server.threadNum
  stack : out.1.stack = w.stack
  queue : out.1.queue = w.queue
  outcome : ((w.conn c).socket.fd = none ∨ ∃ fd, (w.conn c).socket.fd = some fd ∧ w.lookup fd = none) ∧
      out.1.lookup = w.lookup ∧ out.2 = [] ∨
    ∃ fd d, (w.conn c).socket.fd = some fd ∧ w.lookup fd = some d ∧
      (∀ fd', out.1.lookup fd' = if fd' = fd then none else w.lookup fd') ∧
      out.2 = [.call (w.host.loopOf c) (.conn c .connectDestroyed),.removeTail]

/- HandleNewConnection makes the next connection and its ConnectEstablished. -/
structure Accepts (w : World) (fd : Fd) (w' : World) : Prop where
  on : w.server.stopping = false
  next : w'.host.next = w.host.next + 1
  loop : w'.host.loopOf w.host.next = nextLoop w.server
  new : ∃ callbacks mark bufferSize, w'.conn w.host.next = TcpConnection.create w.host.next fd callbacks mark bufferSize
  old : ∀ c < w.host.next, w'.conn c = w.conn c ∧ w'.host.loopOf c = w.host.loopOf c
  isOpen : w'.host.isOpen = Function.update w.host.isOpen fd true
  pollers : w'.host.pollers = w.host.pollers
  lookup : ∀ fd', w'.lookup fd' = if fd' = fd then some w.host.next else w.lookup fd'
  threadNum : w'.server.threadNum = w.server.threadNum
  main : w'.stack mainLoop = [.call (nextLoop w.server) (.conn w.host.next .connectEstablished)]
  apart : ∀ t, t ≠ mainLoop → w'.stack t = w.stack t
  queue : w'.queue = w.queue

inductive Turn (w : World) (a : Action) : World → Prop where
  | member {t c top below out} (known : c < w.host.next) (home : t = w.host.loopOf c)
      (split : w.stack t = top ++ below) (does : Member w t c a top out) :
      Turn w a (settle t below (ofConn w c out))
  | request {t c call top below again} (known : c < w.host.next) (split : w.stack t = top ++ below)
      (caller : Caller w t c a top call again) :
      Turn w a (settle t below ((callConn w t c call).1,(callConn w t c call).2 ++ again))
  | close {t c below} (home : t = w.host.loopOf c) (split : w.stack t = .conn c .closeCallback :: below) :
      Turn w a (settle t below (w,[.call mainLoop (.remove c)]))
  | hand {t l task below} (split : w.stack t = .call l task :: below) (other : t ≠ l)
      (home : l = task.home w.host.loopOf) (act : a = .goOn t) :
      Turn w a (settle t below ({ w with queue := Function.update w.queue l (w.queue l ++ [task]) },[]))
  | take {l task rest} (idle : w.stack l = []) (head : w.queue l = task :: rest)
      (loop : l ≤ w.server.threadNum) :
      Turn w a (settle l [] ({ w with queue := Function.update w.queue l rest },[.call l task]))
  | remove {c below out} (known : c < w.host.next) (ran : removalOf w a = some c)
      (split : w.stack mainLoop = .call mainLoop (.remove c) :: below) (does : Removes w c out) :
      Turn w a (settle mainLoop below out)
  | sweepErase {x rest stale force below} (known : x.2 < w.host.next)
      (split : w.stack mainLoop = .sweep (x :: rest) stale force :: below) (off : (w.conn x.2).isConnected = false)
      (act : a = .goOn mainLoop) :
      Turn w a (settle mainLoop below (w.erase x.1,[.sweep rest (stale ++ [x.2]) force]))
  | sweepEnd {stale force below} (split : w.stack mainLoop = .sweep [] stale force :: below) :
      Turn w a (settle mainLoop below (sweepEnd w stale force))
  | sweepNext {x rest stale force below} (split : w.stack mainLoop = .sweep (x :: rest) stale force :: below)
      (on : (w.conn x.2).isConnected = true) :
      Turn w a (settle mainLoop below (w,[.sweep rest stale force]))
  | skip {top again below} (split : w.stack mainLoop = top :: below)
      (skips : Skips w top again) :
      Turn w a (settle mainLoop below (w,[again]))
  | serve {t top below out} (split : w.stack t = top ++ below) (own : ∀ f ∈ top, f.isOwn = true)
      (calm : top = [] → userRuns (w.stack t) = true) (does : Serves w out) :
      Turn w a (settle t below out)
  | accept {fd bufferSize w'} (idle : w.stack mainLoop = []) (free : w.host.isOpen fd = false) (made : Accepts w fd w')
      (act : a = .accept fd bufferSize) : Turn w a w'

theorem servesPlain {w w' : World} {acts : List Act} (host : w'.host = w.host)
    (connections : w'.server.connections = w.server.connections) (threadNum : w'.server.threadNum = w.server.threadNum)
    (callbacks : w'.server.callbacks = w.server.callbacks) (stack : w'.stack = w.stack) (queue : w'.queue = w.queue)
    (removed : w'.removed = w.removed) (served : ∀ a ∈ acts, a.Served w)
    (sweeps : ∀ rest stale force, .sweep rest stale force ∈ acts → acts = [.sweep rest stale force])
    (shutdowns : ∀ rest, .shutdownAll rest ∈ acts → acts = [.shutdownAll rest,.stopTail]) : Serves w (w',acts) :=
  ⟨host,connections,threadNum,callbacks,stack,queue,removed,served,sweeps,shutdowns⟩

theorem servesFinalize (w : World) (force : Bool) : Serves w (finalizeGracefulStop w force) := by
  unfold finalizeGracefulStop
  split
  · exact servesPlain rfl rfl rfl rfl rfl rfl rfl (by simp [Act.Served])
      (fun _ _ _ member => by rw [List.mem_singleton.mp member]) (by simp)
  · exact servesPlain rfl rfl rfl rfl rfl rfl rfl (by simp) (by simp) (by simp)

theorem servesStop (w : World) (cb : Option Nat) : Serves w (stopGracefully w cb) := by
  unfold stopGracefully
  dsimp only
  split
  · exact servesPlain rfl rfl rfl rfl rfl rfl rfl (by simp [Act.Served]) (by simp) (by simp)
  · split
    · exact servesPlain rfl rfl rfl rfl rfl rfl rfl (by simp) (by simp) (by simp)
    · exact servesPlain rfl rfl rfl rfl rfl rfl rfl (by simp [Act.Served]) (by simp)
        (fun rest member => by
          have all : rest = w.entries := by simpa using member
          rw [all])

theorem servesNothing (w : World) : Serves w (w,[]) :=
  servesPlain rfl rfl rfl rfl rfl rfl rfl (by simp) (by simp) (by simp)

theorem servesRemoveTail (w : World) : Serves w (removeTail w) := by
  unfold removeTail
  split
  · exact servesFinalize w false
  · exact servesNothing w

theorem servesStopTail (w : World) : Serves w (stopTail w) := by
  unfold stopTail
  split
  · exact servesFinalize w false
  · exact servesPlain rfl rfl rfl rfl rfl rfl rfl (by simp) (by simp) (by simp)

theorem servesFinish (w : World) (force : Bool) : Serves w (finishStop w force) := by
  unfold finishStop
  split
  · exact servesNothing w
  · exact servesPlain rfl rfl rfl rfl rfl rfl rfl (by simp [Act.Served]) (by simp) (by simp)

theorem endsOwn {f : Act} (last : ends f = true) : f.isOwn = true := by
  cases f with
  | conn c f => cases f <;> first | rfl | cases last
  | shutdownAll rest => cases rest <;> first | rfl | cases last
  | forceAll rest => cases rest <;> first | rfl | cases last
  | closeIdle rest => cases rest <;> first | rfl | cases last
  | completeCallback cb => rfl
  | _ => cases last

theorem settleKept {w w' : World} (t : ThreadId) (stack : w'.stack = w.stack) :
    settle t (w.stack t) (w',[]) = w' := by
  simp [settle, ← stack]

/- A loop over the table comes to an entry. -/
theorem turnEach {w : World} {call : UserCall} {x : Entry} {again top : Act} {below : List Act}
    (known : x.2 < w.host.next) (split : w.stack mainLoop = top :: below)
    (caller : w.lookup x.1 = some x.2 → Caller w mainLoop x.2 (.goOn mainLoop) [top] call [again])
    (skips : w.lookup x.1 ≠ some x.2 → Skips w top again) :
    Turn w (.goOn mainLoop) (settle mainLoop below (eachEntry w mainLoop call x again)) := by
  have split' : w.stack mainLoop = [top] ++ below := split
  unfold eachEntry
  by_cases listed : w.lookup x.1 = some x.2
  · rw [if_pos listed]
    exact .request known split' (caller listed)
  · rw [if_neg listed]
    exact .skip split (skips listed)

theorem removesInLoop (w : World) (c : ConnId) : Removes w c (removeInLoop w c) := by
  unfold removeInLoop
  split
  · rename_i none_
    exact ⟨rfl,rfl,rfl,rfl,.inl ⟨.inl none_,rfl,rfl⟩⟩
  · rename_i fd valid
    split
    · rename_i absent
      exact ⟨rfl,rfl,rfl,rfl,.inl ⟨.inr ⟨fd,valid,Option.isNone_iff_eq_none.mp absent⟩,rfl,rfl⟩⟩
    · rename_i present
      obtain ⟨d,found⟩ := Option.ne_none_iff_exists'.mp (fun none_ => present (Option.isNone_iff_eq_none.mpr none_))
      exact ⟨rfl,rfl,rfl,rfl,.inr ⟨fd,d,valid,found,lookupErase w fd,rfl⟩⟩

theorem acceptsNew {w : World} (on : w.server.stopping = false) (fd : Fd) (bufferSize : Nat) :
    Accepts w fd (settle mainLoop [] (newConnection { w with acceptReady := false } fd bufferSize)) where
  on := on
  next := by simp [settle, newConnection, on, Host.add]
  loop := by simp [settle, newConnection, on, Host.add, nextLoop]
  new := ⟨{ w.server.callbacks with close := true, highWaterMark := true },w.server.highWaterMarkBytes,bufferSize,
    by simp [settle, newConnection, on, World.conn, Host.add]⟩
  old c known := by simp [settle, newConnection, on, World.conn, Host.add, Nat.ne_of_lt known]
  isOpen := by simp [settle, newConnection, on, Host.add]
  pollers := by simp [settle, newConnection, on, Host.add]
  lookup fd' := by
    simp only [World.lookup, settle, newConnection, on, Bool.false_eq_true, if_false]
    split
    · rename_i here
      rw [here]
      exact AList.lookup_insert _
    · rename_i other
      exact AList.lookup_insert_ne other
  threadNum := by simp [settle, newConnection, on]
  main := by simp [settle, newConnection, on, nextLoop]
  apart t other := by simp [settle, newConnection, on, other]
  queue := by simp [settle, newConnection, on]

theorem topSplit {w : World} {t : ThreadId} {f : Act} {below : List Act} (top : w.stack t = f :: below) :
    w.stack t = [f] ++ below := top

theorem idleSplit {w : World} {t : ThreadId} (idle : w.stack t = []) : w.stack t = [] ++ [] := idle

theorem turnCases {w w' : World} {a : Action} (r : Registry w) (p : Placed w) (taken : step w a = some w') :
    Turn w a w' := by
  have whole : ∀ t, w.stack t = [] ++ w.stack t := fun t => rfl
  cases stepCases taken with
  | start runs =>
    have stack : (startServer w).stack = w.stack := by unfold startServer; split <;> rfl
    have served : Serves w (startServer w,[]) := by
      unfold startServer
      split
      · exact servesNothing w
      · exact servesPlain rfl rfl rfl rfl rfl rfl rfl (by simp) (by simp) (by simp)
    rw [← settleKept mainLoop stack]
    exact .serve (whole _) (by simp) (fun _ => runs) served
  | @userConn t c call runs known =>
    have turn : Turn w (.user t (.conn c call)) _ := .request known (whole t) (@Caller.user w t c call runs)
    simpa using turn
  | userStop runs =>
    exact .serve (whole _) (by simp) (fun _ => runs) (servesPlain rfl rfl rfl rfl rfl rfl rfl (by simp [Act.Served]) (by simp) (by simp))
  | close top => exact .close (topFits p top) top
  | resume top own => exact .member (topKnown r top _ (by simp [Act.conns])) (topFits p top) (topSplit top) (.resume own)
  | queue top other => exact .hand top other (topFits p top) rfl
  | run top => exact .member (topKnown r top _ (by simp [Act.conns, Task.conns])) (topFits p top) (topSplit top) .run
  | @remove t c rest top =>
    have main : t = mainLoop := topFits p top
    subst main
    exact .remove (topKnown r top c (by simp [Act.conns, Task.conns])) (by simp [removalOf, top]) top (removesInLoop w c)
  | stop top => exact .serve (topSplit top) (by simp [Act.isOwn]) (by simp) (servesStop w _)
  | removeTail top => exact .serve (topSplit top) (by simp [Act.isOwn]) (by simp) (servesRemoveTail w)
  | @shutdownAll t x rest below top =>
    have main : t = mainLoop := topFits p top
    subst main
    exact turnEach (topKnown r top _ (by simp [Act.conns])) top (fun listed => .shutdownAll listed)
      (fun gone => .shutdownAll gone)
  | stopTail top => exact .serve (topSplit top) (by simp [Act.isOwn]) (by simp) (servesStopTail w)
  | @sweepEntry t x rest stale force below top =>
    have main : t = mainLoop := topFits p top
    subst main
    unfold sweepEntry
    split
    · exact .sweepNext top (by assumption)
    · rename_i off
      exact .sweepErase (topKnown r top _ (by simp [Act.conns])) top (by simpa using off) rfl
  | @sweepEnd t stale force below top =>
    have main : t = mainLoop := topFits p top
    subst main
    exact .sweepEnd top
  | @forceAll t x rest below top =>
    have main : t = mainLoop := topFits p top
    subst main
    exact turnEach (topKnown r top _ (by simp [Act.conns])) top (fun listed => .forceAll listed)
      (fun gone => .forceAll gone)
  | finishStop top => exact .serve (topSplit top) (by simp [Act.isOwn]) (by simp) (servesFinish w _)
  | closeIdle top => exact .request (topKnown r top _ (by simp [Act.conns])) (topSplit top) .closeIdle
  | @ends _ t f below top last =>
    refine .serve (topSplit top) (fun g member => ?_) (by simp) (servesNothing w)
    rw [List.mem_singleton.mp member]
    exact endsOwn last
  | runQueued idle head loop => exact .take idle head loop
  | poll idle =>
    have served : Serves w ({ w with acceptReady := w.server.listening },[]) :=
      servesPlain rfl rfl rfl rfl rfl rfl rfl (by simp) (by simp) (by simp)
    rw [← @settleKept w { w with acceptReady := w.server.listening } mainLoop rfl]
    exact .serve (whole _) (by simp) (fun _ => by simp [idle, userRuns]) served
  | @accept fd bufferSize idle ready free =>
    cases on : w.server.stopping with
    | false => exact .accept idle free (acceptsNew on fd bufferSize) rfl
    | true =>
      have rejected : newConnection { w with acceptReady := false } fd bufferSize = ({ w with acceptReady := false },[]) := by
        simp [newConnection, on]
      rw [rejected]
      exact .serve (idleSplit idle) (by simp) (fun _ => by simp [idle, userRuns]) (servesPlain rfl rfl rfl rfl rfl rfl rfl (by simp) (by simp) (by simp))
  | @event c ev idle known ok =>
    refine .member known rfl (idleSplit idle) (.event idle ?_ ok)
    simp only [step] at taken
    split at taken <;> cases taken
    rename_i guard
    exact guard.2.2.1
  | @scanIdle idle found between among =>
    have all : w.stack mainLoop = [] ++ [] := idleSplit (betweenIdle between)
    refine .serve all (by simp) (fun _ => by rw [all]; rfl) (servesPlain rfl rfl rfl rfl rfl rfl rfl ?_ (by simp) (by simp))
    intro a member
    rw [List.mem_singleton.mp member]
    intro c named
    obtain ⟨x,entry,same⟩ := List.mem_map.mp (among c named)
    exact registeredIff.mpr ⟨x.1,by rw [← same]; exact memEntries.mp entry⟩
  | @checkTimer out between out_ =>
    have all : w.stack mainLoop = [] ++ [] := idleSplit (betweenIdle between)
    refine .serve all (by simp) (fun _ => by rw [all]; rfl) ?_
    rcases out_ with ⟨_,same⟩ | same
    · rw [same]
      exact servesFinalize w false
    · rw [same]
      exact servesNothing w
  | deadlineTimer between armed =>
    have all : w.stack mainLoop = [] ++ [] := idleSplit (betweenIdle between)
    have s := servesFinalize { w with server := { w.server with deadlineTimer := false }, deadlineRan := true } true
    exact .serve all (by simp) (fun _ => by rw [all]; rfl) ⟨s.host,s.connections,s.threadNum,s.callbacks,s.stack,s.queue,s.removed,s.acts,s.sweeps,s.shutdowns⟩

end TcFrame.TcpServer
