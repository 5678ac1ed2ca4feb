import TcFrame.TcpServerBatch
import TcFrame.TcpServerLastOwner

/-! The holders of a connection's shared_ptr, one by one: the table, functors, the arguments
of callbacks, the calls that keep a pointer until they return, and the copies of user code.
Any thread takes a copy where it can reach the connection, and drops it when it likes. -/
namespace TcFrame.TcpServer
open Endpoint Machine

/- `copies` are the shared_ptrs that user code keeps, by thread. `held` are those of the
calls under way on a thread, each with what its stack is when the call has returned.
`doing` are in the same way the connections whose member functions are under way there. -/
structure Holding where
  polled : Polled
  stage : Stage
  copies : ThreadId → List ConnId
  held : ThreadId → List (List Act × ConnId)
  doing : ThreadId → List (List Act × ConnId)

namespace Holding

def world (x : Holding) : World := x.polled.world
def life (x : Holding) : Life := ⟨x.polled.world,x.stage⟩

end Holding

/- What a call keeps: HandleClose and ForceCloseInLoop the argument of the close callback,
RunInLoop and DoPendingFunctors the functor, the loops their lists of connections. A
functor of DoPendingFunctors is given up here as soon as it has run. -/
def Act.grabs (w : World) : Act → List ConnId
  | .conn c .closeCallback => [c]
  | .call _ (.conn c f) => if later f then [] else [c]
  | .call _ (.remove c) => [c]
  | .sweep (x :: _) _ _ => if (w.conn x.2).isConnected then [] else [x.2]
  | .closeIdle (c :: _) => [c]
  | _ => []

def grabbed (w : World) (a : LoopAction) (t : ThreadId) : List (List Act × ConnId) :=
  match a with
  | .server (.goOn t') =>
    if t' = t then
      match w.stack t with
      | top :: below => (top.grabs w).map (fun c => (below,c))
      | [] => []
    else []
  | _ => []

/- The member function that the step begins: from its functor or from HandleEvent. The
functors of ConnectEstablished and ConnectDestroyed hold the connection. -/
def begun (x : Holding) (a : LoopAction) (t : ThreadId) : List (List Act × ConnId) :=
  match a with
  | .server (.goOn t') =>
    if t' = t then
      match x.world.stack t with
      | .call l (.conn c f) :: below => if l = t ∧ later f = true then [(below,c)] else []
      | _ => []
    else []
  | .call l _ => if l = t then (x.polled.calls l).head?.toList.map (fun y => ([],y.1)) else []
  | _ => []

/- A call has returned when the stack is what was under it. -/
def underWay (stack : List Act) (h : List Act × ConnId) : Bool := decide (h.1.length < stack.length)

/- The connection whose member function the thread comes back to: whatever it called has
returned, and its last statements are left. -/
def finishing (x : Holding) (t : ThreadId) : Option ConnId :=
  match x.doing t with
  | h :: _ => if underWay (x.world.stack t) h then none else some h.2
  | [] => none

/- The thread's user code has the connection: a copy, or the argument of its callback. -/
def reaches (x : Holding) (t : ThreadId) (c : ConnId) : Bool :=
  (x.copies t).contains c ||
    match x.world.stack t with
    | .conn d f :: _ => d == c && isCallback (.conn d f)
    | _ => false

def mayCall (x : Holding) : LoopAction → Bool
  | .server (.user t (.conn c _)) => reaches x t c
  | _ => true

def loopThread (w : World) : LoopAction → ThreadId
  | .poll l _ _ | .handle l | .call l _ => l
  | .acceptFails => mainLoop
  | .server a => threadOf w a

/- The thread that begins or ends its part of ~TcpServer is not in the middle of a batch. -/
def betweenBatches (x : Holding) : LifeAction → Bool
  | .server _ => false
  | .destroy => x.polled.isDone mainLoop && (x.doing mainLoop).isEmpty
  | .leave =>
    match x.stage with
    | .joining l => x.polled.isDone l && (x.doing l).isEmpty
    | _ => false
  | .join | .clear => true

/- `finish t`: the last statements of the member function on thread t. `copy t t' c`: thread
t gives thread t' a copy of its shared_ptr. -/
inductive HoldAction where
  | loop (a : LoopAction)
  | finish (t : ThreadId)
  | life (a : LifeAction)
  | copy (t t' : ThreadId) (c : ConnId)
  | drop (t : ThreadId) (c : ConnId)
  deriving DecidableEq, Repr

def holdStep (x : Holding) : HoldAction → Option Holding
  | .loop a =>
    if mayRun x.life (loopThread x.world a) && (finishing x (loopThread x.world a)).isNone && mayCall x a then
      (loopStep x.polled a).map (fun p => { x with
        polled := p
        held := fun t => (grabbed x.world a t ++ x.held t).filter (underWay (p.world.stack t))
        doing := fun t => begun x a t ++ x.doing t })
    else none
  | .finish t =>
    if mayRun x.life t && (finishing x t).isSome then
      some { x with doing := Function.update x.doing t (x.doing t).tail }
    else none
  | .life a =>
    if betweenBatches x a then
      (lifeStep x.life a).map (fun s => { x with polled := { x.polled with world := s.world }, stage := s.stage })
    else none
  | .copy t t' c =>
    if reaches x t c then some { x with copies := Function.update x.copies t' (c :: x.copies t') } else none
  | .drop t c =>
    if userRuns (x.world.stack t) ∧ c ∈ x.copies t then
      some { x with copies := Function.update x.copies t ((x.copies t).erase c) }
    else none

def HoldInitial (x : Holding) : Prop :=
  LoopInitial x.polled ∧ x.stage = .serving ∧ ∀ t, x.copies t = [] ∧ x.held t = [] ∧ x.doing t = []

/- The owner set is not empty. -/
def alive (x : Holding) (c : ConnId) : Prop :=
  owned x.world c ∨ (∃ t, ∃ h ∈ x.held t, h.2 = c) ∨ ∃ t, c ∈ x.copies t

/- The connection that the step runs code of: a functor starts, a member function goes on
or comes to its last statements, HandleEvent of its channel begins or calls a handler. -/
def uses (x : Holding) : HoldAction → Option ConnId
  | .loop (.server (.goOn t)) =>
    match x.world.stack t with
    | .conn c f :: _ => if isCallback (.conn c f) then none else some c
    | .call l (.conn c _) :: _ => if t = l then some c else none
    | _ => none
  | .loop (.handle l) => (x.polled.batch l).head?.map Prod.fst
  | .loop (.call l _) => (x.polled.calls l).head?.map Prod.fst
  | .finish t => finishing x t
  | _ => none

/- What runs without holding the connection: the functors of Send, Shutdown and ForceClose,
and the rest of a member function. -/
def Task.isBare (c : ConnId) : Task → Bool
  | .conn d f => d == c && later f
  | _ => false

def Act.isBare (c : ConnId) : Act → Bool
  | .conn d f => d == c && !isCallback (.conn d f)
  | .call _ task => task.isBare c
  | _ => false

/- Something of the connection is still to run on its loop, `stack` being the loop's stack. -/
def atWork (x : Holding) (c : ConnId) (stack : List Act) : Bool :=
  let l := x.world.host.loopOf c
  stack.any (Act.isBare c) || (x.world.queue l).any (Task.isBare c) || (x.polled.batch l).any (fun y => y.1 == c) ||
    (x.polled.calls l).any (fun y => y.1 == c) || (x.doing l).any (fun h => h.2 == c)

def inPoller (w : World) (c : ConnId) : Bool :=
  (w.host.pollers (w.host.loopOf c)).fdToChannel (w.conn c).channel.fd == some (w.conn c).channel.id

def engaged (x : Holding) (c : ConnId) : Bool :=
  (x.world.conn c).state != .disconnected || inPoller x.world c || atWork x c (x.world.stack (x.world.host.loopOf c))

/- The table has the connection, or its ConnectDestroyed is still to run. -/
def isKept (w : World) (c : ConnId) : Bool :=
  let l := w.host.loopOf c
  registered w c ||
  (w.stack mainLoop).any (fun a =>
    match a with
    | .sweep _ stale _ => stale.contains c
    | a => a == .call l (destroyed c)) ||
  (w.stack l).contains (.call l (destroyed c)) || (w.queue l).contains (destroyed c) && l != mainLoop

/- The step gives the connection up with something of it still to run: ConnectDestroyed
runs before the rest, another connection takes the entry over or takes it out, or a thread
hands over a functor of a connection that has been given up. -/
def cutsShort (x : Holding) : HoldAction → Bool
  | .loop (.server (.goOn t)) =>
    match x.world.stack t with
    | .call l (.conn c f) :: below =>
      if t = l then
        f == .connectDestroyed &&
          (atWork x c below || (x.world.conn c).state == .disconnected && inPoller x.world c)
      else later f && !isKept x.world c
    | .call l (.remove d) :: _ =>
      t == l &&
        match (x.world.conn d).socket.fd.bind x.world.lookup with
        | some c => c != d && engaged x c
        | none => false
    | _ => false
  | .loop (.server (.accept fd _)) =>
    match x.world.lookup fd with
    | some c => !x.world.server.stopping && engaged x c
    | none => false
  | _ => false

end TcFrame.TcpServer
