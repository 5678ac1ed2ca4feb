import TcFrame.Host

/-! The client: one loop, an attempt to connect and the connections made so far. Thread 0
is the loop's, any other thread runs only user code. While an attempt is in progress a
temporary channel stands in the poller under the descriptor of its socket. -/
namespace TcFrame.TcpClient
open Endpoint

def loopThread : ThreadId := 0

/- The identities of channels: of the connections, of the temporary channels, and those
left for whatever else the loop has. -/
def connectionChannel (c : ConnId) : Nat := 3 * c
def temporaryChannel (k : Nat) : Nat := 3 * k + 1
def isForeign (id : Nat) : Bool := id % 3 == 2

/- The members of TcpClient. `socket` is m_socket with the descriptor of its Socket. The
user sets the high-water callback, if at all, on the connection. -/
structure Client where
  started : Bool
  connecting : Bool
  autoReconnect : Bool
  socket : Option (Option Fd)
  connection : Option ConnId
  callbacks : Callbacks
  closeCallback : Bool

/- What is left of a function. The tails of Connect and of the temporary channel's
callback name the connection that HandleConnect has made. -/
inductive Act where
  | conn (c : ConnId) (f : Frame)
  | call (c : ConnId) (f : Functor)
  | connectTail (c : ConnId)
  | temporaryTail (ch : Channel) (c : ConnId)
  | closeCallback (c : ConnId)
  | removeTail
  deriving DecidableEq, Repr

/- `temporaries` are the temporary channels whose write callback has not run, `timers`
the armed DoReconnect timers. `vacant` says of each connection that the poller had no
entry under its descriptor when HandleConnect ran. Destructors of connections are left
out: they assert Disconnected, where channel and socket have been given up. -/
structure World where
  client : Client
  conns : ConnId → TcpConnection
  next : ConnId
  temporaries : Nat → Option Channel
  nextTemporary : Nat
  poller : EpollPoller
  isOpen : Fd → Bool
  stack : ThreadId → List Act
  queue : List (ConnId × Functor)
  timers : Nat
  vacant : ConnId → Bool

namespace World
def endpoint (w : World) (c : ConnId) : Endpoint := ⟨w.conns c,w.poller,w.isOpen⟩

def put (w : World) (c : ConnId) (e : Endpoint) : World :=
  { w with conns := Function.update w.conns c e.conn, poller := e.poller, isOpen := e.isOpen }

/- A Socket of the client stores this descriptor. -/
def uses (w : World) (fd : Fd) : Bool :=
  w.client.socket == some (some fd) || (List.range w.next).any (fun c => (w.conns c).socket.fd == some fd)

def isConnected (w : World) : Bool :=
  match w.client.connection with
  | some c => (w.conns c).isConnected
  | none => false

end World

abbrev Effect := World × List Act

def ofConn (w : World) (c : ConnId) (out : Endpoint × List Frame) : Effect := (w.put c out.1,out.2.map (.conn c))

def callConn (w : World) (t : ThreadId) (c : ConnId) (call : UserCall) : Effect :=
  let out := (w.endpoint c).request t call
  (w.put c out.1,out.2.toList.map (.call c))

/- m_socket.reset(): the destructor of the Socket closes what it stores. -/
def resetSocket (w : World) : World :=
  let w' := { w with client := { w.client with socket := none } }
  match w.client.socket with
  | some (some fd) => { w' with isOpen := Function.update w.isOpen fd false, poller := w.poller.closed fd }
  | _ => w'

/- m_socket = make_unique: the old Socket goes when the new one is there. -/
def openSocket (w : World) (fd : Fd) : World :=
  let w' := resetSocket w
  { w' with
    client := { w'.client with socket := some (some fd) }
    isOpen := Function.update w'.isOpen fd true }

def highWaterMark : Nat := 1024 * 1024

/- HandleConnect up to ConnectEstablished. The Socket moves into the connection, m_socket
keeps one without a descriptor. -/
def adopt (w : World) (fd : Fd) (bufferSize : Nat) : World :=
  let c := w.next
  let callbacks := { w.client.callbacks with close := true }
  { w with
    client := { w.client with connecting := false, socket := some none, connection := some c }
    conns := Function.update w.conns c
      (TcpConnection.create (connectionChannel c) fd callbacks highWaterMark bufferSize)
    next := c + 1
    vacant := Function.update w.vacant c (w.poller.fdToChannel fd).isNone }

def handleConnect (w : World) (fd : Fd) (bufferSize : Nat) : Effect :=
  let w' := adopt w fd bufferSize
  ofConn w' w.next ((w'.endpoint w.next).run .connectEstablished)

/- EnableWriting and the second UpdateChannel of the temporary channel. -/
def watchTemporary (w : World) (fd : Fd) : World :=
  let ch : Channel := ⟨temporaryChannel w.nextTemporary,fd,Events.none,false⟩
  let once := w.poller.updateChannel w.isOpen ch.enableWriting
  let twice := once.1.updateChannel w.isOpen once.2
  { w with
    poller := twice.1
    temporaries := Function.update w.temporaries w.nextTemporary (some twice.2)
    nextTemporary := w.nextTemporary + 1 }

/- What connect() says of a new socket. A socket() that fails is a connect() that fails. -/
inductive Outcome where
  | connected
  | inProgress
  | failed
  deriving DecidableEq, Repr

def connect (w : World) (fd : Fd) (bufferSize : Nat) (outcome : Outcome) : Effect :=
  if w.client.started then (w,[])
  else
    let w' := openSocket { w with client := { w.client with started := true, connecting := true } } fd
    match outcome with
    | .connected =>
      let out := handleConnect w' fd bufferSize
      (out.1,out.2 ++ [.connectTail w.next])
    | .inProgress => (watchTemporary w' fd,[])
    | .failed => (resetSocket { w' with client := { w'.client with connecting := false, started := false } },[])

def removeTemporary (w : World) (ch : Channel) : World :=
  if ch.added then { w with poller := (w.poller.removeChannel w.isOpen ch).1 } else w

def retry (w : World) : World :=
  if w.client.autoReconnect && w.client.started then { w with timers := w.timers + 1 } else w

/- The write callback of a temporary channel, with `err` from SO_ERROR. Without m_socket
it has no behaviour. -/
def writeCallback (w : World) (ch : Channel) (err bufferSize : Nat) : Option Effect :=
  if err ≠ 0 then
    some (removeTemporary (retry { w with client := { w.client with connecting := false } }) ch,[])
  else
    match w.client.socket with
    | some (some fd) =>
      let out := handleConnect w fd bufferSize
      some (out.1,out.2 ++ [.temporaryTail ch w.next])
    | _ => none

structure Revents where
  error : Bool
  hangUp : Bool
  read : Bool
  write : Bool
  deriving DecidableEq, Repr

/- Channel::HandleEvent on a channel that has a write callback only. -/
def handleEvent (w : World) (k : Nat) (ch : Channel) (revents : Revents) (err bufferSize : Nat) : Option Effect :=
  if revents.error || revents.hangUp || !revents.write then some (w,[])
  else writeCallback { w with temporaries := Function.update w.temporaries k none } ch err bufferSize

def disconnect (w : World) : Effect :=
  let w' := { w with client := { w.client with autoReconnect := false, started := false } }
  match w.client.connection with
  | some c => callConn w' loopThread c .shutdown
  | none => (w',[])

def handleRemoveConnection (w : World) (c : ConnId) : Effect :=
  ({ w with client := { w.client with connection := none } },
    (if w.client.closeCallback then [.closeCallback c] else []) ++ [.removeTail])

def removeTail (w : World) : World :=
  if w.client.autoReconnect && w.client.started then
    { w with client := { w.client with connecting := false }, timers := w.timers + 1 }
  else { w with client := { w.client with started := false } }

def doReconnect (w : World) (fd : Fd) (bufferSize : Nat) (outcome : Outcome) : Effect :=
  if w.client.started && !w.client.connecting && !w.isConnected then connect w fd bufferSize outcome else (w,[])

def isCallback : Act → Bool
  | .conn _ .closeCallback => false
  | .conn _ f => f.isCallback
  | .closeCallback _ => true
  | _ => false

def userRuns : List Act → Bool
  | [] => true
  | f :: _ => isCallback f

/- The top of thread t's stack goes on. The close callback is HandleRemoveConnection. -/
def goOn (w : World) (t : ThreadId) : Act → Option Effect
  | .conn c .closeCallback => some (handleRemoveConnection w c)
  | .conn c f => if f.isCallback then none else some (ofConn w c ((w.endpoint c).resume f))
  | .call c f =>
    if t = loopThread then some (ofConn w c ((w.endpoint c).run f))
    else some ({ w with queue := w.queue ++ [(c,f)] },[])
  | .connectTail _ => some (resetSocket w,[])
  | .temporaryTail ch _ => some (removeTemporary (resetSocket w) ch,[])
  | .closeCallback _ => none
  | .removeTail => some (removeTail w,[])

def settle (t : ThreadId) (below : List Act) (out : Effect) : World :=
  { out.1 with stack := Function.update out.1.stack t (out.2 ++ below) }

/- The rest of the process keeps off the descriptors that the client's Sockets store. -/
def environment (w : World) : Connection.Environment → Option World
  | .opens fd =>
    if w.uses fd = false ∧ w.isOpen fd = false then some { w with isOpen := Function.update w.isOpen fd true } else none
  | .closes fd =>
    if w.uses fd = false then
      some { w with isOpen := Function.update w.isOpen fd false, poller := w.poller.closed fd }
    else none
  | .updates ch =>
    if w.uses ch.fd = false ∧ isForeign ch.id = true then
      some { w with poller := (w.poller.updateChannel w.isOpen ch).1 }
    else none
  | .removes ch =>
    if w.uses ch.fd = false ∧ isForeign ch.id = true then
      some { w with poller := (w.poller.removeChannel w.isOpen ch).1 }
    else none

inductive Action where
  | connect (fd : Fd) (bufferSize : Nat) (outcome : Outcome)
  | disconnect
  | setAutoReconnect (enable : Bool)
  | user (t : ThreadId) (c : ConnId) (call : UserCall)
  | goOn (t : ThreadId)
  | ret (t : ThreadId)
  | runQueued
  | event (c : ConnId) (ev : Connection.Event)
  | temporaryEvent (k : Nat) (revents : Revents) (err bufferSize : Nat)
  | reconnect (fd : Fd) (bufferSize : Nat) (outcome : Outcome)
  | environment (x : Connection.Environment)
  deriving DecidableEq, Repr

/- What socket() may return. -/
def isFresh (w : World) (fd : Fd) : Bool := !w.isOpen fd && !w.uses fd

/- TcpClient::Send is a Send of m_connection. Poll reports a temporary channel that it
finds in its map under a descriptor the kernel watches. -/
def step (w : World) : Action → Option World
  | .connect fd bufferSize outcome =>
    if userRuns (w.stack loopThread) ∧ isFresh w fd = true then
      some (settle loopThread (w.stack loopThread) (connect w fd bufferSize outcome))
    else none
  | .disconnect =>
    if userRuns (w.stack loopThread) then some (settle loopThread (w.stack loopThread) (disconnect w)) else none
  | .setAutoReconnect enable => some { w with client := { w.client with autoReconnect := enable } }
  | .user t c call =>
    if userRuns (w.stack t) ∧ c < w.next then some (settle t (w.stack t) (callConn w t c call)) else none
  | .goOn t =>
    match w.stack t with
    | f :: below => (goOn w t f).map (settle t below)
    | [] => none
  | .ret t =>
    match w.stack t with
    | f :: below => if isCallback f then some (settle t below (w,[])) else none
    | [] => none
  | .runQueued =>
    match w.stack loopThread, w.queue with
    | [], x :: rest => some (settle loopThread [] ({ w with queue := rest },[.call x.1 x.2]))
    | _, _ => none
  | .event c ev =>
    if w.stack loopThread = [] ∧ c < w.next ∧ Connection.possible (w.endpoint c) ev = true then
      some (settle loopThread [] (ofConn w c (Connection.handle (w.endpoint c) ev)))
    else none
  | .temporaryEvent k revents err bufferSize =>
    match w.temporaries k with
    | some ch =>
      if w.stack loopThread = [] ∧ w.poller.fdToChannel ch.fd = some ch.id ∧ (w.poller.interest ch.fd).isSome then
        (handleEvent w k ch revents err bufferSize).map (settle loopThread [])
      else none
    | none => none
  | .reconnect fd bufferSize outcome =>
    if w.stack loopThread = [] ∧ 0 < w.timers ∧ isFresh w fd = true then
      some (settle loopThread [] (doReconnect { w with timers := w.timers - 1 } fd bufferSize outcome))
    else none
  | .environment x => environment w x

/- The steps with their guards. -/
inductive Step (w : World) : Action → World → Prop where
  | connect {fd bufferSize outcome} (runs : userRuns (w.stack loopThread) = true) (fresh : isFresh w fd = true) :
      Step w (.connect fd bufferSize outcome)
        (settle loopThread (w.stack loopThread) (connect w fd bufferSize outcome))
  | disconnect (runs : userRuns (w.stack loopThread) = true) :
      Step w .disconnect (settle loopThread (w.stack loopThread) (disconnect w))
  | setAutoReconnect {enable} :
      Step w (.setAutoReconnect enable) { w with client := { w.client with autoReconnect := enable } }
  | user {t c call} (runs : userRuns (w.stack t) = true) (known : c < w.next) :
      Step w (.user t c call) (settle t (w.stack t) (callConn w t c call))
  | close {t c below} (top : w.stack t = .conn c .closeCallback :: below) :
      Step w (.goOn t) (settle t below (handleRemoveConnection w c))
  | resume {t c f below} (top : w.stack t = .conn c f :: below) (own : f.isCallback = false) :
      Step w (.goOn t) (settle t below (ofConn w c ((w.endpoint c).resume f)))
  | run {c f below} (top : w.stack loopThread = .call c f :: below) :
      Step w (.goOn loopThread) (settle loopThread below (ofConn w c ((w.endpoint c).run f)))
  | post {t c f below} (top : w.stack t = .call c f :: below) (other : t ≠ loopThread) :
      Step w (.goOn t) (settle t below ({ w with queue := w.queue ++ [(c,f)] },[]))
  | connectTail {t c below} (top : w.stack t = .connectTail c :: below) :
      Step w (.goOn t) (settle t below (resetSocket w,[]))
  | temporaryTail {t ch c below} (top : w.stack t = .temporaryTail ch c :: below) :
      Step w (.goOn t) (settle t below (removeTemporary (resetSocket w) ch,[]))
  | removeTail {t below} (top : w.stack t = .removeTail :: below) :
      Step w (.goOn t) (settle t below (removeTail w,[]))
  | ret {t f below} (top : w.stack t = f :: below) (callback : isCallback f = true) :
      Step w (.ret t) (settle t below (w,[]))
  | runQueued {x rest} (idle : w.stack loopThread = []) (head : w.queue = x :: rest) :
      Step w .runQueued (settle loopThread [] ({ w with queue := rest },[.call x.1 x.2]))
  | event {c ev} (idle : w.stack loopThread = []) (known : c < w.next)
      (ok : Connection.possible (w.endpoint c) ev = true) :
      Step w (.event c ev) (settle loopThread [] (ofConn w c (Connection.handle (w.endpoint c) ev)))
  | temporaryEvent {k ch revents err bufferSize out} (idle : w.stack loopThread = [])
      (waiting : w.temporaries k = some ch) (found : w.poller.fdToChannel ch.fd = some ch.id)
      (watched : w.poller.interest ch.fd ≠ none) (out_ : handleEvent w k ch revents err bufferSize = some out) :
      Step w (.temporaryEvent k revents err bufferSize) (settle loopThread [] out)
  | reconnect {fd bufferSize outcome} (idle : w.stack loopThread = []) (fresh : isFresh w fd = true) :
      Step w (.reconnect fd bufferSize outcome)
        (settle loopThread [] (doReconnect { w with timers := w.timers - 1 } fd bufferSize outcome))
  | environment {x w'} (done : environment w x = some w') : Step w (.environment x) w'

theorem stepCases {w w' : World} {a : Action} (h : step w a = some w') : Step w a w' := by
  cases a with
  | connect fd bufferSize outcome =>
    simp only [step] at h
    split at h <;> cases h
    rename_i ok
    exact .connect ok.1 ok.2
  | disconnect =>
    simp only [step] at h
    split at h <;> cases h
    exact .disconnect (by assumption)
  | setAutoReconnect enable =>
    cases h
    exact .setAutoReconnect
  | user t c call =>
    simp only [step] at h
    split at h <;> cases h
    rename_i ok
    exact .user ok.1 ok.2
  | goOn t =>
    simp only [step] at h
    split at h <;> try contradiction
    rename_i a below top
    obtain ⟨out,taken,made⟩ := Option.map_eq_some_iff.mp h
    subst made
    cases a with
    | conn c f =>
      cases f with
      | closeCallback => cases taken; exact .close top
      | sendTail | closeSocket | invalidateSocket => cases taken; exact .resume top rfl
      | _ => cases taken
    | call c f =>
      simp only [goOn] at taken
      split at taken <;> cases taken
      · rename_i here
        subst here
        exact .run top
      · exact .post top (by assumption)
    | connectTail c => cases taken; exact .connectTail top
    | temporaryTail ch c => cases taken; exact .temporaryTail top
    | closeCallback c => cases taken
    | removeTail => cases taken; exact .removeTail top
  | ret t =>
    simp only [step] at h
    split at h <;> try contradiction
    rename_i top
    split at h <;> cases h
    exact .ret top (by assumption)
  | runQueued =>
    simp only [step] at h
    split at h <;> cases h
    exact .runQueued (by assumption) (by assumption)
  | event c ev =>
    simp only [step] at h
    split at h <;> cases h
    rename_i ok
    exact .event ok.1 ok.2.1 ok.2.2
  | temporaryEvent k revents err bufferSize =>
    simp only [step] at h
    split at h <;> try contradiction
    rename_i ch waiting
    split at h <;> try contradiction
    rename_i ok
    obtain ⟨out,taken,made⟩ := Option.map_eq_some_iff.mp h
    subst made
    exact .temporaryEvent ok.1 waiting ok.2.1 (by simpa [Option.isSome_iff_ne_none] using ok.2.2) taken
  | reconnect fd bufferSize outcome =>
    simp only [step] at h
    split at h <;> cases h
    rename_i ok
    exact .reconnect ok.1 ok.2.2
  | environment x => exact .environment h

/- A client as its constructor leaves it, with its setters called, on a loop that may
have channels already. -/
structure Initial (w : World) : Prop where
  fresh : w.client.started = false ∧ w.client.connecting = false ∧ w.client.socket = none ∧ w.client.connection = none
  nobody : w.next = 0 ∧ ∀ k, w.temporaries k = none
  kernel : ∀ fd, w.isOpen fd = false → w.poller.interest fd = none
  stack : ∀ t, w.stack t = []
  queue : w.queue = []
  timers : w.timers = 0

end TcFrame.TcpClient
