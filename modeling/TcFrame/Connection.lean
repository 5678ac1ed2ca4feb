import TcFrame.Machine
import TcFrame.TcpConnection

/-! One connection in its process: the loop's thread with its stack, the functors
queued for the loop, and any number of other threads. A callback is user code: while
its frame is on top the loop's thread may call Send, Shutdown or ForceClose any number
of times before it returns. A call of another thread takes effect at once and hands
its functor to the queue in a later step. -/
namespace TcFrame.Connection
open Endpoint

def loopThread : ThreadId := 0

/- `sent` are the calls of Send in their order, `passed` the messages that passed
SendInLoop's test of the state. -/
structure World where
  ep : Endpoint
  stack : List Frame
  queue : List Functor
  inFlight : ThreadId → Option Functor
  sent : List Message
  passed : List Message

namespace World
def conn (w : World) : TcpConnection := w.ep.conn
def state (w : World) : ConnectionState := w.ep.conn.state
def pending (w : World) : Bytes := w.ep.conn.outputBuffer.readable
def accepted (w : World) : Bytes := w.ep.conn.socket.accepted
end World

inductive Event where
  | read (r : ReadResult)
  | write (r : WriteResult)
  | close
  | error
  deriving DecidableEq, Repr

/- What the rest of the process does to the descriptor table and to the loop's poller. -/
inductive Environment where
  | opens (fd : Fd)
  | closes (fd : Fd)
  | updates (ch : Channel)
  | removes (ch : Channel)
  deriving DecidableEq, Repr

inductive Action where
  | establish
  | destroy
  | event (ev : Event)
  | runQueued
  | resume
  | ret
  | user (c : UserCall)
  | foreign (t : ThreadId) (c : UserCall)
  | push (t : ThreadId)
  | environment (x : Environment)
  deriving DecidableEq, Repr

def handle (e : Endpoint) : Event → Endpoint × List Frame
  | .read r => e.handleRead r
  | .write r => e.handleWrite r
  | .close => e.handleClose
  | .error => e.handleError

/- write() takes at most what it is given. -/
def possible (e : Endpoint) : Event → Bool
  | .write (.ok n) => decide (n ≤ e.conn.outputBuffer.readableBytes)
  | _ => true

def continueWith (w : World) (out : Endpoint × List Frame) (below : List Frame) : World :=
  { w with ep := out.1, stack := out.2 ++ below }

def exec (w : World) (f : Functor) : World :=
  let w' := continueWith w (w.ep.run f) w.stack
  match f with
  | .sendInLoop m => if w.conn.isConnected then { w' with passed := w.passed ++ [m] } else w'
  | _ => w'

def request (w : World) (t : ThreadId) : UserCall → World × Option Functor
  | .send data =>
    let m : Message := ⟨t,w.sent.length,data⟩
    let out := w.ep.send m
    ({ w with ep := out.1, sent := w.sent ++ [m] },out.2)
  | .shutdown => let out := w.ep.shutdown; ({ w with ep := out.1 },out.2)
  | .forceClose => let out := w.ep.forceClose; ({ w with ep := out.1 },out.2)

/- RunInLoop on the loop's own thread. -/
def runInline (out : World × Option Functor) : World :=
  match out.2 with
  | none => out.1
  | some f => exec out.1 f

def environment (w : World) : Environment → Option World
  | .opens fd =>
    if w.ep.isOpen fd then none
    else some { w with ep := { w.ep with isOpen := Function.update w.ep.isOpen fd true } }
  | .closes fd =>
    if w.conn.socket.fd = some fd then none
    else some { w with ep := { w.ep with
      isOpen := Function.update w.ep.isOpen fd false
      poller := w.ep.poller.closed fd } }
  | .updates ch =>
    if ch.id = w.conn.channel.id then none
    else some { w with ep := { w.ep with poller := (w.ep.poller.updateChannel w.ep.isOpen ch).1 } }
  | .removes ch =>
    if ch.id = w.conn.channel.id then none
    else some { w with ep := { w.ep with poller := (w.ep.poller.removeChannel w.ep.isOpen ch).1 } }

def userRuns (stack : List Frame) : Bool :=
  match stack with
  | [] => true
  | f :: _ => f.isCallback

def step (w : World) : Action → Option World
  | .establish =>
    if w.stack = [] ∧ w.state = .connecting then some (exec w .connectEstablished) else none
  | .destroy => if w.stack = [] then some (exec w .connectDestroyed) else none
  | .event ev =>
    if w.stack = [] ∧ w.state ≠ .connecting ∧ possible w.ep ev = true then
      some (continueWith w (handle w.ep ev) [])
    else none
  | .runQueued =>
    match w.stack, w.queue with
    | [], f :: rest =>
      if f = .connectEstablished ∧ w.state ≠ .connecting then none
      else some (exec { w with queue := rest } f)
    | _, _ => none
  | .resume =>
    match w.stack with
    | f :: below => if f.isCallback then none else some (continueWith w (w.ep.resume f) below)
    | [] => none
  | .ret =>
    match w.stack with
    | f :: below => if f.isCallback then some { w with stack := below } else none
    | [] => none
  | .user c =>
    if userRuns w.stack = true then some (runInline (request w loopThread c)) else none
  | .foreign t c =>
    if t ≠ loopThread ∧ w.inFlight t = none then
      let out := request w t c
      some { out.1 with inFlight := Function.update w.inFlight t out.2 }
    else none
  | .push t =>
    match w.inFlight t with
    | some f => some { w with queue := w.queue ++ [f], inFlight := Function.update w.inFlight t none }
    | none => none
  | .environment x => environment w x

/- The steps with their guards, one constructor for each action. -/
inductive Step (w : World) : Action → World → Prop where
  | establish (idle : w.stack = []) (fresh : w.state = .connecting) :
      Step w .establish (exec w .connectEstablished)
  | destroy (idle : w.stack = []) : Step w .destroy (exec w .connectDestroyed)
  | event {ev} (idle : w.stack = []) (up : w.state ≠ .connecting) (ok : possible w.ep ev = true) :
      Step w (.event ev) (continueWith w (handle w.ep ev) [])
  | runQueued {f rest} (idle : w.stack = []) (head : w.queue = f :: rest)
      (fresh : f = .connectEstablished → w.state = .connecting) :
      Step w .runQueued (exec { w with queue := rest } f)
  | resume {f below} (top : w.stack = f :: below) (own : f.isCallback = false) :
      Step w .resume (continueWith w (w.ep.resume f) below)
  | ret {f below} (top : w.stack = f :: below) (callback : f.isCallback = true) :
      Step w .ret { w with stack := below }
  | user {c} (runs : userRuns w.stack = true) : Step w (.user c) (runInline (request w loopThread c))
  | foreign {t c} (other : t ≠ loopThread) (free : w.inFlight t = none) :
      Step w (.foreign t c)
        { (request w t c).1 with inFlight := Function.update w.inFlight t (request w t c).2 }
  | push {t f} (flying : w.inFlight t = some f) :
      Step w (.push t) { w with queue := w.queue ++ [f], inFlight := Function.update w.inFlight t none }
  | environment {x w'} (done : environment w x = some w') : Step w (.environment x) w'

theorem stepCases {w w' : World} {a : Action} (h : step w a = some w') : Step w a w' := by
  cases a with
  | establish =>
    simp only [step] at h
    split at h <;> cases h
    rename_i ok
    exact .establish ok.1 ok.2
  | destroy =>
    simp only [step] at h
    split at h <;> cases h
    exact .destroy (by assumption)
  | event ev =>
    simp only [step] at h
    split at h <;> cases h
    rename_i ok
    exact .event ok.1 ok.2.1 ok.2.2
  | runQueued =>
    simp only [step] at h
    split at h <;> try contradiction
    rename_i idle head
    split at h <;> cases h
    rename_i ok
    exact .runQueued idle head (fun same => by simpa [same] using ok)
  | resume =>
    simp only [step] at h
    split at h <;> try contradiction
    rename_i top
    split at h <;> cases h
    rename_i own
    exact .resume top (by simpa using own)
  | ret =>
    simp only [step] at h
    split at h <;> try contradiction
    rename_i top
    split at h <;> cases h
    exact .ret top (by assumption)
  | user c =>
    simp only [step] at h
    split at h <;> cases h
    exact .user (by assumption)
  | foreign t c =>
    simp only [step] at h
    split at h <;> cases h
    rename_i ok
    exact .foreign ok.1 ok.2
  | push t =>
    simp only [step] at h
    split at h <;> cases h
    exact .push (by assumption)
  | environment x => exact .environment h

/- The environment changes only the poller and the descriptor table, and never
enters the connection's own channel anywhere. -/
theorem environmentCases {w w' : World} {x : Environment} (h : environment w x = some w') :
    ∃ poller isOpen, w' = { w with ep := { w.ep with poller := poller, isOpen := isOpen } } ∧
      ∀ fd, poller.fdToChannel fd = some w.conn.channel.id →
        w.ep.poller.fdToChannel fd = some w.conn.channel.id := by
  cases x with
  | opens fd =>
    simp only [environment] at h
    split at h <;> cases h
    exact ⟨w.ep.poller,_,rfl,fun _ same => same⟩
  | closes fd =>
    simp only [environment] at h
    split at h <;> cases h
    exact ⟨_,_,rfl,fun _ same => same⟩
  | updates ch =>
    simp only [environment] at h
    split at h <;> cases h
    rename_i foreign
    refine ⟨_,w.ep.isOpen,rfl,?_⟩
    intro fd found
    by_cases quiet : ch.events = Events.none
    · rw [EpollPoller.updateChannelMapNone _ _ quiet, Function.update_apply] at found
      split at found
      · cases found
      · exact found
    · rw [EpollPoller.updateChannelMapSome _ _ quiet, Function.update_apply] at found
      split at found
      · rename_i here
        subst here
        cases old : w.ep.poller.fdToChannel ch.fd with
        | none => rw [old] at found; exact absurd (Option.some.inj found) foreign
        | some other => rw [old] at found; exact found
      · exact found
  | removes ch =>
    simp only [environment] at h
    split at h <;> cases h
    refine ⟨_,w.ep.isOpen,rfl,?_⟩
    intro fd found
    rw [EpollPoller.removeChannelMap, Function.update_apply] at found
    split at found
    · cases found
    · exact found

theorem handleChange (e : Endpoint) {ev : Event} (ok : possible e ev = true) :
    Change e (handle e ev).1 (handle e ev).2 := by
  cases ev with
  | read r => exact handleReadChange e r
  | write r =>
    refine handleWriteChange e r ?_
    intro n same
    subst same
    simpa [possible] using ok
  | close => exact handleCloseChange e
  | error => exact handleCloseChange e

theorem execRun (w : World) (f : Functor) :
    (exec w f).ep = (w.ep.run f).1 ∧ (exec w f).stack = (w.ep.run f).2 ++ w.stack := by
  cases f with
  | sendInLoop m =>
    simp only [exec]
    split <;> exact ⟨rfl,rfl⟩
  | _ => exact ⟨rfl,rfl⟩

/- What a call hands over, and the state it leaves. -/
inductive Handed (s : ConnectionState) : UserCall → Functor → Prop where
  | send {data} (m : Message) : Handed s (.send data) (.sendInLoop m)
  | shutdown (leaving : s = .disconnecting) : Handed s .shutdown .shutdownInLoop
  | forceClose (leaving : s = .disconnecting) : Handed s .forceClose .forceCloseInLoop

theorem requestHanded {w : World} {t : ThreadId} {c : UserCall} {f : Functor}
    (handed : (request w t c).2 = some f) : Handed (request w t c).1.state c f := by
  cases c with
  | send data =>
    simp only [request, send] at handed
    split at handed <;> cases handed
    exact .send _
  | shutdown =>
    simp only [request, shutdown] at handed ⊢
    split at handed <;> cases handed
    rename_i connected
    exact .shutdown (by simp only [if_pos connected, World.state, setState])
  | forceClose =>
    simp only [request, forceClose] at handed ⊢
    split at handed <;> cases handed
    rename_i isOpen
    exact .forceClose (by simp only [if_pos isOpen, World.state, setState])

/- A connection as its constructor leaves it, on an open descriptor. -/
structure Initial (w : World) : Prop where
  state : w.state = .connecting
  socket : w.conn.socket = ⟨some w.conn.channel.fd,[]⟩
  events : w.conn.channel.events = Events.none
  unknown : ∀ fd, w.ep.poller.fdToChannel fd ≠ some w.conn.channel.id
  output : w.conn.outputBuffer.Valid ∧ w.pending = []
  counters : w.conn.pendingWriteBytes = 0 ∧ w.conn.totalBytesWritten = 0
  stack : w.stack = []
  queue : w.queue = []
  inFlight : ∀ t, w.inFlight t = none
  logs : w.sent = [] ∧ w.passed = []

def Reachable (w : World) : Prop := Machine.Reachable step Initial w

/- A fresh connection on descriptor `fd`, its poller and descriptor table empty but for it. -/
def fresh (fd : Fd) (callbacks : Callbacks) (mark bufferSize : Nat) : World :=
  { ep :=
      { conn := ⟨⟨some fd,[]⟩,⟨0,fd,Events.none,false⟩,.connecting,Buffer.new bufferSize,
          Buffer.new bufferSize,0,0,0,callbacks,mark⟩
        poller := ⟨fun _ => none,fun _ => none⟩
        isOpen := fun x => x == fd }
    stack := []
    queue := []
    inFlight := fun _ => none
    sent := []
    passed := [] }

theorem freshInitial (fd callbacks mark bufferSize) : Initial (fresh fd callbacks mark bufferSize) :=
  ⟨rfl,rfl,rfl,fun _ => by simp [fresh],⟨Buffer.newValid _,Buffer.newReadable _⟩,⟨rfl,rfl⟩,rfl,rfl,
    fun _ => rfl,⟨rfl,rfl⟩⟩

end TcFrame.Connection
