import TcFrame.Buffer
import TcFrame.EpollPoller

/-! One connection. Each member function is a function on the connection, the poller
of its loop and the process's table of open descriptors. A function runs up to the
first callback it makes; what is left of it is returned as frames for the stack of
the loop's thread, the first frame on top. -/
namespace TcFrame

inductive ConnectionState where
  | connecting
  | connected
  | disconnecting
  | disconnected
  deriving DecidableEq, Repr

/- `fd` is m_sockfd, `none` standing for INVALID_SOCKET_VALUE. `accepted` is what the
kernel has taken from the socket so far. -/
structure Socket where
  fd : Option Fd
  accepted : Bytes
  deriving DecidableEq, Repr

/- Which of the std::function members are not empty. -/
structure Callbacks where
  connection : Bool
  message : Bool
  writeComplete : Bool
  close : Bool
  highWaterMark : Bool
  deriving DecidableEq, Repr

structure TcpConnection where
  socket : Socket
  channel : Channel
  state : ConnectionState
  inputBuffer : Buffer
  outputBuffer : Buffer
  pendingWriteBytes : Nat
  totalBytesRead : Nat
  totalBytesWritten : Nat
  callbacks : Callbacks
  highWaterMark : Nat
  deriving DecidableEq, Repr

structure Endpoint where
  conn : TcpConnection
  poller : EpollPoller
  isOpen : Fd → Bool

/- A message on its way through Send: who sent it, and a number no other message has. -/
structure Message where
  sender : ThreadId
  seq : Nat
  data : Bytes
  deriving DecidableEq, Repr

/- What is passed to RunInLoop or QueueInLoop. -/
inductive Functor where
  | connectEstablished
  | connectDestroyed
  | sendInLoop (message : Message)
  | shutdownInLoop
  | forceCloseInLoop
  deriving DecidableEq, Repr

inductive Frame where
  | connectionCallback
  | messageCallback
  | writeCompleteCallback
  | closeCallback
  | highWaterMarkCallback (pending : Nat)
  | sendTail                     -- SendInLoop after the high-water callback
  | closeSocket                  -- Socket::Close: close(fd)
  | invalidateSocket             -- Socket::Close: the store to m_sockfd
  deriving DecidableEq, Repr

def Frame.isCallback : Frame → Bool
  | .sendTail | .closeSocket | .invalidateSocket => false
  | _ => true

/- EAGAIN and EWOULDBLOCK are one number. -/
def isNormalWouldBlock (errno : Nat) : Bool := errno == 11

inductive ReadResult where
  | ok (received : Bytes)
  | error (errno : Nat)
  deriving DecidableEq, Repr

inductive WriteResult where
  | ok (n : Nat)
  | error (errno : Nat)
  deriving DecidableEq, Repr

/- The calls open to user code. -/
inductive UserCall where
  | send (data : Bytes)
  | shutdown
  | forceClose
  deriving DecidableEq, Repr

namespace TcpConnection

def isConnected (c : TcpConnection) : Bool := c.state == .connected

def call (isSet : Bool) (f : Frame) : List Frame := if isSet then [f] else []

end TcpConnection

namespace Endpoint
open TcpConnection

def setState (e : Endpoint) (s : ConnectionState) : Endpoint :=
  { e with conn := { e.conn with state := s } }

def setPending (e : Endpoint) (n : Nat) : Endpoint :=
  { e with conn := { e.conn with pendingWriteBytes := n } }

/- Channel::Enable*, Disable*: the new interest goes to the loop's poller. -/
def updateChannel (e : Endpoint) (ch : Channel) : Endpoint :=
  let out := e.poller.updateChannel e.isOpen ch
  { e with poller := out.1, conn := { e.conn with channel := out.2 } }

def enableReading (e : Endpoint) : Endpoint := e.updateChannel e.conn.channel.enableReading
def enableWriting (e : Endpoint) : Endpoint := e.updateChannel e.conn.channel.enableWriting
def disableWriting (e : Endpoint) : Endpoint := e.updateChannel e.conn.channel.disableWriting
def disableAll (e : Endpoint) : Endpoint := e.updateChannel e.conn.channel.disableAll

def removeIfAdded (e : Endpoint) : Endpoint :=
  if e.conn.channel.added then
    let out := e.poller.removeChannel e.isOpen e.conn.channel
    { e with poller := out.1, conn := { e.conn with channel := out.2 } }
  else e

/- The statements the three closing functions share. -/
def disconnect (e : Endpoint) : Endpoint := ((e.setState .disconnected).setPending 0).disableAll

def isOpenState (e : Endpoint) : Bool := e.conn.state == .connected || e.conn.state == .disconnecting

def connectEstablished (e : Endpoint) : Endpoint × List Frame :=
  ((e.setState .connected).enableReading,call e.conn.callbacks.connection .connectionCallback)

def connectDestroyed (e : Endpoint) : Endpoint × List Frame :=
  if e.isOpenState then (e.disconnect.removeIfAdded,[.closeSocket]) else (e,[])

def handleClose (e : Endpoint) : Endpoint × List Frame :=
  if e.conn.state = .disconnected then (e,[])
  else (e.disconnect.removeIfAdded,call e.conn.callbacks.close .closeCallback ++ [.closeSocket])

def handleError (e : Endpoint) : Endpoint × List Frame := e.handleClose

/- A failed readv is taken to leave the input buffer as it was. -/
def handleRead (e : Endpoint) : ReadResult → Endpoint × List Frame
  | .ok received =>
    let c := e.conn
    let c := { c with
      inputBuffer := c.inputBuffer.readFromFd received
      totalBytesRead := c.totalBytesRead + received.length }
    if received = [] then e.handleClose
    else ({ e with conn := c },call c.callbacks.message .messageCallback)
  | .error errno => if isNormalWouldBlock errno then (e,[]) else e.handleClose

/- The bytes a write() took leave the output buffer and are counted. -/
def written (e : Endpoint) (n : Nat) : Endpoint :=
  let c := e.conn
  let left := c.outputBuffer.writeToFd n
  { e with conn := { c with
      socket := { c.socket with accepted := c.socket.accepted ++ c.outputBuffer.readable.take n }
      outputBuffer := left
      totalBytesWritten := c.totalBytesWritten + n
      pendingWriteBytes := left.readableBytes } }

/- With nothing readable WriteToFd returns 0 and leaves err at 0, as a write() of no
bytes does. After a write that took bytes err is still 0, so the test of err behind
the write-complete callback does nothing. -/
def handleWrite (e : Endpoint) (r : WriteResult) : Endpoint × List Frame :=
  if !e.conn.isConnected then (e,[])
  else
    match (if e.conn.outputBuffer.readableBytes = 0 then .ok 0 else r) with
    | .ok 0 => e.handleClose
    | .ok n =>
      let e := e.written n
      if e.conn.outputBuffer.readableBytes = 0 then
        let e := e.disableWriting
        if e.conn.state = .disconnecting then e.handleClose
        else (e,call e.conn.callbacks.writeComplete .writeCompleteCallback)
      else (e,[])
    | .error errno => if isNormalWouldBlock errno then (e,[]) else e.handleClose

def sendInLoop (e : Endpoint) (data : Bytes) : Endpoint × List Frame :=
  if !e.conn.isConnected then (e,[])
  else
    let c := e.conn
    let oldPending := c.outputBuffer.readableBytes
    let out := c.outputBuffer.append data
    let newPending := out.readableBytes
    let notify := c.callbacks.highWaterMark && decide (oldPending < c.highWaterMark) &&
      decide (c.highWaterMark ≤ newPending)
    ({ e with conn := { c with outputBuffer := out, pendingWriteBytes := newPending } },
      call notify (.highWaterMarkCallback newPending) ++ [.sendTail])

def watchWriting (e : Endpoint) : Endpoint :=
  if e.conn.channel.isWriting then e else e.enableWriting

def shutdownInLoop (e : Endpoint) : Endpoint × List Frame :=
  if 0 < e.conn.outputBuffer.readableBytes then (e.watchWriting,[]) else e.handleClose

def forceCloseInLoop (e : Endpoint) : Endpoint × List Frame :=
  if e.isOpenState then (e.disconnect,.closeSocket :: call e.conn.callbacks.close .closeCallback)
  else (e,[])

/- Socket::Close is two steps: the descriptor is closed, then the field overwritten. -/
def closeSocket (e : Endpoint) : Endpoint × List Frame :=
  match e.conn.socket.fd with
  | none => (e,[])
  | some fd =>
    ({ e with isOpen := Function.update e.isOpen fd false, poller := e.poller.closed fd },
      [.invalidateSocket])

def invalidateSocket (e : Endpoint) : Endpoint :=
  { e with conn := { e.conn with socket := { e.conn.socket with fd := none } } }

/- The public calls: what they change at once, in the calling thread, and what they
hand to the loop. -/
def send (e : Endpoint) (m : Message) : Endpoint × Option Functor :=
  if e.conn.isConnected then (e,some (.sendInLoop m)) else (e,none)

def shutdown (e : Endpoint) : Endpoint × Option Functor :=
  if e.conn.state = .connected then (e.setState .disconnecting,some .shutdownInLoop) else (e,none)

def forceClose (e : Endpoint) : Endpoint × Option Functor :=
  if e.isOpenState then (e.setState .disconnecting,some .forceCloseInLoop) else (e,none)

def run (e : Endpoint) : Functor → Endpoint × List Frame
  | .connectEstablished => e.connectEstablished
  | .connectDestroyed => e.connectDestroyed
  | .sendInLoop m => e.sendInLoop m.data
  | .shutdownInLoop => e.shutdownInLoop
  | .forceCloseInLoop => e.forceCloseInLoop

/- The loop's thread goes on with a function whose callback has returned. A callback
frame has nothing left to run. -/
def resume (e : Endpoint) : Frame → Endpoint × List Frame
  | .sendTail => (e.watchWriting,[])
  | .closeSocket => e.closeSocket
  | .invalidateSocket => (e.invalidateSocket,[])
  | _ => (e,[])

@[simp] theorem updateChannelConn (e : Endpoint) (ch : Channel) :
    (e.updateChannel ch).conn = { e.conn with channel := (e.poller.updateChannel e.isOpen ch).2 } := rfl

/- What the closing functions do to a connection. Buffers, counters of bytes and the
socket stay; the channel has no interest and its map entry is gone. -/
structure Closed (e e' : Endpoint) : Prop where
  state : e'.conn.state = .disconnected
  pending : e'.conn.pendingWriteBytes = 0
  events : e'.conn.channel.events = Events.none
  map : e'.poller.fdToChannel = Function.update e.poller.fdToChannel e.conn.channel.fd none
  id : e'.conn.channel.id = e.conn.channel.id
  fd : e'.conn.channel.fd = e.conn.channel.fd
  socket : e'.conn.socket = e.conn.socket
  output : e'.conn.outputBuffer = e.conn.outputBuffer
  input : e'.conn.inputBuffer = e.conn.inputBuffer
  total : e'.conn.totalBytesWritten = e.conn.totalBytesWritten
  callbacks : e'.conn.callbacks = e.conn.callbacks
  mark : e'.conn.highWaterMark = e.conn.highWaterMark
  isOpen : e'.isOpen = e.isOpen

theorem disconnectClosed (e : Endpoint) : Closed e e.disconnect := by
  have same := EpollPoller.updateChannelSame e.isOpen e.poller e.conn.channel.disableAll
  exact ⟨rfl,rfl,same.2.2,EpollPoller.updateChannelMapNone _ _ rfl,same.1,same.2.1,rfl,rfl,rfl,rfl,rfl,rfl,rfl⟩

theorem removeIfAddedClosed {e e' : Endpoint} (h : Closed e e') : Closed e e'.removeIfAdded := by
  unfold removeIfAdded
  split
  · have same := EpollPoller.removeChannelSame e'.isOpen e'.poller e'.conn.channel
    have map := EpollPoller.removeChannelMap e'.isOpen e'.poller e'.conn.channel
    refine ⟨h.state,h.pending,same.2.2.trans h.events,?_,same.1.trans h.id,same.2.1.trans h.fd,
      h.socket,h.output,h.input,h.total,h.callbacks,h.mark,h.isOpen⟩
    rw [map, h.map, h.fd, Function.update_idem]
  · exact h

theorem watchWritingConn (e : Endpoint) : ∃ ch : Channel, e.watchWriting.conn = { e.conn with channel := ch } ∧
    ch.id = e.conn.channel.id ∧ ch.fd = e.conn.channel.fd ∧
    ch.events = { e.conn.channel.events with write := true } := by
  unfold watchWriting
  split
  · rename_i on
    refine ⟨e.conn.channel,rfl,rfl,rfl,?_⟩
    rw [Channel.isWriting] at on
    rw [← on]
  · have same := EpollPoller.updateChannelSame e.isOpen e.poller e.conn.channel.enableWriting
    exact ⟨_,rfl,same⟩

theorem watchWritingState (e : Endpoint) : e.watchWriting.conn.state = e.conn.state := by
  obtain ⟨ch,conn,_⟩ := watchWritingConn e
  rw [conn]

theorem resumeState (e : Endpoint) (f : Frame) : (e.resume f).1.conn.state = e.conn.state := by
  cases f with
  | sendTail => exact watchWritingState e
  | closeSocket =>
    simp only [resume, closeSocket]
    split <;> rfl
  | _ => rfl

/- Everything a member function can have done when it returns or makes its first
callback, with the frames it leaves. -/
inductive Change (e : Endpoint) : Endpoint → List Frame → Prop where
  | ignored : Change e e []
  | established (fresh : e.conn.state = .connecting) :
      Change e (e.setState .connected).enableReading (call e.conn.callbacks.connection .connectionCallback)
  | closed {e' frames} (open_ : e.conn.state ≠ .disconnected) (done : Closed e e')
      (frames_ : frames = call e.conn.callbacks.close .closeCallback ++ [.closeSocket] ∨
        frames = .closeSocket :: call e.conn.callbacks.close .closeCallback ∨ frames = [.closeSocket]) :
      Change e e' frames
  | received (bs : Bytes) :
      Change e
        { e with conn := { e.conn with
          inputBuffer := e.conn.inputBuffer.readFromFd bs
          totalBytesRead := e.conn.totalBytesRead + bs.length } }
        (call e.conn.callbacks.message .messageCallback)
  | wrotePart {n} (connected : e.conn.state = .connected) (accepted : n ≤ e.conn.outputBuffer.readableBytes)
      (left : (e.written n).conn.outputBuffer.readableBytes ≠ 0) : Change e (e.written n) []
  | wroteAll {n} (connected : e.conn.state = .connected) (accepted : n ≤ e.conn.outputBuffer.readableBytes)
      (left : (e.written n).conn.outputBuffer.readableBytes = 0) :
      Change e (e.written n).disableWriting (call e.conn.callbacks.writeComplete .writeCompleteCallback)
  | shutting (pending : 0 < e.conn.outputBuffer.readableBytes) : Change e e.watchWriting []

theorem handleCloseChange (e : Endpoint) : Change e e.handleClose.1 e.handleClose.2 := by
  unfold handleClose
  split
  · exact .ignored
  · exact .closed (by assumption) (removeIfAddedClosed (disconnectClosed e)) (.inl rfl)

theorem openState {e : Endpoint} (h : e.isOpenState = true) :
    e.conn.state = .connected ∨ e.conn.state = .disconnecting := by
  simpa [isOpenState] using h

theorem shutState {e : Endpoint} (h : e.isOpenState = false) (begun : e.conn.state ≠ .connecting) :
    e.conn.state = .disconnected := by
  cases state : e.conn.state with
  | connecting => exact absurd state begun
  | disconnected => rfl
  | _ => simp [isOpenState, state] at h

theorem connectDestroyedChange (e : Endpoint) : Change e e.connectDestroyed.1 e.connectDestroyed.2 := by
  unfold connectDestroyed
  split
  · rename_i h
    have open_ : e.conn.state ≠ .disconnected := by rcases openState h with s | s <;> simp [s]
    exact .closed open_ (removeIfAddedClosed (disconnectClosed e)) (.inr (.inr rfl))
  · exact .ignored

theorem forceCloseInLoopChange (e : Endpoint) : Change e e.forceCloseInLoop.1 e.forceCloseInLoop.2 := by
  unfold forceCloseInLoop
  split
  · rename_i h
    have open_ : e.conn.state ≠ .disconnected := by rcases openState h with s | s <;> simp [s]
    exact .closed open_ (disconnectClosed e) (.inr (.inl rfl))
  · exact .ignored

theorem shutdownInLoopChange (e : Endpoint) : Change e e.shutdownInLoop.1 e.shutdownInLoop.2 := by
  unfold shutdownInLoop
  split
  · exact .shutting (by assumption)
  · exact handleCloseChange e

theorem handleReadChange (e : Endpoint) (r : ReadResult) : Change e (e.handleRead r).1 (e.handleRead r).2 := by
  cases r with
  | ok received =>
    simp only [handleRead]
    split
    · exact handleCloseChange e
    · exact .received received
  | error errno =>
    simp only [handleRead]
    split
    · exact .ignored
    · exact handleCloseChange e

theorem handleWriteChange (e : Endpoint) (r : WriteResult)
    (accepted : ∀ n, r = .ok n → n ≤ e.conn.outputBuffer.readableBytes) :
    Change e (e.handleWrite r).1 (e.handleWrite r).2 := by
  simp only [handleWrite]
  split
  · exact .ignored
  · rename_i on
    have connected : e.conn.state = .connected := by simpa [TcpConnection.isConnected] using on
    split
    · exact handleCloseChange e
    · rename_i n nonzero took
      have bound : n ≤ e.conn.outputBuffer.readableBytes := by
        split at took
        · cases took; omega
        · exact accepted n took
      split
      · rename_i left
        split
        · rename_i absurd_
          simp [disableWriting, written, connected] at absurd_
        · exact .wroteAll connected bound left
      · exact .wrotePart connected bound (by assumption)
    · split
      · exact .ignored
      · exact handleCloseChange e

/- Of the functors only SendInLoop adds to the output, and it is stated apart. -/
theorem runChange (e : Endpoint) {f : Functor} (other : ∀ m, f ≠ .sendInLoop m)
    (fresh : f = .connectEstablished → e.conn.state = .connecting) : Change e (e.run f).1 (e.run f).2 := by
  cases f with
  | connectEstablished => exact .established (fresh rfl)
  | connectDestroyed => exact connectDestroyedChange e
  | sendInLoop m => exact absurd rfl (other m)
  | shutdownInLoop => exact shutdownInLoopChange e
  | forceCloseInLoop => exact forceCloseInLoopChange e

def appended (e : Endpoint) (data : Bytes) : Endpoint :=
  let out := e.conn.outputBuffer.append data
  { e with conn := { e.conn with outputBuffer := out, pendingWriteBytes := out.readableBytes } }

theorem sendInLoopRefused {e : Endpoint} {data : Bytes} (h : e.conn.isConnected = false) :
    e.sendInLoop data = (e,[]) := by
  simp [sendInLoop, h]

theorem sendInLoopPassed {e : Endpoint} {data : Bytes} (h : e.conn.isConnected = true) :
    (e.sendInLoop data).1 = e.appended data ∧
    ∃ notify, (e.sendInLoop data).2 =
      call notify (.highWaterMarkCallback (e.appended data).conn.pendingWriteBytes) ++ [.sendTail] := by
  refine ⟨by simp [sendInLoop, h, appended],?_⟩
  simp only [sendInLoop, h, appended, Bool.not_true, Bool.false_eq_true, if_false]
  exact ⟨_,rfl⟩

end Endpoint
end TcFrame
