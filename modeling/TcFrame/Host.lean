import TcFrame.Connection

/-! The connections of a process. Each belongs to one loop and meets the others only in
the poller of that loop and in the table of open descriptors. -/
namespace TcFrame

abbrev ConnId := Nat

/- TcpConnection's constructor on an accepted or connected descriptor. -/
def TcpConnection.create (id : Nat) (fd : Fd) (callbacks : Callbacks) (mark bufferSize : Nat) : TcpConnection :=
  ⟨⟨some fd,[]⟩,⟨id,fd,Events.none,false⟩,.connecting,Buffer.new bufferSize,Buffer.new bufferSize,0,0,0,callbacks,mark⟩

/- Connections are numbered as they are made; `next` is the first free number. -/
structure Host where
  conns : ConnId → TcpConnection
  loopOf : ConnId → ThreadId
  next : ConnId
  pollers : ThreadId → EpollPoller
  isOpen : Fd → Bool

namespace Host

def empty : Host :=
  { conns := fun c => TcpConnection.create c 0 ⟨false,false,false,false,false⟩ 0 0
    loopOf := fun _ => 0
    next := 0
    pollers := fun _ => ⟨fun _ => none,fun _ => none⟩
    isOpen := fun _ => false }

def endpoint (h : Host) (c : ConnId) : Endpoint := ⟨h.conns c,h.pollers (h.loopOf c),h.isOpen⟩

def put (h : Host) (c : ConnId) (e : Endpoint) : Host :=
  { h with
    conns := Function.update h.conns c e.conn
    pollers := Function.update h.pollers (h.loopOf c) e.poller
    isOpen := e.isOpen }

def add (h : Host) (conn : TcpConnection) (loop : ThreadId) (fd : Fd) : Host :=
  { h with
    conns := Function.update h.conns h.next conn
    loopOf := Function.update h.loopOf h.next loop
    next := h.next + 1
    isOpen := Function.update h.isOpen fd true }

@[simp] theorem putSame (h : Host) (c : ConnId) (e : Endpoint) : (h.put c e).conns c = e.conn := by
  simp [put]

@[simp] theorem putOther (h : Host) {c d : ConnId} (e : Endpoint) (other : d ≠ c) :
    (h.put c e).conns d = h.conns d := by
  simp [put, other]

end Host

namespace Endpoint

/- What no member function changes: which channel it is, on which descriptor, and the
callbacks. The socket keeps its descriptor until it is closed for good. -/
structure Same (e e' : Endpoint) : Prop where
  id : e'.conn.channel.id = e.conn.channel.id
  fd : e'.conn.channel.fd = e.conn.channel.fd
  callbacks : e'.conn.callbacks = e.conn.callbacks
  socket : e'.conn.socket.fd = e.conn.socket.fd ∨ e'.conn.socket.fd = none

theorem sameRefl (e : Endpoint) : Same e e := ⟨rfl,rfl,rfl,.inl rfl⟩

theorem sameTrans {e e' e'' : Endpoint} (h : Same e e') (h' : Same e' e'') : Same e e'' := by
  refine ⟨h'.id.trans h.id,h'.fd.trans h.fd,h'.callbacks.trans h.callbacks,?_⟩
  rcases h'.socket with same | gone
  · rw [same]; exact h.socket
  · exact .inr gone

theorem sameUpdate (e : Endpoint) {ch : Channel} (id : ch.id = e.conn.channel.id) (fd : ch.fd = e.conn.channel.fd) :
    Same e (e.updateChannel ch) := by
  obtain ⟨id',fd',_⟩ := EpollPoller.updateChannelSame e.isOpen e.poller ch
  exact ⟨id'.trans id,fd'.trans fd,rfl,.inl rfl⟩

theorem sameWatch (e : Endpoint) : Same e e.watchWriting := by
  unfold watchWriting
  split
  · exact sameRefl e
  · exact sameUpdate e rfl rfl

theorem sameChange {e e' : Endpoint} {frames : List Frame} (h : Change e e' frames) : Same e e' := by
  cases h with
  | ignored => exact sameRefl e
  | established fresh =>
    have opened : Same e (e.setState .connected) := ⟨rfl,rfl,rfl,.inl rfl⟩
    exact sameTrans opened (sameUpdate _ rfl rfl)
  | closed open_ done frames => exact ⟨done.id,done.fd,done.callbacks,.inl (by rw [done.socket])⟩
  | received bs => exact ⟨rfl,rfl,rfl,.inl rfl⟩
  | wrotePart connected accepted left => exact ⟨rfl,rfl,rfl,.inl rfl⟩
  | @wroteAll n connected accepted left =>
    have wrote : Same e (e.written n) := ⟨rfl,rfl,rfl,.inl rfl⟩
    exact sameTrans wrote (sameUpdate _ rfl rfl)
  | shutting pending => exact sameWatch e

theorem sameSend (e : Endpoint) (data : Bytes) : Same e (e.sendInLoop data).1 := by
  cases passes : e.conn.isConnected with
  | true => rw [(sendInLoopPassed passes).1]; exact ⟨rfl,rfl,rfl,.inl rfl⟩
  | false => rw [sendInLoopRefused passes]; exact sameRefl e

theorem sameRun (e : Endpoint) {f : Functor} : Same e (e.run f).1 := by
  cases f with
  | connectEstablished =>
    have opened : Same e (e.setState .connected) := ⟨rfl,rfl,rfl,.inl rfl⟩
    exact sameTrans opened (sameUpdate _ rfl rfl)
  | connectDestroyed => exact sameChange (connectDestroyedChange e)
  | sendInLoop m => exact sameSend e m.data
  | shutdownInLoop => exact sameChange (shutdownInLoopChange e)
  | forceCloseInLoop => exact sameChange (forceCloseInLoopChange e)

theorem sameResume (e : Endpoint) (f : Frame) : Same e (e.resume f).1 := by
  cases f with
  | sendTail => exact sameWatch e
  | closeSocket =>
    simp only [resume, closeSocket]
    split <;> exact ⟨rfl,rfl,rfl,.inl rfl⟩
  | invalidateSocket => exact ⟨rfl,rfl,rfl,.inr rfl⟩
  | _ => exact sameRefl e

/- The public calls, as what they do at once and what they hand to the loop. -/
def request (e : Endpoint) (t : ThreadId) : UserCall → Endpoint × Option Functor
  | .send data => e.send ⟨t,0,data⟩
  | .shutdown => e.shutdown
  | .forceClose => e.forceClose

theorem sameRequest (e : Endpoint) (t : ThreadId) (c : UserCall) : Same e (e.request t c).1 := by
  cases c <;> simp only [request, send, shutdown, forceClose] <;> split <;> exact ⟨rfl,rfl,rfl,.inl rfl⟩

/- No function goes back to Connecting, and one that ends in Disconnected makes the
close callback. ConnectDestroyed is the exception. -/
structure Advances (e e' : Endpoint) (frames : List Frame) : Prop where
  begun : e.conn.state ≠ .connecting → e'.conn.state ≠ .connecting
  closes : e.conn.state ≠ .disconnected → e'.conn.state = .disconnected → e.conn.callbacks.close = true →
    Frame.closeCallback ∈ frames

theorem advancesSame {e e' : Endpoint} {frames : List Frame} (state : e'.conn.state = e.conn.state) :
    Advances e e' frames :=
  ⟨fun begun => by rw [state]; exact begun,fun up ended => absurd (state ▸ ended) up⟩

theorem advancesTo {e e' : Endpoint} {frames : List Frame} {s : ConnectionState} (state : e'.conn.state = s)
    (begun : s ≠ .connecting) (up : s ≠ .disconnected) : Advances e e' frames :=
  ⟨fun _ => by rw [state]; exact begun,fun _ ended => absurd (state ▸ ended) up⟩

theorem advancesClosed {e e' : Endpoint} {frames : List Frame} (done : Closed e e')
    (made : e.conn.callbacks.close = true → Frame.closeCallback ∈ frames) : Advances e e' frames :=
  ⟨fun _ => by rw [done.state]; simp,fun _ _ => made⟩

theorem handleCloseAdvances (e : Endpoint) : Advances e e.handleClose.1 e.handleClose.2 := by
  unfold handleClose
  split
  · exact advancesSame rfl
  · refine advancesClosed (removeIfAddedClosed (disconnectClosed e)) (fun made => ?_)
    simp [made, TcpConnection.call]

theorem handleReadAdvances (e : Endpoint) (r : ReadResult) : Advances e (e.handleRead r).1 (e.handleRead r).2 := by
  cases r with
  | ok received =>
    simp only [handleRead]
    split
    · exact handleCloseAdvances e
    · exact advancesSame rfl
  | error errno =>
    simp only [handleRead]
    split
    · exact advancesSame rfl
    · exact handleCloseAdvances e

theorem handleWriteAdvances (e : Endpoint) (r : WriteResult) : Advances e (e.handleWrite r).1 (e.handleWrite r).2 := by
  simp only [handleWrite]
  split
  · exact advancesSame rfl
  · rename_i on
    have connected : e.conn.state = .connected := by simpa [TcpConnection.isConnected] using on
    split
    · exact handleCloseAdvances e
    · split
      · split
        · rename_i absurd_
          simp [disableWriting, written, connected] at absurd_
        · exact advancesSame rfl
      · exact advancesSame rfl
    · split
      · exact advancesSame rfl
      · exact handleCloseAdvances e

theorem handleAdvances (e : Endpoint) (ev : Connection.Event) :
    Advances e (Connection.handle e ev).1 (Connection.handle e ev).2 := by
  cases ev with
  | read r => exact handleReadAdvances e r
  | write r => exact handleWriteAdvances e r
  | close => exact handleCloseAdvances e
  | error => exact handleCloseAdvances e

theorem runAdvances (e : Endpoint) {f : Functor} (other : f ≠ .connectDestroyed) :
    Advances e (e.run f).1 (e.run f).2 := by
  cases f with
  | connectEstablished => exact advancesTo (show _ = ConnectionState.connected from rfl) (by simp) (by simp)
  | connectDestroyed => exact absurd rfl other
  | sendInLoop m =>
    cases passes : e.conn.isConnected with
    | true => rw [Endpoint.run, (sendInLoopPassed passes).1]; exact advancesSame rfl
    | false => rw [Endpoint.run, sendInLoopRefused passes]; exact advancesSame rfl
  | shutdownInLoop =>
    simp only [Endpoint.run, shutdownInLoop]
    split
    · exact advancesSame (watchWritingState e)
    · exact handleCloseAdvances e
  | forceCloseInLoop =>
    simp only [Endpoint.run, forceCloseInLoop]
    split
    · refine advancesClosed (disconnectClosed e) (fun made => ?_)
      simp [made, TcpConnection.call]
    · exact advancesSame rfl

theorem forceCloseOver {e : Endpoint} (begun : e.conn.state ≠ .connecting) :
    (e.run .forceCloseInLoop).1.conn.state = .disconnected := by
  simp only [Endpoint.run, forceCloseInLoop]
  split
  · exact (disconnectClosed e).state
  · rename_i shut
    exact shutState (by simpa using shut) begun

/- Nor does a public call: it stops at Disconnecting. -/
theorem requestMonotone (e : Endpoint) (t : ThreadId) (c : UserCall) :
    (e.conn.state ≠ .connecting → (e.request t c).1.conn.state ≠ .connecting) ∧
    ((e.request t c).1.conn.state = .disconnected → e.conn.state = .disconnected) := by
  cases c <;> simp only [request, send, shutdown, forceClose] <;> split <;> simp [setState]

end Endpoint
end TcFrame
