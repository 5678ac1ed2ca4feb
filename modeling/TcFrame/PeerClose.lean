import TcFrame.ConnectionInput
import TcFrame.TcpServerBatch

/-! A peer that sends bytes and then closes its side. The bytes reach the kernel's queue in
their order and the FIN behind them; readv takes from the queue, and returns 0 when it is
empty behind the FIN. The poller may report the hang-up as soon as the FIN is there, also
with bytes in the queue. -/
namespace TcFrame

/- The bits of one descriptor that a poll reports. -/
structure PollBits where
  readable : Bool
  writable : Bool
  error : Bool
  hangUp : Bool
  readHangUp : Bool        -- EPOLLRDHUP, POLLRDHUP
  deriving DecidableEq, Repr

/- Both TransRevents take a closed sending side of the peer for a hang-up. -/
def translate (bits : PollBits) : TcpServer.Revents :=
  ⟨bits.error,bits.hangUp || bits.readHangUp,bits.readable,bits.writable⟩

def EpollPoller.transRevents (bits : PollBits) : TcpServer.Revents := translate bits

/- Where the system has no POLLRDHUP the bit is never set. -/
def WSPollPoller.transRevents (bits : PollBits) : TcpServer.Revents := translate bits

namespace PeerClose
open TcpServer (Revents Handler handleEvent)

inductive Backend where
  | epoll
  | wspoll
  deriving DecidableEq, Repr

def Backend.transRevents : Backend → PollBits → Revents
  | .epoll => EpollPoller.transRevents
  | .wspoll => WSPollPoller.transRevents

/- What comes in from the peer: `transit` is on its way, `unread` in the kernel's queue. -/
structure Incoming where
  sent : Bytes
  transit : Bytes
  unread : Bytes
  closed : Bool
  fin : Bool
  deriving DecidableEq, Repr

inductive PeerMove where
  | sends (data : Bytes)
  | closes
  | arrives (n : Nat)
  | finArrives
  deriving DecidableEq, Repr

namespace Incoming

def move (i : Incoming) : PeerMove → Option Incoming
  | .sends data => if i.closed then none else some { i with sent := i.sent ++ data, transit := i.transit ++ data }
  | .closes => some { i with closed := true }
  | .arrives n => some { i with transit := i.transit.drop n, unread := i.unread ++ i.transit.take n }
  | .finArrives => if i.closed = true ∧ i.transit = [] then some { i with fin := true } else none

/- readv on a nonblocking socket with room for n + 1 bytes. -/
def readv (i : Incoming) (n : Nat) : ReadResult × Incoming :=
  if i.unread = [] then (if i.fin then .ok [] else .error 11,i)
  else (.ok (i.unread.take (n + 1)),{ i with unread := i.unread.drop (n + 1) })

/- In an orderly close no error is reported, and a hang-up not before the FIN. -/
def reports (i : Incoming) (bits : PollBits) : Bool :=
  !bits.error && (!(bits.hangUp || bits.readHangUp) || i.fin)

end Incoming

/- `calls` are the callbacks that HandleEvent has still to call. `consumed` is what user code
has retrieved from the input buffer, `shown` all that had been appended to it when the
message callback was last called. -/
structure World where
  connection : Connection.World
  calls : List Handler
  incoming : Incoming
  consumed : Bytes
  shown : Bytes

inductive Action where
  | peer (m : PeerMove)
  | handleEvent (bits : PollBits)
  | read (n : Nat)
  | write (r : WriteResult)
  | close
  | retrieve (n : Nat)                  -- in the message callback
  | connection (a : Connection.Action)
  deriving DecidableEq, Repr

/- What Loop calls itself, not before HandleEvent has returned. -/
def loopCalls : Connection.Action → Bool
  | .establish | .destroy | .runQueued => true
  | _ => false

def isEvent : Connection.Action → Bool
  | .event _ => true
  | _ => false

/- HandleEvent calls a callback: the next one of `calls` is `h`. -/
def call (w : World) (h : Handler) (ev : Connection.Event) : Option World :=
  match w.calls with
  | next :: rest =>
    if next = h then (Connection.step w.connection (.event ev)).map (fun c => { w with connection := c, calls := rest })
    else none
  | [] => none

/- The message callback is called. -/
def shows (w : World) : World :=
  if w.connection.stack.head? = some .messageCallback then
    { w with shown := w.consumed ++ w.connection.conn.inputBuffer.readable }
  else w

def step (p : Backend) (w : World) : Action → Option World
  | .peer m => (w.incoming.move m).map (fun i => { w with incoming := i })
  | .handleEvent bits =>
    if w.connection.stack = [] ∧ w.calls = [] ∧ w.incoming.reports bits = true then
      some { w with calls := handleEvent (p.transRevents bits) }
    else none
  | .read n =>
    let out := w.incoming.readv n
    (call w .read (.read out.1)).map (fun w => shows { w with incoming := out.2 })
  | .write r => call w .write (.write r)
  | .close => call w .close .close
  | .retrieve n =>
    let b := w.connection.conn.inputBuffer
    if w.connection.stack.head? = some .messageCallback ∧ n ≤ b.readableBytes then
      some { w with
        connection := Connection.setInput w.connection (b.retrieve n)
        consumed := w.consumed ++ b.readable.take n }
    else none
  | .connection a =>
    if isEvent a = false ∧ (loopCalls a = true → w.calls = []) then
      (Connection.step w.connection a).map (fun c => { w with connection := c })
    else none

/- The steps with what they come from. -/
inductive Step (p : Backend) (w : World) : Action → World → Prop where
  | peer {m i} (moved : w.incoming.move m = some i) : Step p w (.peer m) { w with incoming := i }
  | handleEvent {bits} (idle : w.connection.stack = []) (reported : w.incoming.reports bits = true) :
      Step p w (.handleEvent bits) { w with calls := handleEvent (p.transRevents bits) }
  | read {n c rest} (next : w.calls = .read :: rest)
      (taken : Connection.step w.connection (.event (.read (w.incoming.readv n).1)) = some c) :
      Step p w (.read n) (shows { w with connection := c, calls := rest, incoming := (w.incoming.readv n).2 })
  | write {r c rest} (next : w.calls = .write :: rest)
      (taken : Connection.step w.connection (.event (.write r)) = some c) :
      Step p w (.write r) { w with connection := c, calls := rest }
  | close {c rest} (next : w.calls = .close :: rest) (taken : Connection.step w.connection (.event .close) = some c) :
      Step p w .close { w with connection := c, calls := rest }
  | retrieve {n} (asserted : n ≤ w.connection.conn.inputBuffer.readableBytes) :
      Step p w (.retrieve n)
        { w with
          connection := Connection.setInput w.connection (w.connection.conn.inputBuffer.retrieve n)
          consumed := w.consumed ++ w.connection.conn.inputBuffer.readable.take n }
  | connection {a c} (other : isEvent a = false) (taken : Connection.step w.connection a = some c) :
      Step p w (.connection a) { w with connection := c }

theorem callCases {w w' : World} {h : Handler} {ev : Connection.Event} (called : call w h ev = some w') :
    ∃ c rest, w.calls = h :: rest ∧ Connection.step w.connection (.event ev) = some c ∧
      w' = { w with connection := c, calls := rest } := by
  unfold call at called
  split at called
  · rename_i next rest calls
    split at called
    · rename_i same
      obtain ⟨c,taken,made⟩ := Option.map_eq_some_iff.mp called
      exact ⟨c,rest,same ▸ calls,taken,made.symm⟩
    · cases called
  · cases called

theorem stepCases {p : Backend} {w w' : World} {a : Action} (taken : step p w a = some w') : Step p w a w' := by
  cases a with
  | peer m =>
    obtain ⟨i,moved,made⟩ := Option.map_eq_some_iff.mp taken
    subst made
    exact .peer moved
  | handleEvent bits =>
    simp only [step] at taken
    split at taken <;> cases taken
    rename_i ok
    exact .handleEvent ok.1 ok.2.2
  | read n =>
    obtain ⟨v,called,made⟩ := Option.map_eq_some_iff.mp taken
    obtain ⟨c,rest,next,done,same⟩ := callCases called
    subst same
    subst made
    exact .read next done
  | write r =>
    obtain ⟨c,rest,next,done,same⟩ := callCases taken
    subst same
    exact .write next done
  | close =>
    obtain ⟨c,rest,next,done,same⟩ := callCases taken
    subst same
    exact .close next done
  | retrieve n =>
    simp only [step] at taken
    split at taken <;> cases taken
    rename_i ok
    exact .retrieve ok.2
  | connection a =>
    simp only [step] at taken
    split at taken
    · rename_i ok
      obtain ⟨c,done,made⟩ := Option.map_eq_some_iff.mp taken
      subst made
      exact .connection ok.1 done
    · cases taken

/- A step closes the connection that is neither a read nor the hang-up of the peer. -/
def endsEarly (p : Backend) (w : World) (a : Action) : Bool :=
  match a, step p w a with
  | .read _, _ | .close, _ => false
  | _, some w' => w.connection.state != .disconnected && w'.connection.state == .disconnected
  | _, none => false

/- HandleEvent finds the hang-up bit while bytes of the peer are unread. -/
def dropsUnread (p : Backend) (w : World) (a : Action) : Bool :=
  match a with
  | .handleEvent bits => (p.transRevents bits).hangUp && !w.incoming.unread.isEmpty
  | _ => false

/- The close callback is called by the function that makes the connection Disconnected. -/
theorem calledEnds {c c' : Connection.World} {a : Connection.Action} (set : c.conn.callbacks.close = true)
    (taken : Connection.step c a = some c') (called : Frame.closeCallback ∈ c'.stack) :
    Frame.closeCallback ∈ c.stack ∨ c.state ≠ .disconnected ∧ c'.state = .disconnected := by
  have closing : ∀ stack, Frame.closeCallback ∈ stack ↔ Frame.closeCallback ∈ Connection.closingFrames stack :=
    fun stack => ⟨fun there => List.mem_filter.mpr ⟨there,rfl⟩,List.mem_of_mem_filter⟩
  cases (Connection.advance (a := .act a) (n := Connection.noClosings) set taken).effect with
  | quiet same => exact .inl ((closing _).mpr (same ▸ (closing _).mp called))
  | closes destroyed up ended => exact .inr ⟨up,ended⟩
  | called top => exact .inl (by rw [top]; exact List.mem_cons_self)
  | closed top stack =>
    rw [stack] at called
    rw [top]
    exact .inl (List.mem_cons_of_mem _ ((List.mem_cons.mp called).resolve_left (by simp)))
  | spared top => exact .inl (by rw [top]; exact List.mem_cons_of_mem _ called)
  | invalidated top => exact .inl (by rw [top]; exact List.mem_cons_of_mem _ called)

/- Of what was sent, `taken` has left the kernel's queue; the FIN is behind all bytes. -/
structure Incoming.Way (i : Incoming) (taken : Bytes) : Prop where
  whole : i.sent = taken ++ i.unread ++ i.transit
  fin : i.fin = true → i.closed = true ∧ i.transit = []

/- Behind the FIN nothing comes into the queue. -/
theorem wayMove {i i' : Incoming} {taken : Bytes} {m : PeerMove} (h : i.Way taken) (moved : i.move m = some i') :
    i'.Way taken ∧ (i.fin = true → i'.fin = true ∧ i'.unread = i.unread) := by
  cases m with
  | sends data =>
    simp only [Incoming.move] at moved
    split at moved <;> cases moved
    rename_i up
    refine ⟨⟨by simp [h.whole],fun fin => absurd (h.fin fin).1 up⟩,fun fin => ⟨fin,rfl⟩⟩
  | closes =>
    cases moved
    exact ⟨⟨h.whole,fun fin => ⟨rfl,(h.fin fin).2⟩⟩,fun fin => ⟨fin,rfl⟩⟩
  | arrives n =>
    cases moved
    refine ⟨⟨?_,fun fin => ?_⟩,fun fin => ⟨fin,?_⟩⟩
    · simp only [h.whole, List.append_assoc, List.take_append_drop]
    · exact ⟨(h.fin fin).1,by simp only [(h.fin fin).2, List.drop_nil]⟩
    · simp only [(h.fin fin).2, List.take_nil, List.append_nil]
  | finArrives =>
    simp only [Incoming.move] at moved
    split at moved <;> cases moved
    rename_i behind
    exact ⟨⟨h.whole,fun _ => behind⟩,fun _ => ⟨rfl,rfl⟩⟩

/- What readv answers. -/
inductive Readv (i : Incoming) : ReadResult × Incoming → Prop where
  | data {bs rest} (some_ : bs ≠ []) (front : i.unread = bs ++ rest) : Readv i (.ok bs,{ i with unread := rest })
  | eof (drained : i.unread = []) (fin : i.fin = true) : Readv i (.ok [],i)
  | again (drained : i.unread = []) : Readv i (.error 11,i)

theorem readvCases (i : Incoming) (n : Nat) : Readv i (i.readv n) := by
  unfold Incoming.readv
  split
  · rename_i drained
    split
    · exact .eof drained (by assumption)
    · exact .again drained
  · rename_i unread
    exact .data (by simp [unread]) (List.take_append_drop (n + 1) i.unread).symm

/- All that has left the queue was appended to the input buffer and shown to the message
callback, and only behind the FIN does HandleEvent close or the close callback run. -/
structure Sound (w : World) : Prop where
  message : w.connection.conn.callbacks.message = true
  close : w.connection.conn.callbacks.close = true
  valid : w.connection.conn.inputBuffer.Valid
  shown : w.shown = w.consumed ++ w.connection.conn.inputBuffer.readable
  way : w.incoming.Way w.shown
  hangs : Handler.close ∈ w.calls → w.incoming.fin = true
  called : Frame.closeCallback ∈ w.connection.stack → w.incoming.fin = true

/- When a hang-up is handled, or the close callback runs, nothing is unread. -/
structure Drained (w : World) : Prop where
  hangs : Handler.close ∈ w.calls → w.incoming.unread = []
  called : Frame.closeCallback ∈ w.connection.stack → w.incoming.unread = []

section Steps
variable {p : Backend} {w : World} {c : Connection.World}

theorem restLater {calls rest : List Handler} {x y : Handler} (next : calls = x :: rest) (there : y ∈ rest) :
    y ∈ calls := by
  rw [next]
  exact List.mem_cons_of_mem _ there

/- Without an error, HandleEvent closes for a hang-up only. -/
theorem closeReported {i : Incoming} {bits : PollBits} (reported : i.reports bits = true)
    (next : Handler.close ∈ handleEvent (p.transRevents bits)) :
    (p.transRevents bits).hangUp = true ∧ i.fin = true := by
  have same : p.transRevents bits = translate bits := by cases p <;> rfl
  simp only [Incoming.reports, Bool.and_eq_true, Bool.not_eq_true', Bool.or_eq_true] at reported
  rw [same] at next ⊢
  simp only [handleEvent, translate, reported.1, Bool.false_eq_true, if_false] at next
  cases up : bits.hangUp || bits.readHangUp with
  | true => exact ⟨up,reported.2.resolve_left (by simp [up])⟩
  | false =>
    rw [up, if_neg (by simp)] at next
    cases bits.readable <;> cases bits.writable <;> simp at next

/- A step of the connection that reads nothing. -/
theorem soundConnection {a : Connection.Action} {calls : List Handler} (h : Sound w)
    (taken : Connection.step w.connection a = some c) (nothing : Connection.readBytes a = [])
    (later : Handler.close ∈ calls → Handler.close ∈ w.calls)
    (called : Frame.closeCallback ∈ c.stack → w.incoming.fin = true) :
    Sound { w with connection := c, calls := calls } := by
  have callbacks := Connection.stepCallbacks taken
  have input := Connection.inputKept taken nothing
  exact ⟨by rw [callbacks]; exact h.message,by rw [callbacks]; exact h.close,input ▸ h.valid,input ▸ h.shown,h.way,
    fun next => h.hangs (later next),called⟩

/- A successful read calls the message callback with the bytes in the buffer. -/
theorem readShown {bs : Bytes} (h : Sound w) (some_ : bs ≠ [])
    (taken : Connection.step w.connection (.event (.read (.ok bs))) = some c) :
    c.stack = [.messageCallback] ∧ c.conn.inputBuffer = w.connection.conn.inputBuffer.readFromFd bs := by
  cases Connection.stepCases taken with
  | event idle up ok =>
    have message : w.connection.ep.conn.callbacks.message = true := h.message
    simp only [Connection.handle, Connection.handleReadBytes _ some_, TcpConnection.call, message, if_true]
    exact ⟨rfl,rfl⟩

theorem blockedIdle (taken : Connection.step w.connection (.event (.read (.error 11))) = some c) : c.stack = [] := by
  cases Connection.stepCases taken with
  | event idle up ok => rfl

theorem showsSame (h : Sound w) : shows w = w := by
  unfold shows
  split
  · rw [← h.shown]
  · rfl

/- The read callback: bytes go from the queue to the buffer and are shown, or nothing is
unread and only the FIN closes. -/
theorem soundRead {n : Nat} {rest : List Handler} (h : Sound w) (next : w.calls = .read :: rest)
    (taken : Connection.step w.connection (.event (.read (w.incoming.readv n).1)) = some c) :
    Sound (shows { w with connection := c, calls := rest, incoming := (w.incoming.readv n).2 }) ∧
      (w.incoming.unread = [] → (w.incoming.readv n).2 = w.incoming) ∧
      (Frame.closeCallback ∈ c.stack → w.incoming.unread = []) := by
  have spec := readvCases w.incoming n
  revert taken
  generalize w.incoming.readv n = out at spec
  intro taken
  cases spec with
  | @data bs left some_ front =>
    obtain ⟨stack,input⟩ := readShown h some_ taken
    obtain ⟨valid,readable⟩ := Buffer.readFromFdKeeps h.valid bs
    have callbacks := Connection.stepCallbacks taken
    have all : w.shown ++ bs = w.consumed ++ c.conn.inputBuffer.readable := by
      rw [input, readable, h.shown, List.append_assoc]
    have none_ : Frame.closeCallback ∉ c.stack := by rw [stack]; simp
    simp only [shows, stack, List.head?_cons, if_true, ← all]
    refine ⟨⟨by rw [callbacks]; exact h.message,by rw [callbacks]; exact h.close,input ▸ valid,all,?_,
      fun later => h.hangs (restLater next later),fun called => absurd called none_⟩,?_,by simp⟩
    · exact ⟨by simp [h.way.whole, front],h.way.fin⟩
    · intro drained
      rw [front] at drained
      exact absurd (List.append_eq_nil_iff.mp drained).1 some_
  | eof drained fin =>
    have sound := soundConnection h taken rfl (restLater next) (fun _ => fin)
    rw [showsSame sound]
    exact ⟨sound,fun _ => rfl,fun _ => drained⟩
  | again drained =>
    have idle := blockedIdle taken
    have sound := soundConnection h taken rfl (restLater next) (fun called => by rw [idle] at called; cases called)
    rw [showsSame sound]
    exact ⟨sound,fun _ => rfl,fun _ => drained⟩

/- A step of the connection that does not end it calls no close callback. -/
theorem calledBefore {a : Connection.Action} (h : Sound w) (taken : Connection.step w.connection a = some c)
    (stays : (w.connection.state != .disconnected && c.state == .disconnected) = false)
    (called : Frame.closeCallback ∈ c.stack) : Frame.closeCallback ∈ w.connection.stack := by
  refine (calledEnds h.close taken called).resolve_right ?_
  rintro ⟨up,ended⟩
  simp [up, ended] at stays

theorem soundStep {w' : World} {a : Action} (h : Sound w) (calm : endsEarly p w a = false)
    (taken : step p w a = some w') : Sound w' := by
  simp only [endsEarly, taken] at calm
  cases stepCases taken with
  | peer moved =>
    obtain ⟨way,later⟩ := wayMove h.way moved
    exact ⟨h.message,h.close,h.valid,h.shown,way,fun next => (later (h.hangs next)).1,
      fun called => (later (h.called called)).1⟩
  | @handleEvent bits idle reported =>
    refine ⟨h.message,h.close,h.valid,h.shown,h.way,fun next => ?_,h.called⟩
    exact (closeReported reported next).2
  | read next done => exact (soundRead h next done).1
  | write next done =>
    exact soundConnection h done rfl (restLater next) (fun called => h.called (calledBefore h done calm called))
  | close next done =>
    exact soundConnection h done rfl (restLater next) (fun _ => h.hangs (by rw [next]; exact List.mem_cons_self))
  | @retrieve n asserted =>
    refine ⟨h.message,h.close,Buffer.retrieveValid h.valid asserted,?_,h.way,h.hangs,h.called⟩
    have readable := Buffer.retrieveReadable w.connection.conn.inputBuffer n
    simp only [Connection.setInput, Connection.World.conn] at readable ⊢
    rw [readable, List.append_assoc, List.take_append_drop]
    exact h.shown
  | @connection a c other done =>
    have nothing : Connection.readBytes a = [] := by
      cases a with
      | event ev => cases other
      | _ => rfl
    exact soundConnection h done nothing id (fun called => h.called (calledBefore h done calm called))

theorem drainedStep {w' : World} {a : Action} (h : Sound w) (d : Drained w) (calm : endsEarly p w a = false)
    (fine : dropsUnread p w a = false) (taken : step p w a = some w') : Drained w' := by
  simp only [endsEarly, taken] at calm
  cases stepCases taken with
  | peer moved =>
    obtain ⟨_,later⟩ := wayMove h.way moved
    exact ⟨fun next => (later (h.hangs next)).2.trans (d.hangs next),
      fun called => (later (h.called called)).2.trans (d.called called)⟩
  | @handleEvent bits idle reported =>
    refine ⟨fun next => ?_,d.called⟩
    simpa [dropsUnread, (closeReported reported next).1] using fine
  | @read n c rest next done =>
    obtain ⟨_,same,eof⟩ := soundRead h next done
    have queue : w.incoming.unread = [] → (w.incoming.readv n).2.unread = [] := by
      intro drained
      rw [same drained]
      exact drained
    unfold shows
    split <;> exact ⟨fun later => queue (d.hangs (restLater next later)),fun called => queue (eof called)⟩
  | write next done =>
    exact ⟨fun later => d.hangs (restLater next later),fun called => d.called (calledBefore h done calm called)⟩
  | close next done =>
    have drained := d.hangs (by rw [next]; exact List.mem_cons_self)
    exact ⟨fun _ => drained,fun _ => drained⟩
  | retrieve asserted => exact ⟨d.hangs,d.called⟩
  | connection other done => exact ⟨d.hangs,fun called => d.called (calledBefore h done calm called)⟩

end Steps

/- A new connection with both callbacks, whose peer has not sent anything. -/
structure Wired (w : World) : Prop where
  initial : Connection.Initial w.connection
  message : w.connection.conn.callbacks.message = true
  close : w.connection.conn.callbacks.close = true
  input : w.connection.conn.inputBuffer.Valid ∧ w.connection.conn.inputBuffer.readable = []
  calls : w.calls = []
  incoming : w.incoming = ⟨[],[],[],false,false⟩
  nothing : w.consumed = [] ∧ w.shown = []

theorem soundWired {w : World} (h : Wired w) : Sound w := by
  refine ⟨h.message,h.close,h.input.1,?_,?_,?_,?_⟩
  · rw [h.nothing.1, h.nothing.2, h.input.2]
    rfl
  · rw [h.incoming, h.nothing.2]
    exact ⟨rfl,by simp⟩
  · simp [h.calls]
  · simp [h.initial.stack]

theorem drainedWired {w : World} (h : Wired w) : Drained w := ⟨by simp [h.calls],by simp [h.initial.stack]⟩

/- In every run whose steps close the connection by a read or the peer's hang-up only: when
the close callback runs, the peer has closed, and all it sent was shown to the message
callback but for what is unread in the kernel's queue. Where no hang-up was handled with
bytes unread, that is nothing. -/
theorem shownBeforeClose {p : Backend} {s w : World} {as : List Action} (start : Wired s)
    (reached : Machine.run (step p) s as = some w)
    (peerCloses : Machine.Throughout (step p) (fun w a => endsEarly p w a = false) s as)
    (called : Frame.closeCallback ∈ w.connection.stack) :
    w.incoming.closed = true ∧ w.incoming.sent = w.shown ++ w.incoming.unread ∧
    (Machine.Throughout (step p) (fun w a => dropsUnread p w a = false) s as → w.shown = w.incoming.sent) := by
  have sound : Sound w :=
    Machine.invariantWhen (fun _ _ _ h calm taken => soundStep h calm taken) (soundWired start) peerCloses reached
  obtain ⟨closed,transit⟩ := sound.way.fin (sound.called called)
  have whole : w.incoming.sent = w.shown ++ w.incoming.unread := by
    rw [sound.way.whole, transit, List.append_nil]
  refine ⟨closed,whole,fun fine => ?_⟩
  have keep : ∀ w a w', (Sound w ∧ Drained w) → (endsEarly p w a = false ∧ dropsUnread p w a = false) →
      step p w a = some w' → Sound w' ∧ Drained w' :=
    fun _ _ _ h ok taken => ⟨soundStep h.1 ok.1 taken,drainedStep h.1 h.2 ok.1 ok.2 taken⟩
  have both := Machine.invariantWhen keep ⟨soundWired start,drainedWired start⟩
    (Machine.throughoutAnd peerCloses fine) reached
  rw [whole, both.2.called called, List.append_nil]

/- A connection that the server hands out, on descriptor `fd`. -/
def accepted (fd : Fd) : World :=
  ⟨Connection.fresh fd ⟨true,true,true,true,false⟩ 64 4,[],⟨[],[],[],false,false⟩,[],[]⟩

theorem acceptedWired (fd : Fd) : Wired (accepted fd) :=
  ⟨Connection.freshInitial _ _ _ _,rfl,rfl,⟨Buffer.newValid _,Buffer.newReadable _⟩,rfl,rfl,rfl,rfl⟩

def readable : PollBits := ⟨true,false,false,false,false⟩
def readableHangUp : PollBits := ⟨true,false,false,true,false⟩

/- The last byte comes together with the FIN; three reads and then the hang-up. -/
def inThreeReads : List Action :=
  [.connection .establish,.connection .ret,.peer (.sends [1,2]),.peer (.arrives 2),.handleEvent readable,.read 0,
    .retrieve 1,.connection .ret,.peer (.sends [3]),.peer .closes,.peer (.arrives 1),.peer .finArrives,
    .handleEvent readable,.read 4,.connection .ret,.handleEvent readableHangUp,.close]

theorem shownBeforeCloseReads : ∃ w, Machine.run (step .wspoll) (accepted 3) inThreeReads = some w ∧
    w.incoming.sent = [1,2,3] ∧ w.shown = w.incoming.sent := by
  have reached : ∃ w, Machine.run (step .wspoll) (accepted 3) inThreeReads = some w ∧
      Frame.closeCallback ∈ w.connection.stack ∧ w.incoming.sent = [1,2,3] := ⟨_,rfl,by decide,rfl⟩
  obtain ⟨w,run,called,sent⟩ := reached
  exact ⟨w,run,sent,(shownBeforeClose (acceptedWired 3) run (by decide) called).2.2 (by decide)⟩

/- One byte and the FIN, in one event with the hang-up bit. -/
def inOneEvent : List Action :=
  [.connection .establish,.connection .ret,.peer (.sends [7]),.peer .closes,.peer (.arrives 1),.peer .finArrives,
    .handleEvent readableHangUp,.close]

theorem hangUpDropsUnread : ¬ ∀ (p : Backend) (s w : World) (as : List Action), Wired s →
    Machine.run (step p) s as = some w → Machine.Throughout (step p) (fun w a => endsEarly p w a = false) s as →
    Frame.closeCallback ∈ w.connection.stack → w.shown = w.incoming.sent := by
  intro always
  have reached : ∃ w, Machine.run (step .wspoll) (accepted 3) inOneEvent = some w ∧
      Frame.closeCallback ∈ w.connection.stack ∧ w.shown = [] ∧ w.incoming.sent = [7] := ⟨_,rfl,by decide,rfl,rfl⟩
  obtain ⟨w,run,called,shown,sent⟩ := reached
  have all := always .wspoll (accepted 3) w inOneEvent (acceptedWired 3) run (by decide) called
  rw [shown, sent] at all
  cases all

end PeerClose
end TcFrame
