import TcFrame.TcpClientSockets

/-! Whether a connected client is listening. Two channels share the descriptor while a
connection is made: the poller keeps the first entry, and the temporary channel takes it
away when it goes. -/
namespace TcFrame

namespace EpollPoller
variable {fd : Fd} {id : Nat} {p p' : EpollPoller} {isOpen isOpen' : Fd → Bool}

theorem registeredWithin (h : Within fd id p isOpen p' isOpen') {x : Fd} {other : Nat} (differ : other ≠ id)
    (found : p'.Registered x other) : p.Registered x other := by
  by_cases here : x = fd
  · subst here
    exact h.enters other differ found
  · refine ⟨(h.map x here).symm.trans found.1,?_⟩
    rw [← h.interest x here]
    exact found.2

theorem registeredRemove (ch : Channel) {x : Fd} {other : Nat} (found : (p.removeChannel isOpen ch).1.Registered x other) :
    p.Registered x other := by
  by_cases here : x = ch.fd
  · have gone := found.1
    rw [removeChannelMap, here, Function.update_self] at gone
    cases gone
  · have h := withinRemove p isOpen ch
    refine ⟨(h.map x here).symm.trans found.1,?_⟩
    rw [← h.interest x here]
    exact found.2

/- A channel with interest, in a free entry and in a taken one. -/
theorem updateChannelAdd (isOpen : Fd → Bool) {ch : Channel} (some_ : ch.events ≠ Events.none) (free : p.fdToChannel ch.fd = none) :
    (p.updateChannel isOpen ch).1.fdToChannel ch.fd = some ch.id ∧
    (p.updateChannel isOpen ch).1.interest ch.fd = epollCtl (isOpen ch.fd) .add (p.interest ch.fd) ch.events ∧
    (p.updateChannel isOpen ch).2 = { ch with added := true } := by
  have busy : ¬ ch.hasNoEvents = true := by simpa [Channel.hasNoEvents] using some_
  rw [updateChannel, if_neg busy, if_neg (by simp [free])]
  simp [updateEpoll]

theorem updateChannelMod (isOpen : Fd → Bool) {ch : Channel} (some_ : ch.events ≠ Events.none) (taken : p.fdToChannel ch.fd ≠ none) :
    (p.updateChannel isOpen ch).1.fdToChannel = p.fdToChannel ∧
    (p.updateChannel isOpen ch).1.interest ch.fd = epollCtl (isOpen ch.fd) .mod (p.interest ch.fd) ch.events ∧
    (p.updateChannel isOpen ch).2 = ch := by
  have busy : ¬ ch.hasNoEvents = true := by simpa [Channel.hasNoEvents] using some_
  rw [updateChannel, if_neg busy, if_pos (Option.isSome_iff_ne_none.mpr taken)]
  simp [updateEpoll]

theorem epollCtlModNone (isOpen : Bool) (events : Events) : epollCtl isOpen .mod none events = none := by
  cases isOpen <;> rfl

end EpollPoller

namespace Endpoint
open EpollPoller

/- Events of the descriptor go to the connection's own channel, and the kernel watches
for what the channel asks for. -/
def Listening (e : Endpoint) : Prop :=
  e.poller.fdToChannel e.conn.channel.fd = some e.conn.channel.id ∧
  e.poller.interest e.conn.channel.fd = some e.conn.channel.events ∧
  e.conn.channel.events.read = true ∧ e.conn.channel.added = true

/- Another's entry has the descriptor, and the kernel does not watch it. -/
def Unheard (e : Endpoint) : Prop :=
  e.poller.fdToChannel e.conn.channel.fd ≠ none ∧ e.poller.interest e.conn.channel.fd = none

/- Which of the two is settled when the connection is registered. -/
structure Attended (vacant : Bool) (e : Endpoint) : Prop where
  hears : e.conn.state = .connected → vacant = true → Listening e
  misses : e.conn.state = .connected → vacant = false → Unheard e

variable {vacant : Bool} {e e' : Endpoint}

theorem attendedOver (ended : e.conn.state ≠ .connected) : Attended vacant e :=
  ⟨fun connected => absurd connected ended,fun connected => absurd connected ended⟩

theorem attendedSame (h : Attended vacant e) (state : e'.conn.state = e.conn.state)
    (channel : e'.conn.channel = e.conn.channel)
    (map : e'.poller.fdToChannel e.conn.channel.fd = e.poller.fdToChannel e.conn.channel.fd)
    (interest : e'.poller.interest e.conn.channel.fd = e.poller.interest e.conn.channel.fd) : Attended vacant e' := by
  refine ⟨?_,?_⟩
  · rw [Listening, state, channel, map, interest]
    exact h.hears
  · rw [Unheard, state, channel, map, interest]
    exact h.misses

theorem unheardUpdate {ch : Channel} (fd : ch.fd = e.conn.channel.fd) (some_ : ch.events ≠ Events.none)
    (taken : e.poller.fdToChannel e.conn.channel.fd ≠ none) (unknown : e.poller.interest e.conn.channel.fd = none) :
    Unheard (e.updateChannel ch) := by
  rw [← fd] at taken unknown
  obtain ⟨map,interest,_⟩ := updateChannelMod e.isOpen some_ taken
  have same : (e.updateChannel ch).conn.channel.fd = ch.fd := (updateChannelSame e.isOpen e.poller ch).2.1
  rw [Unheard, same]
  refine ⟨by rw [updateChannel, map]; exact taken,?_⟩
  rw [updateChannel, interest, unknown, epollCtlModNone]

theorem listeningUpdate {ch : Channel} (id : ch.id = e.conn.channel.id) (fd : ch.fd = e.conn.channel.fd)
    (added : ch.added = e.conn.channel.added) (read : ch.events.read = true) (h : Listening e)
    (open_ : e.isOpen e.conn.channel.fd = true) : Listening (e.updateChannel ch) := by
  obtain ⟨mapped,watched,_,entered⟩ := h
  rw [← fd] at mapped watched open_
  have some_ : ch.events ≠ Events.none := fun same => by rw [same] at read; cases read
  obtain ⟨map,interest,channel⟩ := updateChannelMod e.isOpen some_ (by rw [mapped]; simp)
  have same : (e.updateChannel ch).conn.channel = ch := channel
  rw [Listening, same]
  refine ⟨by rw [updateChannel, map, mapped, id],?_,read,added.trans entered⟩
  rw [updateChannel, interest, watched, open_]
  rfl

theorem attendedWatch (h : Attended vacant e) (up : e.conn.state = .connected → e.isOpen e.conn.channel.fd = true) :
    Attended vacant e.watchWriting := by
  unfold watchWriting
  split
  · exact h
  · refine ⟨fun connected there => ?_,fun connected there => ?_⟩
    · have listening := h.hears connected there
      exact listeningUpdate rfl rfl rfl listening.2.2.1 listening (up connected)
    · obtain ⟨map,interest⟩ := h.misses connected there
      exact unheardUpdate rfl (by simp [Channel.enableWriting, Events.none]) map interest

theorem attendedClose (e : Endpoint) : Attended vacant e.handleClose.1 := by
  refine attendedOver ?_
  unfold handleClose
  split
  · rename_i ended
    rw [ended]
    simp
  · rw [(removeIfAddedClosed (disconnectClosed e)).state]
    simp

theorem attendedRun (h : Attended vacant e) (up : e.conn.state = .connected → e.isOpen e.conn.channel.fd = true)
    {f : Functor} (other : f ≠ .connectEstablished) : Attended vacant (e.run f).1 := by
  cases f with
  | connectEstablished => exact absurd rfl other
  | connectDestroyed =>
    simp only [Endpoint.run, connectDestroyed]
    split
    · refine attendedOver ?_
      rw [(removeIfAddedClosed (disconnectClosed e)).state]
      simp
    · exact h
  | sendInLoop m =>
    cases passes : e.conn.isConnected with
    | true =>
      rw [Endpoint.run, (sendInLoopPassed passes).1]
      exact attendedSame h rfl rfl rfl rfl
    | false =>
      rw [Endpoint.run, sendInLoopRefused passes]
      exact h
  | shutdownInLoop =>
    simp only [Endpoint.run, shutdownInLoop]
    split
    · exact attendedWatch h up
    · exact attendedClose e
  | forceCloseInLoop =>
    simp only [Endpoint.run, forceCloseInLoop]
    split
    · refine attendedOver ?_
      rw [(disconnectClosed e).state]
      simp
    · exact h

theorem attendedResume (h : Attended vacant e) (up : e.conn.state = .connected → e.isOpen e.conn.channel.fd = true)
    {f : Frame} (ended : f = .closeSocket ∨ f = .invalidateSocket → e.conn.state = .disconnected) :
    Attended vacant (e.resume f).1 := by
  cases f with
  | sendTail => exact attendedWatch h up
  | closeSocket =>
    refine attendedOver ?_
    rw [resumeState, ended (.inl rfl)]
    simp
  | invalidateSocket =>
    refine attendedOver ?_
    rw [resumeState, ended (.inr rfl)]
    simp
  | _ => exact h

theorem attendedRequest (h : Attended vacant e) (t : ThreadId) (c : UserCall) : Attended vacant (e.request t c).1 := by
  cases c <;> simp only [request, send, shutdown, forceClose] <;> split
  · exact h
  · exact h
  · exact attendedOver (by simp [setState])
  · exact h
  · exact attendedOver (by simp [setState])
  · exact h

/- ConnectEstablished on a new descriptor, of which the kernel knows nothing yet. -/
theorem attendedEstablished (open_ : e.isOpen e.conn.channel.fd = true)
    (unknown : e.poller.interest e.conn.channel.fd = none) :
    Attended (e.poller.fdToChannel e.conn.channel.fd).isNone (e.run .connectEstablished).1 := by
  have some_ : e.conn.channel.enableReading.events ≠ Events.none := by simp [Channel.enableReading, Events.none]
  refine ⟨fun _ free => ?_,fun _ taken => ?_⟩
  · have added := updateChannelAdd e.isOpen some_ (Option.isNone_iff_eq_none.mp free)
    obtain ⟨map,interest,channel⟩ := added
    have same : (e.run .connectEstablished).1.conn.channel = { e.conn.channel.enableReading with added := true } :=
      channel
    have watched : e.poller.interest e.conn.channel.enableReading.fd = none := unknown
    have valid : e.isOpen e.conn.channel.enableReading.fd = true := open_
    rw [watched, valid] at interest
    rw [Listening, same]
    exact ⟨map,interest,rfl,rfl⟩
  · have present : e.poller.fdToChannel e.conn.channel.fd ≠ none := fun absent => by rw [absent] at taken; cases taken
    exact unheardUpdate (e := e.setState .connected) rfl some_ present unknown

end Endpoint
end TcFrame
