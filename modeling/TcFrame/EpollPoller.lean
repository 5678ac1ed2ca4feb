import Mathlib.Logic.Function.Basic
import Mathlib.Tactic.Common

/-! Channels and the epoll poller of one loop. The poller keeps a map from
descriptors to channels, the kernel an interest set; every operation names its
channel by descriptor, so two channels on one descriptor meet in the same entry. -/
namespace TcFrame

abbrev Fd := Nat
abbrev ThreadId := Nat

/- m_events: of the interest bits only POLLIN and POLLOUT are ever set. -/
structure Events where
  read : Bool
  write : Bool
  deriving DecidableEq, Repr

def Events.none : Events := ⟨false,false⟩

/- `id` is the object's identity, what a Channel* points to. -/
structure Channel where
  id : Nat
  fd : Fd
  events : Events
  added : Bool
  deriving DecidableEq, Repr

namespace Channel

def isWriting (ch : Channel) : Bool := ch.events.write
def hasNoEvents (ch : Channel) : Bool := ch.events == Events.none

def enableReading (ch : Channel) : Channel := { ch with events := { ch.events with read := true } }
def enableWriting (ch : Channel) : Channel := { ch with events := { ch.events with write := true } }
def disableWriting (ch : Channel) : Channel := { ch with events := { ch.events with write := false } }
def disableAll (ch : Channel) : Channel := { ch with events := Events.none }

end Channel

inductive CtlOp where
  | add
  | mod
  | del
  deriving DecidableEq, Repr

/- epoll_ctl on one descriptor: EBADF, EEXIST and ENOENT leave the set alone. -/
def epollCtl (isOpen : Bool) (op : CtlOp) (current : Option Events) (events : Events) : Option Events :=
  match isOpen, op, current with
  | false, _, _ => current
  | true, .add, none => some events
  | true, .add, some old => some old
  | true, .mod, none => none
  | true, .mod, some _ => some events
  | true, .del, _ => none

structure EpollPoller where
  fdToChannel : Fd → Option Nat
  interest : Fd → Option Events

namespace EpollPoller

variable (isOpen : Fd → Bool)

def updateEpoll (p : EpollPoller) (op : CtlOp) (ch : Channel) : EpollPoller :=
  let entry := epollCtl (isOpen ch.fd) op (p.interest ch.fd) ch.events
  { p with interest := Function.update p.interest ch.fd entry }

def removeChannel (p : EpollPoller) (ch : Channel) : EpollPoller × Channel :=
  if (p.fdToChannel ch.fd).isNone then (p,ch)
  else
    let p := p.updateEpoll isOpen .del ch
    ({ p with fdToChannel := Function.update p.fdToChannel ch.fd none },{ ch with added := false })

def updateChannel (p : EpollPoller) (ch : Channel) : EpollPoller × Channel :=
  if ch.hasNoEvents then
    if (p.fdToChannel ch.fd).isSome then p.removeChannel isOpen ch else (p,ch)
  else if (p.fdToChannel ch.fd).isSome then (p.updateEpoll isOpen .mod ch,ch)
  else
    let p : EpollPoller := { p with fdToChannel := Function.update p.fdToChannel ch.fd (some ch.id) }
    (p.updateEpoll isOpen .add ch,{ ch with added := true })

/- The kernel drops a closed descriptor from its interest sets. -/
def closed (p : EpollPoller) (fd : Fd) : EpollPoller :=
  { p with interest := Function.update p.interest fd none }

/- The poller never changes what a channel is or which events it asks for. -/
theorem removeChannelSame (p : EpollPoller) (ch : Channel) :
    (p.removeChannel isOpen ch).2.id = ch.id ∧ (p.removeChannel isOpen ch).2.fd = ch.fd ∧
    (p.removeChannel isOpen ch).2.events = ch.events := by
  unfold removeChannel
  split <;> exact ⟨rfl,rfl,rfl⟩

theorem updateChannelSame (p : EpollPoller) (ch : Channel) :
    (p.updateChannel isOpen ch).2.id = ch.id ∧ (p.updateChannel isOpen ch).2.fd = ch.fd ∧
    (p.updateChannel isOpen ch).2.events = ch.events := by
  unfold updateChannel
  split
  · split
    · exact removeChannelSame isOpen p ch
    · exact ⟨rfl,rfl,rfl⟩
  · split <;> exact ⟨rfl,rfl,rfl⟩

theorem removeChannelMap (p : EpollPoller) (ch : Channel) :
    (p.removeChannel isOpen ch).1.fdToChannel = Function.update p.fdToChannel ch.fd none := by
  unfold removeChannel
  split
  · rename_i absent
    rw [← Option.isNone_iff_eq_none.mp absent, Function.update_eq_self]
  · rfl

/- A channel without interest leaves the map, one with interest is entered only
where the descriptor was free. -/
theorem updateChannelMapNone (p : EpollPoller) {ch : Channel} (h : ch.events = Events.none) :
    (p.updateChannel isOpen ch).1.fdToChannel = Function.update p.fdToChannel ch.fd none := by
  have empty : ch.hasNoEvents = true := by simp [Channel.hasNoEvents, h]
  rw [updateChannel, if_pos empty]
  split
  · exact removeChannelMap isOpen p ch
  · rename_i absent
    rw [← Option.not_isSome_iff_eq_none.mp absent, Function.update_eq_self]

theorem updateChannelMapSome (p : EpollPoller) {ch : Channel} (h : ch.events ≠ Events.none) :
    (p.updateChannel isOpen ch).1.fdToChannel =
      Function.update p.fdToChannel ch.fd (some ((p.fdToChannel ch.fd).getD ch.id)) := by
  have empty : ¬ ch.hasNoEvents = true := by simp [Channel.hasNoEvents, h]
  rw [updateChannel, if_neg empty]
  split
  · rename_i present
    obtain ⟨other,found⟩ := Option.isSome_iff_exists.mp present
    simp only [updateEpoll, found, Option.getD_some]
    rw [← found, Function.update_eq_self]
  · rename_i absent
    simp [updateEpoll, Option.not_isSome_iff_eq_none.mp absent]

end EpollPoller
end TcFrame
