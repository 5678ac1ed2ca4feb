import TcFrame.Machine
import TcFrame.Rounds
import TcFrame.PeerClose
import TcFrame.WSPollPoller

/-! EpollPoller::Poll with its array of events, on the kernel's ready list. epoll_wait takes
as many descriptors off the front of the list as the array has room for; those that are still
ready queue up again behind the others. -/
namespace TcFrame
open TcpServer (Revents)

structure EpollEvent where
  fd : Fd
  bits : PollBits
  deriving DecidableEq, Repr

inductive EpollWait where
  | failed (err : Int)
  | returned (events : List EpollEvent)
  deriving DecidableEq, Repr

def eintr : Int := 4

namespace EpollPoller

/- m_events of a new poller. -/
def initialEvents : Nat := 128

/- The loop of Poll: an event without a channel is skipped, and a failed assert has no value. -/
def pollLoop (p : EpollPoller) (table : Nat → Channel) : List EpollEvent → Option (List (Nat × Revents))
  | [] => some []
  | e :: rest =>
    match p.fdToChannel e.fd with
    | none => pollLoop p table rest
    | some c =>
      if (table c).fd = e.fd then (pollLoop p table rest).map ((c,transRevents e.bits) :: ·) else none

structure Polled where
  numEvents : Int
  size : Nat
  active : List (Nat × Revents)
  deriving DecidableEq, Repr

def poll (p : EpollPoller) (table : Nat → Channel) (size : Nat) (active : List (Nat × Revents)) :
    EpollWait → Option Polled
  | .failed err => some ⟨if err = eintr then 0 else -1,size,active⟩
  | .returned events =>
    if events = [] then some ⟨0,size,active⟩
    else
      (pollLoop p table events).map (fun found =>
        ⟨events.length,if events.length = size then size * 2 else size,active ++ found⟩)

/- The poller with the kernel's side of it. `log` is what all Polls so far have put into
active_channels. -/
structure Polling where
  poller : EpollPoller
  table : Nat → Channel
  size : Nat
  isOpen : Fd → Bool
  ready : List Fd
  log : List (Nat × Revents)

def Polling.initial (fds : Nat → Fd) : Polling :=
  ⟨⟨fun _ => none,fun _ => none⟩,created fds,initialEvents,fun _ => false,[],[]⟩

namespace Polling

/- `woken` and `quiet` are what the kernel sees on a watched descriptor. -/
inductive Action where
  | call (c : PollerCall)
  | opened (fd : Fd)
  | closed (fd : Fd)
  | woken (fd : Fd)
  | quiet (fd : Fd)
  | pollFailed (err : Int)
  | poll (bits : Fd → PollBits) (again : Fd → Bool)

/- What epoll may report of a descriptor with this interest: the asked-for bits, errors and
hang-ups. EPOLLRDHUP is never asked for. -/
def reports (events : Events) (bits : PollBits) : Bool :=
  (!bits.readable || events.read) && (!bits.writable || events.write) && !bits.readHangUp &&
    (bits.readable || bits.writable || bits.error || bits.hangUp)

/- The descriptors epoll_wait takes, with their events. -/
def taken (w : Polling) : List Fd := w.ready.take w.size

def events (w : Polling) (bits : Fd → PollBits) : List EpollEvent := w.taken.map (fun fd => ⟨fd,bits fd⟩)

/- A descriptor that is no longer watched leaves the ready list. -/
def settled (w : Polling) : Polling := { w with ready := w.ready.filter (fun fd => (w.poller.interest fd).isSome) }

def reported (w : Polling) (bits : Fd → PollBits) : Bool :=
  w.taken.all (fun fd => (w.poller.interest fd).any (fun events => reports events (bits fd)))

def step (w : Polling) : Action → Option Polling
  | .call c =>
    let out := TcFrame.call (updateChannel w.isOpen) (removeChannel w.isOpen) (w.poller,w.table) c
    some (settled { w with poller := out.1, table := out.2 })
  | .opened fd => if w.isOpen fd then none else some { w with isOpen := Function.update w.isOpen fd true }
  | .closed fd =>
    if w.isOpen fd then
      some (settled { w with isOpen := Function.update w.isOpen fd false, poller := w.poller.closed fd })
    else none
  | .woken fd => if (w.poller.interest fd).isSome ∧ fd ∉ w.ready then some { w with ready := w.ready ++ [fd] } else none
  | .quiet fd => some { w with ready := w.ready.filter (fun other => other ≠ fd) }
  | .pollFailed err => (w.poller.poll w.table w.size w.log (.failed err)).map (fun out => { w with size := out.size, log := out.active })
  | .poll bits again =>
    if w.reported bits then
      (w.poller.poll w.table w.size w.log (.returned (w.events bits))).map (fun out =>
        { w with
          size := out.size
          log := out.active
          ready := w.ready.drop w.size ++ w.taken.filter again })
    else none

/- What holds of the poller whichever descriptors are open: what the kernel watches is open and
has a channel in the map. -/
def Watched (isOpen : Fd → Bool) (p : EpollPoller) : Prop :=
  ∀ fd, (p.interest fd).isSome = true → isOpen fd = true ∧ (p.fdToChannel fd).isSome = true

theorem ctlOpen {o : Bool} {op : CtlOp} {current : Option Events} {events : Events} (h : current.isSome = true → o = true)
    (watched : (epollCtl o op current events).isSome = true) : o = true := by
  cases o with
  | false => exact h watched
  | true => rfl

/- Only the channel's own descriptor changes, in the map and in the kernel's set. -/
theorem watchedPut {isOpen : Fd → Bool} {p : EpollPoller} (h : Watched isOpen p) (fd : Fd) {chan : Option Nat}
    {op : CtlOp} {events : Events}
    (known : (epollCtl (isOpen fd) op (p.interest fd) events).isSome = true → isOpen fd = true → chan.isSome = true) :
    Watched isOpen ⟨Function.update p.fdToChannel fd chan,
      Function.update p.interest fd (epollCtl (isOpen fd) op (p.interest fd) events)⟩ := by
  intro other watched
  simp only [Function.update_apply] at watched ⊢
  by_cases own : other = fd
  · subst own
    simp only [if_true] at watched ⊢
    have open_ := ctlOpen (fun before => (h other before).1) watched
    exact ⟨open_,known watched open_⟩
  · rw [if_neg own] at watched ⊢
    exact h other watched

theorem watchedRemove {isOpen : Fd → Bool} {p : EpollPoller} (h : Watched isOpen p) (ch : Channel) :
    Watched isOpen (p.removeChannel isOpen ch).1 := by
  unfold removeChannel
  split
  · exact h
  · refine watchedPut h ch.fd (fun watched open_ => ?_)
    rw [open_] at watched
    cases watched

theorem watchedUpdate {isOpen : Fd → Bool} {p : EpollPoller} (h : Watched isOpen p) (ch : Channel) :
    Watched isOpen (p.updateChannel isOpen ch).1 := by
  unfold updateChannel
  split
  · split
    · exact watchedRemove h ch
    · exact h
  · split
    · rename_i known
      have put : Watched isOpen ⟨Function.update p.fdToChannel ch.fd (p.fdToChannel ch.fd),
          Function.update p.interest ch.fd (epollCtl (isOpen ch.fd) .mod (p.interest ch.fd) ch.events)⟩ :=
        watchedPut h ch.fd (fun _ _ => known)
      rw [Function.update_eq_self] at put
      exact put
    · exact watchedPut h ch.fd (fun _ _ => rfl)

theorem watchedClosed {isOpen : Fd → Bool} {p : EpollPoller} (h : Watched isOpen p) (fd : Fd) :
    Watched (Function.update isOpen fd false) (p.closed fd) := by
  intro other watched
  simp only [closed, Function.update_apply] at watched ⊢
  by_cases own : other = fd
  · rw [if_pos own] at watched
    cases watched
  · rw [if_neg own] at watched ⊢
    exact h other watched

/- What is in the map after an operation on a channel was there, or is the channel itself. -/
theorem removeEntry {isOpen : Fd → Bool} {p : EpollPoller} {ch : Channel} {fd : Fd} {c : Nat}
    (found : (p.removeChannel isOpen ch).1.fdToChannel fd = some c) : p.fdToChannel fd = some c := by
  rw [removeChannelMap, Function.update_apply] at found
  split at found
  · cases found
  · exact found

theorem updateEntry {isOpen : Fd → Bool} {p : EpollPoller} {ch : Channel} {fd : Fd} {c : Nat}
    (found : (p.updateChannel isOpen ch).1.fdToChannel fd = some c) :
    p.fdToChannel fd = some c ∨ fd = ch.fd ∧ c = ch.id := by
  by_cases quiet : ch.events = Events.none
  · rw [updateChannelMapNone isOpen p quiet, Function.update_apply] at found
    split at found
    · cases found
    · exact .inl found
  · rw [updateChannelMapSome isOpen p quiet, Function.update_apply] at found
    split at found
    · rename_i own
      subst own
      cases before : p.fdToChannel ch.fd with
      | none =>
        rw [before] at found
        cases found
        exact .inr ⟨rfl,rfl⟩
      | some c' =>
        rw [before] at found
        exact .inl found
    · exact .inl found

/- The invariant of a poller whose channels keep to the descriptors `fds`. -/
structure Sound (fds : Nat → Fd) (w : Polling) : Prop where
  table : ∀ c, (w.table c).id = c ∧ (w.table c).fd = fds c
  entry : ∀ fd c, w.poller.fdToChannel fd = some c → fds c = fd
  watched : Watched w.isOpen w.poller
  ready : ∀ fd ∈ w.ready, (w.poller.interest fd).isSome = true
  once : w.ready.Nodup
  room : ∃ k, w.size = initialEvents * 2 ^ k

theorem soundInitial (fds : Nat → Fd) : Sound fds (initial fds) := by
  refine ⟨fun _ => ⟨rfl,rfl⟩,?_,?_,?_,List.nodup_nil,0,rfl⟩
  · intro fd c found
    cases found
  · intro fd watched
    cases watched
  · intro fd member
    cases member

variable {fds : Nat → Fd}

theorem soundSettled {w : Polling} (table : ∀ c, (w.table c).id = c ∧ (w.table c).fd = fds c)
    (entry : ∀ fd c, w.poller.fdToChannel fd = some c → fds c = fd) (watched : Watched w.isOpen w.poller)
    (once : w.ready.Nodup) (room : ∃ k, w.size = initialEvents * 2 ^ k) : Sound fds w.settled :=
  ⟨table,entry,watched,fun _ member => (List.mem_filter.mp member).2,once.filter _,room⟩

theorem tableUpdate {table : Nat → Channel} (h : ∀ c, (table c).id = c ∧ (table c).fd = fds c) {c : Nat} {ch : Channel}
    (own : ch.id = c ∧ ch.fd = fds c) (other : Nat) :
    (Function.update table c ch other).id = other ∧ (Function.update table c ch other).fd = fds other := by
  rw [Function.update_apply]
  split
  · rename_i same
    rwa [same]
  · exact h other

theorem soundCall {w t : Polling} (h : Sound fds w) {c : PollerCall} (taken : step w (.call c) = some t) : Sound fds t := by
  cases Option.some.inj taken
  cases c with
  | updateChannel c events =>
    obtain ⟨id,fd⟩ := h.table c
    obtain ⟨sameId,sameFd,_⟩ := updateChannelSame w.isOpen w.poller { w.table c with events := events }
    refine soundSettled (tableUpdate h.table ⟨sameId.trans id,sameFd.trans fd⟩) (fun other found there => ?_)
      (watchedUpdate h.watched _) h.once h.room
    rcases updateEntry there with before | ⟨own,same⟩
    · exact h.entry other found before
    · rw [own, same]
      exact (congrArg fds id).trans fd.symm
  | removeChannel c =>
    obtain ⟨id,fd⟩ := h.table c
    obtain ⟨sameId,sameFd,_⟩ := removeChannelSame w.isOpen w.poller (w.table c)
    exact soundSettled (tableUpdate h.table ⟨sameId.trans id,sameFd.trans fd⟩)
      (fun other found there => h.entry other found (removeEntry there)) (watchedRemove h.watched _) h.once h.room

/- What the loop of Poll makes of events on registered descriptors: one active channel for
each, in the order of the events. -/
theorem pollLoopFinds {w : Polling} (h : Sound fds w) {es : List EpollEvent}
    (known : ∀ e ∈ es, (w.poller.fdToChannel e.fd).isSome = true) :
    ∃ found, pollLoop w.poller w.table es = some found ∧
      List.Forall₂ (fun e x => w.poller.fdToChannel e.fd = some x.1 ∧ x.2 = transRevents e.bits) es found := by
  induction es with
  | nil => exact ⟨[],rfl,.nil⟩
  | cons e es ih =>
    obtain ⟨found,rest,each⟩ := ih (fun e' member => known e' (List.mem_cons_of_mem _ member))
    obtain ⟨c,here⟩ := Option.isSome_iff_exists.mp (known e List.mem_cons_self)
    have own : (w.table c).fd = e.fd := (h.table c).2.trans (h.entry e.fd c here)
    refine ⟨(c,transRevents e.bits) :: found,?_,.cons ⟨here,rfl⟩ each⟩
    simp only [pollLoop, here, if_pos own, rest, Option.map_some]

/- The events of one epoll_wait: their descriptors are registered and watched. -/
theorem takenKnown {w : Polling} (h : Sound fds w) {fd : Fd} (member : fd ∈ w.taken) :
    (w.poller.fdToChannel fd).isSome = true :=
  (h.watched fd (h.ready fd (List.mem_of_mem_take member))).2

def grownSize (w : Polling) : Nat := if w.taken.length = w.size then w.size * 2 else w.size

theorem pollHolds {w : Polling} (h : Sound fds w) (active : List (Nat × Revents)) (bits : Fd → PollBits) :
    ∃ found, w.poller.poll w.table w.size active (.returned (w.events bits)) =
        some ⟨w.taken.length,w.grownSize,active ++ found⟩ ∧
      List.Forall₂ (fun fd x => w.poller.fdToChannel fd = some x.1 ∧ x.2 = transRevents (bits fd)) w.taken found := by
  have known : ∀ e ∈ w.events bits, (w.poller.fdToChannel e.fd).isSome = true := by
    intro e member
    obtain ⟨fd,there,made⟩ := List.mem_map.mp member
    subst made
    exact takenKnown h there
  obtain ⟨found,looped,each⟩ := pollLoopFinds h known
  have each' := (List.forall₂_map_left_iff).mp each
  refine ⟨found,?_,each'⟩
  have count : (w.events bits).length = w.taken.length := List.length_map _
  simp only [poll]
  split
  · rename_i empty
    have none_ : w.taken = [] := List.map_eq_nil_iff.mp empty
    obtain ⟨k,size⟩ := h.room
    have positive : 0 < w.size := by
      rw [size]
      exact Nat.mul_pos (by decide) (Nat.two_pow_pos k)
    rw [none_] at each'
    cases each'
    simp only [grownSize, none_, List.length_nil, if_neg (Nat.ne_of_lt positive), List.append_nil]
    rfl
  · rw [looped, Option.map_some, count]
    rfl

/- One poll, with what it logs and whom it leaves in the ready list. -/
theorem pollTaken {w t : Polling} (h : Sound fds w) {bits : Fd → PollBits} {again : Fd → Bool}
    (polled : step w (.poll bits again) = some t) :
    ∃ found, List.Forall₂ (fun fd x => w.poller.fdToChannel fd = some x.1 ∧ x.2 = transRevents (bits fd)) w.taken found ∧
      t = { w with
        size := w.grownSize
        log := w.log ++ found
        ready := w.ready.drop w.size ++ w.taken.filter again } := by
  obtain ⟨found,polls,each⟩ := pollHolds h w.log bits
  simp only [step, polls, Option.map_some] at polled
  split at polled
  · exact ⟨found,each,(Option.some.inj polled).symm⟩
  · cases polled

theorem failedTaken {w t : Polling} {err : Int} (polled : step w (.pollFailed err) = some t) : t = w :=
  (Option.some.inj polled).symm

theorem soundPoll {w t : Polling} (h : Sound fds w) {bits : Fd → PollBits} {again : Fd → Bool}
    (polled : step w (.poll bits again) = some t) : Sound fds t := by
  obtain ⟨found,_,made⟩ := pollTaken h polled
  subst made
  have split_ : w.taken ++ w.ready.drop w.size = w.ready := List.take_append_drop _ _
  have once : (w.ready.drop w.size ++ w.taken.filter again).Nodup := by
    have turned : (w.ready.drop w.size ++ w.taken).Nodup := by
      rw [List.nodup_append_comm, split_]
      exact h.once
    exact turned.sublist (List.filter_sublist.append_left _)
  refine ⟨h.table,h.entry,h.watched,fun fd member => ?_,once,?_⟩
  · rcases List.mem_append.mp member with left | back
    · exact h.ready fd (List.mem_of_mem_drop left)
    · exact h.ready fd (List.mem_of_mem_take (List.mem_filter.mp back).1)
  · obtain ⟨k,size⟩ := h.room
    simp only [grownSize]
    split
    · exact ⟨k + 1,by rw [size, Nat.mul_assoc, Nat.pow_succ]⟩
    · exact ⟨k,size⟩

theorem soundStep {w t : Polling} {a : Action} (h : Sound fds w) (taken : step w a = some t) : Sound fds t := by
  cases a with
  | call c => exact soundCall h taken
  | opened fd =>
    obtain ⟨_,made⟩ := Option.ite_none_left_eq_some.mp taken
    cases Option.some.inj made
    refine ⟨h.table,h.entry,fun other watched => ⟨?_,(h.watched other watched).2⟩,h.ready,h.once,h.room⟩
    simp only [Function.update_apply]
    split
    · rfl
    · exact (h.watched other watched).1
  | closed fd =>
    obtain ⟨_,made⟩ := Option.ite_none_right_eq_some.mp taken
    cases Option.some.inj made
    exact soundSettled h.table h.entry (watchedClosed h.watched fd) h.once h.room
  | woken fd =>
    obtain ⟨⟨watched,fresh⟩,made⟩ := Option.ite_none_right_eq_some.mp taken
    cases Option.some.inj made
    refine ⟨h.table,h.entry,h.watched,fun other member => ?_,?_,h.room⟩
    · rcases List.mem_append.mp member with old | new
      · exact h.ready other old
      · rw [List.mem_singleton.mp new]
        exact watched
    · exact List.nodup_append.mpr ⟨h.once,List.nodup_singleton fd,fun x hx y hy same => fresh (by
        rw [← List.mem_singleton.mp hy, ← same]
        exact hx)⟩
  | quiet fd =>
    cases Option.some.inj taken
    exact ⟨h.table,h.entry,h.watched,fun other member => h.ready other (List.mem_filter.mp member).1,h.once.filter _,h.room⟩
  | pollFailed err =>
    rw [failedTaken taken]
    exact h
  | poll bits again => exact soundPoll h taken

/- A channel on descriptor 5 that reads, and finds something to read. -/
def woke : List Action := [.opened 5,.call (.updateChannel 5 ⟨true,false⟩),.woken 5]

def readable : PollBits := ⟨true,false,false,false,false⟩

theorem wokeRuns : ∃ w, Machine.run step (initial id) woke = some w ∧ w.ready = [5] ∧ w.size = 128 ∧
    w.reported (fun _ => readable) = true := by
  have runs : (Machine.run step (initial id) woke).any (fun w => w.ready = [5] ∧ w.size = 128 ∧
      w.reported (fun _ => readable) = true) = true := by decide
  cases h : Machine.run step (initial id) woke with
  | none =>
    rw [h] at runs
    cases runs
  | some w =>
    rw [h] at runs
    exact ⟨w,rfl,of_decide_eq_true runs⟩

def Action.polls : Action → Bool
  | .poll _ _ => true
  | _ => false

/- The step does not take `fd` out of the ready list: the descriptor stays open, is not
drained, and no channel gives up its interest in it. -/
def Stays (fds : Nat → Fd) (fd : Fd) : Action → Prop
  | .call (.updateChannel c events) => fds c = fd → events ≠ Events.none
  | .call (.removeChannel c) => fds c ≠ fd
  | .closed other => other ≠ fd
  | .quiet other => other ≠ fd
  | _ => True

instance (fds : Nat → Fd) (fd : Fd) : DecidablePred (Stays fds fd) := by
  intro a
  unfold Stays
  split <;> infer_instance

theorem removeOther {isOpen : Fd → Bool} (p : EpollPoller) {ch : Channel} {fd : Fd} (other : fd ≠ ch.fd) :
    (p.removeChannel isOpen ch).1.interest fd = p.interest fd := by
  unfold removeChannel
  split
  · rfl
  · exact Function.update_of_ne other _ _

theorem updateOther {isOpen : Fd → Bool} (p : EpollPoller) {ch : Channel} {fd : Fd} (other : fd ≠ ch.fd) :
    (p.updateChannel isOpen ch).1.interest fd = p.interest fd := by
  unfold updateChannel
  split
  · split
    · exact removeOther p other
    · rfl
  · split <;> exact Function.update_of_ne other _ _

theorem updateOwn {isOpen : Fd → Bool} {p : EpollPoller} (h : Watched isOpen p) {ch : Channel}
    (watched : (p.interest ch.fd).isSome = true) (asks : ch.events ≠ Events.none) :
    (p.updateChannel isOpen ch).1.interest ch.fd = some ch.events := by
  obtain ⟨open_,known⟩ := h ch.fd watched
  obtain ⟨old,found⟩ := Option.isSome_iff_exists.mp watched
  have empty : ¬ ch.hasNoEvents = true := by simp [Channel.hasNoEvents, asks]
  rw [updateChannel, if_neg empty, if_pos known]
  simp only [updateEpoll, Function.update_self, open_, found, epollCtl]

/- A descriptor that stays keeps its watch, and the channel that has it. -/
theorem staysWatched {w t : Polling} {a : Action} {fd : Fd} (h : Sound fds w) (watched : (w.poller.interest fd).isSome = true)
    (stays : Stays fds fd a) (taken : step w a = some t) :
    (t.poller.interest fd).isSome = true ∧ t.poller.fdToChannel fd = w.poller.fdToChannel fd := by
  cases a with
  | call c =>
    cases Option.some.inj taken
    cases c with
    | updateChannel c events =>
      simp only [settled, TcFrame.call]
      by_cases own : fds c = fd
      · have asks : events ≠ Events.none := stays own
        have here : ({ w.table c with events := events } : Channel).fd = fd := (h.table c).2.trans own
        obtain ⟨c',found⟩ := Option.isSome_iff_exists.mp (h.watched fd watched).2
        refine ⟨?_,?_⟩
        · rw [← here] at watched ⊢
          rw [updateOwn h.watched watched asks]
          rfl
        · rw [@updateChannelMapSome w.isOpen w.poller { w.table c with events := events } asks, here, found,
            Option.getD_some, Function.update_self]
      · have other : fd ≠ ({ w.table c with events := events } : Channel).fd := fun same => own ((h.table c).2.symm.trans same.symm)
        rw [updateOther w.poller other]
        refine ⟨watched,?_⟩
        by_cases asks : events = Events.none
        · rw [@updateChannelMapNone w.isOpen w.poller { w.table c with events := events } asks,
            Function.update_of_ne other]
        · rw [@updateChannelMapSome w.isOpen w.poller { w.table c with events := events } asks,
            Function.update_of_ne other]
    | removeChannel c =>
      have other : fd ≠ (w.table c).fd := fun same => stays ((h.table c).2.symm.trans same.symm)
      simp only [settled, TcFrame.call, removeOther w.poller other, removeChannelMap, Function.update_of_ne other]
      exact ⟨watched,trivial⟩
  | opened other =>
    obtain ⟨_,made⟩ := Option.ite_none_left_eq_some.mp taken
    cases Option.some.inj made
    exact ⟨watched,rfl⟩
  | closed other =>
    obtain ⟨_,made⟩ := Option.ite_none_right_eq_some.mp taken
    cases Option.some.inj made
    refine ⟨?_,rfl⟩
    simp only [settled, closed, Function.update_of_ne (Ne.symm stays)]
    exact watched
  | woken other =>
    obtain ⟨_,made⟩ := Option.ite_none_right_eq_some.mp taken
    cases Option.some.inj made
    exact ⟨watched,rfl⟩
  | quiet other =>
    cases Option.some.inj taken
    exact ⟨watched,rfl⟩
  | pollFailed err =>
    rw [failedTaken taken]
    exact ⟨watched,rfl⟩
  | poll bits again =>
    obtain ⟨found,_,made⟩ := pollTaken h taken
    subst made
    exact ⟨watched,rfl⟩

/- The poller as a queue served in rounds: the array is the room, the ready list waits, and
served are the descriptors of the channels that the Polls have put out. -/
def rounds (fds : Nat → Fd) (w : Polling) : Rounds.Queue Fd := ⟨w.size,w.ready,w.log.map (fun x => fds x.1)⟩

theorem filterAll {xs : List Fd} : xs.filter (fun _ => !false) = xs := List.filter_true xs

theorem refinesRounds {w t : Polling} {a : Action} (h : Sound fds w) (taken : step w a = some t) :
    ∃ b, Rounds.step (rounds fds w) b = some (rounds fds t) ∧ b.serves = a.polls ∧
      ∀ fd, (w.poller.interest fd).isSome = true → Stays fds fd a → Rounds.Keeps fd b := by
  cases a with
  | call c =>
    refine ⟨.leave (fun fd => !(t.poller.interest fd).isSome),?_,rfl,fun fd watched stays => ?_⟩
    · cases Option.some.inj taken
      simp only [Rounds.step, rounds, settled, Bool.not_not]
    · simp only [Rounds.Keeps, (staysWatched h watched stays taken).1, Bool.not_true]
  | opened fd =>
    obtain ⟨_,made⟩ := Option.ite_none_left_eq_some.mp taken
    cases Option.some.inj made
    refine ⟨.leave (fun _ => false),?_,rfl,fun _ _ _ => rfl⟩
    simp only [Rounds.step, rounds, filterAll]
  | closed fd =>
    refine ⟨.leave (fun fd => !(t.poller.interest fd).isSome),?_,rfl,fun fd watched stays => ?_⟩
    · obtain ⟨_,made⟩ := Option.ite_none_right_eq_some.mp taken
      cases Option.some.inj made
      simp only [Rounds.step, rounds, settled, Bool.not_not]
    · simp only [Rounds.Keeps, (staysWatched h watched stays taken).1, Bool.not_true]
  | woken fd =>
    obtain ⟨_,made⟩ := Option.ite_none_right_eq_some.mp taken
    cases Option.some.inj made
    exact ⟨.arrive fd,rfl,rfl,fun _ _ _ => trivial⟩
  | quiet fd =>
    cases Option.some.inj taken
    refine ⟨.leave (fun other => other = fd),?_,rfl,fun other _ stays => ?_⟩
    · simp only [Rounds.step, rounds, ne_eq, decide_not]
    · exact decide_eq_false (fun same => stays same.symm)
  | pollFailed err =>
    rw [failedTaken taken]
    refine ⟨.leave (fun _ => false),?_,rfl,fun _ _ _ => rfl⟩
    simp only [Rounds.step, rounds, filterAll]
  | poll bits again =>
    obtain ⟨found,each,made⟩ := pollTaken h taken
    subst made
    refine ⟨.serve again,?_,rfl,fun _ _ _ => trivial⟩
    have served : found.map (fun x => fds x.1) = w.ready.take w.size := by
      have own : List.Forall₂ (fun fd x => fd = fds x.1) w.taken found :=
        each.imp (fun fd x registered => (h.entry fd x.1 registered.1).symm)
      rw [← List.forall₂_map_right_iff, List.forall₂_eq_eq_eq] at own
      exact own.symm
    have size : Rounds.grown w.size w.ready.length = w.grownSize := by
      simp only [Rounds.grown, grownSize, Polling.taken, List.length_take]
      split <;> split <;> omega
    simp only [Rounds.step, rounds, List.map_append, served, size, Polling.taken]

theorem foundFor {p : EpollPoller} {bits : Fd → PollBits} {es : List Fd} {found : List (Nat × Revents)}
    (each : List.Forall₂ (fun fd x => p.fdToChannel fd = some x.1 ∧ x.2 = transRevents (bits fd)) es found)
    {x : Nat × Revents} (member : x ∈ found) : ∃ fd, p.fdToChannel fd = some x.1 := by
  induction each with
  | nil => cases member
  | cons here _ ih =>
    rcases List.mem_cons.mp member with same | later
    · rw [same]
      exact ⟨_,here.1⟩
    · exact ih later

theorem standsCount {fd : Fd} {as : List Action} {bs : List (Rounds.Action Fd)}
    (h : List.Forall₂ (fun a b => b.serves = a.polls ∧ Rounds.Keeps fd b) as bs) :
    bs.countP Rounds.Action.serves = as.countP Action.polls ∧ ∀ b ∈ bs, Rounds.Keeps fd b := by
  induction h with
  | nil => exact ⟨rfl,fun _ member => by cases member⟩
  | cons here _ ih =>
    refine ⟨by rw [List.countP_cons, List.countP_cons, ih.1, here.1],fun b member => ?_⟩
    rcases List.mem_cons.mp member with same | later
    · rw [same]
      exact here.2
    · exact ih.2 b later

/- Whatever is logged for a descriptor while it stays registered is logged for one channel. -/
structure LoggedFor (fds : Nat → Fd) (fd : Fd) (c : Nat) (start s : Polling) : Prop where
  sound : Sound fds s
  watched : (s.poller.interest fd).isSome = true
  registered : s.poller.fdToChannel fd = some c
  logged : ∃ more, s.log = start.log ++ more ∧ ∀ x ∈ more, fds x.1 = fd → x.1 = c

theorem loggedStep {start s t : Polling} {a : Action} {fd : Fd} {c : Nat} (h : LoggedFor fds fd c start s)
    (stays : Stays fds fd a) (taken : step s a = some t) : LoggedFor fds fd c start t := by
  obtain ⟨watched,same⟩ := staysWatched h.sound h.watched stays taken
  refine ⟨soundStep h.sound taken,watched,same.trans h.registered,?_⟩
  obtain ⟨more,all,own⟩ := h.logged
  cases a with
  | call c => cases Option.some.inj taken; exact ⟨more,all,own⟩
  | opened other =>
    obtain ⟨_,made⟩ := Option.ite_none_left_eq_some.mp taken
    cases Option.some.inj made
    exact ⟨more,all,own⟩
  | closed other =>
    obtain ⟨_,made⟩ := Option.ite_none_right_eq_some.mp taken
    cases Option.some.inj made
    exact ⟨more,all,own⟩
  | woken other =>
    obtain ⟨_,made⟩ := Option.ite_none_right_eq_some.mp taken
    cases Option.some.inj made
    exact ⟨more,all,own⟩
  | quiet other => cases Option.some.inj taken; exact ⟨more,all,own⟩
  | pollFailed err =>
    rw [failedTaken taken]
    exact ⟨more,all,own⟩
  | poll bits again =>
    obtain ⟨found,each,made⟩ := pollTaken h.sound taken
    subst made
    refine ⟨more ++ found,by rw [all, List.append_assoc],fun x member here => ?_⟩
    rcases List.mem_append.mp member with old | new
    · exact own x old here
    · obtain ⟨other,found_⟩ := foundFor each new
      have that : fd = other := here.symm.trans (h.sound.entry other x.1 found_)
      rw [← that, h.registered] at found_
      exact (Option.some.inj found_).symm

/- No descriptor starves. One that is in the ready list behind i others, and stays there, is
reported for its channel before the k-th Poll from now has returned, as soon as the array
doubled k times is longer than what is in front: size * (2 ^ k - 1) > i. It does not matter who
else becomes ready meanwhile. -/
theorem reportedWithin {w t : Polling} {as : List Action} {fd : Fd}
    (reachable : Machine.Reachable step (· = initial fds) w) (ready : fd ∈ w.ready)
    (near : w.ready.idxOf fd < w.size * (2 ^ as.countP Action.polls - 1))
    (stays : Machine.Throughout step (fun _ a => Stays fds fd a) w as) (reached : Machine.run step w as = some t) :
    ∃ more c revents, t.log = w.log ++ more ∧ (c,revents) ∈ more ∧ w.poller.fdToChannel fd = some c := by
  have h : Sound fds w := Machine.reachableInvariant (fun s start => start ▸ soundInitial fds) (fun _ _ _ => soundStep) reachable
  have watched := h.ready fd ready
  obtain ⟨c,registered⟩ := Option.isSome_iff_exists.mp (h.watched fd watched).2
  have start : LoggedFor fds fd c w w := ⟨h,watched,registered,[],(List.append_nil _).symm,fun _ member => by cases member⟩
  have keep : ∀ s a s', LoggedFor fds fd c w s → Stays fds fd a → step s a = some s' → LoggedFor fds fd c w s' :=
    fun s a s' inv stay taken => loggedStep inv stay taken
  have each : ∀ s a s', LoggedFor fds fd c w s → Stays fds fd a → step s a = some s' →
      ∃ b, Rounds.step (rounds fds s) b = some (rounds fds s') ∧ b.serves = a.polls ∧ Rounds.Keeps fd b := by
    intro s a s' inv stay taken
    obtain ⟨b,serves,polls,keeps⟩ := refinesRounds inv.sound taken
    exact ⟨b,serves,polls,keeps fd inv.watched stay⟩
  obtain ⟨bs,run,stands⟩ := Machine.lockstep keep each start stays reached
  obtain ⟨count,kept⟩ := standsCount stands
  have within : Rounds.Within fd (bs.countP Rounds.Action.serves) (rounds fds w) := ⟨ready,count ▸ near⟩
  obtain ⟨served,all,there⟩ := Rounds.servedWithin within kept run
  obtain ⟨more,logged,own⟩ := (Machine.invariantWhen keep start stays reached).logged
  have put : more.map (fun x => fds x.1) = served := by
    simp only [rounds, logged, List.map_append] at all
    exact List.append_cancel_left all
  rw [← put] at there
  obtain ⟨x,member,here⟩ := List.mem_map.mp there
  exact ⟨more,c,x.2,logged,own x member here ▸ member,registered⟩

theorem reportedWithinWoke : ∃ w t more c revents, Machine.run step (initial id) woke = some w ∧
    Machine.run step w [.poll (fun _ => readable) (fun _ => true)] = some t ∧ t.log = w.log ++ more ∧
    (c,revents) ∈ more ∧ w.poller.fdToChannel 5 = some c := by
  obtain ⟨w,runs,ready,size,reported⟩ := wokeRuns
  have reachable : Machine.Reachable step (· = initial id) w := ⟨initial id,woke,rfl,runs⟩
  have sound : Sound id w := Machine.reachableInvariant (fun s start => start ▸ soundInitial id) (fun _ _ _ => soundStep) reachable
  obtain ⟨found,polls,_⟩ := pollHolds sound w.log (fun _ => readable)
  obtain ⟨t,reached⟩ : ∃ t, Machine.run step w [.poll (fun _ => readable) (fun _ => true)] = some t := by
    simp only [Machine.run, step, if_pos reported, polls, Option.map_some, Option.bind_some]
    exact ⟨_,rfl⟩
  have waits : 5 ∈ w.ready := by
    rw [ready]
    exact List.mem_singleton_self 5
  have stays : Machine.Throughout step (fun _ a => Stays id 5 a) w [.poll (fun _ => readable) (fun _ => true)] :=
    ⟨trivial,fun _ _ => trivial⟩
  obtain ⟨more,c,revents,log,member,registered⟩ :=
    reportedWithin reachable waits (by rw [ready, size]; decide) stays reached
  exact ⟨w,t,more,c,revents,runs,reached,log,member,registered⟩

end Polling
end EpollPoller
end TcFrame
