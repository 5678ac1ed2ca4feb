import TcFrame.TcpClient

/-! Who works on which descriptor. Each function of a channel's owner touches the poller
and the table of open descriptors at the channel's descriptor only, and the client's
Sockets never share one. -/
namespace TcFrame

namespace EpollPoller

/- The map sends events of the descriptor to channel `id`, and the kernel has some. -/
def Registered (p : EpollPoller) (fd : Fd) (id : Nat) : Prop := p.fdToChannel fd = some id ∧ p.interest fd ≠ none

/- The kernel watches open descriptors only. -/
def Kernel (p : EpollPoller) (isOpen : Fd → Bool) : Prop := ∀ fd, isOpen fd = false → p.interest fd = none

/- What the owner of channel `id` on `fd` does: nothing elsewhere, and it registers no
channel but its own. -/
structure Within (fd : Fd) (id : Nat) (p : EpollPoller) (isOpen : Fd → Bool) (p' : EpollPoller)
    (isOpen' : Fd → Bool) : Prop where
  map : ∀ x, x ≠ fd → p'.fdToChannel x = p.fdToChannel x
  interest : ∀ x, x ≠ fd → p'.interest x = p.interest x
  opened : ∀ x, x ≠ fd → isOpen' x = isOpen x
  enters : ∀ other, other ≠ id → p'.Registered fd other → p.Registered fd other
  kernel : p.Kernel isOpen → p'.Kernel isOpen'

variable {fd : Fd} {id : Nat} {p p' p'' : EpollPoller} {isOpen isOpen' isOpen'' : Fd → Bool}

theorem withinRefl : Within fd id p isOpen p isOpen :=
  ⟨fun _ _ => rfl,fun _ _ => rfl,fun _ _ => rfl,fun _ _ found => found,fun kernel => kernel⟩

theorem withinTrans (h : Within fd id p isOpen p' isOpen') (h' : Within fd id p' isOpen' p'' isOpen'') :
    Within fd id p isOpen p'' isOpen'' :=
  ⟨fun x other => (h'.map x other).trans (h.map x other),
    fun x other => (h'.interest x other).trans (h.interest x other),
    fun x other => (h'.opened x other).trans (h.opened x other),
    fun y other found => h.enters y other (h'.enters y other found),fun kernel => h'.kernel (h.kernel kernel)⟩

theorem epollCtlClosed (op : CtlOp) (current : Option Events) (events : Events) :
    epollCtl false op current events = current := rfl

theorem epollCtlMod {isOpen : Bool} {current : Option Events} {events : Events}
    (watched : epollCtl isOpen .mod current events ≠ none) : current ≠ none := by
  cases isOpen <;> cases current <;> simp_all [epollCtl]

theorem updateEpollKernel (op : CtlOp) (ch : Channel) (h : p.Kernel isOpen) :
    (p.updateEpoll isOpen op ch).Kernel isOpen := by
  intro x closed
  simp only [updateEpoll, Function.update_apply]
  split
  · rename_i here
    subst here
    rw [closed, epollCtlClosed]
    exact h _ closed
  · exact h x closed

theorem withinRemove (p : EpollPoller) (isOpen : Fd → Bool) (ch : Channel) :
    Within ch.fd ch.id p isOpen (p.removeChannel isOpen ch).1 isOpen := by
  unfold removeChannel
  split
  · exact withinRefl
  · refine ⟨fun x other => Function.update_of_ne other _ _,fun x other => Function.update_of_ne other _ _,
      fun _ _ => rfl,fun y _ found => ?_,fun kernel => updateEpollKernel .del ch kernel⟩
    have gone := found.1
    simp at gone

theorem withinUpdate (p : EpollPoller) (isOpen : Fd → Bool) (ch : Channel) :
    Within ch.fd ch.id p isOpen (p.updateChannel isOpen ch).1 isOpen := by
  unfold updateChannel
  split
  · split
    · exact withinRemove p isOpen ch
    · exact withinRefl
  · split
    · refine ⟨fun _ _ => rfl,fun x other => Function.update_of_ne other _ _,fun _ _ => rfl,fun y _ found => ?_,
        fun kernel => updateEpollKernel .mod ch kernel⟩
      have watched := found.2
      simp only [updateEpoll, Function.update_self] at watched
      exact ⟨found.1,epollCtlMod watched⟩
    · refine ⟨fun x other => Function.update_of_ne other _ _,fun x other => Function.update_of_ne other _ _,
        fun _ _ => rfl,fun y other found => ?_,fun kernel => updateEpollKernel .add ch kernel⟩
      have own : some ch.id = some y := by simpa [updateEpoll] using found.1
      exact absurd (Option.some.inj own).symm other

theorem withinClosed (p : EpollPoller) (isOpen : Fd → Bool) (fd : Fd) (id : Nat) :
    Within fd id p isOpen (p.closed fd) (Function.update isOpen fd false) := by
  refine ⟨fun _ _ => rfl,fun x other => Function.update_of_ne other _ _,fun x other => Function.update_of_ne other _ _,
    fun y _ found => ?_,fun kernel x closed => ?_⟩
  · have watched := found.2
    simp [EpollPoller.closed] at watched
  · simp only [EpollPoller.closed, Function.update_apply] at closed ⊢
    split
    · rfl
    · rename_i other
      rw [if_neg other] at closed
      exact kernel x closed

theorem withinOpened (p : EpollPoller) (isOpen : Fd → Bool) (fd : Fd) (id : Nat) :
    Within fd id p isOpen p (Function.update isOpen fd true) := by
  refine ⟨fun _ _ => rfl,fun _ _ => rfl,fun x other => Function.update_of_ne other _ _,fun _ _ found => found,
    fun kernel x closed => ?_⟩
  simp only [Function.update_apply] at closed
  split at closed
  · cases closed
  · exact kernel x closed

end EpollPoller

namespace Endpoint
open EpollPoller

/- A member function of the connection, on its channel's descriptor. -/
def Inside (e e' : Endpoint) : Prop :=
  Within e.conn.channel.fd e.conn.channel.id e.poller e.isOpen e'.poller e'.isOpen

theorem insideUpdate {e : Endpoint} {ch : Channel} (id : ch.id = e.conn.channel.id) (fd : ch.fd = e.conn.channel.fd) :
    Inside e (e.updateChannel ch) := by
  have h := withinUpdate e.poller e.isOpen ch
  rw [id, fd] at h
  exact h

theorem insideRemoved {e : Endpoint} : Inside e e.disconnect.removeIfAdded := by
  have first : Inside e e.disconnect := insideUpdate (e := (e.setState .disconnected).setPending 0) rfl rfl
  have done := disconnectClosed e
  unfold removeIfAdded
  split
  · have second := withinRemove e.disconnect.poller e.disconnect.isOpen e.disconnect.conn.channel
    rw [done.id, done.fd] at second
    exact withinTrans first second
  · exact first

theorem insideClose (e : Endpoint) : Inside e e.handleClose.1 := by
  unfold handleClose
  split
  · exact withinRefl
  · exact insideRemoved

theorem insideWatch (e : Endpoint) : Inside e e.watchWriting := by
  unfold watchWriting
  split
  · exact withinRefl
  · exact insideUpdate rfl rfl

theorem insideHandle (e : Endpoint) (ev : Connection.Event) : Inside e (Connection.handle e ev).1 := by
  cases ev with
  | read r =>
    cases r with
    | ok received =>
      simp only [Connection.handle, handleRead]
      split
      · exact insideClose e
      · exact withinRefl
    | error errno =>
      simp only [Connection.handle, handleRead]
      split
      · exact withinRefl
      · exact insideClose e
  | write r =>
    simp only [Connection.handle, handleWrite]
    split
    · exact withinRefl
    · rename_i on
      have connected : e.conn.state = .connected := by simpa [TcpConnection.isConnected] using on
      split
      · exact insideClose e
      · rename_i n _ _
        have off : Inside e (e.written n).disableWriting := insideUpdate (e := e.written n) rfl rfl
        split
        · split
          · rename_i ended
            simp [disableWriting, written, connected] at ended
          · exact off
        · exact withinRefl
      · split
        · exact withinRefl
        · exact insideClose e
  | close => exact insideClose e
  | error => exact insideClose e

theorem insideRun (e : Endpoint) (f : Functor) : Inside e (e.run f).1 := by
  cases f with
  | connectEstablished => exact insideUpdate (e := e.setState .connected) rfl rfl
  | connectDestroyed =>
    simp only [Endpoint.run, connectDestroyed]
    split
    · exact insideRemoved
    · exact withinRefl
  | sendInLoop m =>
    cases passes : e.conn.isConnected with
    | true => rw [Endpoint.run, (sendInLoopPassed passes).1]; exact withinRefl
    | false => rw [Endpoint.run, sendInLoopRefused passes]; exact withinRefl
  | shutdownInLoop =>
    simp only [Endpoint.run, shutdownInLoop]
    split
    · exact insideWatch e
    · exact insideClose e
  | forceCloseInLoop =>
    simp only [Endpoint.run, forceCloseInLoop]
    split
    · exact insideUpdate (e := (e.setState .disconnected).setPending 0) rfl rfl
    · exact withinRefl

theorem insideResume {e : Endpoint} (stored : ∀ fd, e.conn.socket.fd = some fd → fd = e.conn.channel.fd) (f : Frame) :
    Inside e (e.resume f).1 := by
  cases f with
  | sendTail => exact insideWatch e
  | closeSocket =>
    simp only [resume, closeSocket]
    split
    · exact withinRefl
    · rename_i fd valid
      rw [stored fd valid]
      exact withinClosed _ _ _ _
  | _ => exact withinRefl

/- What the owner of several connections has to know of one's member function: where it
works, that it closes the stored descriptor only, and that what is Disconnected stays so. -/
structure Works (e e' : Endpoint) (frames : List Frame) : Prop where
  same : Same e e'
  inside : Inside e e'
  kept : ∀ fd, e.conn.socket.fd ≠ some fd → e'.isOpen fd = e.isOpen fd
  up : e'.conn.state ≠ .disconnected →
    e.conn.state ≠ .disconnected ∧ e'.conn.socket.fd = e.conn.socket.fd ∧ e'.isOpen = e.isOpen
  closing : ∀ f ∈ frames, f = .closeSocket ∨ f = .invalidateSocket → e'.conn.state = .disconnected

theorem callNot {isSet : Bool} {f g : Frame} (other : f ≠ g) : g ∉ TcpConnection.call isSet f := by
  cases isSet <;> simp [TcpConnection.call, other.symm]

theorem worksWatch (e : Endpoint) : Works e e.watchWriting [] := by
  refine ⟨sameWatch e,insideWatch e,?_,?_,by simp⟩
  · unfold watchWriting
    split <;> exact fun _ _ => rfl
  · rw [watchWritingState]
    unfold watchWriting
    split <;> exact fun up => ⟨up,rfl,rfl⟩

theorem worksChange {e e' : Endpoint} {frames : List Frame} (h : Change e e' frames) (inside : Inside e e') :
    Works e e' frames := by
  have mild : ∀ (isSet : Bool) (f : Frame), f.isCallback = true →
      ∀ g ∈ TcpConnection.call isSet f, g = .closeSocket ∨ g = .invalidateSocket → e'.conn.state = .disconnected := by
    intro isSet f callback g member closes
    rcases closes with made | made <;> subst made
    · exact absurd member (callNot (fun same => by subst same; cases callback))
    · exact absurd member (callNot (fun same => by subst same; cases callback))
  refine ⟨sameChange h,inside,?_,?_,?_⟩
  · cases h with
    | closed open_ done frames_ => exact fun _ _ => by rw [done.isOpen]
    | shutting pending => exact (worksWatch e).kept
    | _ => exact fun _ _ => rfl
  · cases h with
    | ignored => exact fun up => ⟨up,rfl,rfl⟩
    | established fresh => exact fun _ => ⟨by rw [fresh]; simp,rfl,rfl⟩
    | closed open_ done frames_ => exact fun up => absurd done.state up
    | received bs => exact fun up => ⟨up,rfl,rfl⟩
    | wrotePart connected accepted left => exact fun up => ⟨up,rfl,rfl⟩
    | wroteAll connected accepted left => exact fun up => ⟨up,rfl,rfl⟩
    | shutting pending => exact (worksWatch e).up
  · cases h with
    | closed open_ done frames_ => exact fun _ _ _ => done.state
    | established fresh => exact mild _ _ rfl
    | received bs => exact mild _ _ rfl
    | wroteAll connected accepted left => exact mild _ _ rfl
    | _ => simp

theorem worksHandle (e : Endpoint) {ev : Connection.Event} (ok : Connection.possible e ev = true) :
    Works e (Connection.handle e ev).1 (Connection.handle e ev).2 :=
  worksChange (Connection.handleChange e ok) (insideHandle e ev)

theorem worksRun (e : Endpoint) {f : Functor} (fresh : f = .connectEstablished → e.conn.state = .connecting) :
    Works e (e.run f).1 (e.run f).2 := by
  cases f with
  | sendInLoop m =>
    cases passes : e.conn.isConnected with
    | true =>
      obtain ⟨world,notify,frames⟩ := @sendInLoopPassed e m.data passes
      refine ⟨sameRun e,insideRun e _,?_,?_,?_⟩
      · rw [Endpoint.run, world]; exact fun _ _ => rfl
      · rw [Endpoint.run, world]; exact fun up => ⟨up,rfl,rfl⟩
      · rw [Endpoint.run, frames]
        intro f member closes
        rcases List.mem_append.mp member with notified | tail
        · rcases closes with made | made <;> subst made <;> exact absurd notified (callNot (by simp))
        · rw [List.mem_singleton.mp tail] at closes
          simp at closes
    | false =>
      rw [Endpoint.run, sendInLoopRefused passes]
      exact ⟨sameRefl e,withinRefl,fun _ _ => rfl,fun up => ⟨up,rfl,rfl⟩,by simp⟩
  | _ => exact worksChange (runChange e (by simp) fresh) (insideRun e _)

theorem worksResume {e : Endpoint} (stored : ∀ fd, e.conn.socket.fd = some fd → fd = e.conn.channel.fd) {f : Frame}
    (ended : f = .closeSocket ∨ f = .invalidateSocket → e.conn.state = .disconnected) :
    Works e (e.resume f).1 (e.resume f).2 := by
  cases f with
  | sendTail => exact worksWatch e
  | closeSocket =>
    have done := ended (.inl rfl)
    have state : (e.resume .closeSocket).1.conn.state = .disconnected := (resumeState e _).trans done
    refine ⟨sameResume e _,insideResume stored _,?_,fun up => absurd state up,fun _ _ _ => state⟩
    intro fd other
    simp only [resume, closeSocket]
    split
    · rfl
    · rename_i fd' valid
      exact Function.update_of_ne (fun same => other (by rw [same]; exact valid)) _ _
  | invalidateSocket =>
    have done := ended (.inr rfl)
    exact ⟨sameResume e _,withinRefl,fun _ _ => rfl,fun up => absurd done up,by simp [resume]⟩
  | _ => exact ⟨sameRefl e,withinRefl,fun _ _ => rfl,fun up => ⟨up,rfl,rfl⟩,by simp [resume]⟩

theorem worksRequest (e : Endpoint) (t : ThreadId) (c : UserCall) : Works e (e.request t c).1 [] := by
  refine ⟨sameRequest e t c,?_,?_,?_,by simp⟩
  · cases c <;> simp only [request, send, shutdown, forceClose] <;> split <;> exact withinRefl
  · cases c <;> simp only [request, send, shutdown, forceClose] <;> split <;> exact fun _ _ => rfl
  · cases c with
    | send data =>
      simp only [request, send]
      split <;> exact fun up => ⟨up,rfl,rfl⟩
    | shutdown =>
      simp only [request, shutdown]
      split
      · rename_i connected
        exact fun _ => ⟨by rw [connected]; simp,rfl,rfl⟩
      · exact fun up => ⟨up,rfl,rfl⟩
    | forceClose =>
      simp only [request, forceClose]
      split
      · rename_i open_
        exact fun _ => ⟨by rcases openState open_ with state | state <;> simp [state],rfl,rfl⟩
      · exact fun up => ⟨up,rfl,rfl⟩

end Endpoint

namespace TcpClient
open Endpoint EpollPoller

/- Each Socket of the client has its descriptor to itself, and a connection that is not
Disconnected has its open. -/
structure Owned (w : World) : Prop where
  id : ∀ c < w.next, (w.conns c).channel.id = connectionChannel c
  stored : ∀ c < w.next, ∀ fd, (w.conns c).socket.fd = some fd → fd = (w.conns c).channel.fd
  apart : ∀ c < w.next, ∀ d < w.next, ∀ fd,
    (w.conns c).socket.fd = some fd → (w.conns d).socket.fd = some fd → c = d
  up : ∀ c < w.next, (w.conns c).state ≠ .disconnected →
    (w.conns c).socket.fd = some (w.conns c).channel.fd ∧ w.isOpen (w.conns c).channel.fd = true
  own : ∀ fd, w.client.socket = some (some fd) → w.isOpen fd = true ∧ ∀ c < w.next, (w.conns c).socket.fd ≠ some fd
  connection : ∀ c, w.client.connection = some c → c < w.next
  kernel : w.poller.Kernel w.isOpen

/- What no function changes about the connections there are. -/
structure Onward (w w' : World) : Prop where
  next : w.next ≤ w'.next
  fd : ∀ c < w.next, (w'.conns c).channel.fd = (w.conns c).channel.fd
  ended : ∀ c < w.next, (w.conns c).state = .disconnected → (w'.conns c).state = .disconnected
  vacant : ∀ c < w.next, w'.vacant c = w.vacant c

theorem onwardSame {w w' : World} (conns : w'.conns = w.conns) (next : w'.next = w.next)
    (vacant : w'.vacant = w.vacant) : Onward w w' := by
  refine ⟨Nat.le_of_eq next.symm,?_,?_,?_⟩
  · rw [conns]; exact fun _ _ => rfl
  · rw [conns]; exact fun _ _ ended => ended
  · rw [vacant]; exact fun _ _ => rfl

theorem onwardTrans {w w' w'' : World} (h : Onward w w') (h' : Onward w' w'') : Onward w w'' := by
  have known : ∀ c < w.next, c < w'.next := fun c made => Nat.lt_of_lt_of_le made h.next
  refine ⟨Nat.le_trans h.next h'.next,fun c made => ?_,fun c made ended => ?_,fun c made => ?_⟩
  · exact (h'.fd c (known c made)).trans (h.fd c made)
  · exact h'.ended c (known c made) (h.ended c made ended)
  · exact (h'.vacant c (known c made)).trans (h.vacant c made)

@[simp] theorem putSame (w : World) (c : ConnId) (e : Endpoint) : (w.put c e).conns c = e.conn := by
  simp [World.put]

@[simp] theorem putOther (w : World) {c d : ConnId} (e : Endpoint) (other : d ≠ c) :
    (w.put c e).conns d = w.conns d := by
  simp [World.put, other]

theorem putStored {w : World} {c d : ConnId} {e : Endpoint} {fd : Fd} (same : Same (w.endpoint c) e)
    (stored : ((w.put c e).conns d).socket.fd = some fd) : (w.conns d).socket.fd = some fd := by
  by_cases here : d = c
  · subst here
    rw [putSame] at stored
    rcases same.socket with kept | gone
    · exact kept.symm.trans stored
    · rw [gone] at stored
      cases stored
  · rw [putOther w e here] at stored
    exact stored

theorem onwardPut {w : World} {c : ConnId} {e : Endpoint} {frames : List Frame}
    (works : Works (w.endpoint c) e frames) : Onward w (w.put c e) := by
  refine ⟨Nat.le_refl _,fun d _ => ?_,fun d _ ended => ?_,fun _ _ => rfl⟩
  · by_cases here : d = c
    · subst here
      rw [putSame]
      exact works.same.fd
    · rw [putOther w e here]
  · by_cases here : d = c
    · subst here
      rw [putSame]
      by_contra up
      exact (works.up up).1 ended
    · rw [putOther w e here]
      exact ended

theorem ownedPut {w : World} (h : Owned w) {c : ConnId} (known : c < w.next) {e : Endpoint} {frames : List Frame}
    (works : Works (w.endpoint c) e frames) : Owned (w.put c e) := by
  have stored : ∀ {d fd}, ((w.put c e).conns d).socket.fd = some fd → (w.conns d).socket.fd = some fd :=
    fun found => putStored works.same found
  have fds := (onwardPut works).fd
  refine ⟨?_,?_,?_,?_,?_,h.connection,works.inside.kernel h.kernel⟩
  · intro d made
    by_cases here : d = c
    · subst here
      rw [putSame]
      exact works.same.id.trans (h.id d made)
    · rw [putOther w e here]
      exact h.id d made
  · intro d made fd found
    rw [fds d made]
    exact h.stored d made fd (stored found)
  · exact fun c' made d made' fd found found' => h.apart c' made d made' fd (stored found) (stored found')
  · intro d made up
    rw [fds d made]
    by_cases here : d = c
    · subst here
      rw [putSame] at up ⊢
      obtain ⟨before,socket,isOpen⟩ := works.up up
      obtain ⟨valid,open_⟩ := h.up d made before
      exact ⟨socket.trans valid,(congrFun isOpen _).trans open_⟩
    · rw [putOther w e here] at up ⊢
      obtain ⟨valid,open_⟩ := h.up d made up
      refine ⟨valid,(works.kept _ (fun shared => here ?_)).trans open_⟩
      exact h.apart d made c known _ valid shared
  · intro fd owned
    obtain ⟨open_,unshared⟩ := h.own fd owned
    exact ⟨(works.kept fd (unshared c known)).trans open_,fun d made found => unshared d made (stored found)⟩

theorem ownedReset {w : World} (h : Owned w) : Owned (resetSocket w) := by
  unfold resetSocket
  dsimp only
  split
  · rename_i fd owned
    obtain ⟨_,unshared⟩ := h.own fd owned
    refine ⟨h.id,h.stored,h.apart,?_,(fun x found => by cases found),h.connection,
      (withinClosed w.poller w.isOpen fd 0).kernel h.kernel⟩
    intro c made up
    obtain ⟨valid,open_⟩ := h.up c made up
    refine ⟨valid,?_⟩
    have other : (w.conns c).channel.fd ≠ fd := fun same => unshared c made (by rw [← same]; exact valid)
    exact (Function.update_of_ne other _ _).trans open_
  · exact ⟨h.id,h.stored,h.apart,h.up,(fun x found => by cases found),h.connection,h.kernel⟩

theorem usesOwn {w : World} {fd : Fd} (own : w.client.socket = some (some fd)) : w.uses fd = true := by
  simp [World.uses, own]

theorem usesConn {w : World} {c : ConnId} {fd : Fd} (known : c < w.next) (stored : (w.conns c).socket.fd = some fd) :
    w.uses fd = true := by
  have among : (List.range w.next).any (fun c => (w.conns c).socket.fd == some fd) = true :=
    List.any_eq_true.mpr ⟨c,List.mem_range.mpr known,by simp [stored]⟩
  simp [World.uses, among]

/- What happens on descriptors that the client does not use. -/
theorem ownedElsewhere {w w' : World} (h : Owned w) (client : w'.client.socket = w.client.socket)
    (connection : w'.client.connection = w.client.connection) (conns : w'.conns = w.conns) (next : w'.next = w.next)
    (isOpen : ∀ fd, w.uses fd = true → w'.isOpen fd = w.isOpen fd) (kernel : w'.poller.Kernel w'.isOpen) :
    Owned w' := by
  refine ⟨?_,?_,?_,?_,?_,?_,kernel⟩
  · rw [conns, next]; exact h.id
  · rw [conns, next]; exact h.stored
  · rw [conns, next]; exact h.apart
  · rw [conns, next]
    intro c made up
    obtain ⟨valid,open_⟩ := h.up c made up
    exact ⟨valid,(isOpen _ (usesConn made valid)).trans open_⟩
  · rw [client, conns, next]
    intro fd own
    obtain ⟨open_,unshared⟩ := h.own fd own
    exact ⟨(isOpen fd (usesOwn own)).trans open_,unshared⟩
  · rw [connection, next]; exact h.connection

theorem resetSocketRest (w : World) :
    (resetSocket w).conns = w.conns ∧ (resetSocket w).next = w.next ∧ (resetSocket w).vacant = w.vacant ∧
    (resetSocket w).stack = w.stack ∧ (resetSocket w).queue = w.queue ∧
    (resetSocket w).temporaries = w.temporaries ∧ (resetSocket w).client.connection = w.client.connection ∧
    (resetSocket w).poller.fdToChannel = w.poller.fdToChannel := by
  unfold resetSocket
  dsimp only
  split <;> exact ⟨rfl,rfl,rfl,rfl,rfl,rfl,rfl,rfl⟩

theorem resetSocketClosed {w : World} {fd : Fd} (closed : w.isOpen fd = false) : (resetSocket w).isOpen fd = false := by
  unfold resetSocket
  dsimp only
  split
  · simp [Function.update_apply, closed]
  · exact closed

theorem freshUnused {w : World} {fd : Fd} (fresh : isFresh w fd = true) :
    w.isOpen fd = false ∧ ∀ c < w.next, (w.conns c).socket.fd ≠ some fd := by
  simp only [isFresh, Bool.and_eq_true, Bool.not_eq_true'] at fresh
  refine ⟨fresh.1,fun c made stored => ?_⟩
  have used := usesConn made stored
  rw [fresh.2] at used
  cases used

theorem ownedOpen {w : World} (h : Owned w) {fd : Fd} (fresh : isFresh w fd = true) : Owned (openSocket w fd) := by
  have r := ownedReset h
  obtain ⟨conns,next,_⟩ := resetSocketRest w
  obtain ⟨_,unused⟩ := freshUnused fresh
  refine ⟨r.id,r.stored,r.apart,?_,?_,r.connection,(withinOpened _ _ fd 0).kernel r.kernel⟩
  · intro c made up
    obtain ⟨valid,open_⟩ := r.up c made up
    refine ⟨valid,?_⟩
    simp only [openSocket, Function.update_apply]
    split
    · rfl
    · exact open_
  · intro x own
    cases own
    refine ⟨by simp [openSocket],?_⟩
    simp only [openSocket, conns, next]
    exact unused

theorem adoptOther {w : World} {fd : Fd} {bufferSize : Nat} {c : ConnId} (known : c < w.next) :
    (adopt w fd bufferSize).conns c = w.conns c :=
  Function.update_of_ne (Nat.ne_of_lt known) _ _

theorem adoptNew (w : World) (fd : Fd) (bufferSize : Nat) :
    (adopt w fd bufferSize).conns w.next =
      TcpConnection.create (connectionChannel w.next) fd { w.client.callbacks with close := true } highWaterMark bufferSize := by
  simp [adopt]

theorem onwardAdopt (w : World) (fd : Fd) (bufferSize : Nat) : Onward w (adopt w fd bufferSize) := by
  refine ⟨Nat.le_succ _,fun c made => by rw [adoptOther made],fun c made ended => by rw [adoptOther made]; exact ended,
    fun c made => ?_⟩
  exact Function.update_of_ne (Nat.ne_of_lt made) _ _

theorem ownedAdopt {w : World} (h : Owned w) {fd : Fd} (bufferSize : Nat) (own : w.client.socket = some (some fd)) :
    Owned (adopt w fd bufferSize) := by
  obtain ⟨open_,unshared⟩ := h.own fd own
  have cases_ : ∀ {c}, c < w.next + 1 → c < w.next ∨ c = w.next := Nat.lt_succ_iff_lt_or_eq.mp
  have stored : ∀ {c x}, c < w.next + 1 → ((adopt w fd bufferSize).conns c).socket.fd = some x →
      (c < w.next ∧ (w.conns c).socket.fd = some x) ∨ (c = w.next ∧ x = fd) := by
    intro c x made found
    rcases cases_ made with old | new
    · rw [adoptOther old] at found
      exact .inl ⟨old,found⟩
    · subst new
      rw [adoptNew] at found
      exact .inr ⟨rfl,(Option.some.inj found).symm⟩
  refine ⟨?_,?_,?_,?_,(fun x found => by cases found),?_,h.kernel⟩
  · intro c made
    rcases cases_ made with old | new
    · rw [adoptOther old]
      exact h.id c old
    · subst new
      rw [adoptNew]
      rfl
  · intro c made x found
    rcases stored made found with ⟨old,there⟩ | ⟨new,same⟩
    · rw [adoptOther old]
      exact h.stored c old x there
    · subst new
      rw [adoptNew]
      exact same
  · intro c made d made' x found found'
    rcases stored made found with ⟨old,there⟩ | ⟨new,same⟩ <;>
      rcases stored made' found' with ⟨old',there'⟩ | ⟨new',same'⟩
    · exact h.apart c old d old' x there there'
    · rw [same'] at there
      exact absurd there (unshared c old)
    · rw [same] at there'
      exact absurd there' (unshared d old')
    · exact new.trans new'.symm
  · intro c made up
    rcases cases_ made with old | new
    · rw [adoptOther old] at up ⊢
      exact h.up c old up
    · subst new
      rw [adoptNew]
      exact ⟨rfl,open_⟩
  · intro c found
    cases found
    exact Nat.lt_succ_self _

theorem worksConnect (w : World) (fd : Fd) (bufferSize : Nat) :
    Works ((adopt w fd bufferSize).endpoint w.next) (((adopt w fd bufferSize).endpoint w.next).run .connectEstablished).1
      (((adopt w fd bufferSize).endpoint w.next).run .connectEstablished).2 :=
  worksRun _ (fun _ => by simp only [World.endpoint, adoptNew]; rfl)

theorem ownedConnect {w : World} (h : Owned w) {fd : Fd} (bufferSize : Nat) (own : w.client.socket = some (some fd)) :
    Owned (handleConnect w fd bufferSize).1 :=
  ownedPut (ownedAdopt h bufferSize own) (Nat.lt_succ_self _) (worksConnect w fd bufferSize)

end TcpClient
end TcFrame
