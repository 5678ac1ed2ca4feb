import Mathlib.Data.List.Count
import TcFrame.TcpServerEstablish

/-! The descriptors of a server's connections. Whoever is not Disconnected, or has still to
close its socket, has its descriptor open and to itself. -/
namespace TcFrame
open Endpoint Machine

namespace Endpoint

/- What every member function but the two halves of Socket::Close does to the socket and
to what has to be closed. -/
structure Unreleased (e e' : Endpoint) (frames : List Frame) : Prop where
  same : Same e e'
  isOpen : e'.isOpen = e.isOpen
  socket : e'.conn.socket.fd = e.conn.socket.fd
  finished : e.conn.state = .disconnected → e'.conn.state = .disconnected ∧ .closeSocket ∉ frames
  ends : ∀ f ∈ frames, f = .closeSocket ∨ f = .closeCallback → e'.conn.state = .disconnected
  once : frames.count .closeSocket ≤ 1
  stores : .invalidateSocket ∉ frames

theorem unreleasedSame {e e' : Endpoint} {frames : List Frame} (same : Same e e') (isOpen : e'.isOpen = e.isOpen)
    (socket : e'.conn.socket.fd = e.conn.socket.fd) (finished : e.conn.state = .disconnected → e'.conn.state = .disconnected)
    (mild : ∀ f ∈ frames, f ≠ .closeSocket ∧ f ≠ .closeCallback ∧ f ≠ .invalidateSocket) : Unreleased e e' frames := by
  have silent : .closeSocket ∉ frames := fun member => (mild _ member).1 rfl
  refine ⟨same,isOpen,socket,fun done => ⟨finished done,silent⟩,fun f member closing => ?_,?_,fun member => (mild _ member).2.2 rfl⟩
  · rcases closing with here | here
    · exact absurd here (mild f member).1
    · exact absurd here (mild f member).2.1
  · rw [List.count_eq_zero.mpr silent]
    exact Nat.zero_le _

theorem unreleasedWatch (e : Endpoint) : Unreleased e e.watchWriting [] := by
  refine unreleasedSame (sameWatch e) ?_ ?_ (fun done => (watchWritingState e).trans done) (by simp)
  · unfold watchWriting
    split <;> rfl
  · obtain ⟨ch,conn,_⟩ := watchWritingConn e
    rw [conn]

theorem unreleasedChange {e e' : Endpoint} {frames : List Frame} (h : Change e e' frames) : Unreleased e e' frames := by
  have same := sameChange h
  have mild : ∀ (isSet : Bool) (g : Frame), g ≠ .closeSocket ∧ g ≠ .closeCallback ∧ g ≠ .invalidateSocket →
      ∀ f ∈ TcpConnection.call isSet g, f ≠ .closeSocket ∧ f ≠ .closeCallback ∧ f ≠ .invalidateSocket := by
    intro isSet g quiet f member
    cases isSet
    · cases member
    · rw [List.mem_singleton.mp member]
      exact quiet
  cases h with
  | ignored => exact unreleasedSame same rfl rfl id (by simp)
  | established fresh =>
    exact unreleasedSame same rfl rfl (fun done => by rw [fresh] at done; cases done) (mild _ _ (by simp))
  | closed open_ done frames_ =>
    refine ⟨same,done.isOpen,by rw [done.socket],fun finished => absurd finished open_,fun _ _ _ => done.state,?_,?_⟩
    · rcases frames_ with made | made | made <;> cases set : e.conn.callbacks.close <;>
        simp [made, set, TcpConnection.call]
    · rcases frames_ with made | made | made <;> simp [made, TcpConnection.call]
  | received bs => exact unreleasedSame same rfl rfl id (mild _ _ (by simp))
  | wrotePart connected accepted left => exact unreleasedSame same rfl rfl id (by simp)
  | wroteAll connected accepted left => exact unreleasedSame same rfl rfl id (mild _ _ (by simp))
  | shutting pending => exact unreleasedWatch e

theorem unreleasedRun {e : Endpoint} {f : Functor} (fresh : f = .connectEstablished → e.conn.state = .connecting) :
    Unreleased e (e.run f).1 (e.run f).2 := by
  cases f with
  | sendInLoop m =>
    have same : Same e (e.run (.sendInLoop m)).1 := sameRun e
    cases passes : e.conn.isConnected with
    | true =>
      obtain ⟨world,notify,frames⟩ := @sendInLoopPassed e m.data passes
      refine unreleasedSame same ?_ ?_ ?_ ?_
      · rw [Endpoint.run, world]; rfl
      · rw [Endpoint.run, world]; rfl
      · rw [Endpoint.run, world]; exact id
      · rw [Endpoint.run, frames]
        cases notify <;> simp [TcpConnection.call]
    | false =>
      rw [Endpoint.run, sendInLoopRefused passes]
      exact unreleasedSame (sameRefl e) rfl rfl id (by simp)
  | _ => exact unreleasedChange (runChange e (by simp) fresh)

end Endpoint

namespace TcpServer

theorem requestOver {e : Endpoint} {t : ThreadId} {call : UserCall} (finished : e.conn.state = .disconnected) :
    e.request t call = (e,none) := by
  cases call <;> simp [request, send, shutdown, forceClose, TcpConnection.isConnected, isOpenState, finished]

theorem requestSocket (e : Endpoint) (t : ThreadId) (call : UserCall) :
    (e.request t call).1.isOpen = e.isOpen ∧ (e.request t call).1.conn.socket = e.conn.socket := by
  cases call <;> simp only [request, send, shutdown, forceClose] <;> split <;> exact ⟨rfl,rfl⟩

/- The descriptor is the connection's own. -/
def holds (w : World) (c : ConnId) : Prop :=
  (w.conn c).state ≠ .disconnected ∨ .conn c .closeSocket ∈ w.stack (w.host.loopOf c)

/- What Socket::Close has still to do for it. -/
def closers (w : World) (c : ConnId) : Nat :=
  (w.stack (w.host.loopOf c)).count (.conn c .closeSocket) + (w.stack (w.host.loopOf c)).count (.conn c .invalidateSocket)

def isEnding : Frame → Bool
  | .closeSocket | .invalidateSocket | .closeCallback => true
  | _ => false

structure Sockets (w : World) : Prop where
  up : ∀ c < w.host.next, holds w c →
    (w.conn c).socket.fd = some (w.conn c).channel.fd ∧ w.host.isOpen (w.conn c).channel.fd = true
  apart : ∀ c < w.host.next, ∀ d < w.host.next, holds w c → holds w d →
    (w.conn c).channel.fd = (w.conn d).channel.fd → c = d
  ended : ∀ t c f, .conn c f ∈ w.stack t → isEnding f = true → (w.conn c).state = .disconnected
  removing : ∀ t l c, .call l (.remove c) ∈ w.stack t → (w.conn c).state = .disconnected
  queued : ∀ l c, .remove c ∈ w.queue l → (w.conn c).state = .disconnected
  once : ∀ c < w.host.next, closers w c ≤ 1

/- The turns that leave the connections' sockets alone. -/
structure Untouched (w : World) (out : Effect) : Prop where
  next : out.1.host.next = w.host.next
  loopOf : out.1.host.loopOf = w.host.loopOf
  isOpen : out.1.host.isOpen = w.host.isOpen
  fd : ∀ c, (out.1.conn c).channel.fd = (w.conn c).channel.fd
  socket : ∀ c, (out.1.conn c).socket.fd = (w.conn c).socket.fd
  state : ∀ c, (out.1.conn c).state = .disconnected ↔ (w.conn c).state = .disconnected
  stack : out.1.stack = w.stack
  frames : ∀ c f, .conn c f ∉ out.2
  removing : ∀ l c, .call l (.remove c) ∈ out.2 → (w.conn c).state = .disconnected
  queued : ∀ l c, .remove c ∈ out.1.queue l → (w.conn c).state = .disconnected

theorem countBelow {w : World} {t : ThreadId} {top below : List Act} {out : Effect} {x : Act}
    (split : w.stack t = top ++ below) (stack : out.1.stack = w.stack) (fresh : x ∉ out.2) (t' : ThreadId) :
    ((settle t below out).stack t').count x ≤ (w.stack t').count x := by
  simp only [settle, stack, Function.update_apply]
  split
  · rename_i here
    rw [here, split, List.count_append, List.count_append, List.count_eq_zero.mpr fresh]
    omega
  · exact Nat.le_refl _

theorem socketsUntouched {w : World} {t : ThreadId} {top below : List Act} {out : Effect} (h : Sockets w)
    (split : w.stack t = top ++ below) (u : Untouched w out) : Sockets (settle t below out) := by
  have conn : ∀ c, (settle t below out).conn c = out.1.conn c := fun _ => rfl
  have loopOf : (settle t below out).host.loopOf = w.host.loopOf := u.loopOf
  have isOpen : (settle t below out).host.isOpen = w.host.isOpen := u.isOpen
  have next : (settle t below out).host.next = w.host.next := u.next
  have queue : (settle t below out).queue = out.1.queue := rfl
  have held : ∀ c, holds (settle t below out) c → holds w c := by
    intro c held
    rcases held with up | closing
    · exact .inl (fun finished => up (by rw [conn]; exact (u.state c).mpr finished))
    · rw [loopOf] at closing
      rcases settledAct split u.stack closing with ⟨_,new⟩ | old
      · exact absurd new (u.frames c _)
      · exact .inr old
  refine ⟨?_,?_,?_,?_,?_,?_⟩
  · intro c known held'
    rw [conn, u.socket, u.fd, isOpen]
    exact h.up c (next ▸ known) (held c held')
  · intro c known d known' heldC heldD same
    rw [conn, conn, u.fd, u.fd] at same
    exact h.apart c (next ▸ known) d (next ▸ known') (held c heldC) (held d heldD) same
  · intro t' c f member ending
    rw [conn, u.state]
    rcases settledAct split u.stack member with ⟨_,new⟩ | old
    · exact absurd new (u.frames c f)
    · exact h.ended t' c f old ending
  · intro t' l c member
    rw [conn, u.state]
    rcases settledAct split u.stack member with ⟨_,new⟩ | old
    · exact u.removing l c new
    · exact h.removing t' l c old
  · intro l c member
    rw [conn, u.state]
    exact u.queued l c (queue ▸ member)
  · intro c known
    have before := h.once c (next ▸ known)
    have first := countBelow split u.stack (u.frames c .closeSocket) (w.host.loopOf c)
    have second := countBelow split u.stack (u.frames c .invalidateSocket) (w.host.loopOf c)
    simp only [closers, loopOf] at before ⊢
    omega

theorem socketsMember {w : World} {t : ThreadId} {c : ConnId} {top below : List Act} {out : Endpoint × List Frame}
    (h : Sockets w) (known : c < w.host.next) (home : t = w.host.loopOf c) (split : w.stack t = top ++ below)
    (u : Unreleased (w.host.endpoint c) out.1 out.2) : Sockets (settle t below (ofConn w c out)) := by
  have mine : (settle t below (ofConn w c out)).conn c = out.1.conn := by
    simp [ofConn]
  have others : ∀ d, d ≠ c → (settle t below (ofConn w c out)).conn d = w.conn d := by
    intro d other
    simp [ofConn, other]
  have isOpen : (settle t below (ofConn w c out)).host.isOpen = w.host.isOpen := u.isOpen
  have fd : ∀ d, ((settle t below (ofConn w c out)).conn d).channel.fd = (w.conn d).channel.fd := putChannel u.same
  have socket : ∀ d, ((settle t below (ofConn w c out)).conn d).socket.fd = (w.conn d).socket.fd := by
    intro d
    by_cases here : d = c
    · rw [here, mine]
      exact u.socket
    · rw [others d here]
  have finished : ∀ d, (w.conn d).state = .disconnected → ((settle t below (ofConn w c out)).conn d).state = .disconnected := by
    intro d done
    by_cases here : d = c
    · subst here
      rw [mine]
      exact (u.finished done).1
    · rw [others d here]
      exact done
  have acts : ∀ {t' d f}, .conn d f ∈ (settle t below (ofConn w c out)).stack t' →
      t' = t ∧ d = c ∧ f ∈ out.2 ∨ .conn d f ∈ w.stack t' := by
    intro t' d f member
    rcases settledAct split rfl member with ⟨here,new⟩ | old
    · obtain ⟨g,made,same⟩ := List.mem_map.mp new
      cases same
      exact .inl ⟨here,rfl,made⟩
    · exact .inr old
  have held : ∀ d, holds (settle t below (ofConn w c out)) d → holds w d := by
    intro d held
    rcases held with up | closing
    · exact .inl (fun done => up (finished d done))
    · rcases acts closing with ⟨_,here,made⟩ | old
      · subst here
        exact .inl (fun done => (u.finished done).2 made)
      · exact .inr old
  refine ⟨?_,?_,?_,?_,?_,?_⟩
  · intro d made held'
    rw [socket, fd, isOpen]
    exact h.up d made (held d held')
  · intro d made d' made' heldD heldD' same
    rw [fd, fd] at same
    exact h.apart d made d' made' (held d heldD) (held d' heldD') same
  · intro t' d f member ending
    rcases acts member with ⟨_,here,made⟩ | old
    · rw [here, mine]
      refine u.ends f made ?_
      cases f <;> first | exact .inl rfl | exact .inr rfl | exact absurd made u.stores | cases ending
    · exact finished d (h.ended t' d f old ending)
  · intro t' l d member
    rcases settledAct split rfl member with ⟨_,new⟩ | old
    · exact absurd new (connNotCall _ _)
    · exact finished d (h.removing t' l d old)
  · exact fun l d member => finished d (h.queued l d member)
  · intro d made
    have before := h.once d made
    have stored : Act.conn d .invalidateSocket ∉ (ofConn w c out).2 := by
      intro member
      obtain ⟨f,there,same⟩ := List.mem_map.mp member
      cases same
      exact u.stores there
    have second := countBelow split rfl stored (w.host.loopOf d)
    by_cases adds : .conn d .closeSocket ∈ (ofConn w c out).2
    · obtain ⟨f,there,same⟩ := List.mem_map.mp adds
      cases same
      -- Nothing of Socket::Close is left of a connection that is not Disconnected.
      have none_ : ∀ f, isEnding f = true → .conn c f ∉ w.stack (w.host.loopOf c) := by
        intro f ending member
        exact (u.finished (h.ended _ c f member ending)).2 there
      have counted : ((settle t below (ofConn w c out)).stack (w.host.loopOf c)).count (.conn c .closeSocket) ≤ 1 := by
        have under : Act.conn c .closeSocket ∉ below := by
          intro member
          exact none_ .closeSocket rfl (by rw [← home, split]; exact List.mem_append_right _ member)
        have shape : (settle t below (ofConn w c out)).stack (w.host.loopOf c) = out.2.map (.conn c) ++ below := by
          simp [settle, ofConn, home]
        have distinct : Function.Injective (Act.conn c) := fun _ _ same => (Act.conn.inj same).2
        rw [shape, List.count_append, List.count_eq_zero.mpr under, List.count_map_of_injective _ _ distinct]
        exact u.once
      have absent := List.count_eq_zero.mpr (none_ .invalidateSocket rfl)
      have loopOf : (settle t below (ofConn w c out)).host.loopOf = w.host.loopOf := rfl
      simp only [closers, loopOf]
      omega
    · have first := countBelow split rfl adds (w.host.loopOf d)
      have loopOf : (settle t below (ofConn w c out)).host.loopOf = w.host.loopOf := rfl
      simp only [closers, loopOf] at before ⊢
      omega

/- The two halves of Socket::Close: what they leave of it is not the first half, and the
connection does not hold its descriptor any more. -/
theorem socketsRelease {w : World} {c : ConnId} {f : Frame} {below : List Act} {out : Endpoint × List Frame}
    (h : Sockets w) (known : c < w.host.next) (half : f = .closeSocket ∨ f = .invalidateSocket)
    (split : w.stack (w.host.loopOf c) = .conn c f :: below) (same : Same (w.host.endpoint c) out.1)
    (state : out.1.conn.state = (w.conn c).state)
    (isOpen : ∀ fd, fd ≠ (w.conn c).channel.fd ∨ f = .invalidateSocket → out.1.isOpen fd = w.host.isOpen fd)
    (left : out.2 = [] ∨ f = .closeSocket ∧ out.2 = [.invalidateSocket]) :
    Sockets (settle (w.host.loopOf c) below (ofConn w c out)) := by
  have one : w.stack (w.host.loopOf c) = [.conn c f] ++ below := split
  have ending : isEnding f = true := by rcases half with here | here <;> rw [here] <;> rfl
  have finished : (w.conn c).state = .disconnected := h.ended (w.host.loopOf c) c f (by simp [split]) ending
  have mine : (settle (w.host.loopOf c) below (ofConn w c out)).conn c = out.1.conn := by
    simp [ofConn]
  have others : ∀ d, d ≠ c → (settle (w.host.loopOf c) below (ofConn w c out)).conn d = w.conn d := by
    intro d other
    simp [ofConn, other]
  have states : ∀ d, ((settle (w.host.loopOf c) below (ofConn w c out)).conn d).state = (w.conn d).state := by
    intro d
    by_cases here : d = c
    · rw [here, mine, state]
    · rw [others d here]
  have fd : ∀ d, ((settle (w.host.loopOf c) below (ofConn w c out)).conn d).channel.fd = (w.conn d).channel.fd :=
    putChannel same
  have loopOf : (settle (w.host.loopOf c) below (ofConn w c out)).host.loopOf = w.host.loopOf := rfl
  have opened : (settle (w.host.loopOf c) below (ofConn w c out)).host.isOpen = out.1.isOpen := rfl
  have acts : ∀ {t' d g}, .conn d g ∈ (settle (w.host.loopOf c) below (ofConn w c out)).stack t' →
      d = c ∧ g = .invalidateSocket ∨ .conn d g ∈ w.stack t' := by
    intro t' d g member
    rcases settledAct one rfl member with ⟨_,new⟩ | old
    · obtain ⟨g',made,here⟩ := List.mem_map.mp new
      cases here
      rcases left with none_ | ⟨_,stored⟩
      · rw [none_] at made
        cases made
      · rw [stored] at made
        exact .inl ⟨rfl,List.mem_singleton.mp made⟩
    · exact .inr old
  have once := h.once c known
  simp only [closers, split] at once
  have spent : .conn c .closeSocket ∉ below ∧ .conn c .invalidateSocket ∉ below := by
    have zero : below.count (.conn c .closeSocket) = 0 ∧ below.count (.conn c .invalidateSocket) = 0 := by
      rcases half with here | here <;> simp [here] at once <;> omega
    exact ⟨List.count_eq_zero.mp zero.1,List.count_eq_zero.mp zero.2⟩
  have held : ∀ d, holds (settle (w.host.loopOf c) below (ofConn w c out)) d → holds w d ∧ d ≠ c := by
    intro d held
    have still : holds w d := by
      rcases held with up | closing
      · exact .inl (by rwa [← states d])
      · rcases acts closing with ⟨_,absurd_⟩ | old
        · cases absurd_
        · exact .inr old
    refine ⟨still,?_⟩
    rintro rfl
    rcases held with up | closing
    · exact up ((states d).trans finished)
    · have shape : (settle (w.host.loopOf d) below (ofConn w d out)).stack (w.host.loopOf d) =
          out.2.map (.conn d) ++ below := by simp [settle, ofConn]
      rw [loopOf, shape] at closing
      rcases List.mem_append.mp closing with new | old
      · obtain ⟨g,made,here⟩ := List.mem_map.mp new
        cases here
        rcases left with none_ | ⟨_,stored⟩
        · rw [none_] at made
          cases made
        · rw [stored] at made
          cases List.mem_singleton.mp made
      · exact spent.1 old
  refine ⟨?_,?_,?_,?_,?_,?_⟩
  · intro d made held'
    obtain ⟨before,other⟩ := held d held'
    obtain ⟨stored,open_⟩ := h.up d made before
    rw [others d other, opened]
    refine ⟨stored,?_⟩
    rw [isOpen _ ?_]
    · exact open_
    · rcases half with here | here
      · refine .inl (fun shared => other (h.apart d made c known before (.inr ?_) shared))
        simp [split, here]
      · exact .inr here
  · intro d made d' made' heldD heldD' shared
    rw [fd, fd] at shared
    exact h.apart d made d' made' (held d heldD).1 (held d' heldD').1 shared
  · intro t' d g member ends
    rw [states]
    rcases acts member with ⟨here,_⟩ | old
    · rw [here]
      exact finished
    · exact h.ended t' d g old ends
  · intro t' l d member
    rw [states]
    rcases settledAct one rfl member with ⟨_,new⟩ | old
    · exact absurd new (connNotCall _ _)
    · exact h.removing t' l d old
  · intro l d member
    rw [states]
    exact h.queued l d member
  · intro d made
    by_cases here : d = c
    · subst here
      have shape : (settle (w.host.loopOf d) below (ofConn w d out)).stack (w.host.loopOf d) =
          out.2.map (.conn d) ++ below := by simp [settle, ofConn]
      simp only [closers, loopOf, shape, List.count_append, List.count_eq_zero.mpr spent.1, List.count_eq_zero.mpr spent.2]
      rcases left with none_ | ⟨_,stored⟩
      · simp [none_]
      · simp [stored]
    · have absent : ∀ g, Act.conn d g ∉ (ofConn w c out).2 := by
        intro g member
        obtain ⟨g',_,same'⟩ := List.mem_map.mp member
        exact here (Act.conn.inj same').1.symm
      have before := h.once d made
      have first := countBelow one rfl (absent .closeSocket) (w.host.loopOf d)
      have second := countBelow one rfl (absent .invalidateSocket) (w.host.loopOf d)
      simp only [closers, loopOf] at before ⊢
      omega

theorem socketsAccept {w w' : World} {fd : Fd} (h : Sockets w) (r : Registry w)
    (free : w.host.isOpen fd = false) (made : Accepts w fd w') : Sockets w' := by
  obtain ⟨callbacks,mark,bufferSize,new⟩ := made.new
  have acts : ∀ {t a}, a ∈ w'.stack t → (∃ l, a = .call l (established w.host.next)) ∨ a ∈ w.stack t := by
    intro t a member
    by_cases main : t = mainLoop
    · rw [main, made.main] at member
      exact .inl ⟨_,List.mem_singleton.mp member⟩
    · rw [made.apart t main] at member
      exact .inr member
  have old : ∀ {t a}, a ∈ w.stack t → ∀ d ∈ a.conns, w'.conn d = w.conn d := by
    intro t a member d named
    exact (made.old d (r.stacked t a member d named)).1
  have held : ∀ d < w.host.next, holds w' d → holds w d := by
    intro d before held
    obtain ⟨conn,loop⟩ := made.old d before
    rcases held with up | closing
    · exact .inl (by rwa [← conn])
    · rw [loop] at closing
      rcases acts closing with ⟨_,same⟩ | there
      · cases same
      · exact .inr there
  have busy : ∀ d < w.host.next, holds w' d → (w'.conn d).channel.fd ≠ fd := by
    intro d before held' same
    rw [(made.old d before).1] at same
    have open_ := (h.up d before (held d before held')).2
    rw [same, free] at open_
    cases open_
  have cases_ : ∀ {d}, d < w'.host.next → d < w.host.next ∨ d = w.host.next := by
    intro d known
    rw [made.next] at known
    exact Nat.lt_succ_iff_lt_or_eq.mp known
  have newFd : (w'.conn w.host.next).channel.fd = fd := by rw [new]; rfl
  refine ⟨?_,?_,?_,?_,?_,?_⟩
  · intro d known held'
    rcases cases_ known with before | this
    · obtain ⟨stored,open_⟩ := h.up d before (held d before held')
      have other := busy d before held'
      rw [(made.old d before).1] at other ⊢
      rw [made.isOpen, Function.update_of_ne other]
      exact ⟨stored,open_⟩
    · subst this
      rw [newFd, made.isOpen, new]
      exact ⟨rfl,by simp⟩
  · intro d known d' known' heldD heldD' same
    rcases cases_ known with before | this <;> rcases cases_ known' with before' | this'
    · rw [(made.old d before).1, (made.old d' before').1] at same
      exact h.apart d before d' before' (held d before heldD) (held d' before' heldD') same
    · rw [this', newFd] at same
      exact absurd same (busy d before heldD)
    · rw [this, newFd] at same
      exact absurd same.symm (busy d' before' heldD')
    · exact this.trans this'.symm
  · intro t d f member ending
    rcases acts member with ⟨_,same⟩ | there
    · cases same
    · rw [old there d (by simp [Act.conns])]
      exact h.ended t d f there ending
  · intro t l d member
    rcases acts member with ⟨_,same⟩ | there
    · cases same
    · rw [old there d (by simp [Act.conns, Task.conns])]
      exact h.removing t l d there
  · intro l d member
    rw [made.queue] at member
    rw [(made.old d (r.queues l _ member d (by simp [Task.conns]))).1]
    exact h.queued l d member
  · intro d known
    rcases cases_ known with before | this
    · have bound := h.once d before
      simp only [closers, (made.old d before).2] at bound ⊢
      by_cases main : w.host.loopOf d = mainLoop
      · simp [main, made.main]
      · rw [made.apart _ main]
        exact bound
    · have none_ : ∀ f, Act.conn d f ∉ w'.stack (w'.host.loopOf d) := by
        intro f member
        rcases acts member with ⟨_,same⟩ | there
        · cases same
        · exact Nat.lt_irrefl _ (this ▸ r.stacked _ _ there d (by simp [Act.conns]))
      simp only [closers, List.count_eq_zero.mpr (none_ _)]
      omega

theorem untouchedServer {w : World} {out : Effect} (h : Sockets w) (host : out.1.host = w.host) (stack : out.1.stack = w.stack)
    (queue : out.1.queue = w.queue) (frames : ∀ c f, .conn c f ∉ out.2)
    (removing : ∀ l c, .call l (.remove c) ∈ out.2 → (w.conn c).state = .disconnected) : Untouched w out := by
  have conn : out.1.conn = w.conn := World.connSame host
  refine ⟨by rw [host],by rw [host],by rw [host],?_,?_,?_,stack,frames,removing,?_⟩
  · rw [conn]; exact fun _ => rfl
  · rw [conn]; exact fun _ => rfl
  · rw [conn]; exact fun _ => Iff.rfl
  · rw [queue]; exact h.queued

theorem socketsStep {w w' : World} {a : Action} (r : Registry w) (p : Placed w) (b : Births w) (h : Sockets w)
    (taken : step w a = some w') : Sockets w' := by
  cases turnCases r p taken with
  | @member t c top below out known home split does =>
    cases does with
    | @resume f own =>
      subst home
      cases f with
      | sendTail => exact socketsMember h known rfl split (unreleasedWatch _)
      | closeSocket =>
        have stored := (h.up c known (.inr (by simp [split]))).1
        have stored' : (w.host.endpoint c).conn.socket.fd = some (w.conn c).channel.fd := stored
        have released : (w.host.endpoint c).resume .closeSocket =
            ({ w.host.endpoint c with
              isOpen := Function.update w.host.isOpen (w.conn c).channel.fd false
              poller := (w.host.endpoint c).poller.closed (w.conn c).channel.fd },[.invalidateSocket]) := by
          simp only [resume, closeSocket, stored']
          rfl
        rw [released]
        refine socketsRelease h known (.inl rfl) split ⟨rfl,rfl,rfl,.inl rfl⟩ rfl (fun fd other => ?_) (.inr ⟨rfl,rfl⟩)
        exact Function.update_of_ne (other.resolve_right (by simp)) _ _
      | invalidateSocket =>
        exact socketsRelease h known (.inr rfl) split (sameResume _ _) rfl (fun _ _ => rfl) (.inl rfl)
      | _ => cases own
    | @run f =>
      refine socketsMember h known home split (unreleasedRun (fun same => ?_))
      subst same home
      exact establishedFresh b known split
    | event idle up ok => exact socketsMember h known home split (unreleasedChange (Connection.handleChange _ ok))
  | @request t c call top below again known split caller =>
    have silent : ∀ a ∈ again, (∀ d f, a ≠ .conn d f) ∧ ∀ l d, a ≠ .call l (.remove d) := by cases caller <;> simp
    refine socketsUntouched h split ⟨rfl,rfl,(requestSocket _ t call).1,putChannel (sameRequest _ t call),fun d => ?_,
      fun d => ?_,rfl,fun d f member => ?_,fun l d member => ?_,h.queued⟩
    · by_cases here : d = c
      · subst here
        have socket : ((w.host.endpoint d).request t call).1.conn.socket = (w.conn d).socket := (requestSocket _ t call).2
        simp [callConn, socket]
      · simp [callConn, here]
    · by_cases here : d = c
      · subst here
        have same : ((callConn w t d call).1.conn d).state = ((w.host.endpoint d).request t call).1.conn.state := by
          simp [callConn]
        refine ⟨fun finished => (requestMonotone (w.host.endpoint d) t call).2 (same ▸ finished),fun finished => ?_⟩
        rw [same, requestOver finished]
        exact finished
      · simp [callConn, here]
    · rcases List.mem_append.mp member with handed | rest
      · obtain ⟨g,_,same⟩ := List.mem_map.mp handed
        cases same
      · exact (silent _ rest).1 d f rfl
    · rcases List.mem_append.mp member with handed | rest
      · obtain ⟨g,_,same⟩ := List.mem_map.mp handed
        cases same
      · exact absurd rfl ((silent _ rest).2 l d)
  | @close t c below home split =>
    have finished := h.ended t c .closeCallback (by simp [split]) rfl
    refine socketsUntouched h (topSplit split) (untouchedServer h rfl rfl rfl (by simp) ?_)
    intro l d member
    cases List.mem_singleton.mp member
    exact finished
  | @hand t l task below split other home =>
    refine socketsUntouched h (topSplit split) ⟨rfl,rfl,rfl,fun _ => rfl,fun _ => rfl,
      fun _ => Iff.rfl,rfl,by simp,by simp,fun l' d member => ?_⟩
    rcases memPushed member with old | ⟨_,new⟩
    · exact h.queued l' d old
    · refine h.removing t l d ?_
      rw [new, split]
      exact List.mem_cons_self
  | @take l task rest idle head loop =>
    refine socketsUntouched h (idleSplit idle) ⟨rfl,rfl,rfl,fun _ => rfl,fun _ => rfl,
      fun _ => Iff.rfl,rfl,by simp,fun l' d member => ?_,fun l' d member => ?_⟩
    · cases List.mem_singleton.mp member
      exact h.queued l d (by simp [head])
    · exact h.queued l' d (memPopped head member)
  | @remove c below out known ran split does =>
    refine socketsUntouched h (topSplit split)
      (untouchedServer h does.host does.stack does.queue (fun d f => ?_) (fun l d => ?_)) <;>
      rcases does.outcome with ⟨_,_,none_⟩ | ⟨_,_,_,_,_,acts⟩
    · simp [none_]
    · simp [acts]
    · simp [none_]
    · simp [acts]
  | @sweepErase x rest stale force below known split off =>
    exact socketsUntouched h (topSplit split) (untouchedServer h rfl rfl rfl (by simp) (by simp))
  | @sweepEnd stale force below split =>
    refine socketsUntouched h (topSplit split) (untouchedServer h rfl rfl rfl ?_ ?_) <;>
      cases force <;> simp [sweepEnd]
  | @sweepNext x rest stale force below split on =>
    exact socketsUntouched h (topSplit split) (untouchedServer h rfl rfl rfl (by simp) (by simp))
  | @skip top again below split skips =>
    refine socketsUntouched h (topSplit split) (untouchedServer h rfl rfl rfl ?_ ?_) <;>
      cases skips <;> simp
  | @serve t top below out split own calm does =>
    refine socketsUntouched h split (untouchedServer h does.host does.stack does.queue (fun d f member => does.acts _ member)
      (fun l d member => ?_))
    obtain ⟨_,_,task⟩ := does.acts _ member
    cases task
  | accept idle free made => exact socketsAccept h r free made

theorem socketsInitial {w : World} (h : Initial w) : Sockets w := by
  obtain ⟨threadNum,callbacks,mark,idleTimeout,same⟩ := h
  subst same
  exact ⟨fun c known => absurd known (Nat.not_lt_zero c),fun c known => absurd known (Nat.not_lt_zero c),
    fun t c f member => (by cases member),fun t l c member => (by cases member),fun l c member => (by cases member),
    fun c known => absurd known (Nat.not_lt_zero c)⟩

end TcpServer
end TcFrame
