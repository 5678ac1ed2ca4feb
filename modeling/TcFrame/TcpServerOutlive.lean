import TcFrame.ConnectionNotify
import TcFrame.TcpServerHolders

/-! A connection outlives the code that runs on it, in every run in which the table and
ConnectDestroyed do not give it up too early. -/
namespace TcFrame
open Endpoint Machine

namespace Endpoint

/- A member function enters at most its own channel into the poller's map. -/
def Enters (e e' : Endpoint) : Prop :=
  ∀ fd i, e'.poller.fdToChannel fd = some i → e.poller.fdToChannel fd = some i ∨ i = e.conn.channel.id

theorem entersSame {e e' : Endpoint} (map : e'.poller.fdToChannel = e.poller.fdToChannel) : Enters e e' := by
  intro fd i entry
  rw [map] at entry
  exact .inl entry

theorem entersUpdate (e : Endpoint) {ch : Channel} (id : ch.id = e.conn.channel.id) : Enters e (e.updateChannel ch) := by
  intro fd i entry
  by_cases none_ : ch.events = Events.none
  · have map : (e.updateChannel ch).poller.fdToChannel = _ := EpollPoller.updateChannelMapNone e.isOpen e.poller none_
    rw [map, Function.update_apply] at entry
    split at entry
    · cases entry
    · exact .inl entry
  · have map : (e.updateChannel ch).poller.fdToChannel = _ := EpollPoller.updateChannelMapSome e.isOpen e.poller none_
    rw [map, Function.update_apply] at entry
    split at entry
    · rename_i here
      cases old : e.poller.fdToChannel ch.fd with
      | none =>
        rw [old] at entry
        exact .inr ((Option.some.inj entry).symm.trans id)
      | some j =>
        rw [old] at entry
        exact .inl (by rw [here, old]; exact entry)
    · exact .inl entry

theorem entersWatch (e : Endpoint) : Enters e e.watchWriting := by
  unfold watchWriting
  split
  · exact entersSame rfl
  · exact entersUpdate e rfl

theorem entersChange {e e' : Endpoint} {frames : List Frame} (h : Change e e' frames) : Enters e e' := by
  cases h with
  | ignored => exact entersSame rfl
  | established fresh => exact entersUpdate (e.setState .connected) rfl
  | closed open_ done frames_ =>
    intro fd i entry
    rw [done.map, Function.update_apply] at entry
    split at entry
    · cases entry
    · exact .inl entry
  | received bs => exact entersSame rfl
  | wrotePart connected accepted left => exact entersSame rfl
  | @wroteAll n connected accepted left => exact entersUpdate (e.written n) rfl
  | shutting pending => exact entersWatch e

theorem entersRun (e : Endpoint) (f : Functor) : Enters e (e.run f).1 := by
  cases f with
  | connectEstablished => exact entersUpdate (e.setState .connected) rfl
  | connectDestroyed => exact entersChange (connectDestroyedChange e)
  | sendInLoop m =>
    cases passes : e.conn.isConnected with
    | true => rw [Endpoint.run, (sendInLoopPassed passes).1]; exact entersSame rfl
    | false => rw [Endpoint.run, sendInLoopRefused passes]; exact entersSame rfl
  | shutdownInLoop => exact entersChange (shutdownInLoopChange e)
  | forceCloseInLoop => exact entersChange (forceCloseInLoopChange e)

theorem entersResume (e : Endpoint) (f : Frame) : Enters e (e.resume f).1 := by
  cases f with
  | sendTail => exact entersWatch e
  | closeSocket =>
    simp only [resume, closeSocket]
    split <;> exact entersSame rfl
  | _ => exact entersSame rfl

theorem entersRequest (e : Endpoint) (t : ThreadId) (call : UserCall) : Enters e (e.request t call).1 := by
  cases call <;> simp only [request, send, shutdown, forceClose] <;> split <;> exact entersSame rfl

end Endpoint

namespace TcpServer

theorem entersMember {w : World} {a : Action} {t : ThreadId} {c : ConnId} {top : List Act} {out : Endpoint × List Frame}
    (does : Member w t c a top out) : Enters (w.host.endpoint c) out.1 := by
  cases does with
  | resume own => exact entersResume _ _
  | run => exact entersRun _ _
  | event idle up ok => exact entersChange (Connection.handleChange _ ok)

theorem keptOf {w : World} {c : ConnId} (h : isKept w c = true) : kept w c := by
  simp only [isKept, Bool.or_eq_true, registeredIff, List.any_eq_true, List.contains_iff_mem, Bool.and_eq_true,
    bne_iff_ne] at h
  rcases h with ((listed | ⟨a,member,here⟩) | own) | ⟨queued,sub⟩
  · exact .inl listed
  · split at here
    · exact .inr (.inl ⟨_,_,_,member,by simpa using here⟩)
    · rw [eq_of_beq here] at member
      exact .inr (.inr (.inl member))
  · exact .inr (.inr (.inr (.inl own)))
  · exact .inr (.inr (.inr (.inr ⟨queued,sub⟩)))

/- The channel of another connection does not put this one's into the poller. -/
theorem inPollerPut {w : World} {c d : ConnId} {e : Endpoint} (named : ∀ c < w.host.next, (w.conn c).channel.id = c)
    (knownC : c < w.host.next) (knownD : d < w.host.next) (other : c ≠ d) (enters : Enters (w.host.endpoint d) e)
    (there : inPoller (w.putHost (w.host.put d e)) c = true) : inPoller w c = true := by
  simp only [inPoller, World.connPutOther w e other, beq_iff_eq] at there ⊢
  simp only [World.putHost, Host.put, Function.update_apply] at there
  split at there
  · rename_i here
    rcases enters _ _ there with before | mine
    · rw [here]
      exact before
    · have idC := named c knownC
      have idD : (w.host.endpoint d).conn.channel.id = d := named d knownD
      exact absurd (idC.symm.trans (mine.trans idD)) other
  · exact there

theorem inPollerSelf (w : World) (c : ConnId) (e : Endpoint) : inPoller (w.putHost (w.host.put c e)) c =
    (e.poller.fdToChannel e.conn.channel.fd == some e.conn.channel.id) := by
  simp [inPoller, World.conn, World.putHost, Host.put]

/- Given up, with nothing left to run but the end of its own ConnectDestroyed, whose functor
holds the connection. -/
def resting (x : Holding) (c : ConnId) : Prop :=
  let l := x.world.host.loopOf c
  (x.world.conn c).state = .disconnected ∧ inPoller x.world c = false ∧
    (atWork x c (x.world.stack l) = false ∨ ∃ b, (b,c) ∈ x.held l ∧ atWork x c b = false ∧
      ∀ a ∈ x.world.stack l, a.isBare c = true → a = .conn c .closeSocket ∨ a = .conn c .invalidateSocket)

/- The loop has the connection's HandleEvent before it, or the next call of it, or the end
of one of its member functions. -/
def due (x : Holding) (l : ThreadId) (c : ConnId) : Prop :=
  (∃ y ∈ x.polled.batch l, y.1 = c) ∨ (∃ y ∈ x.polled.calls l, y.1 = c) ∨ ∃ g ∈ x.doing l, g.2 = c

structure Covered (x : Holding) : Prop where
  living : Living x.life
  named : ∀ c < x.world.host.next, (x.world.conn c).channel.id = c
  nested : ∀ t, ∀ h ∈ x.held t, h.1 <:+ x.world.stack t ∧ h.1.length < (x.world.stack t).length
  home : ∀ l c, due x l c → x.world.host.loopOf c = l ∧ c < x.world.host.next
  covered : x.stage ≠ .cleared → ∀ c < x.world.host.next, kept x.world c ∨ resting x c

def waiting (x : Holding) (c : ConnId) : Prop := due x (x.world.host.loopOf c) c

theorem atWorkIff {x : Holding} {c : ConnId} {stack : List Act} : atWork x c stack = true ↔
    stack.any (Act.isBare c) = true ∨ (x.world.queue (x.world.host.loopOf c)).any (Task.isBare c) = true ∨
      waiting x c := by
  simp only [atWork, waiting, due, Bool.or_eq_true, List.any_eq_true, beq_iff_eq, or_assoc]

/- What keeps a connection at rest: no new work for it but the second half of a Socket::Close
that was there before. -/
structure Calm (x x' : Holding) (c : ConnId) : Prop where
  loopOf : x'.world.host.loopOf c = x.world.host.loopOf c
  state : (x'.world.conn c).state = .disconnected
  poller : inPoller x'.world c = true → inPoller x.world c = true
  acts : ∀ a ∈ x'.world.stack (x.world.host.loopOf c), a.isBare c = true → a ∈ x.world.stack (x.world.host.loopOf c) ∨
    a = .conn c .invalidateSocket ∧ .conn c .closeSocket ∈ x.world.stack (x.world.host.loopOf c)
  queue : ∀ task ∈ x'.world.queue (x.world.host.loopOf c), task.isBare c = true →
    task ∈ x.world.queue (x.world.host.loopOf c)
  waits : waiting x' c → waiting x c
  nested : ∀ b, (b,c) ∈ x.held (x.world.host.loopOf c) → b <:+ x'.world.stack (x.world.host.loopOf c)
  held : ∀ b, (b,c) ∈ x.held (x.world.host.loopOf c) → b.length < (x'.world.stack (x.world.host.loopOf c)).length →
    (b,c) ∈ x'.held (x.world.host.loopOf c)

theorem bareClose (c : ConnId) : (Act.conn c .closeSocket).isBare c = true := by simp [Act.isBare, isCallback, Frame.isCallback]

theorem restingCalm {x x' : Holding} {c : ConnId} (calm : Calm x x' c) (h : resting x c) : resting x' c := by
  obtain ⟨_,poller,work⟩ := h
  have poller' : inPoller x'.world c = false := by
    by_contra there
    rw [calm.poller (by simpa using there)] at poller
    cases poller
  have less : ∀ {stack stack' : List Act}, (stack'.any (Act.isBare c) = true → stack.any (Act.isBare c) = true) →
      atWork x c stack = false → atWork x' c stack' = false := by
    intro stack stack' fewer idle
    by_contra busy
    have busy' : atWork x c stack = true := by
      rcases atWorkIff.mp (by simpa using busy) with act | queued | waits
      · exact atWorkIff.mpr (.inl (fewer act))
      · obtain ⟨task,member,bare⟩ := List.any_eq_true.mp queued
        rw [calm.loopOf] at member
        exact atWorkIff.mpr (.inr (.inl (List.any_eq_true.mpr ⟨task,calm.queue task member bare,bare⟩)))
      · exact atWorkIff.mpr (.inr (.inr (calm.waits waits)))
    rw [idle] at busy'
    cases busy'
  refine ⟨calm.state,poller',?_⟩
  rw [calm.loopOf]
  rcases work with idle | ⟨b,held,idle,closing⟩
  · refine .inl (less (fun busy => ?_) idle)
    obtain ⟨a,member,bare⟩ := List.any_eq_true.mp busy
    rcases calm.acts a member bare with before | ⟨_,before⟩
    · exact List.any_eq_true.mpr ⟨a,before,bare⟩
    · exact List.any_eq_true.mpr ⟨_,before,bareClose c⟩
  · have idle' : atWork x' c b = false := less id idle
    obtain ⟨pre,whole⟩ := calm.nested b held
    by_cases under : b.length < (x'.world.stack (x.world.host.loopOf c)).length
    · refine .inr ⟨b,calm.held b held under,idle',fun a member bare => ?_⟩
      rcases calm.acts a member bare with before | ⟨same,_⟩
      · exact closing a before bare
      · exact .inr same
    · refine .inl ?_
      have returned : pre = [] := by
        rw [← whole, List.length_append] at under
        exact List.length_eq_zero_iff.mp (by omega)
      rw [← whole, returned, List.nil_append]
      exact idle'

theorem keptMoves {w w' : World} {a : Action} (r : Registry w) (p : Placed w) (s : Swept w) (taken : step w a = some w')
    {c : ConnId} (known : c < w.host.next) (h : kept w c) :
    (Ran w a w' c .connectDestroyed ∨ ∃ fd, w.lookup fd = some c ∧ Lost w c fd a) ∨ kept w' c := by
  rcases h with ⟨fd,listed⟩ | debt
  · rcases entryMoves r p s taken listed with lost | still | debt
    · exact .inl (.inr ⟨fd,listed,lost⟩)
    · exact .inr (.inl ⟨fd,still⟩)
    · exact .inr (.inr debt)
  · exact (owedMoves r p taken known debt).imp .inl .inr

/- A step that takes the entry from the connection finds it at rest. -/
theorem lostRests {x : Holding} {a : Action} {c : ConnId} {fd : Fd} (spares : cutsShort x (.loop (.server a)) = false)
    (listed : x.world.lookup fd = some c) (lost : Lost x.world c fd a) : resting x c := by
  have idle : engaged x c = false := by
    cases lost with
    | overwritten on idle free => simpa [cutsShort, listed, on] using spares
    | @stolen _ d ran other socket =>
      obtain ⟨t,below,act,top⟩ := removalTop ran
      subst act
      simpa [cutsShort, top, socket, listed, other.symm] using spares
  simp only [engaged, Bool.or_eq_false_iff, bne_eq_false_iff_eq] at idle
  exact ⟨idle.1.1,idle.1.2,.inl idle.2⟩

/- A step that does not begin anything for the connection. -/
structure Spared (w w' : World) (c : ConnId) : Prop where
  poller : inPoller w' c = true → inPoller w c = true
  acts : ∀ a ∈ w'.stack (w.host.loopOf c), a.isBare c = true → a ∈ w.stack (w.host.loopOf c) ∨
    a = .conn c .invalidateSocket ∧ .conn c .closeSocket ∈ w.stack (w.host.loopOf c)
  queue : ∀ task ∈ w'.queue (w.host.loopOf c), task.isBare c = true → task ∈ w.queue (w.host.loopOf c)

theorem sparedSettle {w : World} {c : ConnId} {t : ThreadId} {top below : List Act} {out : Effect}
    (split : w.stack t = top ++ below) (stack : out.1.stack = w.stack) (poller : inPoller out.1 c = true → inPoller w c = true)
    (acts : ∀ a ∈ out.2, t = w.host.loopOf c → a.isBare c = true →
      a = .conn c .invalidateSocket ∧ .conn c .closeSocket ∈ w.stack (w.host.loopOf c))
    (queue : ∀ task ∈ out.1.queue (w.host.loopOf c), task.isBare c = true → task ∈ w.queue (w.host.loopOf c)) :
    Spared w (settle t below out) c := by
  refine ⟨poller,fun a member bare => ?_,queue⟩
  rcases settledAct split stack member with ⟨here,new⟩ | old
  · exact .inr (acts a new here.symm bare)
  · exact .inl old

theorem sparedPlain {w : World} {c : ConnId} {t : ThreadId} {top below : List Act} {out : Effect}
    (split : w.stack t = top ++ below) (stack : out.1.stack = w.stack) (host : out.1.host = w.host)
    (queue : out.1.queue = w.queue) (acts : ∀ a ∈ out.2, a.isBare c = false) : Spared w (settle t below out) c := by
  refine sparedSettle split stack (fun there => ?_) (fun a member _ bare => ?_) (fun task member _ => ?_)
  · simpa only [inPoller, World.connSame host, host] using there
  · rw [acts a member] at bare
    cases bare
  · rw [queue] at member
    exact member

/- The functors and frames of a connection at rest are its Socket::Close. -/
theorem restingBare {x : Holding} {c : ConnId} (rest : resting x c) {a : Act} (bare : a.isBare c = true)
    (member : a ∈ x.world.stack (x.world.host.loopOf c)) : a = .conn c .closeSocket ∨ a = .conn c .invalidateSocket := by
  rcases rest.2.2 with idle | ⟨b,_,_,closing⟩
  · rw [atWorkIff.mpr (.inl (List.any_eq_true.mpr ⟨a,member,bare⟩))] at idle
    cases idle
  · exact closing a member bare

theorem restingQueue {x : Holding} {c : ConnId} (rest : resting x c) :
    (∀ task ∈ x.world.queue (x.world.host.loopOf c), task.isBare c = false) ∧ ¬ waiting x c := by
  have idle : ∃ stack, atWork x c stack = false := by
    rcases rest.2.2 with idle | ⟨b,_,idle,_⟩
    · exact ⟨_,idle⟩
    · exact ⟨b,idle⟩
  obtain ⟨stack,idle⟩ := idle
  refine ⟨fun task member => ?_,?_⟩
  · by_contra bare
    rw [atWorkIff.mpr (.inr (.inl (List.any_eq_true.mpr ⟨task,member,by simpa using bare⟩)))] at idle
    cases idle
  · intro waits
    rw [atWorkIff.mpr (.inr (.inr waits))] at idle
    cases idle

theorem sparedMember {x : Holding} {a : Action} {t : ThreadId} {c d : ConnId} {top below : List Act} {out : Endpoint × List Frame}
    (h : Covered x) (births : Births x.world) (rest : resting x c) (knownC : c < x.world.host.next)
    (known : d < x.world.host.next) (home : t = x.world.host.loopOf d) (split : x.world.stack t = top ++ below)
    (does : Member x.world t d a top out) (called : ∀ ev, a = .event c ev → waiting x c)
    (destroys : top ≠ [.call (x.world.host.loopOf c) (destroyed c)]) :
    Spared x.world (settle t below (ofConn x.world d out)) c := by
  by_cases here : c = d
  · subst here
    cases does with
    | @resume f own =>
      have bare : (Act.conn c f).isBare c = true := by
        have plain : isCallback (.conn c f) = false := by cases f <;> first | rfl | cases own
        simp [Act.isBare, plain]
      have top_ : .conn c f ∈ x.world.stack (x.world.host.loopOf c) := by rw [← home, split]; simp
      have half := restingBare rest bare top_
      have map : ((x.world.host.endpoint c).resume f).1.poller.fdToChannel = (x.world.host.endpoint c).poller.fdToChannel ∧
          ((x.world.host.endpoint c).resume f).1.conn.channel = (x.world.conn c).channel ∧
          ∀ g ∈ ((x.world.host.endpoint c).resume f).2, g = .invalidateSocket ∧ f = .closeSocket := by
        rcases half with same | same <;> cases same
        · simp only [resume, closeSocket]
          split
          · exact ⟨rfl,rfl,by simp⟩
          · exact ⟨rfl,rfl,by simp⟩
        · exact ⟨rfl,rfl,by simp [resume]⟩
      refine sparedSettle split rfl (fun there => ?_) (fun b member _ _ => ?_) (fun task member _ => member)
      · rw [show inPoller (ofConn x.world c ((x.world.host.endpoint c).resume f)).1 c = _ from inPollerSelf _ _ _, map.1, map.2.1] at there
        exact there
      · obtain ⟨g,made,same⟩ := List.mem_map.mp member
        obtain ⟨second,first⟩ := map.2.2 g made
        subst first second
        exact ⟨same.symm,top_⟩
    | @run f =>
      exfalso
      have top_ : .call t (.conn c f) ∈ x.world.stack (x.world.host.loopOf c) := by rw [← home, split]; simp
      by_cases bare : later f = true
      · rcases restingBare rest (a := .call t (.conn c f)) (by simp [Act.isBare, Task.isBare, bare]) top_ with same | same <;> cases same
      · rcases laterNot.mp (by simpa using bare) with same | same <;> subst same
        · subst home
          have fresh := establishedFresh births knownC split
          rw [rest.1] at fresh
          cases fresh
        · exact destroys (by rw [home]; rfl)
    | event idle up ok =>
      exfalso
      exact (restingQueue rest).2 (called _ rfl)
  · refine sparedSettle split rfl (fun there => inPollerPut h.named knownC known here (entersMember does) there)
      (fun b member _ bare => ?_) (fun task member _ => member)
    obtain ⟨g,_,same⟩ := List.mem_map.mp member
    subst same
    simp [Act.isBare, Ne.symm here] at bare

/- A public function of a connection at rest does nothing. -/
theorem sparedRequest {x : Holding} {a : Action} {t : ThreadId} {c d : ConnId} {call : UserCall} {top below again : List Act}
    (h : Covered x) (rest : resting x c) (known : c < x.world.host.next) (known' : d < x.world.host.next)
    (split : x.world.stack t = top ++ below) (caller : Caller x.world t d a top call again) :
    Spared x.world (settle t below ((callConn x.world t d call).1,(callConn x.world t d call).2 ++ again)) c := by
  refine sparedSettle split rfl (fun there => ?_) (fun b member _ bare => ?_) (fun task member _ => member)
  · by_cases here : c = d
    · subst here
      have same : (callConn x.world t c call).1 = x.world.putHost (x.world.host.put c (x.world.host.endpoint c)) := by
        rw [callConn, requestOver rest.1]
      rw [same] at there
      rwa [inPollerSelf] at there
    · exact inPollerPut h.named known known' here (entersRequest _ t call) there
  · exfalso
    rcases List.mem_append.mp member with made | again_
    · obtain ⟨f,handed,same⟩ := List.mem_map.mp made
      subst same
      have here : d = c := by simpa [Act.isBare, Task.isBare] using (Bool.and_eq_true_iff.mp bare).1
      subst here
      rw [requestOver rest.1] at handed
      cases handed
    · cases caller <;> simp at again_ <;> subst again_ <;> cases bare

theorem lostNotFunctor {w : World} {c d : ConnId} {fd : Fd} {t l : ThreadId} {f : Functor} {below : List Act}
    (lost : Lost w c fd (.goOn t)) (top : w.stack t = .call l (.conn d f) :: below) : False := by
  cases lost with
  | stolen ran other socket =>
    obtain ⟨t',below',same,top'⟩ := removalTop ran
    cases same
    rw [top] at top'
    cases top'

theorem sparedHand {x : Holding} {t l : ThreadId} {c : ConnId} {task : Task} {below : List Act}
    (spares : cutsShort x (.loop (.server (.goOn t))) = false) (split : x.world.stack t = .call l task :: below) (other : t ≠ l)
    (unkept : kept x.world c → ∃ fd, Lost x.world c fd (.goOn t)) : Spared x.world
      (settle t below ({ x.world with queue := Function.update x.world.queue l (x.world.queue l ++ [task]) },[])) c := by
  refine sparedSettle (topSplit split) rfl (fun there => there) (by simp) (fun task' member bare => ?_)
  rcases memPushed member with before | ⟨_,rfl⟩
  · exact before
  · exfalso
    cases task' with
    | conn d f =>
      obtain ⟨same,late⟩ := Bool.and_eq_true_iff.mp bare
      cases eq_of_beq same
      have keeps : isKept x.world c = true := by simpa [cutsShort, split, other, late] using spares
      obtain ⟨fd,lost⟩ := unkept (keptOf keeps)
      exact lostNotFunctor lost split
    | _ => cases bare

theorem sparedTake {x : Holding} {l : ThreadId} {c : ConnId} {task : Task} {tasks : List Task} (rest : resting x c)
    (idle : x.world.stack l = []) (head : x.world.queue l = task :: tasks) : Spared x.world
      (settle l [] ({ x.world with queue := Function.update x.world.queue l tasks },[.call l task])) c := by
  refine sparedSettle (idleSplit idle) rfl (fun there => there) (fun b member here bare => ?_) (fun task' member _ => ?_)
  · exfalso
    cases List.mem_singleton.mp member
    subst here
    have free := (restingQueue rest).1 task (by rw [head]; exact List.mem_cons_self)
    rw [show (Act.call (x.world.host.loopOf c) task).isBare c = task.isBare c from rfl, free] at bare
    cases bare
  · exact memPopped head member

theorem sparedAccept {w w' : World} {fd : Fd} {c : ConnId} (known : c < w.host.next) (made : Accepts w fd w') :
    Spared w w' c := by
  obtain ⟨conn,loopOf⟩ := made.old c known
  refine ⟨fun there => ?_,fun b member bare => ?_,fun task member _ => ?_⟩
  · simpa [inPoller, conn, loopOf, made.pollers] using there
  · by_cases main : w.host.loopOf c = mainLoop
    · rw [main, made.main] at member
      cases List.mem_singleton.mp member
      simp [Act.isBare, Task.isBare, later] at bare
    · rw [made.apart _ main] at member
      exact .inl member
  · rwa [made.queue] at member

theorem servedBare {w : World} {c : ConnId} {b : Act} (served : b.Served w) : b.isBare c = false := by
  cases b with
  | conn d f => cases served
  | call l task =>
    obtain ⟨_,cb,same⟩ := served
    subst same
    rfl
  | _ => rfl

theorem sweepEndBare {w : World} {c : ConnId} {stale : List ConnId} {force : Bool} {b : Act}
    (member : b ∈ (sweepEnd w stale force).2) : b.isBare c = false := by
  rcases List.mem_append.mp member with loops | finish
  · rcases List.mem_append.mp loops with called | force_
    · obtain ⟨d,_,same⟩ := List.mem_map.mp called
      subst same
      simp [Act.isBare, Task.isBare, later]
    · split at force_ <;> simp at force_
      subst force_
      rfl
  · cases List.mem_singleton.mp finish
    rfl

theorem removesBare {w : World} {c d : ConnId} {out : Effect} {b : Act} (does : Removes w d out) (member : b ∈ out.2) :
    b.isBare c = false := by
  rcases does.outcome with ⟨_,_,none_⟩ | ⟨_,_,_,_,_,acts⟩
  · rw [none_] at member
    cases member
  · simp only [acts, List.mem_cons, List.not_mem_nil, or_false] at member
    rcases member with same | same <;> subst same <;> simp [Act.isBare, Task.isBare, later]

/- No step begins anything for a connection at rest. A connection may be at rest and still be
kept when the step takes its entry. -/
theorem sparedTurn {x : Holding} {w' : World} {a : Action} {c : ConnId} (h : Covered x) (ledger : Ledger x.world)
    (rest : resting x c) (known : c < x.world.host.next) (spares : cutsShort x (.loop (.server a)) = false)
    (called : ∀ ev, a = .event c ev → waiting x c)
    (unkept : kept x.world c → ∃ fd, Lost x.world c fd a) (taken : step x.world a = some w') : Spared x.world w' c := by
  cases turnCases ledger.registry ledger.placed taken with
  | @member t d top below out known' home split does =>
    refine sparedMember h ledger.births rest known known' home split does called (fun same => ?_)
    cases does with
    | run =>
      cases same
      obtain ⟨fd,lost⟩ := unkept (.inr (.inr (.inr (.inl (by rw [split]; simp)))))
      exact lostNotFunctor lost split
    | _ => simp at same
  | request known' split caller => exact sparedRequest h rest known known' split caller
  | close home split => exact sparedPlain (topSplit split) rfl rfl rfl (by simp [Act.isBare, Task.isBare])
  | hand split other home act =>
    subst act
    exact sparedHand spares split other unkept
  | take idle head loop => exact sparedTake rest idle head
  | remove known' ran split does =>
    exact sparedPlain (topSplit split) does.stack does.host does.queue (fun b member => removesBare does member)
  | sweepErase known' split off => exact sparedPlain (topSplit split) rfl rfl rfl (by simp [Act.isBare])
  | sweepEnd split => exact sparedPlain (topSplit split) rfl rfl rfl (fun b member => sweepEndBare member)
  | sweepNext split on => exact sparedPlain (topSplit split) rfl rfl rfl (by simp [Act.isBare])
  | skip split skips =>
    refine sparedPlain (topSplit split) rfl rfl rfl (fun b member => ?_)
    cases List.mem_singleton.mp member
    cases skips <;> rfl
  | serve split own calm does =>
    exact sparedPlain split does.stack does.host does.queue (fun b member => servedBare (does.acts b member))
  | accept idle free made => exact sparedAccept known made

/- ConnectDestroyed has run, and its functor still holds the connection. -/
theorem ranRests {x x' : Holding} {w' : World} {a : Action} {c : ConnId} (ordered : Ordered x.world)
    (spares : cutsShort x (.loop (.server a)) = false) (ran : Ran x.world a w' c .connectDestroyed) (same : x'.world = w')
    (waits : waiting x' c → waiting x c)
    (held : ∀ b, (b,c) ∈ grabbed x.world (.server a) (x.world.host.loopOf c) →
      b.length < (w'.stack (x.world.host.loopOf c)).length → (b,c) ∈ x'.held (x.world.host.loopOf c)) : resting x' c := by
  have begun : (x.world.host.endpoint c).conn.state ≠ .connecting := fun fresh => ordered.stacked _ c fresh (ranTop ran)
  have ended : (x'.world.conn c).state = .disconnected := by rw [same, ranConn ran]; exact destroyedOver begun
  have act := ran.act
  obtain ⟨below,top,made⟩ := ran.did
  subst act
  simp only [cutsShort, top, if_true, beq_self_eq_true, Bool.true_and, Bool.or_eq_false_iff, Bool.and_eq_false_imp,
    beq_iff_eq] at spares
  obtain ⟨idle,stale⟩ := spares
  rw [made] at same held
  have loopOf : x'.world.host.loopOf c = x.world.host.loopOf c := by rw [same]; rfl
  have stack : x'.world.stack (x.world.host.loopOf c) =
      ((x.world.host.endpoint c).run .connectDestroyed).2.map (Act.conn c) ++ below := by
    rw [same]
    simp [settle, ofConn]
  have idle' : atWork x' c below = false := by
    by_contra busy
    have busy' : atWork x c below = true := by
      rcases atWorkIff.mp (by simpa using busy) with acts | queued | wait
      · exact atWorkIff.mpr (.inl acts)
      · rw [loopOf, same] at queued
        exact atWorkIff.mpr (.inr (.inl queued))
      · exact atWorkIff.mpr (.inr (.inr (waits wait)))
    rw [idle] at busy'
    cases busy'
  have self : inPoller x'.world c = inPoller (x.world.putHost (x.world.host.put c
      ((x.world.host.endpoint c).run .connectDestroyed).1)) c := by rw [same]; rfl
  rw [inPollerSelf] at self
  rcases destroyedEnds begun with ⟨closed,frames⟩ | ⟨finished,nothing⟩
  · refine ⟨ended,?_,.inr ⟨below,?_,idle',fun a member bare => ?_⟩⟩
    · rw [self, closed.map, closed.fd, Function.update_self]
      rfl
    · rw [loopOf]
      refine held below ?_ ?_
      · simp [grabbed, top, Act.grabs, later]
      · simp [settle, ofConn, frames]
    · rw [loopOf, stack, frames] at member
      rcases List.mem_cons.mp member with here | under
      · exact .inl here
      · have busy : atWork x c below = true := atWorkIff.mpr (.inl (List.any_eq_true.mpr ⟨a,under,bare⟩))
        rw [idle] at busy
        cases busy
  · rw [nothing] at self stack
    refine ⟨ended,self.trans (stale finished),.inl ?_⟩
    rw [loopOf, stack]
    exact idle'

/- The channels keep the names they were made with. -/
theorem namedStep {w w' : World} {a : Action} (r : Registry w) (p : Placed w) (taken : step w a = some w')
    (named : ∀ c < w.host.next, (w.conn c).channel.id = c) : ∀ c < w'.host.next, (w'.conn c).channel.id = c := by
  have put : ∀ {d : ConnId} {e : Endpoint}, Same (w.host.endpoint d) e →
      ∀ c < w.host.next, ((w.putHost (w.host.put d e)).conn c).channel.id = c := by
    intro d e same c known
    refine World.connPutCases (P := fun conn => conn.channel.id = c) (fun here => ?_) (fun _ => named c known)
    rw [here] at known ⊢
    exact same.id.trans (named d known)
  have host : ∀ {w' : World}, w'.host = w.host → ∀ c < w'.host.next, (w'.conn c).channel.id = c := by
    intro w' same
    rw [World.connSame same, same]
    exact named
  cases turnCases r p taken with
  | member known home split does => exact put (sameMember does)
  | request known split caller => exact put (sameRequest _ _ _)
  | remove known ran split does => exact host does.host
  | serve split own calm does => exact host does.host
  | accept idle free made =>
    intro c known
    rw [made.next] at known
    rcases Nat.lt_succ_iff_lt_or_eq.mp known with before | new
    · rw [(made.old c before).1]
      exact named c before
    · obtain ⟨callbacks,mark,bufferSize,conn⟩ := made.new
      rw [new, conn]
      rfl
  | _ => exact named

theorem grabbedUnder {w : World} {a : LoopAction} {t : ThreadId} {h : List Act × ConnId} (member : h ∈ grabbed w a t) :
    h.1 <:+ w.stack t ∧ h.1.length < (w.stack t).length := by
  unfold grabbed at member
  split at member
  · split at member
    · split at member
      · rename_i top
        obtain ⟨c,_,same⟩ := List.mem_map.mp member
        rw [← same, top]
        exact ⟨List.suffix_cons _ _,Nat.lt_succ_self _⟩
      · cases member
    · cases member
  · cases member

/- What is under the top of a stack stays there. -/
theorem underKept {w w' : World} {t t' : ThreadId} {b : List Act} (move : StackMove w w' t) (under : b <:+ w.stack t')
    (short : b.length < (w.stack t').length) : b <:+ w'.stack t' := by
  by_cases here : t' = t
  · subst here
    rcases move.own with whole | ⟨f,below,top,rest⟩
    · exact under.trans whole
    · rw [top] at under short
      rcases List.suffix_cons_iff.mp under with same | deep
      · rw [same] at short
        exact absurd short (Nat.lt_irrefl _)
      · exact deep.trans rest
  · rw [move.apart t' here]
    exact under

/- What goes with a step of the server: nothing new waits for HandleEvent, a member function
begins with its functor, and the calls that have returned give their pointers up. -/
structure Goes (x x' : Holding) (a : Action) : Prop where
  stage : x'.stage = x.stage
  due : ∀ t c, due x' t c → due x t c ∨ ∃ f below, x.world.stack t = .call t (.conn c f) :: below ∧ later f = true
  held : ∀ t, x'.held t = (grabbed x.world (.server a) t ++ x.held t).filter (underWay (x'.world.stack t))

theorem coveredTurn {x x' : Holding} {a : Action} (h : Covered x) (runs : running x.life a = true)
    (spares : cutsShort x (.loop (.server a)) = false) (called : ∀ c ev, a = .event c ev → waiting x c)
    (taken : step x.world a = some x'.world) (goes : Goes x x' a) : Covered x' := by
  have alive : x.stage ≠ .cleared := livingAlive runs
  have ledger : Ledger x.world := h.living.ledger alive
  have r := ledger.registry
  have p := ledger.placed
  have home := homeKept r p taken
  have move := stackStep taken
  have waits : ∀ c < x.world.host.next, (∀ f below, later f = true →
      x.world.stack (x.world.host.loopOf c) ≠ .call (x.world.host.loopOf c) (.conn c f) :: below) →
      waiting x' c → waiting x c := by
    intro c known apart due_
    rw [waiting, home c known] at due_
    rcases goes.due _ c due_ with before | ⟨f,below,top,late⟩
    · exact before
    · exact absurd top (apart f below late)
  refine ⟨?_,namedStep r p taken h.named,fun t g member => ?_,fun l c listed => ?_,fun _ c known' => ?_⟩
  · have lives : lifeStep x.life (.server a) = some x'.life := by
      simp only [lifeStep, runs, if_true]
      rw [show x.life.world = x.world from rfl, taken]
      simp only [Option.map_some, Holding.life, goes.stage]
      rfl
    exact livingStep h.living lives
  · rw [goes.held] at member
    obtain ⟨there,short⟩ := List.mem_filter.mp member
    have before : g.1 <:+ x.world.stack t ∧ g.1.length < (x.world.stack t).length := by
      rcases List.mem_append.mp there with new | old
      · exact grabbedUnder new
      · exact h.nested t g old
    exact ⟨underKept move before.1 before.2,of_decide_eq_true short⟩
  · have before : x.world.host.loopOf c = l ∧ c < x.world.host.next := by
      rcases goes.due l c listed with before | ⟨f,below,top,_⟩
      · exact h.home l c before
      · have fits : l = x.world.host.loopOf c := topFits p top
        exact ⟨fits.symm,topKnown r top c (by simp [Act.conns, Task.conns])⟩
    exact ⟨(home c before.2).trans before.1,Nat.lt_of_lt_of_le before.2 (registryStep r taken).2.next⟩
  · have split : c < x.world.host.next ∨ ∃ fd, x'.world.lookup fd = some c := by
      rcases grownStep r p taken with ⟨next,_⟩ | ⟨fd,_,_,_,next,listed⟩
      · exact .inl (next ▸ known')
      · rw [next] at known'
        rcases Nat.lt_succ_iff_lt_or_eq.mp known' with before | new
        · exact .inl before
        · rw [← new] at listed
          exact .inr ⟨fd,listed⟩
    rcases split with known | listed
    · have calm : (kept x.world c → ∃ fd, Lost x.world c fd a) → resting x c → resting x' c := by
        intro unkept rest
        have spared := sparedTurn h ledger rest known spares (called c) unkept taken
        refine restingCalm ⟨home c known,overStep r p ledger.births taken c known rest.1,spared.poller,spared.acts,
          spared.queue,waits c known (fun f below late top => ?_),fun b held => ?_,fun b held under => ?_⟩ rest
        · have bare : (Act.call (x.world.host.loopOf c) (.conn c f)).isBare c = true := by simp [Act.isBare, Task.isBare, late]
          rcases restingBare rest bare (by rw [top]; exact List.mem_cons_self) with same | same <;> cases same
        · obtain ⟨suffix,short⟩ := h.nested _ _ held
          exact underKept move suffix short
        · rw [goes.held]
          exact List.mem_filter.mpr ⟨List.mem_append_right _ held,decide_eq_true under⟩
      by_cases keeps : kept x.world c
      · rcases keptMoves r p ledger.swept taken known keeps with (ran | ⟨fd,listed,lost⟩) | still
        · refine .inr (ranRests ledger.ordered spares ran rfl (waits c known (fun f below late top => ?_))
            (fun b new under => ?_))
          · obtain ⟨_,own,_⟩ := ran.did
            rw [own] at top
            cases top
            cases late
          · rw [goes.held]
            exact List.mem_filter.mpr ⟨List.mem_append_left _ new,decide_eq_true under⟩
        · exact .inr (calm (fun _ => ⟨fd,lost⟩) (lostRests spares listed lost))
        · exact .inl still
      · exact .inr (calm (fun there => absurd there keeps) ((h.covered alive c known).resolve_left keeps))
    · exact .inl (.inl listed)

/- The other steps leave everything where it is, but for what ~TcpServer puts on the main
loop's stack. -/
structure Still (x x' : Holding) : Prop where
  host : x'.world.host = x.world.host
  queue : x'.world.queue = x.world.queue
  lookup : x'.world.lookup = x.world.lookup
  stack : ∀ t, x.world.stack t <:+ x'.world.stack t
  acts : ∀ t, ∀ a ∈ x'.world.stack t, a ∈ x.world.stack t ∨ ∀ c, a.isBare c = false
  held : x'.held = x.held

theorem keptStill {x x' : Holding} {c : ConnId} (still : Still x x') (h : kept x.world c) : kept x'.world c := by
  have listed : ∀ {t a}, a ∈ x.world.stack t → a ∈ x'.world.stack t := fun member => (still.stack _).mem member
  rcases h with ⟨fd,entry⟩ | ⟨rest,stale,force,member,named⟩ | pending_
  · refine .inl ⟨fd,?_⟩
    rw [still.lookup]
    exact entry
  · exact .inr (.inl ⟨rest,stale,force,listed member,named⟩)
  · refine .inr (.inr ?_)
    simp only [pending, still.host, still.queue] at pending_ ⊢
    exact pending_.imp listed (Or.imp listed id)

/- What is due then was due before, or Poll has just reported it. -/
theorem coveredStill {x x' : Holding} (h : Covered x) (living : Living x'.life) (alive : x'.stage ≠ .cleared → x.stage ≠ .cleared)
    (still : Still x x') (less : ∀ l c, due x' l c → due x l c ∨
      x.world.host.loopOf c = l ∧ c < x.world.host.next ∧ inPoller x.world c = true) : Covered x' := by
  refine ⟨living,fun c known => ?_,fun t g member => ?_,fun l c listed => ?_,fun alive' c known => ?_⟩
  · rw [still.host] at known
    rw [World.connSame still.host]
    exact h.named c known
  · rw [still.held] at member
    obtain ⟨suffix,short⟩ := h.nested t g member
    exact ⟨suffix.trans (still.stack t),Nat.lt_of_lt_of_le short (still.stack t).length_le⟩
  · rw [still.host]
    rcases less l c listed with before | polled
    · exact h.home l c before
    · exact ⟨polled.1,polled.2.1⟩
  · rw [still.host] at known
    rcases h.covered (alive alive') c known with keeps | rest
    · exact .inl (keptStill still keeps)
    · have conn : x'.world.conn = x.world.conn := World.connSame still.host
      refine .inr (restingCalm ⟨by rw [still.host],by rw [conn]; exact rest.1,fun there => ?_,fun a member bare => ?_,
        fun task member _ => ?_,fun waits => ?_,fun b held => ?_,fun b held _ => ?_⟩ rest)
      · simpa only [inPoller, conn, still.host] using there
      · rcases still.acts _ a member with before | plain
        · exact .inl before
        · rw [plain c] at bare
          cases bare
      · rwa [still.queue] at member
      · rw [waiting, still.host] at waits
        rcases less _ c waits with before | ⟨_,_,there⟩
        · exact before
        · rw [rest.2.1] at there
          cases there
      · exact (h.nested _ _ held).1.trans (still.stack _)
      · rwa [still.held]

theorem ledgerReady {w : World} (h : Ledger w) (ready : Bool) : Ledger { w with acceptReady := ready } where
  registry := ⟨⟨h.registry.table.key,h.registry.table.socket⟩,h.registry.stacked,h.registry.queues⟩
  placed := ⟨h.placed.acts,h.placed.queues,h.placed.loops,h.placed.close⟩
  births := ⟨h.births.once,h.births.stray,h.births.calls,h.births.queues⟩
  sockets := ⟨h.sockets.up,h.sockets.apart,h.sockets.ended,h.sockets.removing,h.sockets.queued,h.sockets.once⟩
  ordered := ⟨h.ordered.alone,h.ordered.stray,h.ordered.far,h.ordered.stacked,h.ordered.queued⟩
  swept := ⟨h.swept.under,h.swept.listed⟩

theorem heldKept {x : Holding} (h : Covered x) (t : ThreadId) : (x.held t).filter (underWay (x.world.stack t)) = x.held t :=
  List.filter_eq_self.mpr (fun g member => decide_eq_true (h.nested t g member).2)

/- A channel that Poll reports is in the poller. -/
theorem reportsPoller {w : World} {l : ThreadId} {c : ConnId} (there : reports w l c = true) :
    w.host.loopOf c = l ∧ c < w.host.next ∧ inPoller w c = true := by
  simp only [reports, Bool.and_eq_true, decide_eq_true_eq, beq_iff_eq] at there
  obtain ⟨⟨⟨known,home⟩,entry⟩,_⟩ := there
  subst home
  exact ⟨rfl,known,by simpa [inPoller] using entry⟩

/- The state after a step of Loop. -/
def after (x : Holding) (a : LoopAction) (p : Polled) : Holding :=
  { x with
    polled := p
    held := fun t => (grabbed x.world a t ++ x.held t).filter (underWay (p.world.stack t))
    doing := fun t => begun x a t ++ x.doing t }

/- A step of Loop that leaves the world, but for what waits on the listening channel. -/
theorem stillAfter {x : Holding} {a : LoopAction} {p : Polled} (ready : Bool) (h : Covered x)
    (nothing : ∀ t, grabbed x.world a t = []) (world : p.world = { x.world with acceptReady := ready }) :
    Still x (after x a p) ∧ Living (after x a p).life := by
  have world' : (after x a p).world = { x.world with acceptReady := ready } := world
  refine ⟨⟨by rw [world'],by rw [world'],by rw [world']; rfl,fun t => ?_,fun t b member => ?_,?_⟩,?_⟩
  · exact world' ▸ List.suffix_refl _
  · rw [world'] at member
    exact .inl member
  · funext t
    simp only [after, nothing, world, List.nil_append]
    exact heldKept h t
  · have life : (after x a p).life = ⟨{ x.world with acceptReady := ready },x.stage⟩ := by simp only [Holding.life, after, world]
    rw [life]
    exact ⟨fun alive => ledgerReady (h.living.ledger alive) ready,h.living.waits⟩

theorem coveredPoll {x : Holding} {l : ThreadId} {ready : List (ConnId × Revents)} {listens : Bool} {p : Polled}
    (h : Covered x) (polled : loopStep x.polled (.poll l ready listens) = some p) :
    Covered (after x (.poll l ready listens) p) := by
  simp only [loopStep] at polled
  split at polled <;> try contradiction
  rename_i ok
  obtain ⟨done,idle,loop,unready,once,reported⟩ := ok
  obtain ⟨w',stepped,same⟩ := Option.map_eq_some_iff.mp polled
  have world : ∃ b, p.world = { x.world with acceptReady := b } := by
    rw [← same]
    split at stepped
    · simp only [step] at stepped
      split at stepped <;> cases stepped
      exact ⟨_,rfl⟩
    · cases stepped
      exact ⟨x.world.acceptReady,rfl⟩
  obtain ⟨b,world⟩ := world
  obtain ⟨still,living⟩ := stillAfter (a := .poll l ready listens) b h (fun _ => rfl) world
  subst same
  refine coveredStill h living id still (fun l' c listed => ?_)
  rcases listed with ⟨y,member,named⟩ | before
  · simp only [after, Function.update_apply] at member
    split at member
    · rename_i here
      rw [here, ← named]
      exact .inr (reportsPoller (reported y member))
    · exact .inl (.inl ⟨y,member,named⟩)
  · exact .inl (.inr before)

theorem coveredHandle {x : Holding} {l : ThreadId} {p : Polled} (h : Covered x)
    (handled : loopStep x.polled (.handle l) = some p) : Covered (after x (.handle l) p) := by
  simp only [loopStep] at handled
  split at handled <;> try contradiction
  rename_i y rest head
  split at handled <;> try contradiction
  have made := Option.some.inj handled
  obtain ⟨still,living⟩ := stillAfter (a := .handle l) (p := p) x.world.acceptReady h (fun _ => rfl)
    (by rw [← made]; rfl)
  subst made
  refine coveredStill h living id still (fun l' c listed => .inl ?_)
  rcases listed with ⟨z,member,named⟩ | ⟨z,member,named⟩ | before
  · simp only [after, Function.update_apply] at member
    split at member
    · rename_i here
      rw [here]
      exact .inl ⟨z,by rw [head]; exact List.mem_cons_of_mem _ member,named⟩
    · exact .inl ⟨z,member,named⟩
  · simp only [after, Function.update_apply] at member
    split at member
    · rename_i here
      obtain ⟨_,_,made⟩ := List.mem_map.mp member
      rw [here, ← named, ← made]
      exact .inl ⟨y,by rw [head]; exact List.mem_cons_self,rfl⟩
    · exact .inr (.inl ⟨z,member,named⟩)
  · exact .inr (.inr before)

theorem coveredCall {x : Holding} {l : ThreadId} {ev : Connection.Event} {p : Polled} (h : Covered x)
    (runs : mayRun x.life l = true) (called : loopStep x.polled (.call l ev) = some p) : Covered (after x (.call l ev) p) := by
  simp only [loopStep] at called
  split at called <;> try contradiction
  rename_i y rest head
  split at called <;> try contradiction
  obtain ⟨w',stepped,same⟩ := Option.map_eq_some_iff.mp called
  subst same
  have there : y ∈ x.polled.calls l := by rw [head]; exact List.mem_cons_self
  obtain ⟨home,known⟩ := h.home l y.1 (.inr (.inl ⟨y,there,rfl⟩))
  have runs' : running x.life (.event y.1 ev) = true := by
    rw [running, show threadOf x.life.world (.event y.1 ev) = l from home]
    exact runs
  refine coveredTurn h runs' rfl (fun c ev' same => ?_) stepped ⟨rfl,fun l' c listed => .inl ?_,fun t => rfl⟩
  · cases same
    rw [waiting, home]
    exact .inr (.inl ⟨y,there,rfl⟩)
  · rcases listed with before | ⟨z,member,named⟩ | ⟨g,member,named⟩
    · exact .inl before
    · simp only [after, Function.update_apply] at member
      split at member
      · rename_i here
        rw [here]
        exact .inr (.inl ⟨z,by rw [head]; exact List.mem_cons_of_mem _ member,named⟩)
      · exact .inr (.inl ⟨z,member,named⟩)
    · rcases List.mem_append.mp member with new | old
      · simp only [begun, head, List.head?_cons, Option.toList_some, List.map_cons, List.map_nil] at new
        split at new
        · rename_i here
          rw [← here, ← named, List.mem_singleton.mp new]
          exact .inr (.inl ⟨y,there,rfl⟩)
        · cases new
      · exact .inr (.inr ⟨g,old,named⟩)

/- A member function begins with its functor. -/
theorem begunServer {x : Holding} {a : Action} {t : ThreadId} {g : List Act × ConnId} (member : g ∈ begun x (.server a) t) :
    ∃ f below, x.world.stack t = .call t (.conn g.2 f) :: below ∧ later f = true := by
  cases a with
  | goOn t' =>
    simp only [begun] at member
    split at member
    · split at member
      · rename_i top
        split at member
        · rename_i late
          rw [List.mem_singleton.mp member]
          rw [late.1] at top
          exact ⟨_,_,top,late.2⟩
        · cases member
      · cases member
    · cases member
  | _ => cases member

theorem coveredServer {x : Holding} {a : Action} {p : Polled} (h : Covered x) (runs : running x.life a = true)
    (spares : cutsShort x (.loop (.server a)) = false) (taken : loopStep x.polled (.server a) = some p) :
    Covered (after x (.server a) p) := by
  simp only [loopStep] at taken
  split at taken <;> try contradiction
  rename_i fits
  obtain ⟨w',stepped,same⟩ := Option.map_eq_some_iff.mp taken
  subst same
  refine coveredTurn h runs spares (fun c ev same => ?_) stepped ⟨rfl,fun l c listed => ?_,fun t => rfl⟩
  · subst same
    cases fits
  · rcases listed with before | before | ⟨g,member,named⟩
    · exact .inl (.inl before)
    · exact .inl (.inr (.inl before))
    · rcases List.mem_append.mp member with new | old
      · rw [← named]
        exact .inr (begunServer new)
      · exact .inl (.inr (.inr ⟨g,old,named⟩))

theorem coveredLoop {x x' : Holding} {a : LoopAction} (h : Covered x) (spares : cutsShort x (.loop a) = false)
    (taken : holdStep x (.loop a) = some x') : Covered x' := by
  simp only [holdStep] at taken
  split at taken <;> try contradiction
  rename_i may
  have runs : mayRun x.life (loopThread x.world a) = true := by
    simp only [Bool.and_eq_true] at may
    exact may.1.1
  obtain ⟨p,looped,made⟩ := Option.map_eq_some_iff.mp taken
  subst made
  cases a with
  | poll l ready listens => exact coveredPoll h looped
  | acceptFails =>
    simp only [loopStep] at looped
    split at looped <;> cases looped
    obtain ⟨still,living⟩ := stillAfter (a := .acceptFails) (p := { x.polled with world := { x.world with acceptReady := false } })
      false h (fun _ => rfl) rfl
    exact coveredStill h living id still (fun l c listed => .inl listed)
  | handle l => exact coveredHandle h looped
  | call l ev => exact coveredCall h runs looped
  | server act => exact coveredServer h runs spares looped

theorem coveredLife {x x' : Holding} {a : LifeAction} (h : Covered x) (taken : holdStep x (.life a) = some x') : Covered x' := by
  simp only [holdStep] at taken
  split at taken <;> try contradiction
  rename_i between
  obtain ⟨s,lives,made⟩ := Option.map_eq_some_iff.mp taken
  have living : Living s := livingStep h.living lives
  subst made
  cases lifeTurnCases lives with
  | server runs stepped => cases between
  | destroy serving idle =>
    have idle' : x.world.stack mainLoop = [] := idle
    refine coveredStill h living (fun _ => by rw [show x.stage = .serving from serving]; simp)
      ⟨rfl,rfl,rfl,fun t => ?_,fun t b member => ?_,rfl⟩ (fun l c listed => .inl listed)
    · by_cases main : t = mainLoop
      · rw [main, idle']
        exact List.nil_suffix
      · simp [Holding.world, settle, beginDestructor, main, Holding.life]
    · by_cases main : t = mainLoop
      · subst main
        have only : b ∈ [Act.forceAll x.world.entries] ++ [] := by
          simpa [Holding.world, settle, beginDestructor, Holding.life] using member
        rw [List.append_nil] at only
        rw [List.mem_singleton.mp only]
        exact .inr (fun c => rfl)
      · refine .inl ?_
        simpa [Holding.world, settle, beginDestructor, main, Holding.life] using member
  | join closing idle =>
    exact coveredStill h living (fun _ => by rw [show x.stage = .closing from closing]; simp)
      ⟨rfl,rfl,rfl,fun t => List.suffix_refl _,fun t b member => .inl member,rfl⟩ (fun l c listed => .inl listed)
  | @leave l joining loop idle =>
    exact coveredStill h living (fun _ => by rw [show x.stage = .joining l from joining]; simp)
      ⟨rfl,rfl,rfl,fun t => List.suffix_refl _,fun t b member => .inl member,rfl⟩ (fun l c listed => .inl listed)
  | clear joining joined => exact ⟨living,h.named,h.nested,h.home,fun alive => absurd rfl alive⟩

theorem coveredStep {x x' : Holding} {a : HoldAction} (h : Covered x) (spares : cutsShort x a = false)
    (taken : holdStep x a = some x') : Covered x' := by
  have copied : ∀ copies, Covered { x with copies := copies } := fun copies =>
    coveredStill h h.living id ⟨rfl,rfl,rfl,fun t => List.suffix_refl _,fun t b member => .inl member,rfl⟩
      (fun l c listed => .inl listed)
  cases a with
  | loop a => exact coveredLoop h spares taken
  | finish t =>
    simp only [holdStep] at taken
    split at taken <;> cases taken
    refine coveredStill h h.living id ⟨rfl,rfl,rfl,fun t => List.suffix_refl _,fun t b member => .inl member,rfl⟩
      (fun l c listed => .inl (Or.imp id (Or.imp id ?_) listed))
    rintro ⟨g,member,named⟩
    simp only [Function.update_apply] at member
    split at member
    · rename_i here
      rw [here]
      exact ⟨g,List.mem_of_mem_tail member,named⟩
    · exact ⟨g,member,named⟩
  | life a => exact coveredLife h taken
  | copy t t' c =>
    simp only [holdStep] at taken
    split at taken <;> cases taken
    exact copied _
  | drop t c =>
    simp only [holdStep] at taken
    split at taken <;> cases taken
    exact copied _

theorem coveredInitial {x : Holding} (h : HoldInitial x) : Covered x := by
  obtain ⟨⟨start,calm⟩,serving,fresh⟩ := h
  have unborn : x.world.host.next = 0 := by
    obtain ⟨threadNum,callbacks,mark,idleTimeout,same⟩ := start
    have constructed_ : x.world = _ := same
    rw [constructed_]
    rfl
  refine ⟨livingInitial ⟨start,serving⟩,fun c known => ?_,fun t g member => ?_,fun l c listed => ?_,fun _ c known => ?_⟩
  · rw [unborn] at known
    exact absurd known (Nat.not_lt_zero c)
  · rw [(fresh t).2.1] at member
    cases member
  · simp [due, calm l, (fresh l).2.2] at listed
  · rw [unborn] at known
    exact absurd known (Nat.not_lt_zero c)

/- Whose code a step runs: of a functor or a frame on a stack, or of what is due. -/
inductive Used (x : Holding) (c : ConnId) : Prop where
  | frame {t f below} (top : x.world.stack t = .conn c f :: below) (plain : isCallback (.conn c f) = false)
  | functor {t f below} (top : x.world.stack t = .call t (.conn c f) :: below)
  | due {l} (listed : due x l c)

theorem usedCases {x : Holding} {a : HoldAction} {c : ConnId} (used : uses x a = some c) : Used x c := by
  have first : ∀ {α : Type} {next : List (ConnId × α)}, next.head?.map Prod.fst = some c → ∃ y ∈ next, y.1 = c := by
    intro α next head
    obtain ⟨y,top,named⟩ := Option.map_eq_some_iff.mp head
    exact ⟨y,List.mem_of_head? top,named⟩
  cases a with
  | loop a =>
    cases a with
    | handle l => exact .due (l := l) (.inl (first used))
    | call l ev => exact .due (l := l) (.inr (.inl (first used)))
    | server act =>
      cases act with
      | goOn t =>
        simp only [uses] at used
        split at used <;> try contradiction
        · rename_i top
          split at used <;> cases used
          rename_i plain
          exact .frame top (by simpa using plain)
        · rename_i top
          split at used <;> cases used
          rename_i here
          subst here
          exact .functor top
      | _ => cases used
    | _ => cases used
  | finish t =>
    simp only [uses, finishing] at used
    split at used <;> try contradiction
    rename_i g rest head
    split at used <;> cases used
    exact .due (l := t) (.inr (.inr ⟨g,by rw [head]; exact List.mem_cons_self,rfl⟩))
  | _ => cases used

theorem usedKnown {x : Holding} {c : ConnId} (h : Covered x) (r : Registry x.world) (used : Used x c) :
    c < x.world.host.next := by
  cases used with
  | frame top plain => exact topKnown r top c (by simp [Act.conns])
  | functor top => exact topKnown r top c (by simp [Act.conns, Task.conns])
  | due listed => exact (h.home _ c listed).2

/- What runs of a connection at rest is the end of its own ConnectDestroyed. -/
theorem restingAlive {x : Holding} {c : ConnId} (h : Covered x) (p : Placed x.world) (rest : resting x c) (used : Used x c) :
    alive x c := by
  cases used with
  | @frame t f below top plain =>
    have home : t = x.world.host.loopOf c := topFits p top
    have bare : (Act.conn c f).isBare c = true := by simp [Act.isBare, plain]
    have busy : atWork x c (x.world.stack t) = true :=
      atWorkIff.mpr (.inl (List.any_eq_true.mpr ⟨_,by rw [top]; exact List.mem_cons_self,bare⟩))
    rcases rest.2.2 with idle | ⟨b,held,_,_⟩
    · rw [home, idle] at busy
      cases busy
    · exact .inr (.inl ⟨_,_,held,rfl⟩)
  | @functor t f below top =>
    have home : t = x.world.host.loopOf c := topFits p top
    have member : .call t (.conn c f) ∈ x.world.stack t := by rw [top]; exact List.mem_cons_self
    cases late : later f with
    | true =>
      rw [home] at member
      rcases restingBare rest (by simp [Act.isBare, Task.isBare, late]) member with same | same <;> cases same
    | false => exact .inl (.inr (.inl ⟨t,_,member,by simp [Act.owns, Task.owns, late]⟩))
  | due listed =>
    rw [← (h.home _ c listed).1] at listed
    exact absurd listed (restingQueue rest).2

theorem stepAwake {x x' : Holding} {a : HoldAction} {c : ConnId} (taken : holdStep x a = some x') (used : uses x a = some c) :
    x.stage ≠ .cleared := by
  intro finished
  cases a with
  | loop a => simp [holdStep, mayRun, Holding.life, finished] at taken
  | finish t => simp [holdStep, mayRun, Holding.life, finished] at taken
  | _ => cases used

/- A connection has an owner whenever a step runs code of it. -/
theorem usedAlive {s x x' : Holding} {as : List HoldAction} {a : HoldAction} {c : ConnId} (start : HoldInitial s)
    (fair : Throughout holdStep (fun x a => cutsShort x a = false) s as) (reached : run holdStep s as = some x)
    (taken : holdStep x a = some x') (used : uses x a = some c) : alive x c := by
  have covered : Covered x := invariantWhen (fun s a t h ok taken => coveredStep h ok taken) (coveredInitial start) fair reached
  have awake := stepAwake taken used
  have ledger : Ledger x.world := covered.living.ledger awake
  have code := usedCases used
  rcases covered.covered awake c (usedKnown covered ledger.registry code) with keeps | rest
  · exact .inl (keptOwned keeps)
  · exact restingAlive covered ledger.placed rest code

def unheld (threadNum : Nat) : Holding :=
  ⟨⟨constructed threadNum quiet 1 false,fun _ => [],fun _ => []⟩,.serving,fun _ => [],fun _ => [],fun _ => []⟩

theorem unheldInitial (threadNum : Nat) : HoldInitial (unheld threadNum) :=
  ⟨⟨⟨threadNum,quiet,1,false,rfl⟩,fun _ => ⟨rfl,rfl⟩⟩,rfl,fun _ => ⟨rfl,rfl,rfl⟩⟩

/- The peer of a connection of sub loop 1 ends it. The main loop has taken its entry out when
HandleClose goes on with m_socket.Close(): ConnectDestroyed in the queue holds it. -/
def closedFar : List HoldAction :=
  [.loop (.server .start),.loop (.poll 0 [] true),.loop (.server (.accept 5 64)),.loop (.server (.goOn 0)),
    .loop (.server (.runQueued 1)),.loop (.server (.goOn 1)),.loop (.poll 1 [(0,readable)] false),.loop (.handle 1),
    .loop (.call 1 (.read (.ok []))),.loop (.server (.goOn 1)),.loop (.server (.goOn 1)),.loop (.server (.runQueued 0)),
    .loop (.server (.goOn 0)),.loop (.server (.goOn 0))]

theorem usedAliveFar : ∃ x x', run holdStep (unheld 1) closedFar = some x ∧
    holdStep x (.loop (.server (.goOn 1))) = some x' ∧ registered x.world 0 = false ∧ alive x 0 := by
  have fair : Throughout holdStep (fun x a => cutsShort x a = false) (unheld 1) closedFar := by decide
  have reached : ∃ x x', run holdStep (unheld 1) closedFar = some x ∧ holdStep x (.loop (.server (.goOn 1))) = some x' ∧
      registered x.world 0 = false ∧ uses x (.loop (.server (.goOn 1))) = some 0 := ⟨_,_,rfl,rfl,by decide,rfl⟩
  obtain ⟨x,x',ran,taken,absent,used⟩ := reached
  exact ⟨x,x',ran,taken,absent,usedAlive (unheldInitial 1) fair ran taken used⟩

/- The same on the main loop. HandleClose calls HandleRemoveConnection, which takes the entry
out and runs ConnectDestroyed; then the argument of the close callback goes. -/
def closedNear : List HoldAction :=
  [.loop (.server .start),.loop (.poll 0 [] true),.loop (.server (.accept 5 64)),.loop (.server (.goOn 0)),
    .loop (.poll 0 [(0,readable)] false),.loop (.handle 0),.loop (.call 0 (.read (.ok []))),.loop (.server (.goOn 0)),
    .loop (.server (.goOn 0)),.loop (.server (.goOn 0)),.loop (.server (.goOn 0))]

theorem usedDead : ¬ ∀ (s x x' : Holding) (as : List HoldAction) (a : HoldAction) (c : ConnId), HoldInitial s →
    run holdStep s as = some x → holdStep x a = some x' → uses x a = some c → alive x c := by
  intro claimed
  have reached : ∃ x x', run holdStep (unheld 0) closedNear = some x ∧ holdStep x (.loop (.server (.goOn 0))) = some x' ∧
      uses x (.loop (.server (.goOn 0))) = some 0 ∧ registered x.world 0 = false ∧
      (∀ t, x.world.stack t = if t = 0 then [.conn 0 .closeSocket] else []) ∧ (∀ t, x.world.queue t = []) ∧
      (∀ t, x.held t = []) ∧ ∀ t, x.copies t = [] := by
    refine ⟨_,_,rfl,rfl,rfl,by decide,fun t => ?_,fun t => ?_,fun t => ?_,fun t => ?_⟩ <;>
      match t with
      | 0 => rfl
      | n + 1 => rfl
  obtain ⟨x,x',ran,taken,used,absent,stackOf,queues,held,copies⟩ := reached
  rcases claimed _ x x' _ _ 0 (unheldInitial 0) ran taken used with owned_ | ⟨t,h,member,_⟩ | ⟨t,member⟩
  · rcases owned_ with listed | ⟨t,a,member,owns⟩ | ⟨l,task,member,_⟩
    · rw [absent] at listed
      cases listed
    · rw [stackOf] at member
      split at member
      · rw [List.mem_singleton.mp member] at owns
        cases owns
      · cases member
    · rw [queues] at member
      cases member
  · rw [held] at member
    cases member
  · rw [copies] at member
    cases member

end TcpServer
end TcFrame
