import TcFrame.TcpServerTurns

/-! EventLoop::Loop over the batch of channels that Poll has returned: of a server's loops,
the listening channel and the channels of the connections. Poll fills the batch, Loop calls
HandleEvent on its channels in their order, and HandleEvent the callbacks of one channel.
User code in a callback may close any other connection of the loop. -/
namespace TcFrame.TcpServer
open Endpoint Machine

structure Revents where
  error : Bool
  hangUp : Bool
  read : Bool
  write : Bool
  deriving DecidableEq, Repr

inductive Handler where
  | error
  | close
  | read
  | write
  deriving DecidableEq, Repr

/- The callbacks that HandleEvent calls, in this order. -/
def handleEvent (r : Revents) : List Handler :=
  if r.error then [.error,.close]
  else if r.hangUp then [.close]
  else (if r.read then [.read] else []) ++ (if r.write then [.write] else [])

/- What the system answers the callback. -/
def Handler.answers : Handler → Connection.Event → Bool
  | .error, .error | .close, .close | .read, .read _ | .write, .write _ => true
  | _, _ => false

/- `batch` are the connections whose channels wait for HandleEvent, `calls` the callbacks
that a HandleEvent has still to call. The listening channel waits as long as the server's
`acceptReady` says so, before, between or after the others. -/
structure Polled where
  world : World
  batch : ThreadId → List (ConnId × Revents)
  calls : ThreadId → List (ConnId × Handler)

namespace Polled

/- Loop is not in a batch. -/
def isDone (p : Polled) (l : ThreadId) : Bool := (p.batch l).isEmpty && (p.calls l).isEmpty

end Polled

/- epoll reports the descriptor and the map names the connection's channel. -/
def reports (w : World) (l : ThreadId) (c : ConnId) : Bool :=
  let ch := (w.conn c).channel
  decide (c < w.host.next) && w.host.loopOf c == l && (w.host.pollers l).fdToChannel ch.fd == some ch.id &&
    ((w.host.pollers l).interest ch.fd).isSome

/- `listens` says whether the listening channel is ready, too. -/
inductive LoopAction where
  | poll (l : ThreadId) (ready : List (ConnId × Revents)) (listens : Bool)
  | acceptFails                                        -- HandleEvent of the listening channel, without a connection
  | handle (l : ThreadId)                              -- HandleEvent of the next channel
  | call (l : ThreadId) (ev : Connection.Event)        -- its next callback
  | server (a : Action)
  deriving DecidableEq, Repr

/- When the server's own actions may come: the listening channel's HandleEvent between two
others, functors and timers when the batch is done. What a callback does comes at any time. -/
def fitsLoop (p : Polled) : Action → Bool
  | .poll | .event _ _ => false
  | .accept _ _ => (p.calls mainLoop).isEmpty
  | .runQueued l => p.isDone l
  | .scanIdle _ | .checkTimer | .deadlineTimer => p.isDone mainLoop
  | .start | .user _ _ | .goOn _ | .ret _ => true

def loopStep (p : Polled) : LoopAction → Option Polled
  | .poll l ready listens =>
    if p.isDone l = true ∧ p.world.stack l = [] ∧ l ≤ p.world.server.threadNum ∧
        (l = mainLoop → p.world.acceptReady = false) ∧ (ready.map Prod.fst).Nodup ∧
        (∀ x ∈ ready, reports p.world l x.1 = true) then
      (if l = mainLoop ∧ listens = true then step p.world .poll else some p.world).map
        (fun w => { p with world := w, batch := Function.update p.batch l ready })
    else none
  | .acceptFails =>
    if p.world.stack mainLoop = [] ∧ p.calls mainLoop = [] ∧ p.world.acceptReady = true then
      some { p with world := { p.world with acceptReady := false } }
    else none
  | .handle l =>
    match p.batch l with
    | x :: rest =>
      if p.world.stack l = [] ∧ p.calls l = [] then
        some { p with
          batch := Function.update p.batch l rest
          calls := Function.update p.calls l ((handleEvent x.2).map (fun h => (x.1,h))) }
      else none
    | [] => none
  | .call l ev =>
    match p.calls l with
    | x :: rest =>
      if p.world.stack l = [] ∧ x.2.answers ev = true then
        (step p.world (.event x.1 ev)).map
          (fun w => { p with world := w, calls := Function.update p.calls l rest })
      else none
    | [] => none
  | .server a => if fitsLoop p a then (step p.world a).map (fun w => { p with world := w }) else none

/- A channel in a batch. -/
inductive Target where
  | listening
  | conn (c : ConnId)
  deriving DecidableEq, Repr

/- The channel that the step calls HandleEvent on. -/
def handled (p : Polled) : LoopAction → Option Target
  | .handle l => (p.batch l).head?.map (fun x => .conn x.1)
  | .server (.accept _ _) | .acceptFails => some .listening
  | _ => none

/- RemoveChannel of the channel, or its interest is cleared. -/
def removes (w w' : World) : Target → Bool
  | .listening => w.server.listening && !w'.server.listening
  | .conn c =>
    let ch := (w.conn c).channel
    let ch' := (w'.conn c).channel
    !ch.hasNoEvents && ch'.hasNoEvents || ch.added && !ch'.added

/- Poll of the channel's loop. -/
def polls (p : Polled) : LoopAction → Target → Bool
  | .poll l _ _, .listening => l == mainLoop
  | .poll l _ _, .conn c => p.world.host.loopOf c == l
  | _, _ => false

/- The channels removed since the Poll of their loop. -/
def removals (p : Polled) (a : LoopAction) (p' : Polled) (gone : Target → Bool) : Target → Bool :=
  fun x => !polls p a x && (gone x || removes p.world p'.world x)

/- A functor that closes its connection. -/
def closesBy (e : Endpoint) : Functor → Bool
  | .connectDestroyed | .forceCloseInLoop => e.isOpenState
  | .shutdownInLoop => e.conn.outputBuffer.readableBytes == 0 && e.conn.state != .disconnected
  | .connectEstablished | .sendInLoop _ => false

/- The step stops the acceptor or runs a closing function of a connection, while its
channel waits in the batch. -/
def closesWaiting (p : Polled) : LoopAction → Bool
  | .server (.goOn t) =>
    match p.world.stack t with
    | .call l (.conn c f) :: _ =>
      t == l && closesBy (p.world.host.endpoint c) f && (p.batch (p.world.host.loopOf c)).any (fun x => x.1 == c)
    | .call l (.stopGracefully _) :: _ =>
      t == l && p.world.server.started && !p.world.server.stopping && p.world.acceptReady
    | _ => false
  | _ => false

/- The channel is neither removed nor without interest where it was in the poller. -/
structure Retains (ch ch' : Channel) : Prop where
  events : ch.hasNoEvents = false → ch'.hasNoEvents = false
  added : ch.added = true → ch'.added = true

theorem retainsSame (ch : Channel) : Retains ch ch := ⟨id,id⟩

theorem retainsUpdate (e : Endpoint) {ch : Channel} (some_ : ch.hasNoEvents = false) (added : ch.added = e.conn.channel.added) :
    Retains e.conn.channel (e.updateChannel ch).conn.channel := by
  have same := EpollPoller.updateChannelSame e.isOpen e.poller ch
  refine ⟨fun _ => ?_,fun before => ?_⟩
  · simpa [Channel.hasNoEvents, same.2.2] using some_
  · rw [← added] at before
    simp only [updateChannelConn, EpollPoller.updateChannel, some_, Bool.false_eq_true, if_false]
    split
    · exact before
    · rfl

theorem retainsWatch (e : Endpoint) : Retains e.conn.channel e.watchWriting.conn.channel := by
  unfold watchWriting
  split
  · exact retainsSame _
  · exact retainsUpdate e (by simp [Channel.hasNoEvents, Channel.enableWriting, Events.none]) rfl

theorem retainsResume (e : Endpoint) (f : Frame) : Retains e.conn.channel (e.resume f).1.conn.channel := by
  cases f with
  | sendTail => exact retainsWatch e
  | closeSocket =>
    simp only [resume, closeSocket]
    split <;> exact retainsSame _
  | _ => exact retainsSame _

theorem retainsRequest (e : Endpoint) (t : ThreadId) (call : UserCall) :
    Retains e.conn.channel (e.request t call).1.conn.channel := by
  cases call <;> simp only [request, send, shutdown, forceClose] <;> split <;> exact retainsSame _

theorem retainsRun {e : Endpoint} {f : Functor} (harmless : closesBy e f = false) :
    Retains e.conn.channel (e.run f).1.conn.channel := by
  cases f with
  | connectEstablished =>
    exact retainsUpdate (e.setState .connected)
      (by simp [setState, Channel.hasNoEvents, Channel.enableReading, Events.none]) rfl
  | connectDestroyed =>
    have finished : e.isOpenState = false := harmless
    simp only [Endpoint.run, connectDestroyed, finished, Bool.false_eq_true, if_false]
    exact retainsSame _
  | sendInLoop m =>
    cases passes : e.conn.isConnected with
    | true => rw [Endpoint.run, (sendInLoopPassed passes).1]; exact retainsSame _
    | false => rw [Endpoint.run, sendInLoopRefused passes]; exact retainsSame _
  | shutdownInLoop =>
    simp only [Endpoint.run, shutdownInLoop]
    split
    · exact retainsWatch e
    · rename_i empty
      have finished : e.conn.state = .disconnected := by
        simp only [closesBy] at harmless
        simpa [Nat.eq_zero_of_not_pos empty] using harmless
      simp only [handleClose, finished, if_true]
      exact retainsSame _
  | forceCloseInLoop =>
    have finished : e.isOpenState = false := harmless
    simp only [Endpoint.run, forceCloseInLoop, finished, Bool.false_eq_true, if_false]
    exact retainsSame _

theorem retainsPut {w : World} {c d : ConnId} {e : Endpoint} (mine : d = c → Retains (w.conn c).channel e.conn.channel) :
    Retains (w.conn d).channel ((w.putHost (w.host.put c e)).conn d).channel := by
  refine World.connPutCases (P := fun conn => Retains (w.conn d).channel conn.channel) (fun here => ?_) (fun _ => retainsSame _)
  rw [here]
  exact mine here

/- What removes a connection's channel: an event of its own, or a functor that closes it. -/
theorem removedBy {w w' : World} {a : Action} {c : ConnId} (r : Registry w) (p : Placed w) (known : c < w.host.next)
    (taken : step w a = some w') : Retains (w.conn c).channel (w'.conn c).channel ∨ (∃ ev, a = .event c ev) ∨
      ∃ t f below, a = .goOn t ∧ w.stack t = .call t (.conn c f) :: below ∧ closesBy (w.host.endpoint c) f = true := by
  have host : ∀ {v : World}, v.host = w.host → Retains (w.conn c).channel (v.conn c).channel := by
    intro v same
    rw [World.connSame same]
    exact retainsSame _
  cases turnCases r p taken with
  | @member t d top below out known' home split does =>
    cases does with
    | resume own => exact .inl (retainsPut (fun _ => retainsResume (w.host.endpoint d) _))
    | @run f =>
      cases closes : closesBy (w.host.endpoint d) f with
      | false => exact .inl (retainsPut (fun _ => retainsRun closes))
      | true =>
        by_cases here : c = d
        · subst here
          exact .inr (.inr ⟨t,f,below,rfl,split,closes⟩)
        · exact .inl (retainsPut (fun same => absurd same here))
    | @event ev idle up ok =>
      by_cases here : c = d
      · subst here
        exact .inr (.inl ⟨ev,rfl⟩)
      · exact .inl (retainsPut (fun same => absurd same here))
  | @request t d call top below again known' split caller =>
    exact .inl (retainsPut (fun _ => retainsRequest (w.host.endpoint d) _ _))
  | close home split => exact .inl (host rfl)
  | hand split other home => exact .inl (host rfl)
  | take idle head loop => exact .inl (host rfl)
  | remove known' ran split does => exact .inl (host does.host)
  | sweepErase known' split off => exact .inl (host rfl)
  | sweepEnd split => exact .inl (host rfl)
  | sweepNext split on => exact .inl (host rfl)
  | skip split skips => exact .inl (host rfl)
  | serve split own calm does => exact .inl (host does.host)
  | accept idle free made =>
    refine .inl ?_
    rw [(made.old c known).1]
    exact retainsSame _

/- The acceptor goes on and its channel was not reported anew. -/
structure Listens (w w' : World) : Prop where
  listening : w.server.listening = true → w'.server.listening = true
  ready : w'.acceptReady = true → w.acceptReady = true

theorem listensFinalize {v w : World} {force : Bool} (h : Listens w v) : Listens w (finalizeGracefulStop v force).1 := by
  unfold finalizeGracefulStop
  split <;> exact h

/- What stops the acceptor: StopGracefully, run on the main loop. -/
theorem stoppedBy {w w' : World} {a : Action} (taken : step w a = some w') : Listens w w' ∨ a = .poll ∨
    ∃ t cb below, a = .goOn t ∧ w.stack t = .call t (.stopGracefully cb) :: below ∧
      w.server.started = true ∧ w.server.stopping = false ∧ (w'.acceptReady = true → w.acceptReady = true) := by
  have same : Listens w w := ⟨id,id⟩
  have settled : ∀ {t below} {out : Effect}, Listens w out.1 → Listens w (settle t below out) := fun h => ⟨h.1,h.2⟩
  have each : ∀ {t call x again}, Listens w (eachEntry w t call x again).1 := by
    intro t call x again
    unfold eachEntry
    split <;> exact ⟨id,id⟩
  cases stepCases taken with
  | start runs =>
    refine .inl ?_
    unfold startServer
    split
    · exact same
    · exact ⟨fun _ => rfl,id⟩
  | poll idle => exact .inr (.inl rfl)
  | @stop t cb below top =>
    by_cases stops : w.server.started = true ∧ w.server.stopping = false
    · have ready : (stopGracefully w cb).1.acceptReady = w.acceptReady := by simp [stopGracefully, stops.1, stops.2]
      refine .inr (.inr ⟨t,cb,below,rfl,top,stops.1,stops.2,fun on => ?_⟩)
      exact ready.symm.trans on
    · refine .inl (settled ?_)
      cases started : w.server.started with
      | false =>
        simp [stopGracefully, started]
        exact ⟨id,id⟩
      | true =>
        have stopping : w.server.stopping = true := by simpa [started] using stops
        simp [stopGracefully, started, stopping]
        exact ⟨id,id⟩
  | remove top =>
    refine .inl (settled ?_)
    unfold removeInLoop
    split <;> [skip; split] <;> exact ⟨id,id⟩
  | removeTail top =>
    refine .inl (settled ?_)
    unfold removeTail
    split
    · exact listensFinalize same
    · exact same
  | shutdownAll top => exact .inl (settled each)
  | stopTail top =>
    refine .inl (settled ?_)
    unfold stopTail
    split
    · exact listensFinalize same
    · exact ⟨id,id⟩
  | sweepEntry top =>
    refine .inl (settled ?_)
    unfold sweepEntry
    split <;> exact ⟨id,id⟩
  | forceAll top => exact .inl (settled each)
  | finishStop top =>
    refine .inl (settled ?_)
    unfold finishStop
    split <;> exact ⟨id,id⟩
  | accept idle ready free =>
    refine .inl (settled ?_)
    unfold newConnection
    dsimp only
    split <;> exact ⟨id,fun on => by cases on⟩
  | checkTimer between out =>
    refine .inl (settled ?_)
    rcases out with ⟨_,here⟩ | here <;> rw [here]
    · exact listensFinalize same
    · exact same
  | deadlineTimer between armed => exact .inl (settled (listensFinalize ⟨id,id⟩))
  | _ => exact .inl ⟨id,id⟩

theorem homeKept {w w' : World} {a : Action} (r : Registry w) (p : Placed w) (taken : step w a = some w') :
    ∀ c < w.host.next, w'.host.loopOf c = w.host.loopOf c := by
  intro c known
  cases turnCases r p taken with
  | remove known' ran split does => rw [settle, does.host]
  | serve split own calm does => rw [settle, does.host]
  | accept idle free made => exact (made.old c known).2
  | _ => rfl

/- The channels that wait have not been removed. A channel is in a batch once, and no
longer when its callbacks run. -/
structure Waits (p : Polled) (gone : Target → Bool) : Prop where
  once : ∀ l, ((p.batch l).map Prod.fst).Nodup
  home : ∀ l, ∀ x ∈ p.batch l, p.world.host.loopOf x.1 = l ∧ x.1 < p.world.host.next
  calls : ∀ l, ∀ x ∈ p.calls l, p.world.host.loopOf x.1 = l ∧ x.1 < p.world.host.next ∧ ∀ y ∈ p.batch l, y.1 ≠ x.1
  kept : ∀ l, ∀ x ∈ p.batch l, gone (.conn x.1) = false
  listens : p.world.acceptReady = true → gone .listening = false

theorem retainsKeeps {w w' : World} {c : ConnId} (h : Retains (w.conn c).channel (w'.conn c).channel) :
    removes w w' (.conn c) = false := by
  cases events : (w.conn c).channel.hasNoEvents with
  | true =>
    cases added : (w.conn c).channel.added with
    | true => simp [removes, events, h.added added]
    | false => simp [removes, events, added]
  | false =>
    cases added : (w.conn c).channel.added with
    | true => simp [removes, h.events events, h.added added]
    | false => simp [removes, h.events events, added]

theorem hostKeeps {w w' : World} (host : w'.host = w.host) (c : ConnId) : removes w w' (.conn c) = false := by
  refine retainsKeeps ?_
  rw [World.connSame host]
  exact retainsSame _

theorem listensKeeps {w w' : World} (h : w.server.listening = true → w'.server.listening = true) :
    removes w w' .listening = false := by
  cases on : w.server.listening with
  | true => simp [removes, h on]
  | false => simp [removes, on]

/- A step of the server, with the batches and what is left of the handlers. -/
theorem waitsServer {p : Polled} {w' : World} {gone : Target → Bool} {a : Action} {act : LoopAction}
    {calls : ThreadId → List (ConnId × Handler)} (r : Registry p.world) (pl : Placed p.world) (h : Waits p gone)
    (taken : step p.world a = some w') (left : ∀ l, ∀ x ∈ calls l, x ∈ p.calls l) (quiet : ∀ x, polls p act x = false)
    (kept : ∀ l, ∀ x ∈ p.batch l, Retains (p.world.conn x.1).channel (w'.conn x.1).channel)
    (listens : p.world.acceptReady = true → p.world.server.listening = true → w'.server.listening = true)
    (ready : w'.acceptReady = true → p.world.acceptReady = true) :
    Waits { p with world := w', calls := calls } (removals p act { p with world := w', calls := calls } gone) := by
  have home := homeKept r pl taken
  have next : ∀ {c}, c < p.world.host.next → c < w'.host.next :=
    fun known => Nat.lt_of_lt_of_le known (registryStep r taken).2.next
  refine ⟨h.once,fun l x member => ?_,fun l x member => ?_,fun l x member => ?_,fun on => ?_⟩
  · obtain ⟨at_,known⟩ := h.home l x member
    exact ⟨(home x.1 known).trans at_,next known⟩
  · obtain ⟨at_,known,apart⟩ := h.calls l x (left l x member)
    exact ⟨(home x.1 known).trans at_,next known,apart⟩
  · simp only [removals, quiet, h.kept l x member, retainsKeeps (kept l x member)]
    rfl
  · have before := ready on
    simp only [removals, quiet, h.listens before, listensKeeps (listens before)]
    rfl

theorem waitsPoll {p p' : Polled} {gone : Target → Bool} {l : ThreadId} {ready : List (ConnId × Revents)} {listens : Bool}
    (h : Waits p gone) (taken : loopStep p (.poll l ready listens) = some p') :
    (p'.world = p.world ∨ step p.world .poll = some p'.world) ∧ Waits p' (removals p (.poll l ready listens) p' gone) := by
  simp only [loopStep] at taken
  split at taken <;> try contradiction
  rename_i ok
  obtain ⟨done,idle,loop,unready,once,reported⟩ := ok
  obtain ⟨w',polled,made⟩ := Option.map_eq_some_iff.mp taken
  subst made
  have calls : p.calls l = [] := by
    simp only [Polled.isDone, Bool.and_eq_true, List.isEmpty_iff] at done
    exact done.2
  have same : w'.host = p.world.host ∧ w'.server = p.world.server ∧
      (w'.acceptReady = true → l = mainLoop ∨ p.world.acceptReady = true) ∧
      (w' = p.world ∨ step p.world .poll = some w') := by
    split at polled
    · rename_i main
      have here := polled
      simp only [step] at polled
      split at polled <;> cases polled
      exact ⟨rfl,rfl,fun _ => .inl main.1,.inr here⟩
    · cases polled
      refine ⟨rfl,rfl,fun on => ?_,.inl rfl⟩
      by_cases main : l = mainLoop
      · exact .inl main
      · exact .inr on
  obtain ⟨host,server,accepts,base⟩ := same
  refine ⟨base,⟨fun l' => ?_,fun l' x member => ?_,fun l' x member => ?_,fun l' x member => ?_,fun on => ?_⟩⟩
  · simp only [Function.update_apply]
    split
    · exact once
    · exact h.once l'
  · simp only [Function.update_apply, host] at member ⊢
    split at member
    · rename_i here
      have known := reported x member
      simp only [reports, Bool.and_eq_true, decide_eq_true_eq, beq_iff_eq] at known
      exact ⟨known.1.1.2.trans here.symm,known.1.1.1⟩
    · exact h.home l' x member
  · obtain ⟨at_,known,apart⟩ := h.calls l' x member
    have other : l' ≠ l := by
      rintro rfl
      rw [calls] at member
      cases member
    simp only [Function.update_apply, if_neg other, host]
    exact ⟨at_,known,apart⟩
  · simp only [Function.update_apply] at member
    split at member
    · have known := reported x member
      simp only [reports, Bool.and_eq_true, decide_eq_true_eq, beq_iff_eq] at known
      simp [removals, polls, known.1.1.2]
    · simp [removals, h.kept l' x member, hostKeeps host]
  · rcases accepts on with main | before
    · simp [removals, polls, main]
    · have still : removes p.world w' .listening = false := listensKeeps (by rw [server]; exact id)
      simp [removals, h.listens before, still]

theorem registryPoll {w w' : World} (r : Registry w) (pl : Placed w) (base : w' = w ∨ step w .poll = some w') :
    Registry w' ∧ Placed w' := by
  rcases base with same | taken
  · rw [same]
    exact ⟨r,pl⟩
  · exact ⟨(registryStep r taken).1,placedStep r pl taken⟩

theorem waitsHandle {p p' : Polled} {gone : Target → Bool} {l : ThreadId} (h : Waits p gone)
    (taken : loopStep p (.handle l) = some p') : p'.world = p.world ∧ Waits p' (removals p (.handle l) p' gone) := by
  simp only [loopStep] at taken
  split at taken <;> try contradiction
  rename_i x rest head
  split at taken <;> cases taken
  rename_i ok
  have once : (x.1 :: rest.map Prod.fst).Nodup := by simpa [head] using h.once l
  have under : ∀ {l' y}, y ∈ Function.update p.batch l rest l' → y ∈ p.batch l' := memPopped head
  refine ⟨rfl,⟨fun l' => ?_,fun l' y member => h.home l' y (under member),fun l' y member => ?_,fun l' y member => ?_,
    fun on => ?_⟩⟩
  · simp only [Function.update_apply]
    split
    · exact (List.nodup_cons.mp once).2
    · exact h.once l'
  · simp only [Function.update_apply] at member
    split at member
    · rename_i here
      obtain ⟨f,_,same⟩ := List.mem_map.mp member
      subst same here
      obtain ⟨at_,known⟩ := h.home l' x (by simp [head])
      refine ⟨at_,known,fun z waits => ?_⟩
      simp only [Function.update_self] at waits
      intro same
      exact (List.nodup_cons.mp once).1 (same ▸ List.mem_map_of_mem (f := Prod.fst) waits)
    · obtain ⟨at_,known,apart⟩ := h.calls l' y member
      exact ⟨at_,known,fun z waits => apart z (under waits)⟩
  · simp [removals, h.kept l' y (under member), hostKeeps]
  · simp [removals, h.listens on, listensKeeps]

theorem waitsStep {p p' : Polled} {gone : Target → Bool} {a : LoopAction} (r : Registry p.world) (pl : Placed p.world)
    (h : Waits p gone) (spares : closesWaiting p a = false) (taken : loopStep p a = some p') :
    Registry p'.world ∧ Placed p'.world ∧ Waits p' (removals p a p' gone) := by
  cases a with
  | poll l ready listens =>
    obtain ⟨base,waits⟩ := waitsPoll h taken
    obtain ⟨r',pl'⟩ := registryPoll r pl base
    exact ⟨r',pl',waits⟩
  | acceptFails =>
    simp only [loopStep] at taken
    split at taken <;> cases taken
    refine ⟨⟨⟨r.table.key,r.table.socket⟩,r.stacked,r.queues⟩,⟨pl.acts,pl.queues,pl.loops,pl.close⟩,
      ⟨h.once,h.home,h.calls,fun l x member => ?_,fun on => by cases on⟩⟩
    simp [removals, h.kept l x member, hostKeeps]
  | handle l =>
    obtain ⟨same,waits⟩ := waitsHandle h taken
    rw [same]
    exact ⟨r,pl,waits⟩
  | call l ev =>
    simp only [loopStep] at taken
    split at taken <;> try contradiction
    rename_i x rest head
    split at taken <;> try contradiction
    obtain ⟨w',stepped,made⟩ := Option.map_eq_some_iff.mp taken
    subst made
    obtain ⟨at_,known,apart⟩ := h.calls l x (by simp [head])
    have listens : Listens p.world w' := by
      rcases stoppedBy stepped with kept | poll | ⟨_,_,_,other,_⟩
      · exact kept
      · cases poll
      · cases other
    refine ⟨(registryStep r stepped).1,placedStep r pl stepped,?_⟩
    refine waitsServer r pl h stepped (fun l' y member => ?_) (fun y => by cases y <;> rfl) (fun l' y member => ?_)
      (fun _ => listens.listening) listens.ready
    · exact memPopped head member
    · obtain ⟨at',known'⟩ := h.home l' y member
      rcases removedBy r pl known' stepped with kept | ⟨ev',same⟩ | ⟨_,_,_,same,_⟩
      · exact kept
      · have here : x.1 = y.1 := (Action.event.inj same).1
        have loop : l' = l := by rw [← at_, ← at', here]
        rw [loop] at member
        exact absurd here.symm (apart y member)
      · cases same
  | server act =>
    simp only [loopStep] at taken
    split at taken <;> try contradiction
    rename_i fits
    obtain ⟨w',stepped,made⟩ := Option.map_eq_some_iff.mp taken
    subst made
    refine ⟨(registryStep r stepped).1,placedStep r pl stepped,?_⟩
    refine waitsServer r pl h stepped (fun l' y member => member) (fun y => by cases y <;> rfl) (fun l' y member => ?_)
      (fun ready on => ?_) (fun ready => ?_)
    · obtain ⟨at',known'⟩ := h.home l' y member
      rcases removedBy r pl known' stepped with kept | ⟨ev,same⟩ | ⟨t,f,below,same,top,closes⟩
      · exact kept
      · subst same
        cases fits
      · subst same
        simp only [closesWaiting, top, closes, at', beq_self_eq_true, Bool.and_true, Bool.true_and] at spares
        have other := List.any_eq_false.mp spares y member
        simp at other
    · rcases stoppedBy stepped with kept | poll | ⟨t,cb,below,same,top,started,stopping,_⟩
      · exact kept.listening on
      · subst poll
        cases fits
      · subst same
        simp [closesWaiting, top, started, stopping, ready] at spares
    · rcases stoppedBy stepped with kept | poll | ⟨t,cb,below,same,top,started,stopping,kept⟩
      · exact kept.ready ready
      · subst poll
        cases fits
      · exact kept ready

def LoopInitial (p : Polled) : Prop := Initial p.world ∧ ∀ l, p.batch l = [] ∧ p.calls l = []

/- In a run in which nothing closes a channel that waits in a batch, HandleEvent is called
on no channel that was removed since its Poll. -/
theorem handledNotRemoved {s p p' : Polled} {gone : Target → Bool} {as : List LoopAction} {a : LoopAction} {x : Target}
    (start : LoopInitial s) (spares : Throughout (recording loopStep removals) (fun y a => closesWaiting y.1 a = false)
      (s,fun _ => false) as)
    (reached : run (recording loopStep removals) (s,fun _ => false) as = some (p,gone))
    (taken : loopStep p a = some p') (handles : handled p a = some x) : gone x = false := by
  let inv (y : Polled) (gone : Target → Bool) : Prop := Registry y.world ∧ Placed y.world ∧ Waits y gone
  have first : inv s (fun _ => false) := by
    obtain ⟨init,nothing⟩ := start
    refine ⟨registryInitial init,placedInitial init,⟨fun l => ?_,fun l y member => ?_,fun l y member => ?_,fun _ _ _ => rfl,
      fun _ => rfl⟩⟩
    · simp [(nothing l).1]
    · simp [(nothing l).1] at member
    · simp [(nothing l).2] at member
  have keep : ∀ y a z gone, inv y gone → closesWaiting y a = false → loopStep y a = some z →
      inv z (removals y a z gone) := by
    rintro y a z gone ⟨r,pl,h⟩ harmless stepped
    exact waitsStep r pl h harmless stepped
  obtain ⟨_,_,waits⟩ := recordingWhen keep first spares reached
  cases a with
  | handle l =>
    obtain ⟨y,head,same⟩ := Option.map_eq_some_iff.mp handles
    subst same
    exact waits.kept l y (List.mem_of_mem_head? head)
  | acceptFails =>
    cases handles
    simp only [loopStep] at taken
    split at taken <;> cases taken
    rename_i ok
    exact waits.listens ok.2.2
  | server act =>
    cases act <;> cases handles
    simp only [loopStep] at taken
    split at taken <;> try contradiction
    obtain ⟨w',stepped,_⟩ := Option.map_eq_some_iff.mp taken
    simp only [step] at stepped
    split at stepped <;> try contradiction
    rename_i ok
    exact waits.listens ok.2.1
  | _ => cases handles

def reading : Callbacks := ⟨false,true,false,false,false⟩

def polledFresh : Polled := ⟨constructed 0 reading 1 false,fun _ => [],fun _ => []⟩

theorem polledFreshInitial : LoopInitial polledFresh := ⟨⟨0,reading,1,false,rfl⟩,fun _ => ⟨rfl,rfl⟩⟩

def readable : Revents := ⟨false,false,true,false⟩

/- Two connections of the main loop, both readable: one batch, and the first one's message
callback. -/
def firstOfTwo : List LoopAction :=
  [.server .start,.poll 0 [] true,.server (.accept 5 64),.server (.goOn 0),.poll 0 [] true,.server (.accept 6 64),
    .server (.goOn 0),.poll 0 [(0,readable),(1,readable)] false,.handle 0,.call 0 (.read (.ok [7]))]

theorem handledNotRemovedSecond : ∃ p gone p', run (recording loopStep removals) (polledFresh,fun _ => false)
    (firstOfTwo ++ [.server (.ret 0)]) = some (p,gone) ∧ loopStep p (.handle 0) = some p' ∧
    handled p (.handle 0) = some (.conn 1) ∧ gone (.conn 1) = false := by
  have reached : ∃ p gone p', run (recording loopStep removals) (polledFresh,fun _ => false)
      (firstOfTwo ++ [.server (.ret 0)]) = some (p,gone) ∧ loopStep p (.handle 0) = some p' ∧
      handled p (.handle 0) = some (.conn 1) := ⟨_,_,_,rfl,rfl,rfl⟩
  obtain ⟨p,gone,p',taken,next,second⟩ := reached
  have spares : Throughout (recording loopStep removals) (fun y a => closesWaiting y.1 a = false)
      (polledFresh,fun _ => false) (firstOfTwo ++ [.server (.ret 0)]) := by decide
  exact ⟨p,gone,p',taken,next,second,handledNotRemoved polledFreshInitial spares taken next second⟩

/- The callback closes the second connection, which is still in the batch. -/
def firstClosesSecond : List LoopAction := firstOfTwo ++
  [.server (.user 0 (.conn 1 .forceClose)),.server (.goOn 0),.server (.goOn 0),.server (.goOn 0),.server (.goOn 0),
    .server (.goOn 0),.server (.ret 0)]

theorem handledRemoved : ¬ ∀ (s p p' : Polled) (gone : Target → Bool) (as : List LoopAction) (a : LoopAction) (x : Target),
    LoopInitial s → run (recording loopStep removals) (s,fun _ => false) as = some (p,gone) → loopStep p a = some p' →
    handled p a = some x → gone x = false := by
  intro claimed
  have reached : ∃ p gone p', run (recording loopStep removals) (polledFresh,fun _ => false) firstClosesSecond = some (p,gone) ∧
      loopStep p (.handle 0) = some p' ∧ handled p (.handle 0) = some (.conn 1) ∧ gone (.conn 1) = true :=
    ⟨_,_,_,rfl,rfl,rfl,rfl⟩
  obtain ⟨p,gone,p',taken,next,second,removed⟩ := reached
  have kept := claimed _ p p' gone _ _ _ polledFreshInitial taken next second
  rw [removed] at kept
  cases kept

end TcFrame.TcpServer
