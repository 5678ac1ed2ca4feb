import TcFrame.TcpServerRegistry

/-! Which thread runs what: a connection's functions on its own loop, the server's on the
main loop. -/
namespace TcFrame.TcpServer
open Endpoint Machine

/- Which loop a functor runs on, and which thread an act may be on. -/
def Task.home (loopOf : ConnId → ThreadId) : Task → ThreadId
  | .conn c _ => loopOf c
  | .remove _ | .stopGracefully _ => mainLoop

def Act.fits (loopOf : ConnId → ThreadId) (t : ThreadId) : Act → Prop
  | .conn c _ => t = loopOf c
  | .call l task => l = task.home loopOf
  | .completeCallback _ => True
  | .removeTail | .shutdownAll _ | .stopTail | .sweep _ _ _ | .forceAll _ | .finishStop _ | .closeIdle _ => t = mainLoop

structure Placed (w : World) : Prop where
  acts : ∀ t, ∀ a ∈ w.stack t, a.fits w.host.loopOf t
  queues : ∀ l, ∀ task ∈ w.queue l, l = task.home w.host.loopOf
  loops : ∀ c < w.host.next, w.host.loopOf c ≤ w.server.threadNum
  close : ∀ c < w.host.next, (w.conn c).callbacks.close = true

/- What a function other than HandleNewConnection leaves alone. -/
structure Stays (w : World) (t : ThreadId) (out : Effect) : Prop where
  loopOf : out.1.host.loopOf = w.host.loopOf
  next : out.1.host.next = w.host.next
  threadNum : out.1.server.threadNum = w.server.threadNum
  callbacks : ∀ c, (out.1.conn c).callbacks = (w.conn c).callbacks
  stack : out.1.stack = w.stack
  queue : ∀ l, ∀ task ∈ out.1.queue l, task ∈ w.queue l ∨ l = task.home w.host.loopOf
  frames : ∀ a ∈ out.2, a.fits w.host.loopOf t

theorem placedSettle {w : World} (h : Placed w) {t : ThreadId} {below : List Act} {out : Effect}
    (under : ∀ a ∈ below, a ∈ w.stack t) (s : Stays w t out) : Placed (settle t below out) := by
  refine ⟨?_,?_,?_,?_⟩
  · intro t' a member
    simp only [settle, Function.update_apply] at member
    simp only [settle, s.loopOf]
    split at member
    · rename_i here
      subst here
      rcases List.mem_append.mp member with new | old
      · exact s.frames a new
      · exact h.acts t' a (under a old)
    · rw [s.stack] at member
      exact h.acts t' a member
  · intro l task member
    simp only [settle, s.loopOf]
    rcases s.queue l task member with old | new
    · exact h.queues l task old
    · exact new
  · intro c known
    simp only [settle, s.loopOf, s.threadNum, s.next] at known ⊢
    exact h.loops c known
  · intro c known
    have made : c < w.host.next := by simpa only [settle, s.next] using known
    exact (congrArg Callbacks.close (s.callbacks c)).trans (h.close c made)

theorem putCallbacks {w : World} {c : ConnId} {e : Endpoint} (same : Same (w.host.endpoint c) e) (d : ConnId) :
    ((w.putHost (w.host.put c e)).conn d).callbacks = (w.conn d).callbacks := by
  refine World.connPutCases (P := fun conn => conn.callbacks = (w.conn d).callbacks) (fun here => ?_) (fun _ => rfl)
  rw [here]
  exact same.callbacks

theorem staysConn {w : World} {t : ThreadId} {c : ConnId} {out : Endpoint × List Frame}
    (same : Same (w.host.endpoint c) out.1) (here : t = w.host.loopOf c) : Stays w t (ofConn w c out) := by
  refine ⟨rfl,rfl,rfl,putCallbacks same,rfl,fun l task member => .inl member,?_⟩
  intro a member
  obtain ⟨f,_,made⟩ := List.mem_map.mp member
  subst made
  exact here

theorem staysCall {w : World} {t : ThreadId} (c : ConnId) (call : UserCall) : Stays w t (callConn w t c call) := by
  refine ⟨rfl,rfl,rfl,putCallbacks (sameRequest _ t call),rfl,fun l task member => .inl member,?_⟩
  intro a member
  obtain ⟨f,_,made⟩ := List.mem_map.mp member
  subst made
  rfl

/- A function of the server: the connections stay as they are. -/
theorem staysServer {w w' : World} {t : ThreadId} {acts : List Act} (host : w'.host = w.host)
    (threadNum : w'.server.threadNum = w.server.threadNum) (stack : w'.stack = w.stack) (queue : w'.queue = w.queue)
    (frames : ∀ a ∈ acts, a.fits w.host.loopOf t) : Stays w t (w',acts) := by
  refine ⟨by rw [host],by rw [host],threadNum,fun c => ?_,stack,?_,frames⟩
  · rw [World.connSame host]
  · intro l task member
    rw [queue] at member
    exact .inl member

theorem staysFinalize {w : World} (force : Bool) : Stays w mainLoop (finalizeGracefulStop w force) := by
  unfold finalizeGracefulStop
  split
  · exact staysServer rfl rfl rfl rfl (by simp [Act.fits])
  · exact staysServer rfl rfl rfl rfl (by simp)

theorem staysEach {w : World} {t : ThreadId} {call : UserCall} {x : Entry} {again : Act}
    (fits : again.fits w.host.loopOf t) : Stays w t (eachEntry w t call x again) := by
  unfold eachEntry
  split
  · have s : Stays w t (callConn w t x.2 call) := staysCall x.2 call
    refine ⟨s.loopOf,s.next,s.threadNum,s.callbacks,s.stack,s.queue,?_⟩
    intro a member
    rcases List.mem_append.mp member with called | loop
    · exact s.frames a called
    · rw [List.mem_singleton.mp loop]
      exact fits
  · exact staysServer rfl rfl rfl rfl (by simpa using fits)

theorem staysRemove {w : World} (c : ConnId) : Stays w mainLoop (removeInLoop w c) := by
  unfold removeInLoop
  split
  · exact staysServer rfl rfl rfl rfl (by simp)
  · split
    · exact staysServer rfl rfl rfl rfl (by simp)
    · exact staysServer rfl rfl rfl rfl (by simp [Act.fits, Task.home])

theorem staysStop {w : World} (cb : Option Nat) : Stays w mainLoop (stopGracefully w cb) := by
  unfold stopGracefully
  dsimp only
  split
  · exact staysServer rfl rfl rfl rfl (by simp [Act.fits])
  · split
    · exact staysServer rfl rfl rfl rfl (by simp)
    · exact staysServer rfl rfl rfl rfl (by simp [Act.fits])

theorem staysSweepEnd {w : World} (stale : List ConnId) (force : Bool) : Stays w mainLoop (sweepEnd w stale force) := by
  refine staysServer rfl rfl rfl rfl ?_
  cases force <;> simp [Act.fits, Task.home, or_imp, forall_and]

theorem nextLoopFits (s : Server) : nextLoop s ≤ s.threadNum := by
  unfold nextLoop
  split
  · exact Nat.zero_le _
  · exact Nat.mod_lt _ (Nat.pos_of_ne_zero (by assumption))

theorem placedAccept {w : World} (h : Placed w) (r : Registry w) (fd : Fd) (bufferSize : Nat) :
    Placed (settle mainLoop [] (newConnection w fd bufferSize)) := by
  unfold newConnection
  dsimp only
  split
  · exact placedSettle h (by simp) (staysServer rfl rfl rfl rfl (by simp))
  · have old : ∀ c < w.host.next, Function.update w.host.loopOf w.host.next (nextLoop w.server) c = w.host.loopOf c :=
      fun c known => Function.update_of_ne (Nat.ne_of_lt known) _ _
    have homeSame : ∀ {task : Task}, (∀ c ∈ task.conns, c < w.host.next) →
        task.home (Function.update w.host.loopOf w.host.next (nextLoop w.server)) = task.home w.host.loopOf := by
      intro task known
      cases task with
      | conn c f => exact old c (known c (by simp [Task.conns]))
      | _ => rfl
    refine ⟨?_,?_,?_,?_⟩
    · intro t a member
      simp only [settle, Function.update_apply] at member
      split at member
      · rw [List.append_nil, List.mem_singleton] at member
        subst member
        simp [settle, Act.fits, Task.home, Host.add]
      · have fits := h.acts t a member
        have known := r.stacked t a member
        cases a with
        | conn c f => exact fits.trans (old c (known c (by simp [Act.conns]))).symm
        | call l task => exact Eq.trans fits (homeSame known).symm
        | _ => exact fits
    · intro l task member
      exact (h.queues l task member).trans (homeSame (r.queues l task member)).symm
    · intro c known
      rcases Nat.lt_succ_iff_lt_or_eq.mp known with before | new
      · simpa [settle, Host.add, Nat.ne_of_lt before] using h.loops c before
      · subst new
        have fits : nextLoop w.server ≤ w.server.threadNum := nextLoopFits w.server
        simpa [settle, Host.add] using fits
    · intro c known
      rcases Nat.lt_succ_iff_lt_or_eq.mp known with before | new
      · have other : c ≠ w.host.next := Nat.ne_of_lt before
        have same := h.close c before
        simpa [settle, World.conn, Host.add, other] using same
      · subst new
        simp [settle, World.conn, Host.add, TcpConnection.create]

theorem staysNothing {w : World} (t : ThreadId) : Stays w t (w,[]) := staysServer rfl rfl rfl rfl (by simp)

theorem topFits {w : World} (h : Placed w) {t : ThreadId} {f : Act} {rest : List Act} (top : w.stack t = f :: rest) :
    f.fits w.host.loopOf t :=
  h.acts t f (by simp [top])

theorem placedStep {w w' : World} {a : Action} (r : Registry w) (h : Placed w) (taken : step w a = some w') :
    Placed w' := by
  cases stepCases taken with
  | start runs =>
    unfold startServer
    split
    · exact h
    · exact ⟨h.acts,h.queues,h.loops,h.close⟩
  | userConn runs made => exact placedSettle h (fun _ member => member) (staysCall _ _)
  | userStop runs =>
    exact placedSettle h (fun _ member => member) (staysServer rfl rfl rfl rfl (by simp [Act.fits, Task.home]))
  | close top => exact placedSettle h (belowTop top) (staysServer rfl rfl rfl rfl (by simp [Act.fits, Task.home]))
  | resume top own => exact placedSettle h (belowTop top) (staysConn (sameResume _ _) (topFits h top))
  | @queue t l task rest top other =>
    refine placedSettle h (belowTop top) ⟨rfl,rfl,rfl,fun _ => rfl,rfl,?_,by simp⟩
    intro l' task' member
    rcases memPushed member with old | ⟨here,new⟩
    · exact .inl old
    · rw [here, new]
      exact .inr (topFits h top)
  | run top => exact placedSettle h (belowTop top) (staysConn (sameRun _) (topFits h top))
  | @remove t c rest top =>
    have main : t = mainLoop := topFits h top
    subst main
    exact placedSettle h (belowTop top) (staysRemove c)
  | @stop t cb rest top =>
    have main : t = mainLoop := topFits h top
    subst main
    exact placedSettle h (belowTop top) (staysStop cb)
  | @removeTail t rest top =>
    have main : t = mainLoop := topFits h top
    subst main
    unfold removeTail
    split
    · exact placedSettle h (belowTop top) (staysFinalize false)
    · exact placedSettle h (belowTop top) (staysNothing _)
  | shutdownAll top =>
    have main := topFits h top
    exact placedSettle h (belowTop top) (staysEach main)
  | @stopTail t rest top =>
    have main : t = mainLoop := topFits h top
    subst main
    unfold stopTail
    split
    · exact placedSettle h (belowTop top) (staysFinalize false)
    · exact placedSettle h (belowTop top) (staysServer rfl rfl rfl rfl (by simp))
  | @sweepEntry t x rest stale force under top =>
    have main : t = mainLoop := topFits h top
    unfold sweepEntry
    split
    · exact placedSettle h (belowTop top) (staysServer rfl rfl rfl rfl (by simpa [Act.fits] using main))
    · exact placedSettle h (belowTop top) (staysServer rfl rfl rfl rfl (by simpa [Act.fits] using main))
  | @sweepEnd t stale force under top =>
    have main : t = mainLoop := topFits h top
    subst main
    exact placedSettle h (belowTop top) (staysSweepEnd stale force)
  | forceAll top =>
    have main := topFits h top
    exact placedSettle h (belowTop top) (staysEach main)
  | finishStop top =>
    unfold finishStop
    split
    · exact placedSettle h (belowTop top) (staysNothing _)
    · exact placedSettle h (belowTop top) (staysServer rfl rfl rfl rfl (by simp [Act.fits]))
  | @closeIdle t c rest under top =>
    have main := topFits h top
    have s : Stays w t (callConn w t c .forceClose) := staysCall c .forceClose
    refine placedSettle h (belowTop top) ⟨s.loopOf,s.next,s.threadNum,s.callbacks,s.stack,s.queue,?_⟩
    intro a member
    rcases List.mem_append.mp member with called | loop
    · exact s.frames a called
    · rw [List.mem_singleton.mp loop]
      exact main
  | ends top last => exact placedSettle h (belowTop top) (staysNothing _)
  | @runQueued l task rest idle head loop =>
    refine placedSettle h (by simp) ⟨rfl,rfl,rfl,fun _ => rfl,rfl,?_,?_⟩
    · exact fun l' task' member => .inl (memPopped head member)
    · intro a member
      rw [List.mem_singleton.mp member]
      exact h.queues l task (by simp [head])
  | poll idle => exact ⟨h.acts,h.queues,h.loops,h.close⟩
  | accept idle ready free =>
    have placed : Placed { w with acceptReady := false } := ⟨h.acts,h.queues,h.loops,h.close⟩
    have known : Registry { w with acceptReady := false } :=
      ⟨⟨r.table.key,r.table.socket⟩,r.stacked,r.queues⟩
    exact placedAccept placed known _ _
  | event idle made ok =>
    exact placedSettle h (by simp) (staysConn (sameChange (Connection.handleChange _ ok)) rfl)
  | scanIdle between among => exact placedSettle h (by simp) (staysServer rfl rfl rfl rfl (by simp [Act.fits]))
  | checkTimer between out =>
    rcases out with ⟨_,out⟩ | out <;> rw [out]
    · exact placedSettle h (by simp) (staysFinalize false)
    · exact placedSettle h (by simp) (staysNothing _)
  | deadlineTimer between armed =>
    have placed : Placed { w with server := { w.server with deadlineTimer := false }, deadlineRan := true } :=
      ⟨h.acts,h.queues,h.loops,h.close⟩
    exact placedSettle placed (by simp) (staysFinalize true)

theorem placedInitial {w : World} (h : Initial w) : Placed w := by
  obtain ⟨threadNum,callbacks,mark,idleTimeout,same⟩ := h
  subst same
  exact ⟨fun t a member => (by cases member),fun l task member => (by cases member),
    fun c known => absurd known (Nat.not_lt_zero c),fun c known => absurd known (Nat.not_lt_zero c)⟩

end TcFrame.TcpServer
