import TcFrame.TcpServerStop

/-! The sweep of FinalizeGracefulStop. ConnectDestroyed makes no close callback, so it
must only run for connections that have left the table; the sweep and the removal are
the two that hand it out. -/
namespace TcFrame.TcpServer
open Endpoint Machine

def Unregistered (w : World) (c : ConnId) : Prop := ∀ fd, w.lookup fd ≠ some c

/- A ConnectDestroyed is for a connection that has left the table; and a sweep goes over
entries as they were made. -/
def Task.Cleared (w : World) : Task → Prop
  | .conn c .connectDestroyed => Unregistered w c
  | _ => True

def Act.Cleared (w : World) : Act → Prop
  | .call _ task => task.Cleared w
  | .sweep rest stale _ => (∀ c ∈ stale, Unregistered w c) ∧ ∀ x ∈ rest, (w.conn x.2).channel.fd = x.1
  | _ => True

structure Cleared (w : World) : Prop where
  stacked : ∀ t, ∀ a ∈ w.stack t, a.Cleared w
  queues : ∀ l, ∀ task ∈ w.queue l, task.Cleared w

theorem unregisteredKeeps {w w' : World} {ran : Option ConnId} (k : Keeps w ran w') {c : ConnId}
    (known : c < w.host.next) (h : Unregistered w c) : Unregistered w' c := by
  intro fd found
  rcases k.shrinks fd c found with before | new
  · exact h fd before
  · exact Nat.not_le_of_lt known new

theorem taskCleared {w w' : World} {ran : Option ConnId} (k : Keeps w ran w') {task : Task}
    (known : ∀ c ∈ task.conns, c < w.host.next) (h : task.Cleared w) : task.Cleared w' := by
  cases task with
  | conn c f =>
    cases f with
    | connectDestroyed => exact unregisteredKeeps k (known c (by simp [Task.conns])) h
    | _ => trivial
  | _ => trivial

theorem actCleared {w w' : World} {ran : Option ConnId} (k : Keeps w ran w') {a : Act}
    (known : ∀ c ∈ a.conns, c < w.host.next) (h : a.Cleared w) : a.Cleared w' := by
  cases a with
  | call l task => exact taskCleared k known h
  | sweep rest stale force =>
    refine ⟨fun c member => ?_,fun x member => ?_⟩
    · exact unregisteredKeeps k (known c (by simp [Act.conns, member])) (h.1 c member)
    · have made : x.2 < w.host.next := by
        refine known x.2 (List.mem_append_left _ ?_)
        exact List.mem_map.mpr ⟨x,member,rfl⟩
      exact (k.channel x.2 made).trans (h.2 x member)
  | _ => trivial

theorem clearedSettle {w : World} (h : Cleared w) (r : Registry w) {t : ThreadId} {below : List Act} {out : Effect}
    {ran : Option ConnId} (under : ∀ a ∈ below, a ∈ w.stack t) (k : Keeps w ran (settle t below out))
    (stack : out.1.stack = w.stack) (queue : ∀ l, ∀ task ∈ out.1.queue l, task ∈ w.queue l ∨ task.Cleared out.1)
    (frames : ∀ a ∈ out.2, a.Cleared out.1) : Cleared (settle t below out) := by
  refine ⟨?_,?_⟩
  · intro t' a member
    simp only [settle, Function.update_apply] at member
    split at member
    · rcases List.mem_append.mp member with new | old
      · exact frames a new
      · exact actCleared k (r.stacked t a (under a old)) (h.stacked t a (under a old))
    · rw [stack] at member
      exact actCleared k (r.stacked t' a member) (h.stacked t' a member)
  · intro l task member
    rcases queue l task member with old | new
    · exact taskCleared k (r.queues l task old) (h.queues l task old)
    · exact new

theorem requestFunctor {e : Endpoint} {t : ThreadId} {call : UserCall} {f : Functor}
    (handed : (e.request t call).2 = some f) : f ≠ .connectDestroyed := by
  cases call <;> simp only [request, send, shutdown, forceClose] at handed <;> split at handed <;> cases handed <;> simp

theorem callCleared {w w' : World} {t : ThreadId} {c : ConnId} {call : UserCall} :
    ∀ a ∈ (callConn w t c call).2, a.Cleared w' := by
  intro a member
  obtain ⟨f,handed,made⟩ := List.mem_map.mp member
  subst made
  have other := requestFunctor (Option.mem_toList.mp handed)
  cases f with
  | connectDestroyed => exact absurd rfl other
  | _ => trivial

theorem connCleared {w w' : World} {c : ConnId} {out : Endpoint × List Frame} :
    ∀ a ∈ (ofConn w c out).2, a.Cleared w' := by
  intro a member
  obtain ⟨f,_,made⟩ := List.mem_map.mp member
  subst made
  trivial

theorem eachCleared {w : World} {t : ThreadId} {call : UserCall} {x : Entry} {again : Act}
    (plain : ∀ w', again.Cleared w') : ∀ a ∈ (eachEntry w t call x again).2, a.Cleared (eachEntry w t call x again).1 := by
  unfold eachEntry
  split
  · intro a member
    rcases List.mem_append.mp member with called | loop
    · exact callCleared a called
    · rw [List.mem_singleton.mp loop]
      exact plain _
  · intro a member
    rw [List.mem_singleton.mp member]
    exact plain _

theorem eachWorld (w : World) (t : ThreadId) (call : UserCall) (x : Entry) (again : Act) :
    (eachEntry w t call x again).1.stack = w.stack ∧ (eachEntry w t call x again).1.queue = w.queue := by
  unfold eachEntry
  split <;> exact ⟨rfl,rfl⟩

theorem finalizeCleared {w : World} (r : Registry w) (force : Bool) :
    ∀ a ∈ (finalizeGracefulStop w force).2, a.Cleared w := by
  unfold finalizeGracefulStop
  split
  · intro a member
    rw [List.mem_singleton.mp member]
    exact ⟨by simp,fun x entry => (r.table.key x.1 x.2 (memEntries.mp entry)).2⟩
  · simp

theorem clearedFinalize {w : World} (h : Cleared w) (r : Registry w) {t : ThreadId} {below : List Act}
    {ran : Option ConnId} (force : Bool) (under : ∀ a ∈ below, a ∈ w.stack t)
    (k : Keeps w ran (settle t below (finalizeGracefulStop w force))) :
    Cleared (settle t below (finalizeGracefulStop w force)) := by
  have same := finalizeWorld w force
  refine clearedSettle h r under k (by rw [same]) (fun l task member => ?_) ?_
  · rw [same] at member
    exact .inl member
  · rw [same]
    exact finalizeCleared r force

theorem stopCleared {w : World} (cb : Option Nat) :
    (stopGracefully w cb).1.stack = w.stack ∧ (stopGracefully w cb).1.queue = w.queue ∧
    ∀ a ∈ (stopGracefully w cb).2, a.Cleared (stopGracefully w cb).1 := by
  unfold stopGracefully
  dsimp only
  split
  · refine ⟨rfl,rfl,?_⟩
    intro a member
    obtain ⟨cb,_,made⟩ := List.mem_map.mp member
    subst made
    trivial
  · split <;> exact ⟨rfl,rfl,by simp [Act.Cleared]⟩

theorem removeCleared {w : World} (r : Registry w) {c : ConnId} (known : c < w.host.next) :
    (removeInLoop w c).1.stack = w.stack ∧ (removeInLoop w c).1.queue = w.queue ∧
    ∀ a ∈ (removeInLoop w c).2, a.Cleared (removeInLoop w c).1 := by
  unfold removeInLoop
  split
  · exact ⟨rfl,rfl,by simp⟩
  · rename_i fd valid
    split
    · exact ⟨rfl,rfl,by simp⟩
    · refine ⟨rfl,rfl,?_⟩
      intro a member
      rcases List.mem_cons.mp member with destroy | tail
      · subst destroy
        exact eraseGone r.table (socketFd r.table known valid)
      · rw [List.mem_singleton.mp tail]
        trivial

theorem finishWorld (w : World) (force : Bool) :
    (finishStop w force).1.stack = w.stack ∧ (finishStop w force).1.queue = w.queue ∧
    (finishStop w force).1.host = w.host ∧ (finishStop w force).1.lookup = w.lookup ∧
    (finishStop w force).1.deadlineRan = w.deadlineRan ∧
    ∀ a ∈ (finishStop w force).2, ∃ cb, a = .completeCallback cb := by
  unfold finishStop
  split
  · exact ⟨rfl,rfl,rfl,rfl,rfl,by simp⟩
  · refine ⟨rfl,rfl,rfl,rfl,rfl,?_⟩
    intro a member
    obtain ⟨cb,_,made⟩ := List.mem_map.mp member
    exact ⟨cb,made.symm⟩

theorem sweepEntryCleared {w : World} (r : Registry w) {x : Entry} {rest : List Entry} {stale : List ConnId}
    {force : Bool} (h : (Act.sweep (x :: rest) stale force).Cleared w) :
    ∀ a ∈ (sweepEntry w x rest stale force).2, a.Cleared (sweepEntry w x rest stale force).1 := by
  have later : ∀ y ∈ rest, (w.conn y.2).channel.fd = y.1 := fun y member => h.2 y (List.mem_cons_of_mem _ member)
  unfold sweepEntry
  split
  · intro a member
    rw [List.mem_singleton.mp member]
    exact ⟨h.1,later⟩
  · intro a member
    rw [List.mem_singleton.mp member]
    refine ⟨fun c stale' => ?_,later⟩
    rcases List.mem_append.mp stale' with old | new
    · intro fd found
      rw [lookupErase] at found
      split at found
      · cases found
      · exact h.1 c old fd found
    · rw [List.mem_singleton.mp new]
      exact eraseGone r.table (h.2 x (by simp))

theorem sweepEndCleared {w : World} {stale : List ConnId} {force : Bool}
    (h : ∀ c ∈ stale, Unregistered w c) : ∀ a ∈ (sweepEnd w stale force).2, a.Cleared w := by
  intro a member
  rcases List.mem_append.mp member with early | last
  · rcases List.mem_append.mp early with destroyed | forced
    · obtain ⟨c,old,made⟩ := List.mem_map.mp destroyed
      subst made
      exact h c old
    · split at forced
      · rw [List.mem_singleton.mp forced]
        trivial
      · cases forced
  · rw [List.mem_singleton.mp last]
    trivial

theorem newCleared (w : World) (fd : Fd) (bufferSize : Nat) :
    (newConnection w fd bufferSize).1.stack = w.stack ∧ (newConnection w fd bufferSize).1.queue = w.queue ∧
    ∀ a ∈ (newConnection w fd bufferSize).2, a.Cleared (newConnection w fd bufferSize).1 := by
  unfold newConnection
  dsimp only
  split <;> exact ⟨rfl,rfl,by simp [Act.Cleared, Task.Cleared]⟩

theorem queueLeft {w v : World} (same : v.queue = w.queue) (l : ThreadId) :
    ∀ task ∈ v.queue l, task ∈ w.queue l ∨ task.Cleared v := by
  intro task member
  rw [same] at member
  exact .inl member

theorem clearedStep {w w' : World} {a : Action} (r : Registry w) (h : Cleared w) (taken : step w a = some w') :
    Cleared w' := by
  have topCleared : ∀ {t f rest}, w.stack t = f :: rest → f.Cleared w := by
    intro t f rest top
    exact h.stacked t f (by simp [top])
  have nothing : ∀ a ∈ ([] : List Act), a ∈ w.stack mainLoop := by simp
  have kept : ∀ l, ∀ task ∈ w.queue l, task ∈ w.queue l ∨ task.Cleared w := fun _ _ member => .inl member
  have k := (registryStep r taken).2
  cases stepCases taken with
  | start runs =>
    unfold startServer at k ⊢
    split
    · exact h
    · exact ⟨fun t a member => h.stacked t a member,fun l task member => h.queues l task member⟩
  | userConn runs known => exact clearedSettle h r (fun _ member => member) k rfl (fun _ _ member => .inl member) callCleared
  | userStop runs => exact clearedSettle h r (fun _ member => member) k rfl kept (by simp [Act.Cleared, Task.Cleared])
  | close top => exact clearedSettle h r (belowTop top) k rfl kept (by simp [Act.Cleared, Task.Cleared])
  | resume top own => exact clearedSettle h r (belowTop top) k rfl (fun _ _ member => .inl member) connCleared
  | @queue t l task rest top other =>
    refine clearedSettle h r (belowTop top) k rfl ?_ (by simp)
    intro l' task' member
    rcases memPushed member with before | ⟨_,new⟩
    · exact .inl before
    · rw [new]
      have cleared := topCleared top
      cases task with
      | conn c f => cases f <;> exact .inr cleared
      | _ => exact .inr trivial
  | run top => exact clearedSettle h r (belowTop top) k rfl (fun _ _ member => .inl member) connCleared
  | @remove t c rest top =>
    obtain ⟨stack,queue,frames⟩ := removeCleared r (topKnown r top c (by simp [Act.conns, Task.conns]))
    exact clearedSettle h r (belowTop top) k stack (queueLeft queue) frames
  | @stop t cb rest top =>
    obtain ⟨stack,queue,frames⟩ := stopCleared (w := w) cb
    exact clearedSettle h r (belowTop top) k stack (queueLeft queue) frames
  | @removeTail t rest top =>
    unfold removeTail at k ⊢
    split at k
    · rename_i both
      rw [if_pos both]
      exact clearedFinalize h r false (belowTop top) k
    · rename_i other
      rw [if_neg other]
      exact clearedSettle h r (belowTop top) k rfl kept (by simp)
  | @shutdownAll t x rest under top =>
    obtain ⟨stack,queue⟩ := eachWorld w t .shutdown x (.shutdownAll rest)
    exact clearedSettle h r (belowTop top) k stack (queueLeft queue)
      (eachCleared (fun _ => trivial))
  | @stopTail t rest top =>
    unfold stopTail at k ⊢
    split at k
    · rename_i empty
      rw [if_pos empty]
      exact clearedFinalize h r false (belowTop top) k
    · rename_i left
      rw [if_neg left]
      exact clearedSettle h r (belowTop top) k rfl (fun _ _ member => .inl member) (by simp)
  | @sweepEntry t x rest stale force under top =>
    have same : (sweepEntry w x rest stale force).1.stack = w.stack ∧
        (sweepEntry w x rest stale force).1.queue = w.queue := by
      unfold sweepEntry
      split <;> exact ⟨rfl,rfl⟩
    exact clearedSettle h r (belowTop top) k same.1 (queueLeft same.2)
      (sweepEntryCleared r (topCleared top))
  | @sweepEnd t stale force under top =>
    refine clearedSettle h r (belowTop top) k rfl (fun _ _ member => .inl member) ?_
    exact sweepEndCleared (topCleared top).1
  | @forceAll t x rest under top =>
    obtain ⟨stack,queue⟩ := eachWorld w t .forceClose x (.forceAll rest)
    exact clearedSettle h r (belowTop top) k stack (queueLeft queue)
      (eachCleared (fun _ => trivial))
  | @finishStop t force under top =>
    obtain ⟨stack,queue,_,_,_,frames⟩ := finishWorld w force
    refine clearedSettle h r (belowTop top) k stack (queueLeft queue) ?_
    intro a member
    obtain ⟨cb,made⟩ := frames a member
    rw [made]
    trivial
  | @closeIdle t c rest under top =>
    refine clearedSettle h r (belowTop top) k rfl (fun _ _ member => .inl member) ?_
    intro a member
    rcases List.mem_append.mp member with called | loop
    · exact callCleared a called
    · rw [List.mem_singleton.mp loop]
      trivial
  | ends top last => exact clearedSettle h r (belowTop top) k rfl kept (by simp)
  | @runQueued l task rest idle head loop =>
    refine clearedSettle h r (by simp) k rfl ?_ ?_
    · exact fun l' task' member => .inl (memPopped head member)
    · intro a member
      rw [List.mem_singleton.mp member]
      have cleared := h.queues l task (by simp [head])
      cases task with
      | conn c f => cases f <;> exact cleared
      | _ => trivial
  | poll idle => exact ⟨fun t a member => h.stacked t a member,fun l task member => h.queues l task member⟩
  | @accept fd bufferSize idle ready free =>
    have before : Cleared { w with acceptReady := false } := ⟨h.stacked,h.queues⟩
    have known : Registry { w with acceptReady := false } := ⟨⟨r.table.key,r.table.socket⟩,r.stacked,r.queues⟩
    obtain ⟨stack,queue,frames⟩ := newCleared { w with acceptReady := false } fd bufferSize
    exact clearedSettle before known nothing ⟨k.next,k.channel,k.shrinks,k.removed⟩ stack
      (queueLeft queue) frames
  | event idle known ok => exact clearedSettle h r (by simp) k rfl (fun _ _ member => .inl member) connCleared
  | scanIdle between among => exact clearedSettle h r (by simp) k rfl kept (by simp [Act.Cleared])
  | checkTimer between out =>
    rcases out with ⟨_,out⟩ | out <;> subst out
    · exact clearedFinalize h r false (by simp) k
    · exact clearedSettle h r (by simp) k rfl kept (by simp)
  | deadlineTimer between armed =>
    have before : Cleared { w with server := { w.server with deadlineTimer := false }, deadlineRan := true } :=
      ⟨h.stacked,h.queues⟩
    have known : Registry { w with server := { w.server with deadlineTimer := false }, deadlineRan := true } :=
      ⟨⟨r.table.key,r.table.socket⟩,r.stacked,r.queues⟩
    exact clearedFinalize before known true nothing ⟨k.next,k.channel,k.shrinks,k.removed⟩

theorem clearedInitial {w : World} (h : Initial w) : Cleared w := by
  obtain ⟨threadNum,callbacks,mark,idleTimeout,same⟩ := h
  subst same
  exact ⟨fun t a member => (by cases member),fun l task member => (by cases member)⟩

end TcFrame.TcpServer
