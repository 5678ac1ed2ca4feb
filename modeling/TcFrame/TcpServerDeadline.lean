import TcFrame.TcpServerSweep

/-! From the deadline on: each connection still in the table is looked at, closed by
force, or already on its way out; and it stays on its way until its removal has run. -/
namespace TcFrame.TcpServer
open Endpoint Machine

/- What takes a connection out of the table by itself. -/
def Act.Ways (c : ConnId) : Act → Prop
  | .conn d .closeCallback => d = c
  | .call _ (.remove d) => d = c
  | _ => False

/- What will close the connection of an entry by force, and what will look at it first. -/
def Act.Forces (x : Entry) : Act → Prop
  | .call _ (.conn d .forceCloseInLoop) => d = x.2
  | .sweep _ _ force => force = true
  | .forceAll rest => x ∈ rest
  | _ => False

def Act.Sweeps (x : Entry) : Act → Prop
  | .sweep rest _ force => force = true ∧ x ∈ rest
  | _ => False

/- On the stack of one of the loops' threads. -/
def Holds (w : World) (p : Act → Prop) : Prop := ∃ t ≤ w.server.threadNum, ∃ a ∈ w.stack t, p a

def OnWay (w : World) (c : ConnId) : Prop := Holds w (Act.Ways c) ∨ Task.remove c ∈ w.queue mainLoop

def Leaves (w : World) (x : Entry) : Prop :=
  OnWay w x.2 ∨ Holds w (Act.Forces x) ∨ Task.conn x.2 .forceCloseInLoop ∈ w.queue (w.host.loopOf x.2)

structure Ending (w : World) (x : Entry) : Prop where
  begun : (w.conn x.2).state ≠ .connecting
  closed : (w.conn x.2).state = .disconnected → OnWay w x.2
  leaves : Leaves w x

def Leaving (w : World) : Prop :=
  w.deadlineRan = true → ∀ x : Entry, w.lookup x.1 = some x.2 → Holds w (Act.Sweeps x) ∨ Ending w x

/- A step takes `top` off a stack and otherwise only moves a functor from a queue to the
stack of its loop. -/
structure Moves (w : World) (top : List Act) (w' : World) : Prop where
  stack : ∀ t, ∀ a ∈ w.stack t, a ∈ top ∨ a ∈ w'.stack t
  queue : ∀ l, ∀ task ∈ w.queue l, task ∈ w'.queue l ∨ (l ≤ w.server.threadNum ∧ .call l task ∈ w'.stack l)
  loopOf : w'.host.loopOf = w.host.loopOf
  threadNum : w'.server.threadNum = w.server.threadNum

/- The state of a connection does not go back, and a connection that is closed is on its
way out. -/
structure Steady (w w' : World) (c : ConnId) : Prop where
  begun : (w.conn c).state ≠ .connecting → (w'.conn c).state ≠ .connecting
  closes : (w'.conn c).state = .disconnected → (w.conn c).state = .disconnected ∨ OnWay w' c

theorem steadySame {w w' : World} {c : ConnId} (same : w'.conn c = w.conn c) : Steady w w' c :=
  ⟨by rw [same]; exact id,by rw [same]; exact .inl⟩

theorem movesSettle {w : World} {t : ThreadId} {below : List Act} {out : Effect} (top : List Act)
    (stack : w.stack t = top ++ below) (stacked : out.1.stack = w.stack)
    (queue : ∀ l, ∀ task ∈ w.queue l, task ∈ out.1.queue l) (loopOf : out.1.host.loopOf = w.host.loopOf)
    (threadNum : out.1.server.threadNum = w.server.threadNum) : Moves w top (settle t below out) := by
  refine ⟨?_,fun l task member => .inl (queue l task member),loopOf,threadNum⟩
  intro t' a member
  simp only [settle, stacked, Function.update_apply]
  split
  · rename_i here
    rw [here, stack] at member
    exact (List.mem_append.mp member).imp_right (List.mem_append_right _)
  · exact .inr member

theorem holdsMoves {w w' : World} {top : List Act} {p : Act → Prop} (m : Moves w top w') (h : Holds w p) :
    (∃ a ∈ top, p a) ∨ Holds w' p := by
  obtain ⟨t,loop,a,member,found⟩ := h
  rcases m.stack t a member with taken | kept
  · exact .inl ⟨a,taken,found⟩
  · exact .inr ⟨t,by rw [m.threadNum]; exact loop,a,kept,found⟩

theorem onWayMoves {w w' : World} {top : List Act} {c : ConnId} (m : Moves w top w') (h : OnWay w c)
    (ways : ∀ a ∈ top, a.Ways c → OnWay w' c) : OnWay w' c := by
  rcases h with held | queued
  · rcases holdsMoves m held with ⟨a,taken,found⟩ | kept
    · exact ways a taken found
    · exact .inl kept
  · rcases m.queue mainLoop _ queued with kept | ⟨loop,moved⟩
    · exact .inr kept
    · exact .inl ⟨mainLoop,by rw [m.threadNum]; exact loop,_,moved,rfl⟩

theorem leavesMoves {w w' : World} {top : List Act} {x : Entry} (m : Moves w top w') (h : Leaves w x)
    (ways : ∀ a ∈ top, a.Ways x.2 → OnWay w' x.2) (forces : ∀ a ∈ top, a.Forces x → Leaves w' x) : Leaves w' x := by
  rcases h with way | held | queued
  · exact .inl (onWayMoves m way ways)
  · rcases holdsMoves m held with ⟨a,taken,found⟩ | kept
    · exact forces a taken found
    · exact .inr (.inl kept)
  · rcases m.queue _ _ queued with kept | ⟨loop,moved⟩
    · exact .inr (.inr (by rw [m.loopOf]; exact kept))
    · exact .inr (.inl ⟨_,by rw [m.threadNum]; exact loop,_,moved,rfl⟩)

theorem endingMoves {w w' : World} {top : List Act} {x : Entry} (m : Moves w top w') (h : Ending w x)
    (s : Steady w w' x.2) (ways : ∀ a ∈ top, a.Ways x.2 → OnWay w' x.2)
    (forces : ∀ a ∈ top, a.Forces x → Leaves w' x) : Ending w' x := by
  refine ⟨s.begun h.begun,fun ended => ?_,leavesMoves m h.leaves ways forces⟩
  rcases s.closes ended with before | way
  · exact onWayMoves m (h.closed before) ways
  · exact way

/- What a step makes of one entry that stays in the table. -/
structure Follows (w w' : World) (top : List Act) (x : Entry) : Prop where
  moves : Moves w top w'
  steady : Steady w w' x.2
  ways : ∀ a ∈ top, a.Ways x.2 → OnWay w' x.2
  forces : Ending w x → ∀ a ∈ top, a.Forces x → Leaves w' x
  sweeps : ∀ a ∈ top, a.Sweeps x → Holds w' (Act.Sweeps x) ∨ Ending w' x

theorem followsEnding {w w' : World} {top : List Act} {x : Entry} (f : Follows w w' top x)
    (h : Holds w (Act.Sweeps x) ∨ Ending w x) : Holds w' (Act.Sweeps x) ∨ Ending w' x := by
  rcases h with swept | ending
  · rcases holdsMoves f.moves swept with ⟨a,taken,found⟩ | kept
    · exact f.sweeps a taken found
    · exact .inl kept
  · exact .inr (endingMoves f.moves ending f.steady f.ways (f.forces ending))

theorem followsOne {w w' : World} {top : Act} {x : Entry} (moves : Moves w [top] w') (steady : Steady w w' x.2)
    (ways : top.Ways x.2 → OnWay w' x.2) (forces : Ending w x → top.Forces x → Leaves w' x)
    (sweeps : top.Sweeps x → Holds w' (Act.Sweeps x) ∨ Ending w' x) : Follows w w' [top] x := by
  refine ⟨moves,steady,fun a member way => ?_,fun ending a member force => ?_,fun a member sweep => ?_⟩
  · rw [List.mem_singleton.mp member] at way
    exact ways way
  · rw [List.mem_singleton.mp member] at force
    exact forces ending force
  · rw [List.mem_singleton.mp member] at sweep
    exact sweeps sweep

/- What neither removes, nor forces, nor sweeps. -/
def idleAct : Act → Bool
  | .conn _ .closeCallback | .call _ (.conn _ _) | .call _ (.remove _) | .sweep _ _ _ | .forceAll (_ :: _) => false
  | _ => true

theorem followsIdle {w w' : World} {top : List Act} {x : Entry} (m : Moves w top w') (s : Steady w w' x.2)
    (idle : ∀ a ∈ top, idleAct a = true) : Follows w w' top x := by
  have none_ : ∀ a ∈ top, ¬ a.Ways x.2 ∧ ¬ a.Forces x ∧ ¬ a.Sweeps x := by
    intro a member
    have plain := idle a member
    cases a with
    | conn c f => cases f <;> simp_all [Act.Ways, Act.Forces, Act.Sweeps, idleAct]
    | call l task => cases task <;> simp_all [Act.Ways, Act.Forces, Act.Sweeps, idleAct]
    | sweep rest stale force => cases plain
    | forceAll rest => cases rest <;> simp_all [Act.Ways, Act.Forces, Act.Sweeps, idleAct]
    | _ => simp [Act.Ways, Act.Forces, Act.Sweeps]
  exact ⟨m,s,fun a member way => absurd way (none_ a member).1,
    fun _ a member force => absurd force (none_ a member).2.1,
    fun a member sweep => absurd sweep (none_ a member).2.2⟩

/- A function of connection `c` on its own loop's thread. -/
theorem steadyConn {w : World} (p : Placed w) {t : ThreadId} {below : List Act} {c : ConnId} {out : Endpoint × List Frame}
    (known : c < w.host.next) (home : t = w.host.loopOf c) (advances : Advances (w.host.endpoint c) out.1 out.2)
    (d : ConnId) : Steady w (settle t below (ofConn w c out)) d := by
  by_cases here : d = c
  · subst here
    have state : ((settle t below (ofConn w d out)).conn d).state = out.1.conn.state := by
      simp [ofConn]
    refine ⟨by rw [state]; exact advances.begun,fun ended => ?_⟩
    rw [state] at ended
    by_cases before : (w.conn d).state = .disconnected
    · exact .inl before
    · have made := advances.closes before ended (p.close d known)
      have there : Act.conn d .closeCallback ∈ (settle t below (ofConn w d out)).stack t := by
        simp only [settle, Function.update_self, ofConn]
        exact List.mem_append_left _ (List.mem_map.mpr ⟨_,made,rfl⟩)
      exact .inr (.inl ⟨t,by rw [home]; exact p.loops d known,_,there,rfl⟩)
  · exact steadySame (by simp [ofConn, here])

theorem steadyOther {w : World} {t : ThreadId} {below : List Act} {c d : ConnId} {out : Endpoint × List Frame}
    (other : d ≠ c) : Steady w (settle t below (ofConn w c out)) d :=
  steadySame (by simp [ofConn, other])

theorem requestSteady {w : World} {t : ThreadId} {below acts : List Act} {c : ConnId} {call : UserCall} (d : ConnId) :
    Steady w (settle t below ((callConn w t c call).1,acts)) d := by
  by_cases here : d = c
  · subst here
    have state : ((settle t below ((callConn w t d call).1,acts)).conn d).state =
        ((w.host.endpoint d).request t call).1.conn.state := by
      simp [callConn]
    obtain ⟨begun,ended⟩ := requestMonotone (w.host.endpoint d) t call
    exact ⟨by rw [state]; exact begun,by rw [state]; exact fun closed => .inl (ended closed)⟩
  · exact steadySame (by simp [callConn, here])

theorem callKeeps {w : World} (t : ThreadId) {below acts : List Act} {c : ConnId} {call : UserCall} (top : List Act)
    (stack : w.stack t = top ++ below) : Moves w top (settle t below ((callConn w t c call).1,acts)) :=
  movesSettle top stack rfl (fun _ _ member => member) rfl rfl

/- The closing of one connection: the close callback, the functor it posts, its run. -/
theorem followsClose {w : World} (p : Placed w) {t : ThreadId} {c : ConnId} {below : List Act} (known : c < w.host.next)
    (top : w.stack t = .conn c .closeCallback :: below) (x : Entry) :
    Follows w (settle t below (w,[.call mainLoop (.remove c)])) [.conn c .closeCallback] x := by
  have home : t = w.host.loopOf c := topFits p top
  refine followsOne (movesSettle [_] top rfl (fun _ _ member => member) rfl rfl) (steadySame rfl) ?_ ?_ ?_
  · intro way
    refine .inl ⟨t,by rw [home]; exact p.loops c known,.call mainLoop (.remove c),?_,way⟩
    simp [settle]
  · intro _ force
    cases force
  · intro sweep
    cases sweep

theorem followsQueue {w : World} (p : Placed w) {t l : ThreadId} {task : Task} {below : List Act}
    (top : w.stack t = .call l task :: below) (x : Entry) :
    Follows w (settle t below ({ w with queue := Function.update w.queue l (w.queue l ++ [task]) },[]))
      [.call l task] x := by
  have fits : l = task.home w.host.loopOf := topFits p top
  have grows : ∀ l', ∀ task' ∈ w.queue l', task' ∈ Function.update w.queue l (w.queue l ++ [task]) l' := by
    intro l' task' member
    simp only [Function.update_apply]
    split
    · rename_i here
      rw [here] at member
      exact List.mem_append_left _ member
    · exact member
  have last : task ∈ Function.update w.queue l (w.queue l ++ [task]) l := by simp
  refine followsOne (movesSettle [_] top rfl grows rfl rfl) (steadySame rfl) ?_ ?_ ?_
  · intro way
    cases task with
    | remove d =>
      cases way
      subst fits
      exact .inr last
    | _ => cases way
  · intro _ force
    cases task with
    | conn d f =>
      cases f with
      | forceCloseInLoop =>
        have here : d = x.2 := force
        subst here
        subst fits
        exact .inr (.inr last)
      | _ => cases force
    | _ => cases force
  · intro sweep
    cases sweep

theorem followsRun {w : World} (p : Placed w) {t : ThreadId} {c : ConnId} {f : Functor} {below : List Act}
    (known : c < w.host.next) (top : w.stack t = .call t (.conn c f) :: below) {x : Entry}
    (others : f = .connectDestroyed → x.2 ≠ c) :
    Follows w (settle t below (ofConn w c ((w.host.endpoint c).run f))) [.call t (.conn c f)] x := by
  have home : t = w.host.loopOf c := topFits p top
  have moves : Moves w [.call t (.conn c f)] (settle t below (ofConn w c ((w.host.endpoint c).run f))) :=
    movesSettle [_] top rfl (fun _ _ member => member) rfl rfl
  have steady : Steady w (settle t below (ofConn w c ((w.host.endpoint c).run f))) x.2 := by
    by_cases destroys : f = .connectDestroyed
    · exact steadyOther (others destroys)
    · exact steadyConn p known home (runAdvances _ destroys) x.2
  refine followsOne moves steady ?_ ?_ ?_
  · intro way
    cases way
  · intro ending force
    cases f with
    | forceCloseInLoop =>
      have here : c = x.2 := force
      subst here
      have ended : ((settle t below (ofConn w x.2 ((w.host.endpoint x.2).run .forceCloseInLoop))).conn x.2).state =
          .disconnected := by
        simp only [connSettle, ofConn, World.connPut]
        exact forceCloseOver ending.begun
      rcases steady.closes ended with before | way
      · exact .inl (onWayMoves moves (ending.closed before) (by simp [Act.Ways]))
      · exact .inl way
    | _ => cases force
  · intro sweep
    cases sweep

/- A removal that finds its connection takes it out of the table. -/
theorem followsRemove {w : World} (r : Registry w) {t : ThreadId} {c : ConnId} {below : List Act}
    (known : c < w.host.next) (top : w.stack t = .call t (.remove c) :: below) (found : findable w c) {x : Entry}
    (there : (removeInLoop w c).1.lookup x.1 = some x.2) :
    Follows w (settle t below (removeInLoop w c)) [.call t (.remove c)] x := by
  have world : (removeInLoop w c).1.stack = w.stack ∧ (removeInLoop w c).1.queue = w.queue ∧
      (removeInLoop w c).1.host = w.host ∧ (removeInLoop w c).1.server.threadNum = w.server.threadNum := by
    unfold removeInLoop
    split
    · exact ⟨rfl,rfl,rfl,rfl⟩
    · split <;> exact ⟨rfl,rfl,rfl,rfl⟩
  obtain ⟨stack,queue,host,threadNum⟩ := world
  have same : (settle t below (removeInLoop w c)).conn x.2 = w.conn x.2 := by
    rw [connSettle, World.connSame host]
  refine followsOne (movesSettle [_] top stack (by rw [queue]; exact fun _ _ member => member) (by rw [host]) threadNum)
    (steadySame same) ?_ ?_ ?_
  · intro way
    have here : c = x.2 := way
    subst here
    exact absurd there (removeGone r.table known found x.1)
  · intro _ force
    cases force
  · intro sweep
    cases sweep

theorem followsSweepEntry {w : World} {y : Entry} {rest : List Entry} {stale : List ConnId} {force : Bool}
    {below : List Act} (top : w.stack mainLoop = .sweep (y :: rest) stale force :: below) {x : Entry}
    (there : (sweepEntry w y rest stale force).1.lookup x.1 = some x.2) :
    Follows w (settle mainLoop below (sweepEntry w y rest stale force)) [.sweep (y :: rest) stale force] x := by
  have again : ∃ stale', Act.sweep rest stale' force ∈
      (settle mainLoop below (sweepEntry w y rest stale force)).stack mainLoop := by
    unfold sweepEntry
    split
    · exact ⟨stale,by simp [settle]⟩
    · exact ⟨stale ++ [y.2],by simp [settle]⟩
  have world : (sweepEntry w y rest stale force).1.stack = w.stack ∧
      (sweepEntry w y rest stale force).1.queue = w.queue ∧ (sweepEntry w y rest stale force).1.host = w.host ∧
      (sweepEntry w y rest stale force).1.server.threadNum = w.server.threadNum := by
    unfold sweepEntry
    split <;> exact ⟨rfl,rfl,rfl,rfl⟩
  obtain ⟨stale',again⟩ := again
  obtain ⟨stack,queue,host,threadNum⟩ := world
  have same : (settle mainLoop below (sweepEntry w y rest stale force)).conn x.2 = w.conn x.2 := by
    simp only [settle, World.conn, host]
  have forces : force = true → Holds (settle mainLoop below (sweepEntry w y rest stale force)) (Act.Forces x) :=
    fun on => ⟨mainLoop,Nat.zero_le _,_,again,on⟩
  refine followsOne (movesSettle [_] top stack (by rw [queue]; exact fun _ _ member => member) (by rw [host]) threadNum)
    (steadySame same) ?_ ?_ ?_
  · intro way
    cases way
  · intro _ force
    exact .inr (.inl (forces force))
  · intro sweep
    obtain ⟨on,entry⟩ := sweep
    rcases List.mem_cons.mp entry with head | later
    · subst head
      have connected : (w.conn x.2).isConnected = true := by
        by_contra other
        unfold sweepEntry at there
        rw [if_neg other, lookupErase, if_pos rfl] at there
        cases there
      have state : ((settle mainLoop below (sweepEntry w x rest stale force)).conn x.2).state = .connected := by
        rw [same]
        simpa [TcpConnection.isConnected] using connected
      exact .inr ⟨by rw [state]; simp,(fun ended => by rw [state] at ended; cases ended),.inr (.inl (forces on))⟩
    · exact .inl ⟨mainLoop,Nat.zero_le _,_,again,on,later⟩

theorem followsSweepEnd {w : World} {stale : List ConnId} {force : Bool} {below : List Act}
    (top : w.stack mainLoop = .sweep [] stale force :: below) {x : Entry} (there : w.lookup x.1 = some x.2) :
    Follows w (settle mainLoop below (sweepEnd w stale force)) [.sweep [] stale force] x := by
  refine followsOne (movesSettle [_] top rfl (fun _ _ member => member) rfl rfl) (steadySame rfl) ?_ ?_ ?_
  · intro way
    cases way
  · intro _ on
    have forced : force = true := on
    refine .inr (.inl ⟨mainLoop,Nat.zero_le _,.forceAll w.entries,?_,memEntries.mpr there⟩)
    simp [settle, sweepEnd, forced]
  · intro sweep
    cases sweep.2

/- ForceClose of a connection that is Connected or Disconnecting posts its functor. -/
theorem forceClosePosts {w : World} {t : ThreadId} {c : ConnId} (begun : (w.conn c).state ≠ .connecting)
    (up : (w.conn c).state ≠ .disconnected) :
    Act.call (w.host.loopOf c) (.conn c .forceCloseInLoop) ∈ (callConn w t c .forceClose).2 := by
  have open_ : (w.host.endpoint c).isOpenState = true := by
    by_contra shut
    exact up (shutState (by simpa using shut) begun)
  simp [callConn, Endpoint.request, forceClose, open_]

theorem followsForceAll {w : World} {y : Entry} {rest : List Entry} {below : List Act}
    (top : w.stack mainLoop = .forceAll (y :: rest) :: below) {x : Entry} (there : w.lookup x.1 = some x.2) :
    Follows w (settle mainLoop below (eachEntry w mainLoop .forceClose y (.forceAll rest))) [.forceAll (y :: rest)] x := by
  have again : Act.forceAll rest ∈ (eachEntry w mainLoop .forceClose y (.forceAll rest)).2 := by
    unfold eachEntry
    split <;> simp
  have arrives : ∀ a ∈ (eachEntry w mainLoop .forceClose y (.forceAll rest)).2,
      a ∈ (settle mainLoop below (eachEntry w mainLoop .forceClose y (.forceAll rest))).stack mainLoop := by
    intro a member
    simp only [settle, Function.update_self]
    exact List.mem_append_left _ member
  have moves : Moves w [.forceAll (y :: rest)]
      (settle mainLoop below (eachEntry w mainLoop .forceClose y (.forceAll rest))) := by
    unfold eachEntry
    split
    · exact callKeeps mainLoop [_] top
    · exact movesSettle [_] top rfl (fun _ _ member => member) rfl rfl
  have steady : Steady w (settle mainLoop below (eachEntry w mainLoop .forceClose y (.forceAll rest))) x.2 := by
    unfold eachEntry
    split
    · exact requestSteady x.2
    · exact steadySame rfl
  refine followsOne moves steady ?_ ?_ ?_
  · intro way
    cases way
  · intro ending force
    rcases List.mem_cons.mp force with head | later
    · subst head
      by_cases ended : (w.conn x.2).state = .disconnected
      · exact .inl (onWayMoves moves (ending.closed ended) (by simp [Act.Ways]))
      · have posted := forceClosePosts (t := mainLoop) ending.begun ended
        have among : Act.call (w.host.loopOf x.2) (.conn x.2 .forceCloseInLoop) ∈
            (eachEntry w mainLoop .forceClose x (.forceAll rest)).2 := by
          unfold eachEntry
          rw [if_pos there]
          exact List.mem_append_left _ posted
        exact .inr (.inl ⟨mainLoop,Nat.zero_le _,_,arrives _ among,rfl⟩)
    · exact .inr (.inl ⟨mainLoop,Nat.zero_le _,_,arrives _ again,later⟩)
  · intro sweep
    cases sweep

theorem leavingFollows {w w' : World} (h : Leaving w) (ran : w'.deadlineRan = w.deadlineRan)
    (table : ∀ fd c, w'.lookup fd = some c → w.lookup fd = some c) (top : List Act)
    (follows : w.deadlineRan = true → ∀ x : Entry, w'.lookup x.1 = some x.2 → Follows w w' top x) : Leaving w' := by
  intro ended x there
  rw [ran] at ended
  exact followsEnding (follows ended x there) (h ended x (table x.1 x.2 there))

/- A function of the server that keeps the table and the connections. -/
structure Flagged (w w' : World) : Prop where
  table : w'.lookup = w.lookup
  host : w'.host = w.host
  stack : w'.stack = w.stack
  queue : w'.queue = w.queue
  threadNum : w'.server.threadNum = w.server.threadNum
  ran : w'.deadlineRan = w.deadlineRan

theorem leavingFlagged {w : World} (h : Leaving w) {t : ThreadId} {below : List Act} {out : Effect} (top : List Act)
    (stack : w.stack t = top ++ below) (idle : ∀ a ∈ top, idleAct a = true) (f : Flagged w out.1) :
    Leaving (settle t below out) := by
  have table : ∀ fd c, (settle t below out).lookup fd = some c → w.lookup fd = some c := by
    intro fd c found
    rw [← f.table]
    exact found
  refine leavingFollows h f.ran table top (fun _ x _ => followsIdle ?_ (steadySame ?_) idle)
  · exact movesSettle top stack f.stack (by rw [f.queue]; exact fun _ _ member => member) (by rw [f.host]) f.threadNum
  · simp only [settle, World.conn, f.host]

theorem flaggedSame (w : World) : Flagged w w := ⟨rfl,rfl,rfl,rfl,rfl,rfl⟩

theorem flaggedStop (w : World) (cb : Option Nat) : Flagged w (stopGracefully w cb).1 := by
  unfold stopGracefully
  dsimp only
  split
  · exact ⟨rfl,rfl,rfl,rfl,rfl,rfl⟩
  · split <;> exact ⟨rfl,rfl,rfl,rfl,rfl,rfl⟩

theorem flaggedFinalize (w : World) (force : Bool) : Flagged w (finalizeGracefulStop w force).1 := by
  rw [finalizeWorld]
  exact flaggedSame w

theorem flaggedFinish (w : World) (force : Bool) : Flagged w (finishStop w force).1 := by
  unfold finishStop
  split <;> exact ⟨rfl,rfl,rfl,rfl,rfl,rfl⟩

theorem flaggedRemoveTail (w : World) : Flagged w (removeTail w).1 := by
  unfold removeTail
  split
  · exact flaggedFinalize w false
  · exact flaggedSame w

theorem flaggedStopTail (w : World) : Flagged w (stopTail w).1 := by
  unfold stopTail
  split
  · exact flaggedFinalize w false
  · exact ⟨rfl,rfl,rfl,rfl,rfl,rfl⟩

theorem eraseShrinks {w : World} {fd fd' : Fd} {c : ConnId} (found : (w.erase fd').lookup fd = some c) :
    w.lookup fd = some c := by
  rw [lookupErase] at found
  split at found
  · cases found
  · exact found

theorem removeShrinks {w : World} {c d : ConnId} {fd : Fd} (found : (removeInLoop w c).1.lookup fd = some d) :
    w.lookup fd = some d := by
  unfold removeInLoop at found
  split at found
  · exact found
  · split at found
    · exact found
    · exact eraseShrinks found

theorem sweepShrinks {w : World} {x : Entry} {rest : List Entry} {stale : List ConnId} {force : Bool} {fd : Fd}
    {c : ConnId} (found : (sweepEntry w x rest stale force).1.lookup fd = some c) : w.lookup fd = some c := by
  unfold sweepEntry at found
  split at found
  · exact found
  · exact eraseShrinks found

theorem endsIdle {a : Act} (last : ends a = true) : idleAct a = true := by
  cases a with
  | conn c f => cases f <;> first | rfl | cases last
  | call l task => cases last
  | sweep rest stale force => cases last
  | forceAll rest =>
    cases rest with
    | nil => rfl
    | cons x rest => cases last
  | _ => rfl

theorem leavingStart {w : World} (h : Leaving w) : Leaving (startServer w) := by
  unfold startServer
  split
  · exact h
  · exact fun ended => by cases ended

/- After the deadline nothing is accepted any more. -/
theorem leavingAccept {w : World} (st : Stop w) (ready : w.acceptReady = true) (fd : Fd) (bufferSize : Nat) :
    Leaving (settle mainLoop [] (newConnection { w with acceptReady := false } fd bufferSize)) := by
  intro ended
  have ran : w.deadlineRan = true := by
    unfold newConnection at ended
    dsimp only at ended
    split at ended <;> exact ended
  have closed := (st.flags.ran ran).2
  rw [ready] at closed
  cases closed

theorem leavingDeadline {w : World} (on : w.server.stopping = true) :
    Leaving (settle mainLoop [] (finalizeGracefulStop
      { w with server := { w.server with deadlineTimer := false }, deadlineRan := true } true)) := by
  unfold finalizeGracefulStop
  rw [if_pos on]
  intro _ x there
  have all : Act.sweep w.entries [] true ∈ [Act.sweep w.entries [] true] ++ [] := by simp
  exact .inl ⟨mainLoop,Nat.zero_le _,_,all,rfl,memEntries.mpr there⟩

theorem leavingStep {w w' : World} {a : Action} (r : Registry w) (p : Placed w) (cl : Cleared w) (st : Stop w)
    (h : Leaving w) (timely : (w.deadlineRan && misses w a) = false) (taken : step w a = some w') : Leaving w' := by
  have table : ∀ fd c, w.lookup fd = some c → w.lookup fd = some c := fun _ _ found => found
  have queue : ∀ l, ∀ task ∈ w.queue l, task ∈ w.queue l := fun _ _ member => member
  cases stepCases taken with
  | start runs => exact leavingStart h
  | userConn runs known =>
    refine leavingFollows h rfl table [] (fun _ x _ => followsIdle ?_ (requestSteady x.2) (by simp))
    exact callKeeps _ [] rfl
  | userStop runs =>
    refine leavingFollows h rfl table [] (fun _ x _ => followsIdle ?_ (steadySame rfl) (by simp))
    exact movesSettle [] rfl rfl queue rfl rfl
  | @close t c rest top =>
    exact leavingFollows h rfl table _ (fun _ x _ => followsClose p (topKnown r top c (by simp [Act.conns])) top x)
  | @resume t c f rest top own =>
    refine leavingFollows h rfl table [.conn c f] (fun _ x _ => followsIdle ?_ ?_ ?_)
    · exact movesSettle [_] top rfl queue rfl rfl
    · exact steadyConn p (topKnown r top c (by simp [Act.conns])) (topFits p top) (advancesSame (resumeState _ f)) x.2
    · cases f <;> simp_all [idleAct, Frame.isCallback]
  | queue top other => exact leavingFollows h rfl table _ (fun _ x _ => followsQueue p top x)
  | @run t c f rest top =>
    refine leavingFollows h rfl table [.call t (.conn c f)] (fun _ x there => ?_)
    refine followsRun p (topKnown r top c (by simp [Act.conns, Task.conns])) top (fun destroys same => ?_)
    subst destroys
    have gone : Unregistered w c := cl.stacked t (.call t (.conn c .connectDestroyed)) (by simp [top])
    exact gone x.1 (by rw [← same]; exact there)
  | @remove t c rest top =>
    refine leavingFollows h ?_ (fun fd d found => ?_) [.call t (.remove c)] (fun ran x there => ?_)
    · unfold removeInLoop
      split
      · rfl
      · split <;> rfl
    · exact removeShrinks found
    · have found : findable w c := by simpa [findable, misses, removalOf, top, ran] using timely
      exact followsRemove r (topKnown r top c (by simp [Act.conns, Task.conns])) top found there
  | @stop t cb rest top => exact leavingFlagged h [_] top (by simp [idleAct]) (flaggedStop w cb)
  | @removeTail t rest top => exact leavingFlagged h [_] top (by simp [idleAct]) (flaggedRemoveTail w)
  | @shutdownAll t x rest below top =>
    refine leavingFollows h ?_ ?_ [.shutdownAll (x :: rest)] (fun _ y _ => ?_)
    · unfold eachEntry
      split <;> rfl
    · unfold eachEntry
      split <;> exact fun _ _ found => found
    · unfold eachEntry
      split
      · exact followsIdle (callKeeps t [_] top) (requestSteady y.2) (by simp [idleAct])
      · exact followsIdle (movesSettle [_] top rfl queue rfl rfl) (steadySame rfl) (by simp [idleAct])
  | @stopTail t rest top => exact leavingFlagged h [_] top (by simp [idleAct]) (flaggedStopTail w)
  | @sweepEntry t x rest stale force below top =>
    have main : t = mainLoop := topFits p top
    subst main
    refine leavingFollows h ?_ (fun fd c found => ?_) [.sweep (x :: rest) stale force]
      (fun _ y there => followsSweepEntry top there)
    · unfold sweepEntry
      split <;> rfl
    · exact sweepShrinks found
  | @sweepEnd t stale force below top =>
    have main : t = mainLoop := topFits p top
    subst main
    exact leavingFollows h rfl table _ (fun _ x there => followsSweepEnd top there)
  | @forceAll t x rest below top =>
    have main : t = mainLoop := topFits p top
    subst main
    have shrinks : ∀ fd c, (eachEntry w mainLoop .forceClose x (.forceAll rest)).1.lookup fd = some c →
        w.lookup fd = some c := by
      unfold eachEntry
      split <;> exact fun _ _ found => found
    refine leavingFollows h ?_ shrinks [.forceAll (x :: rest)]
      (fun _ y there => followsForceAll top (shrinks y.1 y.2 there))
    unfold eachEntry
    split <;> rfl
  | @finishStop t force below top => exact leavingFlagged h [_] top (by simp [idleAct]) (flaggedFinish w force)
  | @closeIdle t c rest below top =>
    refine leavingFollows h rfl table [.closeIdle (c :: rest)] (fun _ x _ => followsIdle ?_ (requestSteady x.2) (by simp [idleAct]))
    exact callKeeps _ [_] top
  | @ends a t f rest top last =>
    refine leavingFollows h rfl table [f] (fun _ x _ => followsIdle ?_ (steadySame rfl) ?_)
    · exact movesSettle [_] top rfl queue rfl rfl
    · simpa using endsIdle last
  | @runQueued l task rest idle head loop =>
    refine leavingFollows h rfl table [] (fun _ x _ => followsIdle ⟨?_,?_,rfl,rfl⟩ (steadySame rfl) (by simp))
    · intro t a member
      refine .inr ?_
      simp only [settle, Function.update_apply]
      split
      · rename_i here
        rw [here, idle] at member
        cases member
      · exact member
    · intro l' task' member
      simp only [settle, Function.update_apply]
      split
      · rename_i here
        rw [here, head] at member
        rw [here]
        rcases List.mem_cons.mp member with first | later
        · subst first
          exact .inr ⟨loop,by simp⟩
        · exact .inl later
      · exact .inl member
  | poll idle =>
    intro ran x there
    rcases h ran x there with swept | ending
    · exact .inl swept
    · exact .inr ⟨ending.begun,ending.closed,ending.leaves⟩
  | accept idle ready free => exact leavingAccept st ready _ _
  | @event c ev idle known ok =>
    refine leavingFollows h rfl table [] (fun _ x _ => followsIdle ?_ ?_ (by simp))
    · exact movesSettle [] idle rfl queue rfl rfl
    · exact steadyConn p known rfl (handleAdvances _ ev) x.2
  | scanIdle between among =>
    have empty : w.stack mainLoop = [] := betweenIdle between
    refine leavingFollows h rfl table [] (fun _ x _ => followsIdle ?_ (steadySame rfl) (by simp))
    exact movesSettle [] empty rfl queue rfl rfl
  | checkTimer between out =>
    have empty : w.stack mainLoop = [] := betweenIdle between
    rcases out with ⟨_,out⟩ | out <;> subst out
    · exact leavingFlagged h [] empty (by simp) (flaggedFinalize w false)
    · exact leavingFlagged h [] empty (by simp) (flaggedSame w)
  | deadlineTimer between armed => exact leavingDeadline (st.flags.armed armed)

theorem leavingInitial {w : World} (h : Initial w) : Leaving w := by
  obtain ⟨threadNum,callbacks,mark,idleTimeout,same⟩ := h
  subst same
  exact fun ended => by cases ended

/- No loop is in a function or has a functor left. -/
def Executed (w : World) : Prop := ∀ l ≤ w.server.threadNum, w.stack l = [] ∧ w.queue l = []

def Finished (w : World) : Prop :=
  w.noConnections = true ∧ w.server.stopping = false ∧ ∀ cb, w.asked = some cb → cb ∈ w.completed

theorem executedHolds {w : World} (executed : Executed w) (p : Act → Prop) : ¬ Holds w p := by
  rintro ⟨t,loop,a,member,_⟩
  rw [(executed t loop).1] at member
  cases member

theorem executedEmpty {w : World} (r : Registry w) (p : Placed w) (h : Leaving w) (ran : w.deadlineRan = true)
    (executed : Executed w) : w.noConnections = true := by
  refine noConnectionsIff.mpr (fun fd => Option.eq_none_iff_forall_not_mem.mpr (fun c found => ?_))
  have loop := p.loops c (r.table.key fd c found).1
  have nobody := executedHolds executed
  rcases h ran (fd,c) found with swept | ending
  · exact nobody _ swept
  · rcases ending.leaves with (way | removal) | forced | posted
    · exact nobody _ way
    · rw [(executed mainLoop (Nat.zero_le _)).2] at removal
      cases removal
    · exact nobody _ forced
    · rw [(executed _ loop).2] at posted
      cases posted

/- A stop is finished once its deadline's handler and every functor have run, in every
run in which no removal comes too late from the deadline on. -/
theorem stopFinishes {s w : World} {as : List Action} (start : Initial s)
    (kept : Throughout step (fun u a => (u.deadlineRan && misses u a) = false) s as)
    (reached : run step s as = some w) (ran : w.deadlineRan = true) (executed : Executed w) : Finished w := by
  have keep : ∀ u a t, (Registry u ∧ Placed u ∧ Cleared u ∧ Stop u ∧ Leaving u) →
      (u.deadlineRan && misses u a) = false → step u a = some t →
      Registry t ∧ Placed t ∧ Cleared t ∧ Stop t ∧ Leaving t := by
    rintro u a t ⟨r,p,cl,st,h⟩ timely taken
    exact ⟨(registryStep r taken).1,placedStep r p taken,clearedStep r cl taken,stopStep p st taken,
      leavingStep r p cl st h timely taken⟩
  obtain ⟨r,p,_,st,h⟩ := invariantWhen keep
    ⟨registryInitial start,placedInitial start,clearedInitial start,stopInitial start,leavingInitial start⟩ kept reached
  have empty := executedEmpty r p h ran executed
  have stack := (executed mainLoop (Nat.zero_le _)).1
  have ended : w.server.stopping = false := by
    by_contra on
    obtain ⟨a,member,_⟩ := st.ends (by simpa using on) empty
    rw [stack] at member
    cases member
  exact ⟨empty,ended,st.flags.called ended⟩

/- One loop, one connection that never gets its byte out: the deadline finds it
Disconnecting and sweeps it. -/
def peerStalls : List Action :=
  [.start,.poll,.accept 5 64,.goOn 0,.user 0 (.conn 0 (.send [1])),.goOn 0,.goOn 0,
    .user 0 (.stopGracefully (some 7)),.goOn 0,.goOn 0,.goOn 0,.goOn 0,.goOn 0,
    .deadlineTimer,.goOn 0,.goOn 0,.goOn 0,.goOn 0,.goOn 0,.goOn 0,.goOn 0,.ret 0]

theorem stopFinishesStalled : ∃ w, run step (constructed 0 quiet 2 false) peerStalls = some w ∧
    w.asked = some 7 ∧ Finished w := by
  have reached : ∃ w, run step (constructed 0 quiet 2 false) peerStalls = some w ∧ w.asked = some 7 ∧
      w.deadlineRan = true ∧ w.server.threadNum = 0 ∧ w.stack 0 = [] ∧ w.queue 0 = [] :=
    ⟨_,rfl,rfl,rfl,rfl,rfl,rfl⟩
  obtain ⟨w,taken,asked,ran,threadNum,stack,queue⟩ := reached
  have kept : Throughout step (fun u a => (u.deadlineRan && misses u a) = false)
      (constructed 0 quiet 2 false) peerStalls := by decide
  have executed : Executed w := by
    intro l loop
    rw [threadNum] at loop
    cases Nat.le_zero.mp loop
    exact ⟨stack,queue⟩
  exact ⟨w,taken,asked,stopFinishes ⟨0,quiet,2,false,rfl⟩ kept taken ran executed⟩

/- The connection is still Connecting when the stop begins, so Shutdown passes it over,
and Connected at the deadline. Its removal comes when its socket is closed. -/
def connectsLate : List Action :=
  [.start,.poll,.accept 5 64,.goOn 0,.user 0 (.stopGracefully (some 7)),.goOn 0,.goOn 0,.goOn 0,.goOn 0,
    .runQueued 1,.goOn 1,.deadlineTimer,.goOn 0,.goOn 0,.goOn 0,.goOn 0,.goOn 0,.goOn 0,
    .runQueued 1,.goOn 1,.goOn 1,.goOn 1,.goOn 1,.goOn 1,.runQueued 0,.goOn 0]

theorem stopHangs : ¬ ∀ s u w as, Initial s → run step s as = some u → u.deadlineRan = true → Executed u →
    step u .checkTimer = some w → Executed w → Finished w := by
  intro claimed
  have reached : ∃ u w, run step (constructed 1 quiet 1 false) connectsLate = some u ∧
      step u .checkTimer = some w ∧ (u.deadlineRan = true ∧ w.server.stopping = true) ∧
      (u.server.threadNum = 1 ∧ w.server.threadNum = 1) ∧
      (u.stack 0 = [] ∧ u.queue 0 = [] ∧ u.stack 1 = [] ∧ u.queue 1 = []) ∧
      w.stack 0 = [] ∧ w.queue 0 = [] ∧ w.stack 1 = [] ∧ w.queue 1 = [] :=
    ⟨_,_,rfl,rfl,⟨rfl,rfl⟩,⟨rfl,rfl⟩,⟨rfl,rfl,rfl,rfl⟩,rfl,rfl,rfl,rfl⟩
  obtain ⟨u,w,taken,fired,⟨ran,on⟩,⟨before,after⟩,idle,still⟩ := reached
  have executed : ∀ v : World, v.server.threadNum = 1 →
      (v.stack 0 = [] ∧ v.queue 0 = [] ∧ v.stack 1 = [] ∧ v.queue 1 = []) → Executed v := by
    rintro v threadNum ⟨stack,queue,stack',queue'⟩ l loop
    rw [threadNum] at loop
    cases l with
    | zero => exact ⟨stack,queue⟩
    | succ l =>
      cases Nat.le_zero.mp (Nat.le_of_succ_le_succ loop)
      exact ⟨stack',queue'⟩
  have ended := (claimed _ u w _ ⟨1,quiet,1,false,rfl⟩ taken ran (executed u before idle) fired (executed w after still)).2.1
  rw [on] at ended
  cases ended

end TcFrame.TcpServer
