import TcFrame.TcpServerLife

/-! The assertion of ~TcpConnection: when the last owner of a connection goes, the
connection is Disconnected. User code keeps no connection here beyond the callback it was
given it in. -/
namespace TcFrame.TcpServer
open Endpoint Machine

/- Who holds the shared_ptr. The functors of Send, Shutdown and ForceClose capture a bare
pointer. A callback of the user holds it as its argument; for the close callback it is
only made with the call, and then its functor holds it. -/
def Task.owns (c : ConnId) : Task → Bool
  | .conn d f => d == c && !later f
  | .remove d => d == c
  | .stopGracefully _ => false

def Act.owns (c : ConnId) : Act → Bool
  | .conn d f => d == c && isCallback (.conn d f)
  | .call _ task => task.owns c
  | .sweep _ stale _ => stale.contains c
  | .closeIdle rest => rest.contains c
  | _ => false

def owned (w : World) (c : ConnId) : Prop :=
  registered w c = true ∨ (∃ t, ∃ a ∈ w.stack t, a.owns c = true) ∨ ∃ l, ∃ task ∈ w.queue l, task.owns c = true

/- ~TcpServer comes to a connection that is Connecting: its ForceClose does nothing. -/
def overlooks (s : Life) (a : Action) : Bool :=
  match s.stage, a with
  | .closing, .goOn t =>
    match s.world.stack t with
    | .forceAll (x :: _) :: _ => (s.world.conn x.2).state == .connecting
    | _ => false
  | _, _ => false

/- A sub loop ends with what would still close a connection in its queue. -/
def deserts (s : Life) : Bool :=
  match s.stage with
  | .joining l => (s.world.queue l).any (fun task =>
    match task with
    | .conn c .forceCloseInLoop | .conn c .connectDestroyed => (s.world.conn c).state != .disconnected
    | _ => false)
  | _ => false

def forsakes (s : Life) : LifeAction → Bool
  | .server a => steals s.world a || overlooks s a
  | .leave => deserts s
  | _ => false

/- What closes the connection is on its way. -/
def awaited (w : World) (c : ConnId) : Prop := owed w c ∨ pending w c .forceCloseInLoop

theorem awaitedStep {w w' : World} {a : Action} (h : Ledger w) (taken : step w a = some w') {c : ConnId}
    (known : c < w.host.next) (waits : awaited w c) : (w'.conn c).state = .disconnected ∨ awaited w' c := by
  rcases waits with debt | forced
  · exact (owedStep h.registry h.placed h.ordered taken known debt).imp id .inl
  · exact (forcedStep h.registry h.placed h.births taken known forced).imp id .inr

/- ~TcpServer has still to come to the entry. -/
def ahead (w : World) (x : Entry) : Prop := ∃ rest, .forceAll rest ∈ w.stack mainLoop ∧ x ∈ rest

theorem aheadAside {w : World} {t : ThreadId} {top below : List Act} {out : Effect} {x : Entry} {P : Prop}
    (split : w.stack t = top ++ below) (stack : out.1.stack = w.stack)
    (passed : ∀ rest, .forceAll rest ∈ top → x ∈ rest → P ∨ ahead (settle t below out) x) (h : ahead w x) :
    P ∨ ahead (settle t below out) x := by
  obtain ⟨rest,member,listed⟩ := h
  by_cases onTop : mainLoop = t ∧ .forceAll rest ∈ top
  · exact passed rest onTop.2 listed
  · exact .inr ⟨rest,belowKept split stack member (fun here top => onTop ⟨here,top⟩),listed⟩

theorem aheadStep {s : Life} {w' : World} {a : Action} (r : Registry s.world) (p : Placed s.world) (closing : s.stage = .closing)
    (sees : overlooks s a = false) (taken : step s.world a = some w') {x : Entry} (entry : s.world.lookup x.1 = some x.2)
    (h : ahead s.world x) :
    ((w'.conn x.2).state = .disconnected ∨ pending w' x.2 .forceCloseInLoop) ∨ ahead w' x := by
  have known := (r.table.key x.1 x.2 entry).1
  obtain ⟨w,stage⟩ := s
  subst closing
  cases turnCases r p taken with
  | @member t d top below out made home split does =>
    refine aheadAside split rfl (fun rest member => ?_) h
    cases does <;> simp at member
  | @request t d call top below again made split caller =>
    refine aheadAside split rfl (fun rest member listed => ?_) h
    cases caller with
    | @forceAll fd rest' entry' =>
      cases List.mem_singleton.mp member
      rcases List.mem_cons.mp listed with same | later
      · subst same
        have begun : (w.conn d).state ≠ .connecting := by
          intro fresh
          have top : w.stack t = .forceAll ((fd,d) :: rest') :: below := split
          simp [overlooks, top, fresh] at sees
        left
        by_cases up : (w.host.endpoint d).isOpenState = true
        · have called : callConn w t d .forceClose =
              (w.putHost (w.host.put d ((w.host.endpoint d).setState .disconnecting)),
                [.call (w.host.loopOf d) (.conn d .forceCloseInLoop)]) := by
            simp [callConn, request, forceClose, up]
          rw [called]
          have main : t = mainLoop := topFits p split
          subst main
          exact .inr (.inl (by simp [settle, World.putHost, Host.put]))
        · left
          have finished : (w.host.endpoint d).conn.state = .disconnected := shutState (by simpa using up) begun
          simpa [callConn, requestOver finished] using finished
      · have main : t = mainLoop := topFits p split
        subst main
        exact .inr ⟨rest',by simp [settle],later⟩
    | _ => simp at member
  | @close t d below home split => exact aheadAside (topSplit split) rfl (by simp) h
  | @hand t l task below split other home => exact aheadAside (topSplit split) rfl (by simp) h
  | @take l task rest idle head loop => exact aheadAside (idleSplit idle) rfl (by simp) h
  | @remove d below out made ran split does => exact aheadAside (topSplit split) does.stack (by simp) h
  | @sweepErase y rest stale force below made split off =>
    exact aheadAside (topSplit split) rfl (by simp) h
  | @sweepEnd stale force below split => exact aheadAside (topSplit split) rfl (by simp) h
  | @sweepNext y rest stale force below split on =>
    exact aheadAside (topSplit split) rfl (by simp) h
  | @skip top again below split skips =>
    refine aheadAside (topSplit split) rfl (fun rest member listed => ?_) h
    cases skips with
    | shutdownAll gone => simp at member
    | @forceAll y rest' gone =>
      cases List.mem_singleton.mp member
      rcases List.mem_cons.mp listed with same | later
      · exact absurd (same ▸ entry) gone
      · exact .inr ⟨rest',by simp [settle],later⟩
  | @serve t top below out split own calm does =>
    refine aheadAside split does.stack (fun rest member listed => ?_) h
    have none_ := own _ member
    rw [List.isEmpty_iff.mp none_] at listed
    cases listed
  | accept idle free made =>
    obtain ⟨rest,member,_⟩ := h
    rw [show w.stack mainLoop = [] from idle] at member
    cases member

/- The table has the connection, or ConnectDestroyed is owed to it. -/
def kept (w : World) (c : ConnId) : Prop := (∃ fd, w.lookup fd = some c) ∨ owed w c

theorem keptStep {w w' : World} {a : Action} (h : Ledger w) (honest : steals w a = false) (taken : step w a = some w')
    {c : ConnId} (known : c < w.host.next) (keeps : kept w c) : (w'.conn c).state = .disconnected ∨ kept w' c := by
  rcases keeps with ⟨fd,listed⟩ | debt
  · exact (entryStep h.registry h.placed h.births h.sockets h.swept honest taken listed).imp id
      (Or.imp (fun still => ⟨fd,still⟩) id)
  · exact (owedStep h.registry h.placed h.ordered taken known debt).imp id .inr

/- What ~TcpServer still does to a connection that is not Disconnected. -/
def tended (s : Life) (c : ConnId) : Prop :=
  match s.stage with
  | .serving => True
  | .closing => (∃ fd, s.world.lookup fd = some c ∧ ahead s.world (fd,c)) ∨ awaited s.world c
  | .joining l => l ≤ s.world.host.loopOf c ∧ awaited s.world c
  | .cleared => False

structure Watched (s : Life) : Prop where
  living : Living s
  kept : s.stage ≠ .cleared → ∀ c < s.world.host.next, (s.world.conn c).state = .disconnected ∨ kept s.world c
  tended : ∀ c < s.world.host.next, (s.world.conn c).state = .disconnected ∨ tended s c

theorem grownStep {w w' : World} {a : Action} (r : Registry w) (p : Placed w) (taken : step w a = some w') :
    (w'.host.next = w.host.next ∧ w'.host.loopOf = w.host.loopOf) ∨
    ∃ fd bufferSize, a = .accept fd bufferSize ∧ w.stack mainLoop = [] ∧ w'.host.next = w.host.next + 1 ∧
      w'.lookup fd = some w.host.next := by
  cases turnCases r p taken with
  | @accept fd bufferSize _ idle free made act =>
    exact .inr ⟨fd,bufferSize,act,idle,made.next,by simp [made.lookup]⟩
  | remove known ran split does => exact .inl (by simp [settle, does.host])
  | serve split own calm does => exact .inl (by simp [settle, does.host])
  | _ => exact .inl ⟨rfl,rfl⟩

/- The connection that a step makes is made by the main loop as long as the server serves. -/
theorem grownServing {s : Life} {fd : Fd} {bufferSize : Nat} (h : Watched s) (runs : running s (.accept fd bufferSize) = true)
    (idle : s.world.stack mainLoop = []) : s.stage = .serving := by
  obtain ⟨w,stage⟩ := s
  cases stage with
  | serving => rfl
  | closing => simp [running, mayRun, threadOf, show w.stack mainLoop = [] from idle] at runs
  | joining l =>
    have ran : l ≤ mainLoop := of_decide_eq_true runs
    exact absurd (h.living.waits l rfl).1 (Nat.not_lt.mpr ran)
  | cleared => cases runs

theorem tendedStep {s : Life} {w' : World} {a : Action} (h : Watched s) (ledger : Ledger s.world)
    (runs : running s a = true) (honest : steals s.world a = false) (sees : overlooks s a = false)
    (taken : step s.world a = some w') {c : ConnId} (known : c < s.world.host.next) (waits : tended s c) :
    (w'.conn c).state = .disconnected ∨ tended ⟨w',s.stage⟩ c := by
  obtain ⟨w,stage⟩ := s
  cases stage with
  | serving => exact .inr trivial
  | closing =>
    rcases waits with ⟨fd,listed,coming⟩ | waits
    · rcases entryStep ledger.registry ledger.placed ledger.births ledger.sockets ledger.swept honest taken listed
        with done | still | debt
      · exact .inl done
      · rcases aheadStep ledger.registry ledger.placed rfl sees taken (x := (fd,c)) listed coming
          with (done | forced) | coming
        · exact .inl done
        · exact .inr (.inr (.inr forced))
        · exact .inr (.inl ⟨fd,still,coming⟩)
      · exact .inr (.inr (.inl debt))
    · exact (awaitedStep ledger taken known waits).imp id .inr
  | joining l =>
    refine (awaitedStep ledger taken known waits.2).imp id (fun still => ⟨?_,still⟩)
    rcases grownStep ledger.registry ledger.placed taken with ⟨_,loopOf⟩ | ⟨fd,bufferSize,act,idle,_⟩
    · exact loopOf ▸ waits.1
    · subst act
      cases grownServing h runs idle
  | cleared => exact waits.elim

theorem watchedServer {s : Life} {w' : World} {a : Action} (h : Watched s) (living : Living ⟨w',s.stage⟩)
    (runs : running s a = true) (fair : forsakes s (.server a) = false) (taken : step s.world a = some w') :
    Watched ⟨w',s.stage⟩ := by
  have alive := livingAlive runs
  have ledger := h.living.ledger alive
  obtain ⟨honest,sees⟩ := Bool.or_eq_false_iff.mp fair
  have finished := overStep ledger.registry ledger.placed ledger.births taken
  have split : ∀ c < w'.host.next, c < s.world.host.next ∨ s.stage = .serving ∧ ∃ fd, w'.lookup fd = some c := by
    intro c known'
    rcases grownStep ledger.registry ledger.placed taken with ⟨next,_⟩ | ⟨fd,bufferSize,act,idle,next,listed⟩
    · exact .inl (next ▸ known')
    · rw [next] at known'
      rcases Nat.lt_succ_iff_lt_or_eq.mp known' with known | this
      · exact .inl known
      · subst act this
        exact .inr ⟨grownServing h runs idle,fd,listed⟩
  refine ⟨living,fun _ c known' => ?_,fun c known' => ?_⟩
  · rcases split c known' with known | ⟨_,listed⟩
    · rcases h.kept alive c known with done | keeps
      · exact .inl (finished c known done)
      · exact keptStep ledger honest taken known keeps
    · exact .inr (.inl listed)
  · rcases split c known' with known | ⟨serving,_⟩
    · rcases h.tended c known with done | waits
      · exact .inl (finished c known done)
      · exact tendedStep h ledger runs honest sees taken known waits
    · refine .inr ?_
      simp only [tended, serving]

/- Nothing of what closes a connection is left on the main loop when its stack is empty. -/
theorem awaitedIdle {w : World} (idle : w.stack mainLoop = []) {c : ConnId} (waits : awaited w c) :
    w.host.loopOf c ≠ mainLoop ∧ ∃ f, (f = .connectDestroyed ∨ f = .forceCloseInLoop) ∧
      (.call (w.host.loopOf c) (.conn c f) ∈ w.stack (w.host.loopOf c) ∨ .conn c f ∈ w.queue (w.host.loopOf c)) := by
  have none_ : ∀ a, a ∉ w.stack mainLoop := by
    rw [idle]
    simp
  have functor : ∀ f, pending w c f → w.host.loopOf c ≠ mainLoop ∧
      (.call (w.host.loopOf c) (.conn c f) ∈ w.stack (w.host.loopOf c) ∨ .conn c f ∈ w.queue (w.host.loopOf c)) := by
    intro f there
    rcases there with main | own | ⟨queued,sub⟩
    · exact absurd main (none_ _)
    · exact ⟨fun here => none_ _ (here ▸ own),.inl own⟩
    · exact ⟨sub,.inr queued⟩
  rcases waits with (⟨rest,stale,force,member,_⟩ | there) | there
  · exact absurd member (none_ _)
  · exact ⟨(functor _ there).1,_,.inl rfl,(functor _ there).2⟩
  · exact ⟨(functor _ there).1,_,.inr rfl,(functor _ there).2⟩

theorem keptIdle {w : World} (idle : w.stack mainLoop = []) {c : ConnId} (debt : owed w c) :
    .call (w.host.loopOf c) (destroyed c) ∈ w.stack (w.host.loopOf c) ∨
      (destroyed c ∈ w.queue (w.host.loopOf c) ∧ w.host.loopOf c ≠ mainLoop) := by
  rcases debt with ⟨rest,stale,force,member,_⟩ | main | there
  · rw [idle] at member
    cases member
  · rw [idle] at main
    cases main
  · exact there

theorem watchedStep {s s' : Life} {a : LifeAction} (h : Watched s) (fair : forsakes s a = false)
    (taken : lifeStep s a = some s') : Watched s' := by
  have living := livingStep h.living taken
  cases lifeTurnCases taken with
  | server runs stepped => exact watchedServer h living runs fair stepped
  | destroy serving idle =>
    obtain ⟨w,stage⟩ := s
    subst serving
    have moved : ∀ {c}, owed w c → owed (settle mainLoop [] (beginDestructor w)) c := by
      intro c debt
      refine .inr (.inr ((keptIdle idle debt).imp (fun own => ?_) id))
      exact belowKept (idleSplit idle) rfl own (by simp)
    refine ⟨living,fun _ c known => ?_,fun c known => ?_⟩ <;> rcases h.kept (by simp) c known with done | ⟨fd,listed⟩ | debt
    · exact .inl done
    · exact .inr (.inl ⟨fd,listed⟩)
    · exact .inr (.inr (moved debt))
    · exact .inl done
    · exact .inr (.inl ⟨fd,listed,w.entries,by simp [settle, beginDestructor],memEntries.mpr listed⟩)
    · exact .inr (.inr (.inl (moved debt)))
  | join closing idle =>
    obtain ⟨w,stage⟩ := s
    subst closing
    refine ⟨living,fun _ => h.kept (by simp),fun c known => ?_⟩
    rcases h.tended c known with done | ⟨fd,_,rest,member,_⟩ | waits
    · exact .inl done
    · rw [show w.stack mainLoop = [] from idle] at member
      cases member
    · exact .inr ⟨Nat.pos_of_ne_zero (awaitedIdle idle waits).1,waits⟩
  | @leave l joining loop idle =>
    obtain ⟨w,stage⟩ := s
    subst joining
    refine ⟨living,fun _ => h.kept (by simp),fun c known => ?_⟩
    rcases h.tended c known with done | ⟨bound,waits⟩
    · exact .inl done
    · by_cases here : w.host.loopOf c = l
      · obtain ⟨_,f,closing,where_⟩ := awaitedIdle (h.living.waits l rfl).2 waits
        rw [here, show w.stack l = [] from idle] at where_
        have queued : .conn c f ∈ w.queue l := where_.resolve_left (by simp)
        left
        by_contra up
        have left_ : deserts ⟨w,.joining l⟩ = true := by
          refine List.any_eq_true.mpr ⟨_,queued,?_⟩
          rcases closing with same | same <;> subst same <;> simpa using up
        rw [show forsakes ⟨w,.joining l⟩ .leave = deserts ⟨w,.joining l⟩ from rfl, left_] at fair
        cases fair
      · exact .inr ⟨Nat.lt_of_le_of_ne bound (Ne.symm here),waits⟩
  | @clear l joining joined =>
    obtain ⟨w,stage⟩ := s
    subst joining
    refine ⟨living,fun alive => absurd rfl alive,fun c known => ?_⟩
    rcases h.tended c known with done | ⟨bound,_⟩
    · exact .inl done
    · exact absurd ((h.living.ledger (by simp)).placed.loops c known) (Nat.not_le.mpr (Nat.lt_of_lt_of_le joined bound))

theorem watchedInitial {s : Life} (h : LifeInitial s) : Watched s := by
  have living := livingInitial h
  obtain ⟨w,stage⟩ := s
  obtain ⟨start,serving⟩ := h
  subst serving
  have none_ : w.host.next = 0 := by
    obtain ⟨threadNum,callbacks,mark,idleTimeout,same⟩ := start
    have constructed_ : w = _ := same
    rw [constructed_]
    rfl
  refine ⟨living,fun _ c known => ?_,fun c known => .inr trivial⟩
  rw [show (Life.world ⟨w,.serving⟩).host.next = 0 from none_] at known
  exact absurd known (Nat.not_lt_zero c)

theorem keptOwned {w : World} {c : ConnId} (keeps : kept w c) : owned w c := by
  rcases keeps with listed | ⟨rest,stale,force,member,named⟩ | main | own | queued
  · exact .inl (registeredIff.mpr listed)
  · exact .inr (.inl ⟨mainLoop,_,member,by simpa [Act.owns] using named⟩)
  · exact .inr (.inl ⟨mainLoop,_,main,by simp [Act.owns, Task.owns, later]⟩)
  · exact .inr (.inl ⟨_,_,own,by simp [Act.owns, Task.owns, later]⟩)
  · exact .inr (.inr ⟨_,_,queued.1,by simp [Task.owns, later]⟩)

/- The peer of the only connection ends it, and the server is destroyed afterwards. -/
def closedBefore : List LifeAction :=
  [.server .start,.server .poll,.server (.accept 5 64),.server (.goOn 0),.server (.event 0 (.read (.ok []))),
    .server (.goOn 0),.server (.goOn 0),.server (.goOn 0),.server (.goOn 0),.server (.goOn 0),.server (.goOn 0),.destroy,
    .server (.goOn 0),.join,.clear]

/- A connection is accepted for sub loop 1, which comes to its ConnectEstablished only when
~TcpServer waits for its thread. -/
def establishedTooLate : List LifeAction :=
  [.server .start,.server .poll,.server (.accept 5 64),.server (.goOn 0),.destroy,.server (.goOn 0),.server (.goOn 0),.join,
    .server (.runQueued 1),.server (.goOn 1),.leave,.clear]

end TcFrame.TcpServer
