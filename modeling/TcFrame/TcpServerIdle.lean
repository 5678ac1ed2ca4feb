import TcFrame.ConnectionOnce
import TcFrame.TcpServerPlacement

/-! ScanIdleConnections beside the clock. It reads one connection after another while the other
threads go on, and closes what it found afterwards, with user code running in between. -/
namespace TcFrame.TcpServer
open Endpoint Machine

/- RefreshActiveTime ran for connection `c` between `w` and `w'`: in its constructor, in
ConnectEstablished, or in HandleRead or HandleWrite, which call it whenever they count bytes. -/
def refreshed (w w' : World) (c : ConnId) : Bool :=
  decide (w.host.next ≤ c ∧ c < w'.host.next) ||
    decide ((w.conn c).state = .connecting ∧ (w'.conn c).state = .connected) ||
    decide ((w'.conn c).totalBytesRead ≠ (w.conn c).totalBytesRead) ||
    decide ((w'.conn c).totalBytesWritten ≠ (w.conn c).totalBytesWritten)

/- ScanIdleConnections on its way over m_connections, with `found` its to_close. -/
structure Scan where
  now : Int
  rest : List Entry
  found : List ConnId

/- `stamp` is m_last_active_ms. For the properties: `scanned` is what the last scan read off
the clock, `seen` the stamp that it found, and `active` says that the stamp was stored since. -/
structure Timed where
  world : World
  stamp : ConnId → Int
  scan : Option Scan
  scanned : Option Int
  seen : ConnId → Int
  active : ConnId → Bool

inductive TimedAction where
  | server (a : Action) (now : Int)
  | scanBegin (now : Int)
  | scanEntry
  | scanEnd

def isScan : Action → Bool
  | .scanIdle _ => true
  | _ => false

/- The main thread does nothing else while it scans. -/
def elsewhere (s : Timed) (a : Action) : Bool := s.scan.isNone || threadOf s.world a != mainLoop

def idleFor (seconds now stamp : Int) : Bool := decide (seconds * 1000 ≤ now - stamp)

/- The scan's timer is armed only when m_idle_timeout_seconds is positive, so its first test
never returns. -/
def timedStep (seconds : Int) (s : Timed) : TimedAction → Option Timed
  | .server a now =>
    if isScan a = false ∧ elsewhere s a = true then
      (step s.world a).map (fun w =>
        { s with
          world := w
          stamp := fun c => if refreshed s.world w c then now else s.stamp c
          active := fun c => refreshed s.world w c || s.active c })
    else none
  | .scanBegin now =>
    if betweenEvents s.world = true ∧ s.world.server.idleScanTimer = true ∧ s.scan.isNone = true then
      some { s with scan := some ⟨now,s.world.entries,[]⟩, scanned := some now }
    else none
  | .scanEntry =>
    match s.scan with
    | some ⟨now,x :: rest,found⟩ =>
      let idle := (s.world.conn x.2).isConnected && idleFor seconds now (s.stamp x.2)
      some { s with
        scan := some ⟨now,rest,if idle then found ++ [x.2] else found⟩
        seen := Function.update s.seen x.2 (s.stamp x.2)
        active := Function.update s.active x.2 false }
    | _ => none
  | .scanEnd =>
    match s.scan with
    | some ⟨_,[],found⟩ => some { s with world := settle mainLoop [] (s.world,[.closeIdle found]), scan := none }
    | _ => none

structure TimedInitial (seconds : Int) (s : Timed) : Prop where
  world : ∃ threadNum callbacks mark, s.world = constructed threadNum callbacks mark (decide (0 < seconds))
  scan : s.scan = none
  scanned : s.scanned = none
  active : s.active = fun _ => true

inductive TimedTurn (seconds : Int) (s : Timed) : Timed → Prop where
  | server {a now w} (other : isScan a = false) (apart : elsewhere s a = true) (taken : step s.world a = some w) :
      TimedTurn seconds s
        { s with
          world := w
          stamp := fun c => if refreshed s.world w c then now else s.stamp c
          active := fun c => refreshed s.world w c || s.active c }
  | begins {now} (between : betweenEvents s.world = true) (free : s.scan = none) :
      TimedTurn seconds s { s with scan := some ⟨now,s.world.entries,[]⟩, scanned := some now }
  | entry {now x rest found found'} (here : s.scan = some ⟨now,x :: rest,found⟩)
      (read : found' = found ++ [x.2] ∧ seconds * 1000 ≤ now - s.stamp x.2 ∨
        found' = found ∧ ((s.world.conn x.2).isConnected = true → now - s.stamp x.2 < seconds * 1000)) :
      TimedTurn seconds s { s with
        scan := some ⟨now,rest,found'⟩
        seen := Function.update s.seen x.2 (s.stamp x.2)
        active := Function.update s.active x.2 false }
  | ends {now found} (here : s.scan = some ⟨now,[],found⟩) :
      TimedTurn seconds s { s with world := settle mainLoop [] (s.world,[.closeIdle found]), scan := none }

theorem timedTurnCases {seconds : Int} {s s' : Timed} {a : TimedAction} (taken : timedStep seconds s a = some s') :
    TimedTurn seconds s s' := by
  cases a with
  | server a now =>
    simp only [timedStep] at taken
    split at taken <;> try contradiction
    rename_i guard
    obtain ⟨w,stepped,same⟩ := Option.map_eq_some_iff.mp taken
    subst same
    exact .server guard.1 guard.2 stepped
  | scanBegin now =>
    simp only [timedStep] at taken
    split at taken <;> cases taken
    rename_i guard
    exact .begins guard.1 (Option.isNone_iff_eq_none.mp guard.2.2)
  | scanEntry =>
    simp only [timedStep] at taken
    split at taken <;> cases taken
    rename_i now x rest found here
    cases idle : (s.world.conn x.2).isConnected && idleFor seconds now (s.stamp x.2) with
    | true => exact .entry here (.inl ⟨rfl,of_decide_eq_true (Bool.and_eq_true_iff.mp idle).2⟩)
    | false =>
      refine .entry here (.inr ⟨rfl,fun connected => ?_⟩)
      rw [connected, Bool.true_and] at idle
      exact Int.not_le.mp (of_decide_eq_false idle)
  | scanEnd =>
    simp only [timedStep] at taken
    split at taken <;> cases taken
    rename_i now found here
    exact .ends here

/- What ScanIdleConnections has found and not yet closed. -/
def Act.idle : Act → List ConnId
  | .closeIdle rest => rest
  | _ => []

def idleOf (acts : List Act) : List ConnId := acts.flatMap Act.idle

@[simp] theorem idleNil : idleOf [] = [] := rfl

@[simp] theorem idleCons (a : Act) (acts : List Act) : idleOf (a :: acts) = a.idle ++ idleOf acts := rfl

theorem idleAppend (acts acts' : List Act) : idleOf (acts ++ acts') = idleOf acts ++ idleOf acts' :=
  List.flatMap_append

theorem idleNone {acts : List Act} (none_ : ∀ a ∈ acts, a.idle = []) : idleOf acts = [] :=
  List.flatMap_eq_nil_iff.mpr none_

theorem idleMap {β : Type} {g : β → Act} (none_ : ∀ x, (g x).idle = []) (xs : List β) : idleOf (xs.map g) = [] := by
  refine idleNone (fun a member => ?_)
  obtain ⟨x,_,same⟩ := List.mem_map.mp member
  rw [← same]
  exact none_ x

theorem idleCall (w : World) (t : ThreadId) (c : ConnId) (call : UserCall) : idleOf (callConn w t c call).2 = [] :=
  idleMap (fun _ => rfl) _

theorem idleConn (w : World) (c : ConnId) (out : Endpoint × List Frame) : idleOf (ofConn w c out).2 = [] :=
  idleMap (fun _ => rfl) _

theorem idleFinalize (w : World) (force : Bool) : idleOf (finalizeGracefulStop w force).2 = [] := by
  unfold finalizeGracefulStop
  split <;> rfl

theorem idleStop (w : World) (cb : Option Nat) : idleOf (stopGracefully w cb).2 = [] := by
  unfold stopGracefully
  dsimp only
  split
  · exact idleMap (fun _ => rfl) _
  · split <;> rfl

theorem idleRemove (w : World) (c : ConnId) : idleOf (removeInLoop w c).2 = [] := by
  unfold removeInLoop
  dsimp only
  split
  · rfl
  · split <;> rfl

theorem idleFinish (w : World) (force : Bool) : idleOf (finishStop w force).2 = [] := by
  unfold finishStop
  split
  · rfl
  · exact idleMap (fun _ => rfl) _

theorem idleEach (w : World) (t : ThreadId) (call : UserCall) (x : Entry) {again : Act} (other : again.idle = []) :
    idleOf (eachEntry w t call x again).2 = [] := by
  unfold eachEntry
  split
  · rw [idleAppend, idleCall, idleCons, other]
    rfl
  · rw [idleCons, other]
    rfl

theorem idleSweepEnd (w : World) (stale : List ConnId) (force : Bool) : idleOf (sweepEnd w stale force).2 = [] := by
  refine idleNone (fun a member => ?_)
  simp only [sweepEnd, List.mem_append, List.mem_map, List.mem_singleton] at member
  rcases member with (⟨c,_,same⟩ | last) | same
  · rw [← same]
    rfl
  · split at last
    · rw [List.mem_singleton.mp last]
      rfl
    · exact absurd last List.not_mem_nil
  · rw [same]
    rfl

theorem forceClosed (w : World) (t : ThreadId) (c : ConnId) :
    ((callConn w t c .forceClose).1.conn c).isConnected = false := by
  rw [callConn, World.connPut]
  simp only [request, forceClose]
  split
  · rfl
  · rename_i shut
    cases state : (w.host.endpoint c).conn.state with
    | connected => simp [isOpenState, state] at shut
    | _ => simp [TcpConnection.isConnected, state]

/- A function that goes on leaves the loop over to_close as it was, or is that loop and has
called ForceClose. -/
theorem goOnIdle {w : World} {t : ThreadId} {f : Act} {out : Effect} (went : goOn w t f = some out) :
    idleOf out.2 = f.idle ∨
      ∃ c rest, f = .closeIdle (c :: rest) ∧ idleOf out.2 = rest ∧ (out.1.conn c).isConnected = false := by
  cases f with
  | closeIdle rest =>
    cases rest with
    | nil => cases went; exact .inl rfl
    | cons c rest =>
      cases went
      refine .inr ⟨c,rest,rfl,?_,forceClosed w t c⟩
      rw [idleAppend, idleCall, idleCons]
      exact List.append_nil rest
  | conn c f =>
    cases f with
    | closeCallback => cases went; exact .inl rfl
    | sendTail | closeSocket | invalidateSocket => cases went; exact .inl (idleConn w c _)
    | _ => cases went
  | call l task =>
    cases went
    unfold runInLoop
    split
    · cases task with
      | conn c f => exact .inl (idleConn w c _)
      | remove c => exact .inl (idleRemove w c)
      | stopGracefully cb => exact .inl (idleStop w cb)
    · exact .inl rfl
  | removeTail =>
    cases went
    unfold removeTail
    split
    · exact .inl (idleFinalize w false)
    · exact .inl rfl
  | stopTail =>
    cases went
    unfold stopTail
    split
    · exact .inl (idleFinalize w false)
    · exact .inl rfl
  | finishStop force => cases went; exact .inl (idleFinish w force)
  | shutdownAll rest | forceAll rest =>
    cases rest with
    | nil => cases went; exact .inl rfl
    | cons x rest => cases went; exact .inl (idleEach w t _ x rfl)
  | sweep rest stale force =>
    cases rest with
    | nil => cases went; exact .inl (idleSweepEnd w stale force)
    | cons x rest =>
      cases went
      unfold sweepEntry
      split <;> exact .inl rfl
  | completeCallback cb => cases went

/- What a step other than the scan does to the loop over to_close. -/
structure Closes (w w' : World) : Prop where
  fewer : ∀ c ∈ idleOf (w'.stack mainLoop), c ∈ idleOf (w.stack mainLoop)
  gone : ∀ c ∈ idleOf (w.stack mainLoop), c ∈ idleOf (w'.stack mainLoop) ∨ (w'.conn c).isConnected = false

theorem closesSame {w w' : World} (same : idleOf (w'.stack mainLoop) = idleOf (w.stack mainLoop)) : Closes w w' :=
  ⟨fun _ member => same ▸ member,fun _ member => .inl (same ▸ member)⟩

theorem closesPushed {w : World} {t : ThreadId} {out : Effect} (stack : out.1.stack = w.stack) (none_ : idleOf out.2 = []) :
    Closes w (settle t (w.stack t) out) := by
  refine closesSame ?_
  simp only [settle, stack, Function.update_apply]
  split
  · rename_i here
    rw [idleAppend, none_, here]
    rfl
  · rfl

theorem closesIdle {w : World} {t : ThreadId} {out : Effect} (idle : w.stack t = []) (stack : out.1.stack = w.stack)
    (none_ : idleOf out.2 = []) : Closes w (settle t [] out) :=
  idle ▸ closesPushed stack none_

theorem closesGoOn {w : World} {t : ThreadId} {f : Act} {below : List Act} {out : Effect} (top : w.stack t = f :: below)
    (went : goOn w t f = some out) : Closes w (settle t below out) := by
  have stack := goOnStack went
  by_cases main : t = mainLoop
  · subst main
    have shape : (settle mainLoop below out).stack mainLoop = out.2 ++ below := by simp only [settle, Function.update_self]
    rcases goOnIdle went with same | ⟨c,rest,same,left,off⟩
    · refine closesSame ?_
      rw [shape, top, idleAppend, same, idleCons]
    · subst same
      refine ⟨fun d member => ?_,fun d member => ?_⟩
      · rw [shape, idleAppend, left] at member
        rw [top]
        exact List.mem_cons_of_mem c member
      · rw [top] at member
        rcases List.mem_cons.mp member with same | later
        · exact .inr (same ▸ off)
        · rw [shape, idleAppend, left]
          exact .inl later
  · refine closesSame ?_
    simp only [settle, stack, Function.update_of_ne (Ne.symm main)]

theorem callbackIdle {f : Act} (callback : isCallback f = true) : f.idle = [] := by
  cases f with
  | closeIdle rest => cases callback
  | _ => rfl

theorem closesStep {w w' : World} {a : Action} (other : isScan a = false) (taken : step w a = some w') : Closes w w' := by
  cases takenCases taken with
  | start runs =>
    refine closesSame ?_
    unfold startServer
    split <;> rfl
  | userConn runs known => exact closesPushed (by rfl) (idleCall ..)
  | userStop runs => exact closesPushed (by rfl) rfl
  | goOn top went => exact closesGoOn top went
  | @ret t f below top callback =>
    refine closesSame ?_
    by_cases main : t = mainLoop
    · subst main
      simp only [settle, Function.update_self, top, idleCons, callbackIdle callback]
      rfl
    · simp only [settle, Function.update_of_ne (Ne.symm main)]
  | runQueued idle head loop handled => exact closesIdle idle (by rfl) rfl
  | poll idle => exact closesSame rfl
  | accept idle ready free =>
    refine closesIdle idle ?_ ?_ <;> simp only [newConnection] <;> split <;> rfl
  | event idle known up ok => exact closesIdle idle (by rfl) (idleConn ..)
  | scanIdle between armed => cases other
  | checkTimer between armed =>
    refine closesIdle (betweenIdle between) ?_ ?_ <;> split
    · exact (servesFinalize w false).stack
    · rfl
    · exact idleFinalize w false
    · rfl
  | deadlineTimer between armed =>
    exact closesIdle (betweenIdle between) (servesFinalize _ true).stack (idleFinalize _ true)

/- On the way from Connecting a connection passes Connected, and it never comes back. -/
theorem memberUp {w : World} {a : Action} {t : ThreadId} {c : ConnId} {top : List Act} {out : Endpoint × List Frame}
    (does : Member w t c a top out) (fresh : top = [.call t (established c)] → (w.conn c).state = .connecting)
    (up : out.1.conn.isConnected = true) : (w.conn c).isConnected = true ∨ (w.conn c).state = .connecting := by
  have ranks : Connection.rank (w.conn c).state ≤ Connection.rank out.1.conn.state := by
    cases does with
    | resume own => exact Nat.le_of_eq (by rw [resumeState]; rfl)
    | @run f => exact Connection.runRank (e := w.host.endpoint c) (fun same => fresh (by rw [same]; rfl))
    | event idle begun ok => exact Connection.changeRank (Connection.handleChange _ ok)
  have state : out.1.conn.state = .connected := by simpa [TcpConnection.isConnected] using up
  rw [state] at ranks
  cases before : (w.conn c).state with
  | connecting => exact .inr rfl
  | connected => exact .inl (by simp [TcpConnection.isConnected, before])
  | _ => simp [before, Connection.rank] at ranks

theorem upBefore {w w' : World} {a : Action} {c : ConnId} (h : Ledger w) (known : c < w.host.next)
    (taken : step w a = some w') (up : (w'.conn c).isConnected = true) :
    (w.conn c).isConnected = true ∨ (w.conn c).state = .connecting := by
  have kept : w'.conn c = w.conn c → (w.conn c).isConnected = true ∨ (w.conn c).state = .connecting :=
    fun same => .inl (same ▸ up)
  cases turnCases h.registry h.placed taken with
  | @member t d top below out known' home split does =>
    by_cases same : c = d
    · subst same
      rw [connSettle, ofConn, World.connPut] at up
      refine memberUp does (fun only => ?_) up
      rw [only, home] at split
      exact establishedFresh h.births known' split
    · exact kept (World.connPutOther w _ same)
  | @request t d call top below again known' split caller =>
    by_cases same : c = d
    · subst same
      rw [connSettle, callConn, World.connPut] at up
      rcases (requestStateOnly (w.host.endpoint c) t call).1.state with same | ⟨leaving,_⟩
      · rw [TcpConnection.isConnected, same] at up
        exact .inl up
      · rw [TcpConnection.isConnected, leaving] at up
        cases up
    · exact kept (World.connPutOther w _ same)
  | close home split | hand split differ home act | take idle head loop | sweepErase known' split off act
  | sweepEnd split | sweepNext split on | skip split skips => exact kept rfl
  | remove known' ran split does | serve split own calm does => exact kept (congrFun (World.connSame does.host) c)
  | accept idle free made act => exact kept (made.old c known).1

theorem ownersNodup {w : World} (h : Table w) : (w.entries.map Prod.snd).Nodup := by
  refine List.Nodup.map_on (fun x entry y entry' same => ?_) (List.Nodup.of_map Prod.fst (entriesNodup w))
  have key := (h.key x.1 x.2 (memEntries.mp entry)).2
  have key' := (h.key y.1 y.2 (memEntries.mp entry')).2
  rw [← same] at key'
  exact Prod.ext (key.symm.trans key') same

/- ScanIdleConnections comes to its loop over to_close. -/
theorem ledgerScan {w : World} {found : List ConnId} (h : Ledger w) (idle : w.stack mainLoop = [])
    (known : ∀ c ∈ found, c < w.host.next) : Ledger (settle mainLoop [] (w,[.closeIdle found])) := by
  have notCall : ∀ l task, .call l task ∉ [Act.closeIdle found] := by simp
  refine ⟨?_,?_,?_,?_,?_,?_⟩
  · have sound : Sound w none (w,[.closeIdle found]) := by
      refine soundSame h.registry.table rfl rfl rfl rfl rfl (fun a member c named => ?_)
      rw [List.mem_singleton.mp member] at named
      exact known c named
    exact (registrySettle h.registry (by simp) sound).1
  · refine placedSettle h.placed (by simp) (staysServer rfl rfl rfl rfl (fun a member => ?_))
    rw [List.mem_singleton.mp member]
    exact rfl
  · exact birthsAside h.births (idleSplit idle) (asideServer rfl rfl rfl (by simp) (fun l c f member => absurd member (notCall _ _)))
  · exact socketsUntouched h.sockets (idleSplit idle) (untouchedServer h.sockets rfl rfl rfl (by simp)
      (fun l c member => absurd member (notCall _ _)))
  · exact orderedServer h.ordered (idleSplit idle) rfl rfl rfl (by simp) (fun l c => notCall _ _)
      (fun l c member => absurd member (notCall _ _)) (fun _ => by rw [idle]; rfl)
  · refine sweptAside h.swept (idleSplit idle) rfl (fun _ => fun _ _ _ member => by cases member) (absurd rfl) (fun _ _ _ member => ?_)
    cases List.mem_singleton.mp member

/- What the scan under way has still to read, and what it has found. -/
def Timed.unread (s : Timed) : List ConnId := (s.scan.toList.flatMap Scan.rest).map Prod.snd
def Timed.found (s : Timed) : List ConnId := s.scan.toList.flatMap Scan.found

/- What is to be closed. -/
def Timed.pending (s : Timed) : List ConnId := s.found ++ idleOf (s.world.stack mainLoop)

structure Overseen (seconds : Int) (s : Timed) : Prop where
  ledger : Ledger s.world
  scanning : ∀ x, s.scan = some x → s.world.stack mainLoop = [] ∧ s.scanned = some x.now
  once : (s.found ++ s.unread).Nodup
  known : ∀ c ∈ s.found ++ s.unread, c < s.world.host.next
  due : ∀ c ∈ s.pending, ∃ now, s.scanned = some now ∧ seconds * 1000 ≤ now - s.seen c
  steady : ∀ c, s.active c = false → s.seen c = s.stamp c
  rest : ∀ now, s.scanned = some now → ∀ c, registered s.world c = true → (s.world.conn c).isConnected = true →
    c ∈ s.unread ∨ s.active c = true ∨ now - s.seen c < seconds * 1000 ∨ c ∈ s.pending

theorem overseenInitial {seconds : Int} {s : Timed} (h : TimedInitial seconds s) : Overseen seconds s := by
  obtain ⟨⟨threadNum,callbacks,mark,same⟩,scan,scanned,active⟩ := h
  have noScan : ∀ x, s.scan = some x → False := fun x under => by rw [scan] at under; cases under
  have noFound : s.found = [] := by rw [Timed.found, scan]; rfl
  have noUnread : s.unread = [] := by rw [Timed.unread, scan]; rfl
  have noPending : s.pending = [] := by rw [Timed.pending, noFound, same]; rfl
  refine ⟨ledgerInitial ⟨_,_,_,_,same⟩,fun x under => (noScan x under).elim,?_,?_,?_,?_,?_⟩
  · rw [noFound, noUnread]
    exact .nil
  · rw [noFound, noUnread]
    simp
  · rw [noPending]
    simp
  · intro c still
    rw [active] at still
    cases still
  · intro now read
    rw [scanned] at read
    cases read

theorem refreshedUp {w w' : World} {c : ConnId} (fresh : (w.conn c).state = .connecting)
    (up : (w'.conn c).isConnected = true) : refreshed w w' c = true := by
  have state : (w'.conn c).state = .connected := by simpa [TcpConnection.isConnected] using up
  simp [refreshed, fresh, state]

theorem overseenServer {seconds : Int} {s : Timed} {a : Action} {now : Int} {w : World} (h : Overseen seconds s)
    (other : isScan a = false) (apart : elsewhere s a = true) (taken : step s.world a = some w) :
    Overseen seconds
      { s with
        world := w
        stamp := fun c => if refreshed s.world w c then now else s.stamp c
        active := fun c => refreshed s.world w c || s.active c } := by
  have ledger := ledgerStep h.ledger taken
  have keeps := (registryStep h.ledger.registry taken).2
  have closes := closesStep other taken
  refine ⟨ledger,?_,h.once,?_,?_,?_,?_⟩
  · intro x under
    have here : s.scan = some x := under
    obtain ⟨idle,read⟩ := h.scanning x here
    refine ⟨?_,read⟩
    have away : mainLoop ≠ threadOf s.world a := by
      rw [elsewhere, here, Option.isNone_some, Bool.false_or, bne_iff_ne] at apart
      exact apart.symm
    rw [← idle]
    exact (stackStep taken).apart mainLoop away
  · intro c member
    exact Nat.lt_of_lt_of_le (h.known c member) keeps.next
  · intro c member
    rcases List.mem_append.mp member with found | closing
    · exact h.due c (List.mem_append_left _ found)
    · exact h.due c (List.mem_append_right _ (closes.fewer c closing))
  · intro c still
    have both := Bool.or_eq_false_iff.mp still
    simp only [both.1, Bool.false_eq_true, if_false]
    exact h.steady c both.2
  · intro read scanned c listed up
    have woke : refreshed s.world w c = true →
        c ∈ s.unread ∨ (refreshed s.world w c || s.active c) = true ∨ read - s.seen c < seconds * 1000 ∨
          c ∈ s.found ++ idleOf (w.stack mainLoop) :=
      fun fresh => .inr (.inl (by rw [fresh, Bool.true_or]))
    obtain ⟨fd,found⟩ := registeredIff.mp listed
    have made := (ledger.registry.table.key fd c found).1
    by_cases new : s.world.host.next ≤ c
    · exact woke (by simp [refreshed, new, made])
    · have old : c < s.world.host.next := Nat.lt_of_not_le new
      have before : registered s.world c = true :=
        registeredIff.mpr ⟨fd,(keeps.shrinks fd c found).resolve_right new⟩
      rcases upBefore h.ledger old taken up with connected | fresh
      · rcases h.rest read scanned c before connected with unread | active | short | pending
        · exact .inl unread
        · exact .inr (.inl (Bool.or_eq_true_iff.mpr (.inr active)))
        · exact .inr (.inr (.inl short))
        · rcases List.mem_append.mp pending with found | closing
          · exact .inr (.inr (.inr (List.mem_append_left _ found)))
          · rcases closes.gone c closing with still | off
            · exact .inr (.inr (.inr (List.mem_append_right _ still)))
            · rw [up] at off
              cases off
      · exact woke (refreshedUp fresh up)

theorem overseenEntry {seconds now : Int} {s : Timed} {x : Entry} {rest : List Entry} {found found' : List ConnId}
    (h : Overseen seconds s) (here : s.scan = some ⟨now,x :: rest,found⟩)
    (read : found' = found ++ [x.2] ∧ seconds * 1000 ≤ now - s.stamp x.2 ∨
      found' = found ∧ ((s.world.conn x.2).isConnected = true → now - s.stamp x.2 < seconds * 1000)) :
    Overseen seconds { s with
      scan := some ⟨now,rest,found'⟩
      seen := Function.update s.seen x.2 (s.stamp x.2)
      active := Function.update s.active x.2 false } := by
  obtain ⟨idle,scanned⟩ := h.scanning _ here
  have unread : s.unread = x.2 :: rest.map Prod.snd := by simp [Timed.unread, here]
  have foundBefore : s.found = found := by simp [Timed.found, here]
  have pending : s.pending = found := by simp [Timed.pending, foundBefore, idle]
  have once := h.once
  have known := h.known
  rw [foundBefore, unread] at once known
  have fresh : x.2 ∉ found := fun member => (List.nodup_append.mp once).2.2 _ member _ List.mem_cons_self rfl
  have within : List.Sublist (found' ++ rest.map Prod.snd) (found ++ x.2 :: rest.map Prod.snd) := by
    rcases read with ⟨same,_⟩ | ⟨same,_⟩
    · rw [same, List.append_assoc]
      exact List.Sublist.refl _
    · rw [same]
      exact List.Sublist.append_left (List.sublist_cons_self _ _) _
  refine ⟨h.ledger,?_,?_,?_,?_,?_,?_⟩
  · intro y under
    cases under
    exact ⟨idle,scanned⟩
  · simpa [Timed.found, Timed.unread] using once.sublist within
  · intro c member
    refine known c (within.subset ?_)
    simpa [Timed.found, Timed.unread] using member
  · intro c member
    have among : c ∈ found' := by simpa [Timed.pending, Timed.found, idle] using member
    refine ⟨now,scanned,?_⟩
    by_cases same : c = x.2
    · rcases read with ⟨_,long⟩ | ⟨kept,_⟩
      · simpa only [same, Function.update_self] using long
      · rw [kept, same] at among
        exact absurd among fresh
    · have before : c ∈ found := by
        rcases read with ⟨grown,_⟩ | ⟨kept,_⟩
        · rw [grown] at among
          exact (List.mem_append.mp among).resolve_right (fun last => same (List.mem_singleton.mp last))
        · exact kept ▸ among
      obtain ⟨now',scanned',long⟩ := h.due c (pending ▸ before)
      cases Option.some.inj (scanned.symm.trans scanned')
      simpa only [Function.update_of_ne same] using long
  · intro c still
    by_cases same : c = x.2
    · simp only [same, Function.update_self]
    · simp only [Function.update_of_ne same] at still ⊢
      exact h.steady c still
  · intro now' scanned' c listed up
    cases Option.some.inj (scanned.symm.trans scanned')
    by_cases same : c = x.2
    · rcases read with ⟨grown,_⟩ | ⟨_,busy⟩
      · refine .inr (.inr (.inr (List.mem_append_left _ ?_)))
        simp [Timed.found, grown, same]
      · refine .inr (.inr (.inl ?_))
        simp only [same, Function.update_self]
        exact busy (same ▸ up)
    · simp only [Function.update_of_ne same]
      rcases h.rest now scanned c listed up with left | active | short | closing
      · rw [unread] at left
        exact .inl (by simpa [Timed.unread] using (List.mem_cons.mp left).resolve_left same)
      · exact .inr (.inl active)
      · exact .inr (.inr (.inl short))
      · rw [pending] at closing
        refine .inr (.inr (.inr (List.mem_append_left _ ?_)))
        rcases read with ⟨grown,_⟩ | ⟨kept,_⟩
        · simpa [Timed.found, grown] using Or.inl closing
        · simpa [Timed.found, kept] using closing

theorem overseenStep {seconds : Int} {s s' : Timed} {a : TimedAction} (h : Overseen seconds s)
    (taken : timedStep seconds s a = some s') : Overseen seconds s' := by
  cases timedTurnCases taken with
  | server other apart stepped => exact overseenServer h other apart stepped
  | @begins now between free =>
    have idle := betweenIdle between
    refine ⟨h.ledger,?_,?_,?_,?_,h.steady,?_⟩
    · intro x under
      cases under
      exact ⟨idle,rfl⟩
    · simpa [Timed.found, Timed.unread] using ownersNodup h.ledger.registry.table
    · simpa [Timed.found, Timed.unread] using entriesKnown h.ledger.registry.table
    · simp [Timed.pending, Timed.found, idle]
    · intro read scanned c listed up
      obtain ⟨fd,found⟩ := registeredIff.mp listed
      refine .inl ?_
      have entry : c ∈ s.world.entries.map Prod.snd := List.mem_map.mpr ⟨(fd,c),memEntries.mpr found,rfl⟩
      simpa [Timed.unread] using entry
  | entry here read => exact overseenEntry h here read
  | @ends now found here =>
    have idle := (h.scanning _ here).1
    have foundAll : s.found = found := by simp [Timed.found, here]
    have pending : s.pending = found := by simp [Timed.pending, foundAll, idle]
    have left : idleOf ((settle mainLoop [] (s.world,[Act.closeIdle found])).stack mainLoop) = found := by
      simp [settle, Act.idle]
    refine ⟨ledgerScan h.ledger idle (fun c member => h.known c ?_),fun x under => (by cases under),.nil,
      fun c member => absurd member List.not_mem_nil,?_,h.steady,?_⟩
    · rw [foundAll]
      exact List.mem_append_left _ member
    · intro c member
      refine h.due c ?_
      rw [pending]
      simpa [Timed.pending, Timed.found, left] using member
    · intro read scanned c listed up
      rcases h.rest read scanned c listed up with unread | active | short | closing
      · simp [Timed.unread, here] at unread
      · exact .inr (.inl active)
      · exact .inr (.inr (.inl short))
      · rw [pending] at closing
        exact .inr (.inr (.inr (by simpa [Timed.pending, Timed.found, left] using closing)))

/- At any moment of any run, with the other threads and user code between any two reads and
between any two closings: every connection that the scan is about to close had been idle for
the timeout when the scan read it; and once all those are closed, a connection in the table
that is still Connected has been active since it was read, or had been idle for less than the
timeout. -/
theorem idleScanned {seconds : Int} {s : Timed} (reachable : Reachable (timedStep seconds) (TimedInitial seconds) s) :
    (∀ c ∈ idleOf (s.world.stack mainLoop), ∃ now, s.scanned = some now ∧ seconds * 1000 ≤ now - s.seen c) ∧
      (s.scan = none → idleOf (s.world.stack mainLoop) = [] → ∀ now, s.scanned = some now → ∀ c,
        registered s.world c = true → (s.world.conn c).isConnected = true →
          s.active c = true ∨ now - s.stamp c < seconds * 1000) := by
  have h : Overseen seconds s := reachableInvariant (fun _ => overseenInitial) (fun _ _ _ => overseenStep) reachable
  refine ⟨fun c member => h.due c (List.mem_append_right _ member),?_⟩
  intro ended closed now scanned c listed up
  rcases h.rest now scanned c listed up with unread | active | short | pending
  · simp [Timed.unread, ended] at unread
  · exact .inl active
  · cases still : s.active c with
    | true => exact .inl rfl
    | false => exact .inr (h.steady c still ▸ short)
  · simp [Timed.pending, Timed.found, ended, closed] at pending

/- With a timeout of five seconds: one connection made at 0 ms, one at 4000 ms, a scan at
6000 ms, and ForceClose of the first. -/
def oneIdle : List TimedAction :=
  [.server .start 0,.server .poll 0,.server (.accept 5 64) 0,.server (.goOn 0) 0,.server .poll 4000,
    .server (.accept 6 64) 4000,.server (.goOn 0) 4000,.scanBegin 6000,.scanEntry,.scanEntry,.scanEnd]

def unscanned : Timed := ⟨constructed 0 quiet 1 true,fun _ => 0,none,none,fun _ => 0,fun _ => true⟩

theorem idleScannedOne : ∃ s s', run (timedStep 5) unscanned oneIdle = some s ∧ timedStep 5 s (.server (.goOn 0) 6001) = some s' ∧
    idleOf (s.world.stack mainLoop) = [0] ∧ 5 * 1000 ≤ 6000 - s.seen 0 ∧
    idleOf (s'.world.stack mainLoop) = [] ∧ s'.active 1 = false ∧ 6000 - s'.stamp 1 < 5 * 1000 := by
  have reached : ∃ s s', run (timedStep 5) unscanned oneIdle = some s ∧ timedStep 5 s (.server (.goOn 0) 6001) = some s' ∧
      idleOf (s.world.stack mainLoop) = [0] ∧ s.scanned = some 6000 ∧ idleOf (s'.world.stack mainLoop) = [] ∧
      s'.active 1 = false ∧ s'.scan = none ∧ s'.scanned = some 6000 ∧ registered s'.world 1 = true ∧
      (s'.world.conn 1).isConnected = true := ⟨_,_,rfl,rfl,rfl,rfl,rfl,rfl,rfl,rfl,rfl,rfl⟩
  obtain ⟨s,s',taken,closing,idle,scanned,none_,still,ended,scanned',listed,up⟩ := reached
  have start : TimedInitial 5 unscanned := ⟨⟨0,quiet,1,rfl⟩,rfl,rfl,rfl⟩
  have reachable : Reachable (timedStep 5) (TimedInitial 5) s := ⟨_,_,start,taken⟩
  obtain ⟨now,read,long⟩ := (idleScanned reachable).1 0 (by rw [idle]; exact List.mem_singleton_self 0)
  cases Option.some.inj (scanned.symm.trans read)
  rcases (idleScanned (reachableStep reachable closing)).2 ended none_ 6000 scanned' 1 listed up with active | short
  · rw [still] at active
    cases active
  · exact ⟨s,s',taken,closing,idle,long,none_,still,short⟩

end TcFrame.TcpServer
