import TcFrame.TableSum
import TcFrame.TcpServerRegistry

/-! The server's accounts: m_total_connections, m_closed_connections and the size of the
table. Entries are made in one place and counted there; of the three ways out of the
table only the removal counts. -/
namespace TcFrame.TcpServer
open Machine

def activeConnections (w : World) : Nat := w.server.connections.entries.length

/- The connection whose entry a step takes out of the table: a removal finds it,
FinalizeGracefulStop erases it, or a new connection on its descriptor takes its place. -/
def takenEntry (w : World) : Action → Option ConnId
  | .goOn t =>
    match w.stack t with
    | .call l (.remove c) :: _ => if t = l then (w.conn c).socket.fd.bind w.lookup else none
    | .sweep (x :: _) _ _ :: _ => if (w.conn x.2).isConnected then none else w.lookup x.1
    | _ => none
  | .accept fd _ => if w.server.stopping then none else w.lookup fd
  | _ => none

/- Only the removal counts it in m_closed_connections. -/
def uncounted (w : World) (a : Action) : Bool := (takenEntry w a).isSome && (removalOf w a).isNone

/- What a step does to the two counters and the table. -/
inductive Booked (w : World) : Action → World → Prop where
  | same {a w'} (total : w'.server.totalConnections = w.server.totalConnections)
      (closed : w'.server.closedConnections = w.server.closedConnections)
      (connections : w'.server.connections = w.server.connections) (stays : takenEntry w a = none) : Booked w a w'
  | removed {a c fd d w'} (ran : removalOf w a = some c) (stored : (w.conn c).socket.fd = some fd)
      (found : w.lookup fd = some d) (total : w'.server.totalConnections = w.server.totalConnections)
      (closed : w'.server.closedConnections = w.server.closedConnections + 1)
      (connections : w'.server.connections = w.server.connections.erase fd) (host : w'.host = w.host)
      (takes : takenEntry w a = some d) : Booked w a w'
  | swept {t fd w'} (total : w'.server.totalConnections = w.server.totalConnections)
      (closed : w'.server.closedConnections = w.server.closedConnections)
      (connections : w'.server.connections = w.server.connections.erase fd) (host : w'.host = w.host)
      (other : removalOf w (.goOn t) = none) (takes : takenEntry w (.goOn t) = w.lookup fd) : Booked w (.goOn t) w'
  | accepted {fd bufferSize w'} (on : w.server.stopping = false)
      (total : w'.server.totalConnections = w.server.totalConnections + 1)
      (closed : w'.server.closedConnections = w.server.closedConnections)
      (connections : w'.server.connections = w.server.connections.insert fd w.host.next)
      (host : w'.host = w.host.add (TcpConnection.create w.host.next fd
        { w.server.callbacks with close := true, highWaterMark := true } w.server.highWaterMarkBytes bufferSize)
        (nextLoop w.server) fd)
      (takes : takenEntry w (.accept fd bufferSize) = w.lookup fd) : Booked w (.accept fd bufferSize) w'

/- The functions that leave the accounts alone. -/
structure OffBooks (w w' : World) : Prop where
  total : w'.server.totalConnections = w.server.totalConnections
  closed : w'.server.closedConnections = w.server.closedConnections
  connections : w'.server.connections = w.server.connections

theorem offBooksFinalize (w : World) (force : Bool) : OffBooks w (finalizeGracefulStop w force).1 := by
  unfold finalizeGracefulStop
  split <;> exact ⟨rfl,rfl,rfl⟩

theorem offBooksStop (w : World) (cb : Option Nat) : OffBooks w (stopGracefully w cb).1 := by
  unfold stopGracefully
  dsimp only
  split
  · exact ⟨rfl,rfl,rfl⟩
  · split <;> exact ⟨rfl,rfl,rfl⟩

theorem offBooksStopTail (w : World) : OffBooks w (stopTail w).1 := by
  unfold stopTail
  split
  · exact offBooksFinalize w false
  · exact ⟨rfl,rfl,rfl⟩

theorem offBooksRemoveTail (w : World) : OffBooks w (removeTail w).1 := by
  unfold removeTail
  split
  · exact offBooksFinalize w false
  · exact ⟨rfl,rfl,rfl⟩

theorem offBooksFinish (w : World) (force : Bool) : OffBooks w (finishStop w force).1 := by
  unfold finishStop
  split <;> exact ⟨rfl,rfl,rfl⟩

theorem offBooksEach (w : World) (t : ThreadId) (call : UserCall) (x : Entry) (again : Act) :
    OffBooks w (eachEntry w t call x again).1 := by
  unfold eachEntry
  split <;> exact ⟨rfl,rfl,rfl⟩

theorem offBooksStart (w : World) : OffBooks w (startServer w) := by
  unfold startServer
  split <;> exact ⟨rfl,rfl,rfl⟩

/- The acts that may take an entry. -/
def takesFrom : Act → Bool
  | .call _ (.remove _) | .sweep (_ :: _) _ _ => true
  | _ => false

theorem takenTop {w : World} {t : ThreadId} {f : Act} {below : List Act} (top : w.stack t = f :: below)
    (other : takesFrom f = false) : takenEntry w (.goOn t) = none := by
  simp only [takenEntry, top]
  split
  · rename_i same
    cases same
    cases other
  · rename_i same
    cases same
    cases other
  · rfl

theorem bookedOff {w : World} {a : Action} {t : ThreadId} {below : List Act} {out : Effect} (o : OffBooks w out.1)
    (stays : takenEntry w a = none) : Booked w a (settle t below out) :=
  .same o.total o.closed o.connections stays

theorem bookedRemove {w : World} {t : ThreadId} {c : ConnId} {below : List Act}
    (top : w.stack t = .call t (.remove c) :: below) : Booked w (.goOn t) (settle t below (removeInLoop w c)) := by
  have ran : removalOf w (.goOn t) = some c := by simp [removalOf, top]
  have takes : takenEntry w (.goOn t) = (w.conn c).socket.fd.bind w.lookup := by simp [takenEntry, top]
  unfold removeInLoop
  dsimp only
  split
  · rename_i none_
    exact bookedOff ⟨rfl,rfl,rfl⟩ (by rw [takes, none_]; rfl)
  · rename_i fd stored
    rw [stored, Option.bind_some] at takes
    split
    · rename_i absent
      exact bookedOff ⟨rfl,rfl,rfl⟩ (by rw [takes]; exact Option.isNone_iff_eq_none.mp absent)
    · rename_i present
      obtain ⟨d,found⟩ := Option.ne_none_iff_exists'.mp (fun none_ => present (Option.isNone_iff_eq_none.mpr none_))
      exact .removed ran stored found rfl rfl rfl rfl (takes.trans found)

theorem bookedCall {w : World} {t l : ThreadId} {task : Task} {below : List Act}
    (top : w.stack t = .call l task :: below) : Booked w (.goOn t) (settle t below (runInLoop w t l task)) := by
  unfold runInLoop
  split
  · rename_i here
    subst here
    cases task with
    | conn c f => exact bookedOff ⟨rfl,rfl,rfl⟩ (takenTop top rfl)
    | remove c => exact bookedRemove top
    | stopGracefully cb => exact bookedOff (offBooksStop w cb) (takenTop top rfl)
  · rename_i other
    refine bookedOff ⟨rfl,rfl,rfl⟩ ?_
    cases task with
    | remove c => simp [takenEntry, top, other]
    | _ => exact takenTop top rfl

theorem bookedSweep {w : World} {t : ThreadId} {x : Entry} {rest : List Entry} {stale : List ConnId} {force : Bool}
    {below : List Act} (top : w.stack t = .sweep (x :: rest) stale force :: below) :
    Booked w (.goOn t) (settle t below (sweepEntry w x rest stale force)) := by
  unfold sweepEntry
  split
  · rename_i on
    exact bookedOff ⟨rfl,rfl,rfl⟩ (by simp [takenEntry, top, on])
  · rename_i gone
    exact .swept rfl rfl rfl rfl (by simp [removalOf, top]) (by simp [takenEntry, top, gone])

theorem bookedGoOn {w : World} {t : ThreadId} {f : Act} {below : List Act} {out : Effect}
    (top : w.stack t = f :: below) (went : goOn w t f = some out) : Booked w (.goOn t) (settle t below out) := by
  have mild : takesFrom f = false → OffBooks w out.1 → Booked w (.goOn t) (settle t below out) :=
    fun other o => bookedOff o (takenTop top other)
  cases f with
  | conn c f =>
    cases f with
    | closeCallback | sendTail | closeSocket | invalidateSocket => cases went; exact mild rfl ⟨rfl,rfl,rfl⟩
    | _ => cases went
  | call l task => cases went; exact bookedCall top
  | removeTail => cases went; exact mild rfl (offBooksRemoveTail w)
  | shutdownAll rest =>
    cases rest with
    | nil => cases went; exact mild rfl ⟨rfl,rfl,rfl⟩
    | cons x rest => cases went; exact mild rfl (offBooksEach w _ _ _ _)
  | stopTail => cases went; exact mild rfl (offBooksStopTail w)
  | sweep rest stale force =>
    cases rest with
    | nil => cases went; exact mild rfl ⟨rfl,rfl,rfl⟩
    | cons x rest => cases went; exact bookedSweep top
  | forceAll rest =>
    cases rest with
    | nil => cases went; exact mild rfl ⟨rfl,rfl,rfl⟩
    | cons x rest => cases went; exact mild rfl (offBooksEach w _ _ _ _)
  | finishStop force => cases went; exact mild rfl (offBooksFinish w _)
  | closeIdle rest =>
    cases rest with
    | nil => cases went; exact mild rfl ⟨rfl,rfl,rfl⟩
    | cons c rest => cases went; exact mild rfl ⟨rfl,rfl,rfl⟩
  | completeCallback cb => cases went

theorem bookedAccept (w : World) (fd : Fd) (bufferSize : Nat) :
    Booked w (.accept fd bufferSize) (settle mainLoop [] (newConnection { w with acceptReady := false } fd bufferSize)) := by
  cases on : w.server.stopping with
  | false =>
    simp only [newConnection, on, Bool.false_eq_true, if_false]
    exact .accepted on rfl rfl rfl rfl (by simp [takenEntry, on])
  | true =>
    simp only [newConnection, on, if_true]
    exact bookedOff ⟨rfl,rfl,rfl⟩ (by simp [takenEntry, on])

theorem bookedStep {w w' : World} {a : Action} (taken : step w a = some w') : Booked w a w' := by
  cases takenCases taken with
  | start runs =>
    have o := offBooksStart w
    exact .same o.total o.closed o.connections rfl
  | userConn runs known => exact bookedOff ⟨rfl,rfl,rfl⟩ rfl
  | userStop runs => exact bookedOff ⟨rfl,rfl,rfl⟩ rfl
  | goOn top went => exact bookedGoOn top went
  | ret top callback => exact bookedOff ⟨rfl,rfl,rfl⟩ rfl
  | runQueued idle head loop handled => exact bookedOff ⟨rfl,rfl,rfl⟩ rfl
  | poll idle => exact .same rfl rfl rfl rfl
  | accept idle ready free => exact bookedAccept w _ _
  | event idle known up ok => exact bookedOff ⟨rfl,rfl,rfl⟩ rfl
  | scanIdle between armed => exact bookedOff ⟨rfl,rfl,rfl⟩ rfl
  | checkTimer between armed =>
    split
    · exact bookedOff (offBooksFinalize w false) rfl
    · exact bookedOff ⟨rfl,rfl,rfl⟩ rfl
  | deadlineTimer between armed =>
    have o := offBooksFinalize { w with server := { w.server with deadlineTimer := false }, deadlineRan := true } true
    exact bookedOff ⟨o.total,o.closed,o.connections⟩ rfl

theorem underOne (w : World) (fd : Fd) :
    TableSum.under (fun _ => 1) w.server.connections fd = if (w.lookup fd).isSome then 1 else 0 := by
  cases found : w.lookup fd with
  | none => simp [TableSum.under, show w.server.connections.lookup fd = none from found]
  | some d => simp [TableSum.under, show w.server.connections.lookup fd = some d from found]

/- What total exceeds closed and active by grows with each uncounted step. -/
theorem accountStep {w w' : World} {a : Action} (taken : step w a = some w') :
    w'.server.totalConnections + (w.server.closedConnections + activeConnections w) =
      w.server.totalConnections + (w'.server.closedConnections + activeConnections w') +
        if uncounted w a then 1 else 0 := by
  have active : ∀ u : World, activeConnections u = TableSum.total (fun _ => 1) u.server.connections :=
    fun u => (TableSum.totalOne _).symm
  rw [active, active]
  cases bookedStep taken with
  | same total closed connections stays =>
    have counted : uncounted w a = false := by simp [uncounted, stays]
    simp only [total, closed, connections, counted, Bool.false_eq_true, if_false]
    omega
  | @removed _ c fd d _ ran stored found total closed connections host takes =>
    have counted : uncounted w a = false := by simp [uncounted, ran]
    have left := TableSum.totalErase (fun _ => 1) w.server.connections fd
    rw [underOne, found, Option.isSome_some, if_pos rfl] at left
    simp only [total, closed, connections, counted, Bool.false_eq_true, if_false]
    omega
  | @swept t fd _ total closed connections host other takes =>
    have counted : uncounted w (.goOn t) = (w.lookup fd).isSome := by simp [uncounted, takes, other]
    have left := TableSum.totalErase (fun _ => 1) w.server.connections fd
    rw [underOne, ← counted] at left
    simp only [total, closed, connections]
    omega
  | @accepted fd bufferSize _ on total closed connections host takes =>
    have counted : uncounted w (.accept fd bufferSize) = (w.lookup fd).isSome := by simp [uncounted, takes, removalOf]
    have left := TableSum.totalInsert (fun _ => 1) w.server.connections fd w.host.next
    rw [underOne, ← counted] at left
    simp only [total, closed, connections]
    omega

/- In every state of every run the figures agree exactly when no step so far was one of
those: no stop has erased an entry and no descriptor was accepted anew under an entry. -/
theorem accountsAgree {s w : World} {as : List Action} (start : Initial s) (reached : run step s as = some w) :
    w.server.totalConnections = w.server.closedConnections + activeConnections w ↔
      Throughout step (fun u a => uncounted u a = false) s as := by
  let agree (u : World) : Prop := u.server.totalConnections = u.server.closedConnections + activeConnections u
  let short (u : World) : Prop := u.server.closedConnections + activeConnections u < u.server.totalConnections
  have first : agree s := by
    obtain ⟨threadNum,callbacks,mark,idleTimeout,same⟩ := start
    subst same
    rfl
  have keep : ∀ u a v, agree u → uncounted u a = false → step u a = some v → agree v := by
    intro u a v even counted taken
    have books := accountStep taken
    rw [counted] at books
    simp only [agree, Bool.false_eq_true, if_false] at even books ⊢
    omega
  constructor
  · intro even
    have covers : ∀ u a v, agree u ∨ short u → step u a = some v → agree v ∨ short v := by
      intro u a v h taken
      have books := accountStep taken
      simp only [agree, short] at h ⊢
      split at books <;> omega
    have enters : ∀ u a v, agree u ∨ short u → ¬ uncounted u a = false → step u a = some v → short v := by
      intro u a v h drops taken
      have books := accountStep taken
      rw [if_pos (by simpa using drops)] at books
      simp only [agree, short] at h ⊢
      omega
    have stays : ∀ u a v, short u → step u a = some v → short v := by
      intro u a v h taken
      have books := accountStep taken
      simp only [short] at h ⊢
      omega
    rcases throughoutOr covers enters stays (.inl first) reached with kept | less
    · exact kept
    · exact absurd even (Nat.ne_of_gt less)
  · intro counted
    exact invariantWhen keep first counted reached

/- One loop: a connection is accepted and closed by its peer. -/
theorem accountsAgreePeer : ∃ w, run step (constructed 0 quiet 1 false) peerEnds = some w ∧
    w.server.totalConnections = 1 ∧ w.server.totalConnections = w.server.closedConnections + activeConnections w := by
  have reached : ∃ w, run step (constructed 0 quiet 1 false) peerEnds = some w ∧ w.server.totalConnections = 1 :=
    ⟨_,rfl,rfl⟩
  obtain ⟨w,taken,one⟩ := reached
  have counted : Throughout step (fun u a => uncounted u a = false) (constructed 0 quiet 1 false) peerEnds := by decide
  exact ⟨w,taken,one,(accountsAgree ⟨0,quiet,1,false,rfl⟩ taken).mpr counted⟩

/- Between two iterations of the main loop, with no removal under way on any thread. -/
structure Settled (w : World) : Prop where
  main : w.stack mainLoop = []
  queued : ∀ l c, .remove c ∉ w.queue l
  calls : ∀ t l c, .call l (.remove c) ∉ w.stack t
  closes : ∀ t c, .conn c .closeCallback ∉ w.stack t

/- The stop comes while the connection is still Connecting: Shutdown passes it over, and
at the deadline the first loop erases its entry. No removal is ever queued for it, since
it is closed by connectDestroyed, which calls no close callback. -/
def erasedByStop : List Action :=
  [.start,.poll,.accept 5 64,.goOn 0,.user 0 (.stopGracefully none),.goOn 0,.goOn 0,.goOn 0,.goOn 0,.deadlineTimer,
    .goOn 0,.goOn 0,.goOn 0,.goOn 0,.goOn 0,.runQueued 1,.goOn 1,.runQueued 1,.goOn 1,.goOn 1,.goOn 1]

theorem accountsDiffer : ¬ ∀ s w as, Initial s → run step s as = some w → Settled w →
    w.server.totalConnections = w.server.closedConnections + activeConnections w := by
  intro claimed
  have reached : ∃ w, run step (constructed 1 quiet 1 false) erasedByStop = some w ∧
      (w.server.totalConnections = 1 ∧ w.server.closedConnections = 0 ∧ activeConnections w = 0) ∧
      (∀ t, w.stack t = []) ∧ ∀ l, w.queue l = [] := by
    refine ⟨_,rfl,⟨rfl,rfl,rfl⟩,?_,?_⟩
    · rintro (_ | _ | t) <;> rfl
    · rintro (_ | _ | l) <;> rfl
  obtain ⟨w,taken,⟨total,closed,active⟩,stack,queue⟩ := reached
  have settled : Settled w :=
    { main := stack mainLoop
      queued := fun l c => by simp [queue]
      calls := fun t l c => by simp [stack]
      closes := fun t c => by simp [stack] }
  have agree := claimed _ w _ ⟨1,quiet,1,false,rfl⟩ taken settled
  rw [total,closed,active] at agree
  cases agree

end TcFrame.TcpServer
