import TcFrame.TcpServerAccounts
import TcFrame.TcpServerTurns

/-! What GetPrometheusMetrics exports. The server keeps three of its counters; the other
two are summed over the table at each export. -/
namespace TcFrame.Endpoint

/- The byte counters of a connection never go back. -/
structure Counts (c c' : TcpConnection) : Prop where
  read : c.totalBytesRead ≤ c'.totalBytesRead
  written : c.totalBytesWritten ≤ c'.totalBytesWritten

theorem countsSame {c c' : TcpConnection} (read : c'.totalBytesRead = c.totalBytesRead)
    (written : c'.totalBytesWritten = c.totalBytesWritten) : Counts c c' :=
  ⟨Nat.le_of_eq read.symm,Nat.le_of_eq written.symm⟩

theorem countsRemove (e : Endpoint) : Counts e.conn e.disconnect.removeIfAdded.conn := by
  unfold removeIfAdded
  split <;> exact countsSame rfl rfl

theorem countsClose (e : Endpoint) : Counts e.conn e.handleClose.1.conn := by
  unfold handleClose
  split
  · exact countsSame rfl rfl
  · exact countsRemove e

theorem countsWatch (e : Endpoint) : Counts e.conn e.watchWriting.conn := by
  unfold watchWriting
  split <;> exact countsSame rfl rfl

theorem countsRead (e : Endpoint) (r : ReadResult) : Counts e.conn (e.handleRead r).1.conn := by
  cases r with
  | ok received =>
    simp only [handleRead]
    split
    · exact countsClose e
    · exact ⟨Nat.le_add_right _ _,Nat.le_refl _⟩
  | error errno =>
    simp only [handleRead]
    split
    · exact countsSame rfl rfl
    · exact countsClose e

theorem countsWritten (e : Endpoint) (n : Nat) : Counts e.conn (e.written n).conn :=
  ⟨Nat.le_refl _,Nat.le_add_right _ _⟩

theorem countsWrite (e : Endpoint) (r : WriteResult) : Counts e.conn (e.handleWrite r).1.conn := by
  simp only [handleWrite]
  split
  · exact countsSame rfl rfl
  · split
    · exact countsClose e
    · rename_i n _ _
      have wrote := countsWritten e n
      split
      · split
        · have closed := countsClose (e.written n).disableWriting
          exact ⟨Nat.le_trans wrote.read closed.read,Nat.le_trans wrote.written closed.written⟩
        · exact ⟨wrote.read,wrote.written⟩
      · exact wrote
    · split
      · exact countsSame rfl rfl
      · exact countsClose e

theorem countsHandle (e : Endpoint) (ev : Connection.Event) : Counts e.conn (Connection.handle e ev).1.conn := by
  cases ev with
  | read r => exact countsRead e r
  | write r => exact countsWrite e r
  | close => exact countsClose e
  | error => exact countsClose e

theorem countsRun (e : Endpoint) (f : Functor) : Counts e.conn (e.run f).1.conn := by
  cases f with
  | connectEstablished => exact countsSame rfl rfl
  | connectDestroyed =>
    simp only [run, connectDestroyed]
    split
    · exact countsRemove e
    · exact countsSame rfl rfl
  | sendInLoop m =>
    simp only [run, sendInLoop]
    split <;> exact countsSame rfl rfl
  | shutdownInLoop =>
    simp only [run, shutdownInLoop]
    split
    · exact countsWatch e
    · exact countsClose e
  | forceCloseInLoop =>
    simp only [run, forceCloseInLoop]
    split <;> exact countsSame rfl rfl

theorem countsResume (e : Endpoint) (f : Frame) : Counts e.conn (e.resume f).1.conn := by
  cases f with
  | sendTail => exact countsWatch e
  | closeSocket =>
    simp only [resume, closeSocket]
    split <;> exact countsSame rfl rfl
  | _ => exact countsSame rfl rfl

theorem countsRequest (e : Endpoint) (t : ThreadId) (c : UserCall) : Counts e.conn (e.request t c).1.conn := by
  cases c <;> simp only [request, send, shutdown, forceClose] <;> split <;> exact countsSame rfl rfl

end TcFrame.Endpoint

namespace TcFrame.TcpServer
open Endpoint Machine

inductive MetricType where
  | counter
  | gauge
  deriving DecidableEq, Repr

/- One series of the export: its TYPE line and its sample. -/
structure Series where
  name : String
  type : MetricType
  value : Nat
  deriving DecidableEq, Repr

/- The sums of the loop over m_connections. -/
def summed (count : TcpConnection → Nat) (w : World) : Nat :=
  TableSum.total (fun c => count (w.conn c)) w.server.connections

/- `triggered` is m_high_water_mark_triggered. The uptime, in seconds since the start, is
not a figure of the model. -/
def getPrometheusMetrics (w : World) (triggered : Nat) : List Series :=
  [⟨"tcframe_connections_total",.counter,w.server.totalConnections⟩,
    ⟨"tcframe_connections_closed_total",.counter,w.server.closedConnections⟩,
    ⟨"tcframe_connections_active",.gauge,activeConnections w⟩,
    ⟨"tcframe_server_stopping",.gauge,if w.server.stopping then 1 else 0⟩,
    ⟨"tcframe_output_high_watermark_triggered_total",.counter,triggered⟩,
    ⟨"tcframe_connection_pending_write_bytes",.gauge,summed TcpConnection.pendingWriteBytes w⟩,
    ⟨"tcframe_connection_bytes_read_total",.counter,summed TcpConnection.totalBytesRead w⟩,
    ⟨"tcframe_connection_bytes_written_total",.counter,summed TcpConnection.totalBytesWritten w⟩]

def isHighWaterMark : Frame → Bool
  | .highWaterMarkCallback _ => true
  | _ => false

/- The high-water callbacks that a step makes. HandleNewConnection has set each
connection's to one that counts. -/
def highWaterMarks (w : World) : Action → Nat
  | .goOn t =>
    match w.stack t with
    | .call l (.conn c f) :: _ =>
      if t = l then (((w.host.endpoint c).run f).2.filter isHighWaterMark).length else 0
    | _ => 0
  | _ => 0

/- The server with m_high_water_mark_triggered beside it. -/
def counted : World × Nat → Action → Option (World × Nat) :=
  recording step (fun w a _ triggered => triggered + highWaterMarks w a)

def exported (x : World × Nat) : List Series := getPrometheusMetrics x.1 x.2

/- No series declared a counter has a smaller value in the later export. -/
def NoneFalls (ms ms' : List Series) : Prop :=
  ∀ m ∈ ms, m.type = .counter → ∀ m' ∈ ms', m'.name = m.name → m.value ≤ m'.value

theorem noneFallsIff {x y : World × Nat} : NoneFalls (exported x) (exported y) ↔
    x.1.server.totalConnections ≤ y.1.server.totalConnections ∧
    x.1.server.closedConnections ≤ y.1.server.closedConnections ∧ x.2 ≤ y.2 ∧
    summed TcpConnection.totalBytesRead x.1 ≤ summed TcpConnection.totalBytesRead y.1 ∧
    summed TcpConnection.totalBytesWritten x.1 ≤ summed TcpConnection.totalBytesWritten y.1 := by
  simp [NoneFalls, exported, getPrometheusMetrics]

theorem countsPut {w : World} {c : ConnId} {e : Endpoint} (counts : Counts (w.host.endpoint c).conn e.conn)
    (d : ConnId) :
    Counts (w.conn d) ((w.putHost (w.host.put c e)).conn d) := by
  refine World.connPutCases (P := fun conn => Counts (w.conn d) conn) (fun here => ?_) (fun _ => countsSame rfl rfl)
  rw [here]
  exact counts

theorem countsStep {w w' : World} {a : Action} (r : Registry w) (p : Placed w) (taken : step w a = some w') :
    ∀ d < w.host.next, Counts (w.conn d) (w'.conn d) := by
  intro d known
  cases turnCases r p taken with
  | member _ _ _ does =>
    cases does with
    | resume own => exact countsPut (countsResume _ _) d
    | run => exact countsPut (countsRun _ _) d
    | event idle up ok => exact countsPut (countsHandle _ _) d
  | request _ _ caller => exact countsPut (countsRequest _ _ _) d
  | remove _ ran split does =>
    rw [connSettle, World.connSame does.host]
    exact countsSame rfl rfl
  | serve split own calm does =>
    rw [connSettle, World.connSame does.host]
    exact countsSame rfl rfl
  | accept idle free made =>
    rw [(made.old d known).1]
    exact countsSame rfl rfl
  | _ => exact countsSame rfl rfl

/- What a step does to a sum over the table: an entry taken out takes its part with it. -/
def SumStep (count : TcpConnection → Nat) (w w' : World) (taken : Option ConnId) : Prop :=
  match taken with
  | none => summed count w ≤ summed count w'
  | some c => summed count w' + count (w.conn c) = summed count w

theorem underEntry {count : TcpConnection → Nat} {w : World} {fd : Fd} :
    TableSum.under (fun c => count (w.conn c)) w.server.connections fd =
      ((w.lookup fd).map (fun c => count (w.conn c))).getD 0 := rfl

theorem sumErase {count : TcpConnection → Nat} {w w' : World} {fd : Fd}
    (connections : w'.server.connections = w.server.connections.erase fd) (host : w'.host = w.host) :
    SumStep count w w' (w.lookup fd) := by
  have left := TableSum.totalErase (fun c => count (w.conn c)) w.server.connections fd
  have after : summed count w' =
      TableSum.total (fun c => count (w.conn c)) (w.server.connections.erase fd) := by
    rw [summed, connections, World.connSame host]
  rw [underEntry, ← after] at left
  cases found : w.lookup fd with
  | none =>
    rw [found] at left
    exact Nat.le_of_eq left.symm
  | some d =>
    rw [found] at left
    exact left

theorem sumInsert {count : TcpConnection → Nat} {w w' : World} {fd : Fd} (t : Table w)
    (connections : w'.server.connections = w.server.connections.insert fd w.host.next)
    (old : ∀ c < w.host.next, w'.conn c = w.conn c) (fresh : count (w'.conn w.host.next) = 0) :
    SumStep count w w' (w.lookup fd) := by
  have same : TableSum.total (fun c => count (w'.conn c)) w.server.connections = summed count w :=
    TableSum.totalCongr (fun m member => by rw [old _ (t.key _ _ (AList.mem_lookup_iff.mpr member)).1])
  have made := TableSum.totalInsert (fun c => count (w'.conn c)) w.server.connections fd w.host.next
  have after : summed count w' =
      TableSum.total (fun c => count (w'.conn c)) (w.server.connections.insert fd w.host.next) := by
    rw [summed, connections]
  rw [fresh, same, ← after] at made
  cases found : w.lookup fd with
  | none =>
    have here : TableSum.under (fun c => count (w'.conn c)) w.server.connections fd = 0 := by
      rw [TableSum.under, show w.server.connections.lookup fd = none from found]
      rfl
    rw [here] at made
    exact Nat.le_of_eq made.symm
  | some d =>
    have here : TableSum.under (fun c => count (w'.conn c)) w.server.connections fd = count (w.conn d) := by
      rw [TableSum.under, show w.server.connections.lookup fd = some d from found, Option.map_some, Option.getD_some,
        old d (t.key fd d found).1]
    rw [here] at made
    exact made

theorem sumStep (count : TcpConnection → Nat) {w w' : World} {a : Action} (t : Table w) (booked : Booked w a w')
    (grows : ∀ c < w.host.next, count (w.conn c) ≤ count (w'.conn c))
    (fresh : ∀ id fd callbacks mark size, count (TcpConnection.create id fd callbacks mark size) = 0) :
    SumStep count w w' (takenEntry w a) := by
  cases booked with
  | same total closed connections stays =>
    rw [stays]
    refine Nat.le_trans (TableSum.totalMono (fun m member => ?_)) (Nat.le_of_eq (by rw [summed, connections]))
    exact grows _ (t.key _ _ (AList.mem_lookup_iff.mpr member)).1
  | removed ran stored found total closed connections host takes =>
    rw [takes, ← found]
    exact sumErase connections host
  | swept total closed connections host other takes =>
    rw [takes]
    exact sumErase connections host
  | accepted on total closed connections host takes =>
    rw [takes]
    refine sumInsert t connections (fun c known => ?_) ?_
    · simp [World.conn, host, Host.add, Nat.ne_of_lt known]
    · simp only [World.conn, host, Host.add, Function.update_self]
      exact fresh _ _ _ _ _

/- The step takes an entry whose connection has read or written bytes. -/
def dropsBytes (w : World) (a : Action) : Bool :=
  match takenEntry w a with
  | some c => decide (0 < (w.conn c).totalBytesRead) || decide (0 < (w.conn c).totalBytesWritten)
  | none => false

theorem countersKept {w w' : World} {a : Action} (booked : Booked w a w') :
    w.server.totalConnections ≤ w'.server.totalConnections ∧
      w.server.closedConnections ≤ w'.server.closedConnections := by
  cases booked <;> omega

/- Two exports around one step. -/
theorem noneFallsStep {x y : World × Nat} {a : Action} (r : Registry x.1) (p : Placed x.1)
    (taken : counted x a = some y) : NoneFalls (exported x) (exported y) ↔ dropsBytes x.1 a = false := by
  obtain ⟨moved,triggered⟩ := recordingCases taken
  have booked := bookedStep moved
  have kept := countersKept booked
  have counts := countsStep r p moved
  have read := sumStep TcpConnection.totalBytesRead r.table booked (fun c known => (counts c known).read)
    (fun _ _ _ _ _ => rfl)
  have written := sumStep TcpConnection.totalBytesWritten r.table booked
    (fun c known => (counts c known).written) (fun _ _ _ _ _ => rfl)
  rw [noneFallsIff, dropsBytes]
  cases takes : takenEntry x.1 a with
  | none =>
    rw [takes] at read written
    exact iff_of_true ⟨kept.1,kept.2,by rw [triggered]; exact Nat.le_add_right _ _,read,written⟩ rfl
  | some c =>
    rw [takes] at read written
    simp only [SumStep] at read written
    simp only [Bool.or_eq_false_iff, decide_eq_false_iff_not]
    constructor
    · rintro ⟨_,_,_,less,less'⟩
      exact ⟨by omega,by omega⟩
    · rintro ⟨nothing,nothing'⟩
      exact ⟨kept.1,kept.2,by rw [triggered]; exact Nat.le_add_right _ _,by omega,by omega⟩

theorem noneFallsTrans {x y z : World × Nat} (h : NoneFalls (exported x) (exported y))
    (h' : NoneFalls (exported y) (exported z)) : NoneFalls (exported x) (exported z) := by
  rw [noneFallsIff] at h h' ⊢
  omega

theorem noneFallsRefl (x : World × Nat) : NoneFalls (exported x) (exported x) :=
  noneFallsIff.mpr ⟨Nat.le_refl _,Nat.le_refl _,Nat.le_refl _,Nat.le_refl _,Nat.le_refl _⟩

/- In every run, no counter falls between any two exports exactly when no step takes an
entry whose connection has read or written bytes. -/
theorem countersNeverFall {s : World} {x : World × Nat} {as : List Action} (start : Initial s)
    (reached : run counted (s,0) as = some x) :
    (∀ bs cs ds u v, as = bs ++ (cs ++ ds) → run counted (s,0) bs = some u → run counted u cs = some v →
      NoneFalls (exported u) (exported v)) ↔
    Throughout counted (fun u a => dropsBytes u.1 a = false) (s,0) as := by
  let sound (u : World × Nat) : Prop := Registry u.1 ∧ Placed u.1
  have first : sound (s,0) := ⟨registryInitial start,placedInitial start⟩
  have keep : ∀ u a v, sound u → counted u a = some v → sound v := by
    intro u a v h taken
    have moved := (recordingCases taken).1
    exact ⟨(registryStep h.1 moved).1,placedStep h.1 h.2 moved⟩
  constructor
  · intro exports
    refine throughoutEach reached (fun bs a cs u v split before taken => ?_)
    have h := invariant keep first before
    have one : run counted u [a] = some v := runCons.mpr ⟨v,taken,rfl⟩
    exact (noneFallsStep h.1 h.2 taken).mp (exports bs [a] cs u v split before one)
  · intro kept bs cs ds u v split before later
    rw [split] at kept
    have between := (throughoutSplit later).mp ((throughoutSplit before).mp kept).2
    have step_ : ∀ m a n, sound m ∧ NoneFalls (exported u) (exported m) → dropsBytes m.1 a = false →
        counted m a = some n → sound n ∧ NoneFalls (exported u) (exported n) :=
      fun m a n h calm taken => ⟨keep m a n h.1 taken,noneFallsTrans h.2 ((noneFallsStep h.1.1 h.1.2 taken).mpr calm)⟩
    exact (invariantWhen step_ ⟨invariant keep first before,noneFallsRefl u⟩ between.1 later).2

/- One connection that has read three bytes. -/
def reads : List Action := [.start,.poll,.accept 5 64,.goOn 0,.event 0 (.read (.ok [1,2,3]))]

theorem countersNeverFallReads : ∃ x, run counted (constructed 0 quiet 1 false,0) reads = some x ∧
    summed TcpConnection.totalBytesRead x.1 = 3 ∧
    ∀ bs cs ds u v, reads = bs ++ (cs ++ ds) → run counted (constructed 0 quiet 1 false,0) bs = some u →
      run counted u cs = some v → NoneFalls (exported u) (exported v) := by
  have reached : ∃ x, run counted (constructed 0 quiet 1 false,0) reads = some x ∧
      summed TcpConnection.totalBytesRead x.1 = 3 := ⟨_,rfl,rfl⟩
  obtain ⟨x,taken,three⟩ := reached
  have kept : Throughout counted (fun u a => dropsBytes u.1 a = false) (constructed 0 quiet 1 false,0) reads := by decide
  exact ⟨x,taken,three,(countersNeverFall ⟨0,quiet,1,false,rfl⟩ taken).mpr kept⟩

/- Its peer closes it, and the removal takes its bytes out of the sum. -/
def readsEnds : List Action := [.event 0 (.read (.ok [])),.goOn 0,.goOn 0,.goOn 0,.goOn 0,.goOn 0,.goOn 0]

theorem countersFall : ¬ ∀ s x y as bs, Initial s → run counted (s,0) as = some x → run counted x bs = some y →
    x.1.stack mainLoop = [] → y.1.stack mainLoop = [] → NoneFalls (exported x) (exported y) := by
  intro claimed
  have reached : ∃ x y, run counted (constructed 0 quiet 1 false,0) reads = some x ∧ run counted x readsEnds = some y ∧
      summed TcpConnection.totalBytesRead x.1 = 3 ∧ summed TcpConnection.totalBytesRead y.1 = 0 ∧
      x.1.stack mainLoop = [] ∧ y.1.stack mainLoop = [] := ⟨_,_,rfl,rfl,rfl,rfl,rfl,rfl⟩
  obtain ⟨x,y,first,later,three,none_,idle,idle'⟩ := reached
  have falls := (noneFallsIff.mp (claimed _ x y _ _ ⟨0,quiet,1,false,rfl⟩ first later idle idle')).2.2.2.1
  rw [three, none_] at falls
  cases falls

end TcFrame.TcpServer
