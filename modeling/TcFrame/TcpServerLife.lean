import TcFrame.TcpServerOwners

/-! The life of a server. It serves until ~TcpServer begins, which closes the connections,
waits for the threads of the sub loops one after another and clears the table. -/
namespace TcFrame.TcpServer
open Endpoint Machine

inductive Stage where
  | serving
  | closing
  | joining (l : ThreadId)
  | cleared
  deriving DecidableEq, Repr

structure Life where
  world : World
  stage : Stage

def threadOf (w : World) : Action → ThreadId
  | .user t _ | .goOn t | .ret t | .runQueued t => t
  | .event c _ => w.host.loopOf c
  | _ => mainLoop

/- The main thread is in ~TcpServer and only goes on with what stands on its stack. It
waits for sub loop `l` when the loops before `l` have ended. -/
def mayRun (s : Life) (t : ThreadId) : Bool :=
  match s.stage with
  | .serving => true
  | .closing => t != mainLoop || !(s.world.stack mainLoop).isEmpty
  | .joining l => decide (l ≤ t)
  | .cleared => false

def running (s : Life) (a : Action) : Bool := mayRun s (threadOf s.world a)

/- ~TcpServer up to its loop over the table. The acceptor stops inline. -/
def beginDestructor (w : World) : Effect :=
  ({ w with server := { w.server with
      idleScanTimer := false
      checkTimer := false
      deadlineTimer := false
      stopping := true
      listening := false } },[.forceAll w.entries])

/- m_connections.clear(). What the sub loops have not run goes with the loops. -/
def endDestructor (w : World) : World :=
  { w with
    server := { w.server with connections := ∅ }
    queue := fun l => if l = mainLoop then w.queue l else [] }

/- A sub loop leaves Loop between two functors or events; whatever its queue holds then
is not run. -/
inductive LifeAction where
  | server (a : Action)
  | destroy
  | join
  | leave
  | clear
  deriving DecidableEq, Repr

def lifeStep (s : Life) : LifeAction → Option Life
  | .server a => if running s a then (step s.world a).map (fun w => ⟨w,s.stage⟩) else none
  | .destroy =>
    if s.stage = .serving ∧ s.world.stack mainLoop = [] then
      some ⟨settle mainLoop [] (beginDestructor s.world),.closing⟩
    else none
  | .join => if s.stage = .closing ∧ s.world.stack mainLoop = [] then some ⟨s.world,.joining 1⟩ else none
  | .leave =>
    match s.stage with
    | .joining l =>
      if l ≤ s.world.server.threadNum ∧ s.world.stack l = [] then some ⟨s.world,.joining (l + 1)⟩ else none
    | _ => none
  | .clear =>
    match s.stage with
    | .joining l => if s.world.server.threadNum < l then some ⟨endDestructor s.world,.cleared⟩ else none
    | _ => none

def LifeInitial (s : Life) : Prop := Initial s.world ∧ s.stage = .serving

def born (threadNum : Nat) : Life := ⟨constructed threadNum quiet 1 false,.serving⟩

theorem bornInitial (threadNum : Nat) : LifeInitial (born threadNum) := ⟨⟨threadNum,quiet,1,false,rfl⟩,rfl⟩

inductive LifeTurn (s : Life) : LifeAction → Life → Prop where
  | server {a w'} (runs : running s a = true) (taken : step s.world a = some w') : LifeTurn s (.server a) ⟨w',s.stage⟩
  | destroy (serving : s.stage = .serving) (idle : s.world.stack mainLoop = []) :
      LifeTurn s .destroy ⟨settle mainLoop [] (beginDestructor s.world),.closing⟩
  | join (closing : s.stage = .closing) (idle : s.world.stack mainLoop = []) : LifeTurn s .join ⟨s.world,.joining 1⟩
  | leave {l} (joining : s.stage = .joining l) (loop : l ≤ s.world.server.threadNum) (idle : s.world.stack l = []) :
      LifeTurn s .leave ⟨s.world,.joining (l + 1)⟩
  | clear {l} (joining : s.stage = .joining l) (joined : s.world.server.threadNum < l) :
      LifeTurn s .clear ⟨endDestructor s.world,.cleared⟩

theorem lifeTurnCases {s s' : Life} {a : LifeAction} (taken : lifeStep s a = some s') : LifeTurn s a s' := by
  cases a with
  | server a =>
    simp only [lifeStep] at taken
    split at taken
    · obtain ⟨w',stepped,made⟩ := Option.map_eq_some_iff.mp taken
      subst made
      exact .server (by assumption) stepped
    · cases taken
  | destroy =>
    simp only [lifeStep] at taken
    split at taken <;> cases taken
    rename_i ok
    exact .destroy ok.1 ok.2
  | join =>
    simp only [lifeStep] at taken
    split at taken <;> cases taken
    rename_i ok
    exact .join ok.1 ok.2
  | leave =>
    simp only [lifeStep] at taken
    split at taken <;> try contradiction
    rename_i l joining
    split at taken <;> cases taken
    rename_i ok
    exact .leave joining ok.1 ok.2
  | clear =>
    simp only [lifeStep] at taken
    split at taken <;> try contradiction
    rename_i l joining
    split at taken <;> cases taken
    exact .clear joining (by assumption)

/- What holds of the server's world from its construction until the table is cleared. -/
structure Ledger (w : World) : Prop where
  registry : Registry w
  placed : Placed w
  births : Births w
  sockets : Sockets w
  ordered : Ordered w
  swept : Swept w

theorem ledgerInitial {w : World} (h : Initial w) : Ledger w :=
  ⟨registryInitial h,placedInitial h,birthsInitial h,socketsInitial h,orderedInitial h,sweptInitial h⟩

theorem ledgerStep {w w' : World} {a : Action} (h : Ledger w) (taken : step w a = some w') : Ledger w' :=
  ⟨(registryStep h.registry taken).1,placedStep h.registry h.placed taken,birthsStep h.registry h.placed h.births taken,
    socketsStep h.registry h.placed h.births h.sockets taken,orderedStep h.registry h.placed h.births h.ordered taken,
    sweptStep h.registry h.placed h.swept taken⟩

theorem ledgerBegin {w : World} (h : Ledger w) (idle : w.stack mainLoop = []) :
    Ledger (settle mainLoop [] (beginDestructor w)) := by
  have listed : ∀ a ∈ (beginDestructor w).2, a = .forceAll w.entries := fun a member => List.mem_singleton.mp member
  have notCall : ∀ l task, .call l task ∉ (beginDestructor w).2 := fun l task member => by cases listed _ member
  refine ⟨?_,?_,?_,?_,?_,?_⟩
  · have sound : Sound w none (beginDestructor w) := by
      refine soundSame h.registry.table rfl rfl rfl rfl rfl (fun a member c named => ?_)
      rw [List.mem_singleton.mp member] at named
      exact entriesKnown h.registry.table c (by simpa [Act.conns] using named)
    exact (registrySettle h.registry (by simp) sound).1
  · refine placedSettle h.placed (by simp) (staysServer rfl rfl rfl rfl (fun a member => ?_))
    rw [List.mem_singleton.mp member]
    exact rfl
  · exact birthsAside h.births (idleSplit idle) (asideServer rfl rfl rfl (by simp) (fun l c f member => absurd member (notCall _ _)))
  · exact socketsUntouched h.sockets (idleSplit idle) (untouchedServer h.sockets rfl rfl rfl (by simp [beginDestructor])
      (fun l c member => absurd member (notCall _ _)))
  · exact orderedServer h.ordered (idleSplit idle) rfl rfl rfl (by simp) (fun l c => notCall _ _)
      (fun l c member => absurd member (notCall _ _)) (fun _ => by rw [idle]; rfl)
  · refine sweptAside h.swept (idleSplit idle) rfl (fun _ => fun _ _ _ member => by cases member) (absurd rfl) (fun _ _ _ member => ?_)
    cases List.mem_singleton.mp member

/- A function leaves the stacks to whoever called it. -/
theorem goOnStack {w : World} {t : ThreadId} {f : Act} {out : Effect} (taken : goOn w t f = some out) :
    out.1.stack = w.stack := by
  cases f with
  | conn c f =>
    cases f <;> first | (cases taken; rfl) | cases taken
  | call l task =>
    cases taken
    unfold runInLoop
    split
    · cases task with
      | conn c f => rfl
      | remove c => exact (removesInLoop w c).stack
      | stopGracefully cb => exact (servesStop w cb).stack
    · rfl
  | removeTail => cases taken; exact (servesRemoveTail w).stack
  | stopTail => cases taken; exact (servesStopTail w).stack
  | finishStop force => cases taken; exact (servesFinish w force).stack
  | shutdownAll rest | forceAll rest =>
    cases rest with
    | nil => cases taken; rfl
    | cons x rest =>
      cases taken
      simp only [eachEntry]
      split <;> rfl
  | sweep rest stale force =>
    cases rest with
    | nil => cases taken; rfl
    | cons x rest =>
      cases taken
      simp only [sweepEntry]
      split <;> rfl
  | closeIdle rest => cases rest <;> (cases taken; rfl)
  | completeCallback cb => cases taken

/- What a step does to the stacks: its thread's top goes, or not, and something comes on it. -/
structure StackMove (w w' : World) (t : ThreadId) : Prop where
  apart : ∀ t', t' ≠ t → w'.stack t' = w.stack t'
  own : w.stack t <:+ w'.stack t ∨ ∃ f below, w.stack t = f :: below ∧ below <:+ w'.stack t

theorem stackKept {w w' : World} (t : ThreadId) (stack : w'.stack = w.stack) : StackMove w w' t := by
  exact ⟨fun t' _ => by rw [stack],.inl (stack ▸ List.suffix_refl _)⟩

theorem stackPushed {w : World} {t : ThreadId} {out : Effect} (stack : out.1.stack = w.stack) :
    StackMove w (settle t (w.stack t) out) t := by
  refine ⟨fun t' other => ?_,.inl ⟨out.2,?_⟩⟩
  · simp only [settle, stack, Function.update_of_ne other]
  · simp only [settle, Function.update_self]

theorem stackPopped {w : World} {t : ThreadId} {f : Act} {below : List Act} {out : Effect} (top : w.stack t = f :: below)
    (stack : out.1.stack = w.stack) : StackMove w (settle t below out) t := by
  refine ⟨fun t' other => ?_,.inr ⟨f,below,top,out.2,?_⟩⟩
  · simp only [settle, stack, Function.update_of_ne other]
  · simp only [settle, Function.update_self]

theorem stackStep {w w' : World} {a : Action} (taken : step w a = some w') : StackMove w w' (threadOf w a) := by
  have idlePushed : ∀ {t : ThreadId} {out : Effect}, w.stack t = [] → out.1.stack = w.stack →
      StackMove w (settle t [] out) t := by
    intro t out idle stack
    have pushed := stackPushed (t := t) stack
    rw [idle] at pushed
    exact pushed
  cases takenCases taken with
  | start runs =>
    refine stackKept _ ?_
    unfold startServer
    split <;> rfl
  | userConn runs known => exact stackPushed rfl
  | userStop runs => exact stackPushed rfl
  | goOn top went => exact stackPopped top (goOnStack went)
  | ret top callback => exact stackPopped top rfl
  | runQueued idle head loop handled => exact idlePushed idle rfl
  | poll idle => exact stackKept _ rfl
  | accept idle ready free =>
    refine idlePushed idle ?_
    unfold newConnection
    dsimp only
    split <;> rfl
  | event idle known up ok => exact idlePushed idle rfl
  | scanIdle between armed => exact idlePushed (betweenIdle between) rfl
  | checkTimer between armed =>
    refine idlePushed (betweenIdle between) ?_
    split
    · exact (servesFinalize w false).stack
    · rfl
  | deadlineTimer between armed => exact idlePushed (betweenIdle between) (servesFinalize _ true).stack

/- The ledger holds until the table is cleared, and the main thread has nothing on its
stack while it waits for a sub loop. -/
structure Living (s : Life) : Prop where
  ledger : s.stage ≠ .cleared → Ledger s.world
  waits : ∀ l, s.stage = .joining l → 0 < l ∧ s.world.stack mainLoop = []

theorem livingInitial {s : Life} (h : LifeInitial s) : Living s := by
  refine ⟨fun _ => ledgerInitial h.1,fun l joining => ?_⟩
  rw [h.2] at joining
  cases joining

theorem livingAlive {s : Life} {a : Action} (runs : running s a = true) : s.stage ≠ .cleared := by
  intro finished
  simp [running, mayRun, finished] at runs

theorem livingStep {s s' : Life} {a : LifeAction} (h : Living s) (taken : lifeStep s a = some s') : Living s' := by
  cases lifeTurnCases taken with
  | @server a w' runs stepped =>
    refine ⟨fun alive => ledgerStep (h.ledger alive) stepped,fun l joining => ?_⟩
    obtain ⟨positive,empty⟩ := h.waits l joining
    refine ⟨positive,?_⟩
    have ran : l ≤ threadOf s.world a := by simpa [running, mayRun, show s.stage = .joining l from joining] using runs
    exact ((stackStep stepped).apart mainLoop (Nat.ne_of_lt (Nat.lt_of_lt_of_le positive ran))).trans empty
  | destroy serving idle =>
    exact ⟨fun _ => ledgerBegin (h.ledger (by simp [serving])) idle,fun l joining => (by cases joining)⟩
  | join closing idle =>
    refine ⟨fun _ => h.ledger (by simp [closing]),fun l joining => ?_⟩
    cases joining
    exact ⟨Nat.one_pos,idle⟩
  | @leave l joining loop idle =>
    refine ⟨fun _ => h.ledger (by simp [joining]),fun l' joining' => ?_⟩
    cases joining'
    exact ⟨Nat.succ_pos l,(h.waits l joining).2⟩
  | clear joining joined => exact ⟨fun alive => absurd rfl alive,fun l' joining' => (by cases joining')⟩

end TcFrame.TcpServer
