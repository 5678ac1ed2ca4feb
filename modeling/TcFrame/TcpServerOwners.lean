import TcFrame.TcpServerOrdered

/-! Who keeps a connection alive: its entry in the table, the list of a sweep, the functor
of ConnectDestroyed. As long as one of them does, the connection is closed before the last
of them goes. -/
namespace TcFrame.TcpServer
open Endpoint Machine

def noSweep (acts : List Act) : Prop := ∀ rest stale force, .sweep rest stale force ∉ acts

/- A sweep is on top of the main loop's stack, and what it has still to pass is in the table. -/
structure Swept (w : World) : Prop where
  under : ∀ f below, w.stack mainLoop = f :: below → noSweep below
  listed : ∀ rest stale force, .sweep rest stale force ∈ w.stack mainLoop →
    (∀ x ∈ rest, w.lookup x.1 = some x.2) ∧ (rest.map Prod.fst).Nodup

theorem noSweepBelow {w : World} (h : Swept w) {top below : List Act} (split : w.stack mainLoop = top ++ below)
    (plain : noSweep top) (calm : top = [] → userRuns (w.stack mainLoop) = true) : noSweep below := by
  cases top with
  | nil =>
    have runs := calm rfl
    have same : w.stack mainLoop = below := split
    cases below with
    | nil => exact fun _ _ _ member => by cases member
    | cons f rest =>
      intro r s force member
      rcases List.mem_cons.mp member with here | later
      · rw [same, ← here] at runs
        cases runs
      · exact h.under f rest same r s force later
  | cons f rest =>
    intro r s force member
    exact h.under f (rest ++ below) split r s force (List.mem_append_right _ member)

theorem sweptAside {w : World} (h : Swept w) {t : ThreadId} {top below : List Act} {out : Effect}
    (split : w.stack t = top ++ below) (stack : out.1.stack = w.stack)
    (plain : t = mainLoop → noSweep below) (lookup : t ≠ mainLoop → out.1.lookup = w.lookup)
    (lone : ∀ rest stale force, .sweep rest stale force ∈ out.2 → t = mainLoop ∧ out.2 = [.sweep rest stale force] ∧
      (∀ x ∈ rest, out.1.lookup x.1 = some x.2) ∧ (rest.map Prod.fst).Nodup) : Swept (settle t below out) := by
  by_cases main : t = mainLoop
  · subst main
    have shape : (settle mainLoop below out).stack mainLoop = out.2 ++ below := by simp [settle]
    have none_ := plain rfl
    refine ⟨?_,?_⟩
    · rw [shape]
      intro f rest made r s force member
      cases acts : out.2 with
      | nil =>
        rw [acts] at made
        exact none_ r s force (by rw [List.nil_append] at made; rw [made]; exact List.mem_cons_of_mem _ member)
      | cons g more =>
        rw [acts, List.cons_append] at made
        rw [← (List.cons.inj made).2] at member
        rcases List.mem_append.mp member with new | old
        · have only := (lone r s force (by rw [acts]; exact List.mem_cons_of_mem _ new)).2.1
          rw [acts] at only
          rw [(List.cons.inj only).2] at new
          cases new
        · exact none_ r s force old
    · rw [shape]
      intro r s force member
      rcases List.mem_append.mp member with new | old
      · exact (lone r s force new).2.2
      · exact absurd old (none_ r s force)
  · have same : (settle t below out).stack mainLoop = w.stack mainLoop := by
      simp only [settle, stack, Function.update_of_ne (Ne.symm main)]
    refine ⟨?_,?_⟩
    · rw [same]
      exact h.under
    · rw [same]
      have kept : (settle t below out).lookup = w.lookup := lookup main
      rw [kept]
      exact h.listed

theorem entriesNodup (w : World) : (w.entries.map Prod.fst).Nodup := by
  have keys : w.entries.map Prod.fst = w.server.connections.keys := by
    simp [World.entries, AList.keys, List.keys, Function.comp_def]
  rw [keys]
  exact w.server.connections.keys_nodup

theorem sweptStep {w w' : World} {a : Action} (r : Registry w) (p : Placed w) (h : Swept w) (taken : step w a = some w') :
    Swept w' := by
  have quiet : ∀ {t : ThreadId} {top below : List Act} {out : Effect}, w.stack t = top ++ below →
      out.1.stack = w.stack → (t ≠ mainLoop → out.1.lookup = w.lookup) → noSweep top →
      (top = [] → userRuns (w.stack t) = true) → noSweep out.2 → Swept (settle t below out) := by
    intro t top below out split stack lookup plain calm none_
    refine sweptAside h split stack (fun here => ?_) lookup (fun rest stale force member => absurd member (none_ rest stale force))
    subst here
    exact noSweepBelow h split plain calm
  cases turnCases r p taken with
  | @member t c top below out known home split does =>
    refine quiet split rfl (fun _ => rfl) (fun _ _ _ => ?_) ?_ (fun _ _ _ member => ?_)
    · cases does <;> simp
    · cases does with
      | event idle up ok => exact fun _ => by rw [idle]; rfl
      | _ => simp
    · obtain ⟨f,_,same⟩ := List.mem_map.mp member
      cases same
  | @request t c call top below again known split caller =>
    refine quiet split rfl (fun _ => rfl) (fun _ _ _ => ?_) (fun empty => ?_) (fun rest stale force member => ?_)
    · cases caller <;> simp
    · cases caller with
      | user runs => exact runs
      | _ => cases empty
    · rcases List.mem_append.mp member with handed | left
      · obtain ⟨f,_,same⟩ := List.mem_map.mp handed
        cases same
      · cases caller <;> simp at left
  | @close t c below home split =>
    exact quiet (topSplit split) rfl (fun _ => rfl) (by simp [noSweep]) (by simp) (by simp [noSweep])
  | @hand t l task below split other home =>
    exact quiet (topSplit split) rfl (fun _ => rfl) (by simp [noSweep]) (by simp) (by simp [noSweep])
  | @take l task rest idle head loop =>
    exact quiet (idleSplit idle) rfl (fun _ => rfl) (by simp [noSweep]) (fun _ => by rw [idle]; rfl)
      (by simp [noSweep])
  | @remove c below out known ran split does =>
    refine quiet (topSplit split) does.stack (absurd rfl) (by simp [noSweep]) (by simp) ?_
    rcases does.outcome with ⟨_,_,acts⟩ | ⟨_,_,_,_,_,acts⟩ <;> simp [noSweep, acts]
  | @sweepErase x rest stale force below known split off =>
    obtain ⟨entries,distinct⟩ := h.listed (x :: rest) stale force (by simp [split])
    refine sweptAside h (topSplit split) rfl (fun _ => h.under _ below split) (absurd rfl)
      (fun rest' stale' force' member => ?_)
    cases List.mem_singleton.mp member
    refine ⟨rfl,rfl,fun y later => ?_,(List.nodup_cons.mp distinct).2⟩
    have apart : y.1 ≠ x.1 := fun same => (List.nodup_cons.mp distinct).1 (same ▸ List.mem_map_of_mem later)
    rw [lookupErase, if_neg apart]
    exact entries y (List.mem_cons_of_mem _ later)
  | @sweepEnd stale force below split =>
    refine sweptAside h (topSplit split) rfl (fun _ => h.under _ below split) (absurd rfl)
      (fun rest' stale' force' member => ?_)
    cases force <;> simp [sweepEnd] at member
  | @sweepNext x rest stale force below split on =>
    obtain ⟨entries,distinct⟩ := h.listed (x :: rest) stale force (by simp [split])
    refine sweptAside h (topSplit split) rfl (fun _ => h.under _ below split) (absurd rfl)
      (fun rest' stale' force' member => ?_)
    cases List.mem_singleton.mp member
    exact ⟨rfl,rfl,fun y later => entries y (List.mem_cons_of_mem _ later),(List.nodup_cons.mp distinct).2⟩
  | @skip top again below split skips =>
    refine quiet (topSplit split) rfl (fun _ => rfl) (fun _ _ _ => ?_) (by simp) (fun _ _ _ => ?_) <;>
      cases skips <;> simp
  | @serve t top below out split own calm does =>
    have lookup : out.1.lookup = w.lookup := by
      unfold World.lookup
      rw [does.connections]
    by_cases sweeps : noSweep out.2
    · exact quiet split does.stack (fun _ => lookup) (fun _ _ _ member => by cases own _ member) calm sweeps
    · refine sweptAside h split does.stack (fun here => ?_) (fun _ => lookup) (fun rest stale force member => ?_)
      · subst here
        exact noSweepBelow h split (fun _ _ _ member => by cases own _ member) calm
      · have main : t = mainLoop := (placedStep r p taken).acts t (.sweep rest stale force) (by
          simp only [settle, Function.update_self]
          exact List.mem_append_left _ member)
        obtain ⟨all,_⟩ := does.acts _ member
        refine ⟨main,does.sweeps rest stale force member,fun x listed => ?_,all ▸ entriesNodup w⟩
        rw [lookup]
        exact memEntries.mp (all ▸ listed)
  | accept idle free made =>
    have only : ∀ rest stale force, .sweep rest stale force ∉ w'.stack mainLoop := by
      rw [made.main]
      simp
    refine ⟨fun f below split => ?_,fun rest stale force member => absurd member (only rest stale force)⟩
    rw [made.main] at split
    rw [← (List.cons.inj split).2]
    exact fun _ _ _ member => by cases member

theorem sweptInitial {w : World} (h : Initial w) : Swept w := by
  obtain ⟨threadNum,callbacks,mark,idleTimeout,same⟩ := h
  subst same
  exact ⟨fun f below split => (by cases split),fun rest stale force member => (by cases member)⟩

/- A functor of the connection is on its way: the main loop or the connection's own has it
on the stack, or a sub loop has it in its queue. -/
def pending (w : World) (c : ConnId) (f : Functor) : Prop :=
  let l := w.host.loopOf c
  .call l (.conn c f) ∈ w.stack mainLoop ∨ .call l (.conn c f) ∈ w.stack l ∨ (.conn c f ∈ w.queue l ∧ l ≠ mainLoop)

theorem pendingAside {w : World} {t : ThreadId} {top below : List Act} {out : Effect} {c : ConnId} {f : Functor} {P : Prop}
    (split : w.stack t = top ++ below) (stack : out.1.stack = w.stack) (loopOf : out.1.host.loopOf = w.host.loopOf)
    (queue : .conn c f ∈ w.queue (w.host.loopOf c) → w.host.loopOf c ≠ mainLoop → P ∨ pending (settle t below out) c f)
    (called : (t = mainLoop ∨ t = w.host.loopOf c) → .call (w.host.loopOf c) (.conn c f) ∈ top → P ∨ pending (settle t below out) c f)
    (h : pending w c f) : P ∨ pending (settle t below out) c f := by
  have same : (settle t below out).host.loopOf = w.host.loopOf := loopOf
  rcases h with main | own | ⟨queued,sub⟩
  · by_cases onTop : mainLoop = t ∧ .call (w.host.loopOf c) (.conn c f) ∈ top
    · exact called (.inl onTop.1.symm) onTop.2
    · refine .inr (.inl ?_)
      rw [same]
      exact belowKept split stack main (fun here top => onTop ⟨here,top⟩)
  · by_cases onTop : w.host.loopOf c = t ∧ .call (w.host.loopOf c) (.conn c f) ∈ top
    · exact called (.inr onTop.1.symm) onTop.2
    · refine .inr (.inr (.inl ?_))
      rw [same]
      exact belowKept split stack own (fun here top => onTop ⟨here,top⟩)
  · exact queue queued sub

theorem pendingQueued {w w' : World} {c : ConnId} {f : Functor} {P : Prop} (loopOf : w'.host.loopOf = w.host.loopOf)
    (queue : w'.queue = w.queue) (queued : .conn c f ∈ w.queue (w.host.loopOf c)) (sub : w.host.loopOf c ≠ mainLoop) :
    P ∨ pending w' c f := by
  refine .inr (.inr (.inr ?_))
  rw [loopOf, queue]
  exact ⟨queued,sub⟩

/- The step runs the functor on the connection. -/
structure Ran (w : World) (a : Action) (w' : World) (c : ConnId) (f : Functor) : Prop where
  act : a = .goOn (w.host.loopOf c)
  did : ∃ below, w.stack (w.host.loopOf c) = .call (w.host.loopOf c) (.conn c f) :: below ∧
    w' = settle (w.host.loopOf c) below (ofConn w c ((w.host.endpoint c).run f))

theorem ranTop {w w' : World} {a : Action} {c : ConnId} {f : Functor} (h : Ran w a w' c f) :
    .call (w.host.loopOf c) (.conn c f) ∈ w.stack (w.host.loopOf c) := by
  obtain ⟨below,top,_⟩ := h.did
  rw [top]
  exact List.mem_cons_self

theorem ranConn {w w' : World} {a : Action} {c : ConnId} {f : Functor} (h : Ran w a w' c f) :
    w'.conn c = ((w.host.endpoint c).run f).1.conn := by
  obtain ⟨below,_,made⟩ := h.did
  rw [made]
  simp [ofConn]

theorem pendingStep {w w' : World} {a : Action} (r : Registry w) (p : Placed w) (taken : step w a = some w') {c : ConnId}
    (known : c < w.host.next) {f : Functor} (h : pending w c f) : Ran w a w' c f ∨ pending w' c f := by
  cases turnCases r p taken with
  | @member t d top below out made home split does =>
    refine pendingAside split rfl rfl (pendingQueued rfl rfl) (fun _ member => ?_) h
    cases does with
    | @run g =>
      cases List.mem_singleton.mp member
      exact .inl ⟨rfl,below,split,rfl⟩
    | _ => simp at member
  | @request t d call top below again made split caller =>
    refine pendingAside split rfl rfl (pendingQueued rfl rfl) (fun _ member => ?_) h
    cases caller <;> simp at member
  | @close t d below home split =>
    exact pendingAside (topSplit split) rfl rfl (pendingQueued rfl rfl) (by simp) h
  | @hand t l task below split other home =>
    refine pendingAside (topSplit split) rfl rfl (fun queued sub => .inr (.inr (.inr ⟨?_,sub⟩)))
      (fun here member => ?_) h
    · simp only [settle, Function.update_apply]
      split
      · rename_i here
        exact List.mem_append_left _ (here ▸ queued)
      · exact queued
    · cases List.mem_singleton.mp member
      have main := here.resolve_right other
      exact .inr (.inr (.inr ⟨by simp [settle],fun same => other (main.trans same.symm)⟩))
  | @take l task rest idle head loop =>
    refine pendingAside (idleSplit idle) rfl rfl (fun queued sub => .inr ?_) (by simp) h
    by_cases here : w.host.loopOf c = l
    · rw [here, head] at queued
      rcases List.mem_cons.mp queued with same | later
      · exact .inr (.inl (by simp [settle, here, same]))
      · exact .inr (.inr ⟨by simp [settle, here, later],sub⟩)
    · exact .inr (.inr ⟨by simp [settle, here, queued],sub⟩)
  | @remove d below out made ran split does =>
    exact pendingAside (topSplit split) does.stack (by rw [does.host])
      (pendingQueued (by simp only [settle, does.host]) does.queue) (by simp) h
  | @sweepErase x rest stale force below made split off =>
    exact pendingAside (topSplit split) rfl rfl (pendingQueued rfl rfl) (by simp) h
  | @sweepEnd stale force below split =>
    exact pendingAside (topSplit split) rfl rfl (pendingQueued rfl rfl) (by simp) h
  | @sweepNext x rest stale force below split on =>
    exact pendingAside (topSplit split) rfl rfl (pendingQueued rfl rfl) (by simp) h
  | @skip top again below split skips =>
    refine pendingAside (topSplit split) rfl rfl (pendingQueued rfl rfl) (fun _ member => ?_) h
    cases skips <;> simp at member
  | @serve t top below out split own calm does =>
    exact pendingAside split does.stack (by rw [does.host]) (pendingQueued (by simp only [settle, does.host]) does.queue)
      (fun _ member => by cases own _ member) h
  | accept idle free made =>
    have loop := (made.old c known).2
    refine .inr ?_
    simp only [pending, loop, made.queue]
    rcases h with main | own | queued
    · rw [idle] at main
      cases main
    · refine .inr (.inl ?_)
      rw [made.apart _ (fun here => by rw [here, idle] at own; cases own)]
      exact own
    · exact .inr (.inr queued)

/- ConnectDestroyed is owed to the connection: a sweep has it in its list, or the functor is
on its way. -/
def listedStale (w : World) (c : ConnId) : Prop :=
  ∃ rest stale force, .sweep rest stale force ∈ w.stack mainLoop ∧ c ∈ stale

def owed (w : World) (c : ConnId) : Prop := listedStale w c ∨ pending w c .connectDestroyed

theorem staleAside {w : World} {t : ThreadId} {top below : List Act} {out : Effect} {c : ConnId}
    (split : w.stack t = top ++ below) (stack : out.1.stack = w.stack)
    (swept : ∀ rest stale force, .sweep rest stale force ∈ top → c ∈ stale → owed (settle t below out) c)
    (h : listedStale w c) : owed (settle t below out) c := by
  obtain ⟨rest,stale,force,member,listed⟩ := h
  by_cases onTop : mainLoop = t ∧ .sweep rest stale force ∈ top
  · exact swept rest stale force onTop.2 listed
  · exact .inl ⟨rest,stale,force,belowKept split stack member (fun here top => onTop ⟨here,top⟩),listed⟩

theorem staleStep {w w' : World} {a : Action} (r : Registry w) (p : Placed w) (taken : step w a = some w') {c : ConnId}
    (h : listedStale w c) : owed w' c := by
  cases turnCases r p taken with
  | @member t d top below out made home split does =>
    refine staleAside split rfl (fun _ _ _ member => ?_) h
    cases does <;> simp at member
  | @request t d call top below again made split caller =>
    refine staleAside split rfl (fun _ _ _ member => ?_) h
    cases caller <;> simp at member
  | @close t d below home split => exact staleAside (topSplit split) rfl (by simp) h
  | @hand t l task below split other home => exact staleAside (topSplit split) rfl (by simp) h
  | @take l task rest idle head loop => exact staleAside (idleSplit idle) rfl (by simp) h
  | @remove d below out made ran split does => exact staleAside (topSplit split) does.stack (by simp) h
  | @sweepErase x rest stale force below made split off =>
    refine staleAside (topSplit split) rfl (fun _ _ _ member listed => ?_) h
    cases List.mem_singleton.mp member
    exact .inl ⟨rest,stale ++ [x.2],force,by simp [settle],List.mem_append_left _ listed⟩
  | @sweepEnd stale force below split =>
    refine staleAside (topSplit split) rfl (fun _ _ _ member listed => ?_) h
    cases List.mem_singleton.mp member
    refine .inr (.inl ?_)
    simp only [settle, Function.update_self, sweepEnd, List.append_assoc]
    exact List.mem_append_left _ (List.mem_map_of_mem listed)
  | @sweepNext x rest stale force below split on =>
    refine staleAside (topSplit split) rfl (fun _ _ _ member listed => ?_) h
    cases List.mem_singleton.mp member
    exact .inl ⟨rest,stale,force,by simp [settle],listed⟩
  | @skip top again below split skips =>
    refine staleAside (topSplit split) rfl (fun _ _ _ member => ?_) h
    cases skips <;> simp at member
  | @serve t top below out split own calm does =>
    exact staleAside split does.stack (fun _ _ _ member => by cases own _ member) h
  | accept idle free made =>
    obtain ⟨rest,stale,force,member,_⟩ := h
    rw [idle] at member
    cases member

theorem owedMoves {w w' : World} {a : Action} (r : Registry w) (p : Placed w) (taken : step w a = some w') {c : ConnId}
    (known : c < w.host.next) (h : owed w c) : Ran w a w' c .connectDestroyed ∨ owed w' c := by
  rcases h with listed | there
  · exact .inr (staleStep r p taken listed)
  · exact (pendingStep r p taken known there).imp id .inr

theorem owedStep {w w' : World} {a : Action} (r : Registry w) (p : Placed w) (o : Ordered w) (taken : step w a = some w')
    {c : ConnId} (known : c < w.host.next) (h : owed w c) : (w'.conn c).state = .disconnected ∨ owed w' c := by
  refine (owedMoves r p taken known h).imp (fun ran => ?_) id
  rw [ranConn ran]
  exact destroyedOver (fun fresh => o.stacked _ c fresh (ranTop ran))

theorem forcedStep {w w' : World} {a : Action} (r : Registry w) (p : Placed w) (b : Births w) (taken : step w a = some w')
    {c : ConnId} (known : c < w.host.next) (h : pending w c .forceCloseInLoop) :
    (w'.conn c).state = .disconnected ∨ pending w' c .forceCloseInLoop := by
  refine (pendingStep r p taken known h).imp (fun ran => ?_) id
  rw [ranConn ran]
  exact forceCloseOver (b.calls _ _ c _ (ranTop ran) rfl)

/- The entry of the connection goes to another one: it is taken over by a connection that
is accepted on its descriptor, or taken out by another one's removal. -/
inductive Lost (w : World) (c : ConnId) (fd : Fd) : Action → Prop where
  | overwritten {bufferSize} (on : w.server.stopping = false) (idle : w.stack mainLoop = [])
      (free : w.host.isOpen fd = false) : Lost w c fd (.accept fd bufferSize)
  | stolen {a d} (ran : removalOf w a = some d) (other : d ≠ c) (socket : (w.conn d).socket.fd = some fd) : Lost w c fd a

theorem entryMoves {w w' : World} {a : Action} (r : Registry w) (p : Placed w) (s : Swept w) (taken : step w a = some w')
    {fd : Fd} {c : ConnId} (entry : w.lookup fd = some c) : Lost w c fd a ∨ w'.lookup fd = some c ∨ owed w' c := by
  cases turnCases r p taken with
  | @remove d below out made ran split does =>
    rcases does.outcome with ⟨_,lookup,_⟩ | ⟨fd',d',socket,found,lookup,acts⟩
    · refine .inr (.inl ?_)
      rw [show (settle mainLoop below out).lookup = w.lookup from lookup]
      exact entry
    · by_cases here : fd = fd'
      · subst here
        by_cases mine : d = c
        · subst mine
          refine .inr (.inr (.inr (.inl ?_)))
          simp [settle, acts, does.host]
        · exact .inl (.stolen ran mine socket)
      · refine .inr (.inl ?_)
        have same : (settle mainLoop below out).lookup fd = out.1.lookup fd := rfl
        rw [same, lookup, if_neg here]
        exact entry
  | @sweepErase x rest stale force below made split off =>
    have erased : (settle mainLoop below (w.erase x.1,[.sweep rest (stale ++ [x.2]) force])).lookup fd =
        (w.erase x.1).lookup fd := rfl
    rw [erased, lookupErase]
    split
    · rename_i here
      have mine := (s.listed (x :: rest) stale force (by simp [split])).1 x List.mem_cons_self
      rw [here, mine] at entry
      cases entry
      exact .inr (.inr (.inl ⟨rest,stale ++ [x.2],force,by simp [settle],by simp⟩))
    · exact .inr (.inl entry)
  | @serve t top below out split own calm does =>
    refine .inr (.inl ?_)
    simp only [settle, World.lookup, does.connections]
    exact entry
  | @accept fd' bufferSize w' idle free made act =>
    subst act
    rw [made.lookup]
    split
    · rename_i here
      subst here
      exact .inl (.overwritten made.on idle free)
    · exact .inr (.inl entry)
  | _ => exact .inr (.inl entry)

/- The removal of a connection takes out the entry of another one that is still open: it
goes by the descriptor, which was closed and accepted anew. -/
def steals (w : World) (a : Action) : Bool :=
  match removalOf w a with
  | none => false
  | some c =>
    match (w.conn c).socket.fd.bind w.lookup with
    | none => false
    | some d => d != c && (w.conn d).state != .disconnected

theorem entryStep {w w' : World} {a : Action} (r : Registry w) (p : Placed w) (b : Births w) (k : Sockets w) (s : Swept w)
    (fair : steals w a = false) (taken : step w a = some w') {fd : Fd} {c : ConnId} (entry : w.lookup fd = some c) :
    (w'.conn c).state = .disconnected ∨ w'.lookup fd = some c ∨ owed w' c := by
  obtain ⟨known,channel⟩ := r.table.key fd c entry
  refine (entryMoves r p s taken entry).imp (fun lost => ?_) id
  refine overStep r p b taken c known ?_
  by_contra up
  cases lost with
  | overwritten on idle free =>
    have open_ := (k.up c known (.inl up)).2
    rw [channel, free] at open_
    cases open_
  | stolen ran other socket => simp [steals, ran, socket, entry, other.symm, up] at fair

end TcFrame.TcpServer
