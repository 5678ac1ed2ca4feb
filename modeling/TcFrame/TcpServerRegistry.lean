import TcFrame.TcpServer

/-! The table of connections. An entry is made under the descriptor of its connection and
taken out by what GetFd says later: once the socket is closed that is no key at all. -/
namespace TcFrame.TcpServer
open Endpoint Machine

def Task.conns : Task → List ConnId
  | .conn c _ | .remove c => [c]
  | .stopGracefully _ => []

def Act.conns : Act → List ConnId
  | .conn c _ => [c]
  | .call _ task => task.conns
  | .shutdownAll rest | .forceAll rest => rest.map Prod.snd
  | .sweep rest stale _ => rest.map Prod.snd ++ stale
  | .closeIdle rest => rest
  | .removeTail | .stopTail | .finishStop _ | .completeCallback _ => []

def registered (w : World) (c : ConnId) : Bool := w.entries.any (fun x => x.2 == c)

theorem memEntries {w : World} {x : Entry} : x ∈ w.entries ↔ w.lookup x.1 = some x.2 := by
  unfold World.entries World.lookup
  rw [← Option.mem_def, AList.mem_lookup_iff, List.mem_map]
  constructor
  · rintro ⟨s,member,same⟩
    cases same
    exact member
  · intro member
    exact ⟨_,member,rfl⟩

theorem registeredIff {w : World} {c : ConnId} : registered w c = true ↔ ∃ fd, w.lookup fd = some c := by
  simp only [registered, List.any_eq_true, beq_iff_eq]
  constructor
  · rintro ⟨x,member,same⟩
    exact ⟨x.1,by rw [← same]; exact memEntries.mp member⟩
  · rintro ⟨fd,found⟩
    exact ⟨(fd,c),memEntries.mpr found,rfl⟩

theorem lookupErase (w : World) (fd fd' : Fd) :
    (w.erase fd).lookup fd' = if fd' = fd then none else w.lookup fd' := by
  unfold World.erase World.lookup
  split
  · rename_i same
    rw [same, AList.lookup_erase]
  · rename_i other
    exact AList.lookup_erase_ne other

/- An entry stands under the descriptor of its connection's channel, which is that of
its socket as long as this is valid. -/
structure Table (w : World) : Prop where
  key : ∀ fd c, w.lookup fd = some c → c < w.host.next ∧ (w.conn c).channel.fd = fd
  socket : ∀ c < w.host.next, (w.conn c).socket.fd = some (w.conn c).channel.fd ∨ (w.conn c).socket.fd = none

def findable (w : World) (c : ConnId) : Prop := registered w c = true → (w.conn c).socket.fd.isNone = false

/- What becomes of the table in one step: entries go, or are made for new connections.
`ran` is the connection whose removal the step runs. -/
structure Keeps (w : World) (ran : Option ConnId) (w' : World) : Prop where
  next : w.host.next ≤ w'.host.next
  channel : ∀ c < w.host.next, (w'.conn c).channel.fd = (w.conn c).channel.fd
  shrinks : ∀ fd c, w'.lookup fd = some c → w.lookup fd = some c ∨ w.host.next ≤ c
  removed : ∀ c ∈ w'.removed, c ∈ w.removed ∨
    (ran = some c ∧ c < w.host.next ∧ (findable w c → ∀ fd, w'.lookup fd ≠ some c))

/- A function keeps the table, leaves the stacks alone, and names only connections that
were made. -/
structure Sound (w : World) (ran : Option ConnId) (out : Effect) : Prop where
  table : Table out.1
  frames : ∀ a ∈ out.2, ∀ c ∈ a.conns, c < out.1.host.next
  stack : out.1.stack = w.stack
  queue : ∀ l, ∀ task ∈ out.1.queue l, task ∈ w.queue l ∨ ∀ c ∈ task.conns, c < out.1.host.next
  keeps : Keeps w ran out.1

structure Registry (w : World) : Prop where
  table : Table w
  stacked : ∀ t, ∀ a ∈ w.stack t, ∀ c ∈ a.conns, c < w.host.next
  queues : ∀ l, ∀ task ∈ w.queue l, ∀ c ∈ task.conns, c < w.host.next

theorem entriesKnown {w : World} (h : Table w) : ∀ c ∈ w.entries.map Prod.snd, c < w.host.next := by
  intro c member
  obtain ⟨x,entry,same⟩ := List.mem_map.mp member
  rw [← same]
  exact (h.key x.1 x.2 (memEntries.mp entry)).1

theorem keepsSame {w w' : World} {ran : Option ConnId} (connections : w'.lookup = w.lookup)
    (host : w'.host = w.host) (removed : w'.removed = w.removed) : Keeps w ran w' := by
  refine ⟨by rw [host],fun c _ => by rw [World.connSame host],?_,?_⟩
  · intro fd c found
    rw [connections] at found
    exact .inl found
  · intro c member
    rw [removed] at member
    exact .inl member

theorem tableErase {w : World} (h : Table w) (fd : Fd) : Table (w.erase fd) := by
  refine ⟨?_,h.socket⟩
  intro fd' c found
  rw [lookupErase] at found
  split at found
  · cases found
  · exact h.key fd' c found

theorem keepsErase (w : World) (fd : Fd) (ran : Option ConnId) : Keeps w ran (w.erase fd) := by
  refine ⟨Nat.le_refl _,fun _ _ => rfl,?_,fun c member => .inl member⟩
  intro fd' c found
  rw [lookupErase] at found
  split at found
  · cases found
  · exact .inl found

theorem putChannel {w : World} {c : ConnId} {e : Endpoint} (same : Same (w.host.endpoint c) e) (d : ConnId) :
    ((w.putHost (w.host.put c e)).conn d).channel.fd = (w.conn d).channel.fd := by
  refine World.connPutCases (P := fun conn => conn.channel.fd = (w.conn d).channel.fd) (fun here => ?_) (fun _ => rfl)
  rw [here]
  exact same.fd

theorem tablePut {w : World} (h : Table w) {c : ConnId} {e : Endpoint} (same : Same (w.host.endpoint c) e) :
    Table (w.putHost (w.host.put c e)) := by
  refine ⟨?_,?_⟩
  · intro fd d found
    obtain ⟨known,at_⟩ := h.key fd d found
    exact ⟨known,(putChannel same d).trans at_⟩
  · intro d known
    rw [putChannel same]
    refine World.connPutCases (P := fun conn => conn.socket.fd = some (w.conn d).channel.fd ∨ conn.socket.fd = none)
      (fun here => ?_) (fun _ => h.socket d known)
    rw [here] at known ⊢
    rcases same.socket with kept | gone
    · rw [kept]
      exact h.socket c known
    · exact .inr gone

theorem keepsPut {w : World} {c : ConnId} {e : Endpoint} (same : Same (w.host.endpoint c) e) (ran : Option ConnId) :
    Keeps w ran (w.putHost (w.host.put c e)) :=
  ⟨Nat.le_refl _,fun d _ => putChannel same d,fun _ _ found => .inl found,fun _ member => .inl member⟩

/- A function that changes none of this. -/
theorem soundSame {w w' : World} {ran : Option ConnId} {acts : List Act} (h : Table w)
    (connections : w'.lookup = w.lookup) (host : w'.host = w.host) (removed : w'.removed = w.removed)
    (stack : w'.stack = w.stack) (queue : w'.queue = w.queue)
    (frames : ∀ a ∈ acts, ∀ c ∈ a.conns, c < w.host.next) : Sound w ran (w',acts) := by
  have conn : w'.conn = w.conn := World.connSame host
  refine ⟨⟨?_,?_⟩,by rw [host]; exact frames,stack,?_,keepsSame connections host removed⟩
  · rw [connections, host, conn]; exact h.key
  · rw [host, conn]; exact h.socket
  · intro l task member
    rw [queue] at member
    exact .inl member

theorem soundConn {w : World} (h : Table w) {c : ConnId} (known : c < w.host.next) {out : Endpoint × List Frame}
    (same : Same (w.host.endpoint c) out.1) (ran : Option ConnId) : Sound w ran (ofConn w c out) := by
  refine ⟨tablePut h same,?_,rfl,fun l task member => .inl member,keepsPut same ran⟩
  intro a member d named
  obtain ⟨f,_,made⟩ := List.mem_map.mp member
  subst made
  rw [List.mem_singleton.mp named]
  exact known

theorem soundCallConn {w : World} (h : Table w) {c : ConnId} (known : c < w.host.next) (t : ThreadId)
    (call : UserCall) (ran : Option ConnId) : Sound w ran (callConn w t c call) := by
  refine ⟨tablePut h (sameRequest _ t call),?_,rfl,fun l task member => .inl member,keepsPut (sameRequest _ t call) ran⟩
  intro a member d named
  obtain ⟨f,_,made⟩ := List.mem_map.mp member
  subst made
  rw [List.mem_singleton.mp named]
  exact known

theorem soundFinalize {w : World} {ran : Option ConnId} (h : Table w) (force : Bool) : Sound w ran (finalizeGracefulStop w force) := by
  unfold finalizeGracefulStop
  split
  · refine soundSame h rfl rfl rfl rfl rfl ?_
    intro a member c named
    rw [List.mem_singleton.mp member] at named
    exact entriesKnown h c (by simpa [Act.conns] using named)
  · exact soundSame h rfl rfl rfl rfl rfl (by simp)

theorem soundSweepEntry {w : World} {ran : Option ConnId} (h : Table w) {x : Entry} {rest : List Entry} {stale : List ConnId} (force : Bool)
    (known : ∀ c ∈ (Act.sweep (x :: rest) stale force).conns, c < w.host.next) :
    Sound w ran (sweepEntry w x rest stale force) := by
  unfold sweepEntry
  split
  · refine soundSame h rfl rfl rfl rfl rfl ?_
    intro a member c named
    rw [List.mem_singleton.mp member] at named
    exact known c (List.mem_cons_of_mem _ named)
  · refine ⟨tableErase h x.1,?_,rfl,fun l task member => .inl member,keepsErase w x.1 ran⟩
    intro a member c named
    rw [List.mem_singleton.mp member] at named
    refine known c ?_
    simp only [Act.conns, List.mem_append, List.map_cons, List.cons_append, List.mem_cons] at named ⊢
    rcases named with later | old | this
    · exact .inr (.inl later)
    · exact .inr (.inr old)
    · exact .inl (by simpa using this)

theorem soundSweepEnd {w : World} {ran : Option ConnId} (h : Table w) {stale : List ConnId} (force : Bool)
    (known : ∀ c ∈ stale, c < w.host.next) : Sound w ran (sweepEnd w stale force) := by
  refine soundSame h rfl rfl rfl rfl rfl ?_
  intro a member c named
  rcases List.mem_append.mp member with early | last
  · rcases List.mem_append.mp early with destroyed | forced
    · obtain ⟨d,old,made⟩ := List.mem_map.mp destroyed
      subst made
      rw [List.mem_singleton.mp named]
      exact known d old
    · split at forced
      · rw [List.mem_singleton.mp forced] at named
        exact entriesKnown h c named
      · cases forced
  · rw [List.mem_singleton.mp last] at named
    cases named

theorem soundFinishStop {w : World} {ran : Option ConnId} (h : Table w) (force : Bool) : Sound w ran (finishStop w force) := by
  unfold finishStop
  split
  · exact soundSame h rfl rfl rfl rfl rfl (by simp)
  · refine soundSame h rfl rfl rfl rfl rfl ?_
    intro a member c named
    obtain ⟨cb,_,made⟩ := List.mem_map.mp member
    subst made
    cases named

theorem soundStop {w : World} {ran : Option ConnId} (h : Table w) (cb : Option Nat) : Sound w ran (stopGracefully w cb) := by
  unfold stopGracefully
  dsimp only
  split
  · refine soundSame h rfl rfl rfl rfl rfl ?_
    intro a member c named
    obtain ⟨cb,_,made⟩ := List.mem_map.mp member
    subst made
    cases named
  · split
    · exact soundSame h rfl rfl rfl rfl rfl (by simp)
    · refine soundSame h rfl rfl rfl rfl rfl ?_
      intro a member c named
      rcases List.mem_cons.mp member with loop | tail
      · subst loop
        exact entriesKnown h c named
      · rw [List.mem_singleton.mp tail] at named
        cases named

theorem soundStopTail {w : World} {ran : Option ConnId} (h : Table w) : Sound w ran (stopTail w) := by
  unfold stopTail
  split
  · exact soundFinalize h false
  · exact soundSame h rfl rfl rfl rfl rfl (by simp)

theorem soundRemoveTail {w : World} {ran : Option ConnId} (h : Table w) : Sound w ran (removeTail w) := by
  unfold removeTail
  split
  · exact soundFinalize h false
  · exact soundSame h rfl rfl rfl rfl rfl (by simp)

/- The connection whose removal a step runs. -/
def removalOf (w : World) : Action → Option ConnId
  | .goOn t =>
    match w.stack t with
    | .call l (.remove c) :: _ => if t = l then some c else none
    | _ => none
  | _ => none

theorem removalTop {w : World} {a : Action} {d : ConnId} (ran : removalOf w a = some d) :
    ∃ t below, a = .goOn t ∧ w.stack t = .call t (.remove d) :: below := by
  cases a with
  | goOn t =>
    cases top : w.stack t with
    | nil => simp [removalOf, top] at ran
    | cons f below =>
      cases f with
      | call l task =>
        cases task with
        | remove c =>
          simp only [removalOf, top] at ran
          split at ran <;> cases ran
          rename_i here
          exact ⟨t,below,rfl,by rw [← here] at top; exact top⟩
        | _ => simp [removalOf, top] at ran
      | _ => simp [removalOf, top] at ran
  | _ => cases ran

/- A removal that comes too late: the connection is still in the table and its socket
has no descriptor any more to find it by. -/
def misses (w : World) (a : Action) : Bool :=
  match removalOf w a with
  | some c => registered w c && (w.conn c).socket.fd.isNone
  | none => false

theorem eraseGone {w : World} (h : Table w) {c : ConnId} {fd : Fd} (at_ : (w.conn c).channel.fd = fd) :
    ∀ fd', (w.erase fd).lookup fd' ≠ some c := by
  intro fd' here
  rw [lookupErase] at here
  split at here
  · cases here
  · rename_i other
    exact other ((h.key fd' c here).2.symm.trans at_)

theorem socketFd {w : World} (h : Table w) {c : ConnId} (known : c < w.host.next) {fd : Fd}
    (valid : (w.conn c).socket.fd = some fd) : (w.conn c).channel.fd = fd := by
  have socket := h.socket c known
  rw [valid] at socket
  rcases socket with same | none_
  · exact (Option.some.inj same).symm
  · cases none_

/- A removal that finds its connection takes it out. -/
theorem removeGone {w : World} (h : Table w) {c : ConnId} (known : c < w.host.next) (found : findable w c) :
    ∀ fd, (removeInLoop w c).1.lookup fd ≠ some c := by
  unfold removeInLoop
  split
  · rename_i none_
    intro fd here
    have missing := found (registeredIff.mpr ⟨fd,here⟩)
    rw [none_] at missing
    cases missing
  · rename_i fd valid
    have at_ := socketFd h known valid
    split
    · rename_i absent
      intro fd' here
      have there : w.lookup fd' = some c := here
      have same := (h.key fd' c there).2
      rw [at_] at same
      rw [← same] at there
      rw [there] at absent
      cases absent
    · exact eraseGone h at_

theorem soundRemove {w : World} (h : Table w) {c : ConnId} (known : c < w.host.next) :
    Sound w (some c) (removeInLoop w c) := by
  have gone := removeGone h known
  have ran : ∀ d ∈ w.removed ++ [c], d ∈ w.removed ∨
      (some c = some d ∧ d < w.host.next ∧ (findable w d → ∀ fd, (removeInLoop w c).1.lookup fd ≠ some d)) := by
    intro d member
    rcases List.mem_append.mp member with old | new
    · exact .inl old
    · rw [List.mem_singleton.mp new]
      exact .inr ⟨rfl,known,gone⟩
  unfold removeInLoop at ran ⊢
  split
  · rename_i none_
    simp only [none_] at ran
    exact ⟨⟨h.key,h.socket⟩,by simp,rfl,fun l task member => .inl member,
      ⟨Nat.le_refl _,fun _ _ => rfl,fun _ _ found => .inl found,ran⟩⟩
  · rename_i fd valid
    simp only [valid] at ran
    split
    · rename_i absent
      simp only [if_pos absent] at ran
      exact ⟨⟨h.key,h.socket⟩,by simp,rfl,fun l task member => .inl member,
        ⟨Nat.le_refl _,fun _ _ => rfl,fun _ _ found => .inl found,ran⟩⟩
    · rename_i present
      simp only [if_neg present] at ran
      have t := tableErase h fd
      have k := keepsErase w fd (some c)
      refine ⟨⟨t.key,t.socket⟩,?_,rfl,fun l task member => .inl member,⟨k.next,k.channel,k.shrinks,ran⟩⟩
      intro a member d named
      rcases List.mem_cons.mp member with destroy | tail
      · subst destroy
        rw [List.mem_singleton.mp named]
        exact known
      · rw [List.mem_singleton.mp tail] at named
        cases named

theorem soundEach {w : World} {ran : Option ConnId} (h : Table w) {t : ThreadId} {call : UserCall} {x : Entry} {again : Act}
    (known : x.2 < w.host.next) (rest : ∀ c ∈ again.conns, c < w.host.next) :
    Sound w ran (eachEntry w t call x again) := by
  unfold eachEntry
  split
  · have s := soundCallConn h known t call ran
    refine ⟨s.table,?_,s.stack,s.queue,s.keeps⟩
    intro a member
    rcases List.mem_append.mp member with called | loop
    · exact s.frames a called
    · rw [List.mem_singleton.mp loop]
      exact rest
  · refine soundSame h rfl rfl rfl rfl rfl ?_
    intro a member
    rw [List.mem_singleton.mp member]
    exact rest

theorem soundCloseIdle {w : World} {ran : Option ConnId} (h : Table w) {t : ThreadId} {c : ConnId} {rest : List ConnId}
    (known : ∀ d ∈ (Act.closeIdle (c :: rest)).conns, d < w.host.next) :
    Sound w ran ((callConn w t c .forceClose).1,(callConn w t c .forceClose).2 ++ [.closeIdle rest]) := by
  have s := soundCallConn h (known c (by simp [Act.conns])) t .forceClose ran
  refine ⟨s.table,?_,s.stack,s.queue,s.keeps⟩
  intro a member
  rcases List.mem_append.mp member with called | loop
  · exact s.frames a called
  · rw [List.mem_singleton.mp loop]
    exact fun d named => known d (List.mem_cons_of_mem _ named)

theorem soundNew {w : World} {ran : Option ConnId} (h : Table w) (fd : Fd) (bufferSize : Nat) :
    Sound w ran (newConnection w fd bufferSize) := by
  unfold newConnection
  dsimp only
  split
  · exact soundSame h rfl rfl rfl rfl rfl (by simp)
  · have old : ∀ c, c < w.host.next → c ≠ w.host.next := fun c known => Nat.ne_of_lt known
    refine ⟨⟨?_,?_⟩,?_,rfl,fun l task member => .inl member,
      ⟨Nat.le_succ _,fun c known => ?_,?_,fun c member => .inl member⟩⟩
    · intro fd' c found
      by_cases same : fd' = fd
      · subst same
        have new : some w.host.next = some c := (AList.lookup_insert _).symm.trans found
        cases Option.some.inj new
        exact ⟨Nat.lt_succ_self _,by simp [World.conn, Host.add, TcpConnection.create]⟩
      · have before : w.lookup fd' = some c := (AList.lookup_insert_ne same).symm.trans found
        obtain ⟨known,at_⟩ := h.key fd' c before
        refine ⟨Nat.lt_succ_of_lt known,?_⟩
        simpa [World.conn, Host.add, old c known] using at_
    · intro c known
      rcases Nat.lt_succ_iff_lt_or_eq.mp known with before | new
      · simpa [World.conn, Host.add, old c before] using h.socket c before
      · subst new
        exact .inl (by simp [World.conn, Host.add, TcpConnection.create])
    · intro a member c named
      rw [List.mem_singleton.mp member] at named
      rw [List.mem_singleton.mp named]
      exact Nat.lt_succ_self _
    · simp [World.conn, Host.add, old c known]
    · intro fd' c found
      by_cases same : fd' = fd
      · subst same
        have new : some w.host.next = some c := (AList.lookup_insert _).symm.trans found
        exact .inr (Nat.le_of_eq (Option.some.inj new))
      · exact .inl ((AList.lookup_insert_ne same).symm.trans found)

/- A thread's step: its stack shrinks to `below` and takes the frames of the function. -/
theorem registrySettle {w : World} (h : Registry w) {t : ThreadId} {below : List Act} {out : Effect}
    {ran : Option ConnId} (under : ∀ a ∈ below, a ∈ w.stack t) (s : Sound w ran out) :
    Registry (settle t below out) ∧ Keeps w ran (settle t below out) := by
  have lift : ∀ {c}, c < w.host.next → c < out.1.host.next := fun known => Nat.lt_of_lt_of_le known s.keeps.next
  refine ⟨⟨⟨s.table.key,s.table.socket⟩,?_,?_⟩,⟨s.keeps.next,s.keeps.channel,s.keeps.shrinks,s.keeps.removed⟩⟩
  · intro t' a member c named
    simp only [settle, Function.update_apply] at member
    split at member
    · rcases List.mem_append.mp member with new | old
      · exact s.frames a new c named
      · exact lift (h.stacked t a (under a old) c named)
    · rw [s.stack] at member
      exact lift (h.stacked t' a member c named)
  · intro l task member c named
    rcases s.queue l task member with old | new
    · exact lift (h.queues l task old c named)
    · exact new c named

theorem soundNothing {w : World} {ran : Option ConnId} (h : Table w) : Sound w ran (w,[]) :=
  soundSame h rfl rfl rfl rfl rfl (by simp)

theorem topKnown {w : World} (h : Registry w) {t : ThreadId} {f : Act} {rest : List Act} (top : w.stack t = f :: rest) :
    ∀ c ∈ f.conns, c < w.host.next :=
  h.stacked t f (by simp [top])

theorem registryStep {w w' : World} {a : Action} (h : Registry w) (taken : step w a = some w') :
    Registry w' ∧ Keeps w (removalOf w a) w' := by
  have table := h.table
  have nothing : ∀ a ∈ ([] : List Act), a ∈ w.stack mainLoop := by simp
  cases stepCases taken with
  | start runs =>
    unfold startServer
    split
    · exact ⟨h,keepsSame rfl rfl rfl⟩
    · exact ⟨⟨⟨table.key,table.socket⟩,h.stacked,h.queues⟩,keepsSame rfl rfl rfl⟩
  | userConn runs made => exact registrySettle h (fun _ member => member) (soundCallConn table made _ _ _)
  | userStop runs =>
    refine registrySettle h (fun _ member => member) (soundSame table rfl rfl rfl rfl rfl ?_)
    intro a member c named
    rw [List.mem_singleton.mp member] at named
    cases named
  | close top =>
    have named := topKnown h top
    refine registrySettle h (belowTop top) (soundSame table rfl rfl rfl rfl rfl ?_)
    intro a member
    rw [List.mem_singleton.mp member]
    exact named
  | resume top own =>
    exact registrySettle h (belowTop top) (soundConn table (topKnown h top _ (by simp [Act.conns])) (sameResume _ _) _)
  | @queue t l task rest top other =>
    refine registrySettle h (belowTop top) ⟨⟨table.key,table.socket⟩,by simp,rfl,?_,keepsSame rfl rfl rfl⟩
    intro l' task' member
    rcases memPushed member with old | ⟨_,new⟩
    · exact .inl old
    · exact .inr (by rw [new]; exact topKnown h top)
  | run top =>
    exact registrySettle h (belowTop top) (soundConn table (topKnown h top _ (by simp [Act.conns, Task.conns])) (sameRun _) _)
  | @remove t c rest top =>
    have ran : removalOf w (.goOn t) = some c := by simp [removalOf, top]
    rw [ran]
    exact registrySettle h (belowTop top) (soundRemove table (topKnown h top _ (by simp [Act.conns, Task.conns])))
  | stop top => exact registrySettle h (belowTop top) (soundStop table _)
  | removeTail top => exact registrySettle h (belowTop top) (soundRemoveTail table)
  | shutdownAll top =>
    exact registrySettle h (belowTop top) (soundEach table (topKnown h top _ (by simp [Act.conns]))
      (fun c named => topKnown h top c (List.mem_cons_of_mem _ named)))
  | stopTail top => exact registrySettle h (belowTop top) (soundStopTail table)
  | sweepEntry top => exact registrySettle h (belowTop top) (soundSweepEntry table _ (topKnown h top))
  | sweepEnd top =>
    exact registrySettle h (belowTop top)
      (soundSweepEnd table _ (fun c named => topKnown h top c (by simpa [Act.conns] using named)))
  | forceAll top =>
    exact registrySettle h (belowTop top) (soundEach table (topKnown h top _ (by simp [Act.conns]))
      (fun c named => topKnown h top c (List.mem_cons_of_mem _ named)))
  | finishStop top => exact registrySettle h (belowTop top) (soundFinishStop table _)
  | closeIdle top => exact registrySettle h (belowTop top) (soundCloseIdle table (topKnown h top))
  | ends top last => exact registrySettle h (belowTop top) (soundNothing table)
  | @runQueued l task rest idle head loop =>
    refine registrySettle h (by simp) ⟨⟨table.key,table.socket⟩,?_,rfl,?_,keepsSame rfl rfl rfl⟩
    · intro a member
      rw [List.mem_singleton.mp member]
      exact h.queues l task (by simp [head])
    · exact fun l' task' member => .inl (memPopped head member)
  | poll idle => exact ⟨⟨⟨table.key,table.socket⟩,h.stacked,h.queues⟩,keepsSame rfl rfl rfl⟩
  | accept idle ready free =>
    have opened : Table { w with acceptReady := false } := ⟨table.key,table.socket⟩
    have before : Registry { w with acceptReady := false } := ⟨opened,h.stacked,h.queues⟩
    obtain ⟨kept,k⟩ := registrySettle before (t := mainLoop) nothing (soundNew opened _ _)
    exact ⟨kept,⟨k.next,k.channel,k.shrinks,k.removed⟩⟩
  | event idle made ok =>
    exact registrySettle h (by simp) (soundConn table made (sameChange (Connection.handleChange _ ok)) _)
  | scanIdle between among =>
    refine registrySettle h (by simp) (soundSame table rfl rfl rfl rfl rfl ?_)
    intro a member c named
    rw [List.mem_singleton.mp member] at named
    exact entriesKnown table c (among c named)
  | checkTimer between out =>
    rcases out with ⟨_,out⟩ | out <;> rw [out]
    · exact registrySettle h (by simp) (soundFinalize table false)
    · exact registrySettle h (by simp) (soundNothing table)
  | deadlineTimer between armed =>
    have fired : Table { w with server := { w.server with deadlineTimer := false }, deadlineRan := true } :=
      ⟨table.key,table.socket⟩
    have before : Registry { w with server := { w.server with deadlineTimer := false }, deadlineRan := true } :=
      ⟨fired,h.stacked,h.queues⟩
    obtain ⟨kept,k⟩ := registrySettle before (t := mainLoop) nothing (soundFinalize fired true)
    exact ⟨kept,⟨k.next,k.channel,k.shrinks,k.removed⟩⟩

theorem registryInitial {w : World} (h : Initial w) : Registry w := by
  obtain ⟨threadNum,callbacks,mark,idleTimeout,same⟩ := h
  subst same
  have nobody : ∀ fd c, (constructed threadNum callbacks mark idleTimeout).lookup fd ≠ some c := by
    intro fd c found
    cases found
  exact ⟨⟨fun fd c found => absurd found (nobody fd c),fun c known => absurd known (Nat.not_lt_zero c)⟩,
    fun t a member => (by cases member),fun l task member => (by cases member)⟩

/- The connections whose removal has run. -/
def Gone (w : World) : Prop := ∀ c ∈ w.removed, c < w.host.next ∧ ∀ fd, w.lookup fd ≠ some c

theorem goneStep {w w' : World} {a : Action} (r : Registry w) (h : Gone w) (timely : misses w a = false)
    (taken : step w a = some w') : Gone w' := by
  obtain ⟨_,keeps⟩ := registryStep r taken
  intro c member
  rcases keeps.removed c member with old | ⟨ran,known,gone⟩
  · obtain ⟨known,gone⟩ := h c old
    refine ⟨Nat.lt_of_lt_of_le known keeps.next,fun fd found => ?_⟩
    rcases keeps.shrinks fd c found with before | new
    · exact gone fd before
    · exact Nat.not_le_of_lt known new
  · have found : findable w c := by simpa [findable, misses, ran] using timely
    exact ⟨Nat.lt_of_lt_of_le known keeps.next,gone found⟩

/- A connection whose removal has run is not in the table, in every run in which each
removal finds the descriptor of a connection that is. -/
theorem removedIsGone {s w : World} {as : List Action} (start : Initial s)
    (kept : Throughout step (fun u a => misses u a = false) s as) (reached : run step s as = some w) :
    ∀ c ∈ w.removed, registered w c = false := by
  have first : Registry s ∧ Gone s := by
    refine ⟨registryInitial start,?_⟩
    obtain ⟨threadNum,callbacks,mark,idleTimeout,same⟩ := start
    subst same
    exact fun c member => by cases member
  have keep : ∀ u a t, Registry u ∧ Gone u → misses u a = false → step u a = some t → Registry t ∧ Gone t :=
    fun u a t hu timely taken => ⟨(registryStep hu.1 taken).1,goneStep hu.1 hu.2 timely taken⟩
  obtain ⟨_,gone⟩ := invariantWhen keep first kept reached
  intro c member
  by_contra there
  obtain ⟨fd,found⟩ := registeredIff.mp (by simpa using there)
  exact (gone c member).2 fd found

/- One loop, one connection, closed by its peer: the removal runs in the close callback. -/
def peerEnds : List Action :=
  [.start,.poll,.accept 5 64,.goOn 0,.event 0 (.read (.ok [])),.goOn 0,.goOn 0,.goOn 0,.goOn 0,.goOn 0,.goOn 0]

def quiet : Callbacks := ⟨false,false,false,false,false⟩

theorem removedIsGonePeer : ∃ w, run step (constructed 0 quiet 1 false) peerEnds = some w ∧ w.removed = [0] ∧
    ∀ c ∈ w.removed, registered w c = false := by
  have reached : ∃ w, run step (constructed 0 quiet 1 false) peerEnds = some w ∧ w.removed = [0] := ⟨_,rfl,rfl⟩
  obtain ⟨w,taken,removed⟩ := reached
  have kept : Throughout step (fun u a => misses u a = false) (constructed 0 quiet 1 false) peerEnds := by decide
  exact ⟨w,taken,removed,removedIsGone ⟨0,quiet,1,false,rfl⟩ kept taken⟩

/- The same connection closed by ForceClose: its socket is closed before the close
callback runs. -/
def forceEnds : List Action :=
  [.start,.poll,.accept 5 64,.goOn 0,.user 0 (.conn 0 .forceClose),.goOn 0,.goOn 0,.goOn 0,.goOn 0,.goOn 0]

theorem removedStays : ¬ ∀ s w as, Initial s → run step s as = some w → ∀ c ∈ w.removed, registered w c = false := by
  intro claimed
  have reached : ∃ w, run step (constructed 0 quiet 1 false) forceEnds = some w ∧ w.removed = [0] ∧
      registered w 0 = true := ⟨_,rfl,rfl,rfl⟩
  obtain ⟨w,taken,removed,there⟩ := reached
  have gone := claimed _ w _ ⟨0,quiet,1,false,rfl⟩ taken 0 (by simp [removed])
  rw [there] at gone
  cases gone

end TcFrame.TcpServer
