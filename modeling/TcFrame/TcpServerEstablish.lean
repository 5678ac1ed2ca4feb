import TcFrame.TcpServerTurns

/-! ConnectEstablished. Its functor is made with the connection, once, and is on its way as
long as the connection is Connecting. -/
namespace TcFrame.TcpServer
open Endpoint Machine

def established (c : ConnId) : Task := .conn c .connectEstablished

/- On its way: on the stack of the main loop, in the queue of the connection's loop, on
the stack of that loop. -/
def heralds (w : World) (c : ConnId) : Nat :=
  let l := w.host.loopOf c
  (w.queue l).count (established c) + (w.stack mainLoop).count (.call l (established c)) +
    if l = mainLoop then 0 else (w.stack l).count (.call l (established c))

/- The functors of the public calls. -/
def later (f : Functor) : Bool := f != .connectEstablished && f != .connectDestroyed

structure Births (w : World) : Prop where
  once : ∀ c < w.host.next, heralds w c = if (w.conn c).state = .connecting then 1 else 0
  stray : ∀ t l c, .call l (established c) ∈ w.stack t → t = mainLoop ∨ t = w.host.loopOf c
  calls : ∀ t l c f, .call l (.conn c f) ∈ w.stack t → later f = true → (w.conn c).state ≠ .connecting
  queues : ∀ l c f, .conn c f ∈ w.queue l → later f = true → (w.conn c).state ≠ .connecting

theorem requestLeaves {e : Endpoint} {t : ThreadId} {call : UserCall} {f : Functor}
    (handed : (e.request t call).2 = some f) : later f = true ∧ (e.request t call).1.conn.state ≠ .connecting := by
  cases call with
  | send data =>
    simp only [request, send] at handed ⊢
    split at handed <;> cases handed
    rename_i connected
    have state : e.conn.state = .connected := by simpa [TcpConnection.isConnected] using connected
    simp [connected, state, later]
  | shutdown =>
    simp only [request, shutdown] at handed ⊢
    split at handed <;> cases handed
    rename_i connected
    simp [connected, setState, later]
  | forceClose =>
    simp only [request, forceClose] at handed ⊢
    split at handed <;> cases handed
    rename_i isOpen
    simp [isOpen, setState, later]

/- A connection that is Connecting is left alone by the public calls. -/
theorem requestConnecting {e : Endpoint} {t : ThreadId} {call : UserCall} (fresh : e.conn.state = .connecting) :
    (e.request t call).1.conn.state = .connecting := by
  cases call <;> simp [request, send, shutdown, forceClose, TcpConnection.isConnected, isOpenState, fresh]

theorem requestBegins (e : Endpoint) (t : ThreadId) (call : UserCall) :
    (e.request t call).1.conn.state = .connecting ↔ e.conn.state = .connecting :=
  ⟨fun fresh => by_contra (fun begun => (requestMonotone e t call).1 begun fresh),requestConnecting⟩

/- A member function other than ConnectEstablished, on a connection that it may run on. -/
theorem memberBegins {w : World} {a : Action} {t : ThreadId} {c : ConnId} {top : List Act} {out : Endpoint × List Frame}
    (does : Member w t c a top out) (other : top ≠ [.call t (established c)])
    (begun : ∀ f, top = [.call t (.conn c f)] → later f = true → (w.conn c).state ≠ .connecting) :
    out.1.conn.state = .connecting ↔ (w.conn c).state = .connecting := by
  cases does with
  | resume own => rw [resumeState]; exact Iff.rfl
  | @run f =>
    have same : (w.host.endpoint c).conn.state = (w.conn c).state := rfl
    by_cases destroyed : f = .connectDestroyed
    · subst destroyed
      simp only [Endpoint.run, connectDestroyed]
      split
      · rename_i isOpen
        have done := removeIfAddedClosed (disconnectClosed (w.host.endpoint c))
        rcases openState isOpen with s | s <;> rw [done.state, ← same, s] <;> simp
      · exact Iff.rfl
    · have established_ : f ≠ .connectEstablished := by
        rintro rfl
        exact other rfl
      have up := begun f rfl (by simp [later, established_, destroyed])
      have stays := (runAdvances (w.host.endpoint c) destroyed).begun up
      exact ⟨fun fresh => absurd fresh stays,fun fresh => absurd fresh up⟩
  | @event ev idle up ok =>
    have stays := (handleAdvances (w.host.endpoint c) ev).begun up
    exact ⟨fun fresh => absurd fresh stays,fun fresh => absurd fresh up⟩

theorem settleCount {w : World} {t : ThreadId} {top below : List Act} {out : Effect} (x : Act)
    (split : w.stack t = top ++ below) (stack : out.1.stack = w.stack) (acts : out.2.count x = top.count x) (t' : ThreadId) :
    ((settle t below out).stack t').count x = (w.stack t').count x := by
  simp only [settle, stack, Function.update_apply]
  split_ifs with here
  · rw [here, split, List.count_append, List.count_append, acts]
  · rfl

theorem heraldsSame {w : World} {t : ThreadId} {top below : List Act} {out : Effect} {c : ConnId}
    (split : w.stack t = top ++ below) (stack : out.1.stack = w.stack) (loopOf : out.1.host.loopOf c = w.host.loopOf c)
    (queue : (out.1.queue (w.host.loopOf c)).count (established c) = (w.queue (w.host.loopOf c)).count (established c))
    (acts : out.2.count (.call (w.host.loopOf c) (established c)) = top.count (.call (w.host.loopOf c) (established c))) :
    heralds (settle t below out) c = heralds w c := by
  have loop : (settle t below out).host.loopOf c = w.host.loopOf c := loopOf
  have queued : (settle t below out).queue = out.1.queue := rfl
  simp only [heralds, loop, queued, queue, settleCount _ split stack acts]

theorem settledAct {w : World} {t t' : ThreadId} {top below : List Act} {out : Effect} {a : Act}
    (split : w.stack t = top ++ below) (stack : out.1.stack = w.stack) (member : a ∈ (settle t below out).stack t') :
    t' = t ∧ a ∈ out.2 ∨ a ∈ w.stack t' := by
  simp only [settle, Function.update_apply, stack] at member
  split at member
  · rename_i here
    rcases List.mem_append.mp member with new | old
    · exact .inl ⟨here,new⟩
    · exact .inr (by rw [here, split]; exact List.mem_append_right _ old)
  · exact .inr member

/- The turns that neither run a ConnectEstablished nor make or hand over its functor. -/
structure Aside (w : World) (top : List Act) (out : Effect) : Prop where
  next : out.1.host.next = w.host.next
  loopOf : out.1.host.loopOf = w.host.loopOf
  state : ∀ c, (out.1.conn c).state = .connecting ↔ (w.conn c).state = .connecting
  stack : out.1.stack = w.stack
  queue : out.1.queue = w.queue
  top : ∀ l c, .call l (established c) ∉ top
  acts : ∀ l c f, .call l (.conn c f) ∈ out.2 →
    f ≠ .connectEstablished ∧ (later f = true → (w.conn c).state ≠ .connecting)

theorem birthsAside {w : World} {t : ThreadId} {top below : List Act} {out : Effect} (h : Births w)
    (split : w.stack t = top ++ below) (q : Aside w top out) : Births (settle t below out) := by
  have fresh : ∀ l c, .call l (established c) ∉ out.2 := fun l c member => (q.acts l c _ member).1 rfl
  have state : ∀ c, ((settle t below out).conn c).state = .connecting ↔ (w.conn c).state = .connecting := q.state
  refine ⟨?_,?_,?_,?_⟩
  · intro c known
    have known' : c < w.host.next := by simpa only [settle, q.next] using known
    rw [heraldsSame split q.stack (by rw [q.loopOf]) (by rw [q.queue]) ?_, h.once c known']
    · simp only [state]
    · rw [List.count_eq_zero.mpr (fresh _ _), List.count_eq_zero.mpr (q.top _ _)]
  · intro t' l c member
    have loopOf : (settle t below out).host.loopOf = w.host.loopOf := q.loopOf
    rcases settledAct split q.stack member with ⟨_,new⟩ | old
    · exact absurd new (fresh l c)
    · rw [loopOf]
      exact h.stray t' l c old
  · intro t' l c f member waits
    rw [Ne, state]
    rcases settledAct split q.stack member with ⟨_,new⟩ | old
    · exact (q.acts l c f new).2 waits
    · exact h.calls t' l c f old waits
  · intro l c f member waits
    have queue : (settle t below out).queue = w.queue := q.queue
    rw [queue] at member
    rw [Ne, state]
    exact h.queues l c f member waits

theorem asideServer {w : World} {top : List Act} {out : Effect} (host : out.1.host = w.host)
    (stack : out.1.stack = w.stack) (queue : out.1.queue = w.queue) (before : ∀ l c, .call l (established c) ∉ top)
    (after : ∀ l c f, .call l (.conn c f) ∈ out.2 → f = .connectDestroyed) : Aside w top out := by
  refine ⟨by rw [host],by rw [host],fun c => by rw [World.connSame host],stack,queue,before,?_⟩
  intro l c f member
  have same := after l c f member
  simp [same, later]

theorem putState {w : World} {c : ConnId} {e : Endpoint} (s : ConnectionState)
    (same : e.conn.state = s ↔ (w.conn c).state = s) (d : ConnId) :
    ((w.putHost (w.host.put c e)).conn d).state = s ↔ (w.conn d).state = s := by
  refine World.connPutCases (P := fun conn => conn.state = s ↔ (w.conn d).state = s) (fun here => ?_) (fun _ => Iff.rfl)
  rw [here]
  exact same

theorem connNotCall {c : ConnId} {frames : List Frame} (l : ThreadId) (task : Task) :
    .call l task ∉ frames.map (Act.conn c) := by
  simp

theorem establishedFresh {w : World} {c : ConnId} {below : List Act} (h : Births w) (known : c < w.host.next)
    (split : w.stack (w.host.loopOf c) = .call (w.host.loopOf c) (established c) :: below) :
    (w.conn c).state = .connecting := by
  have onWay : 0 < heralds w c := by
    by_cases main : w.host.loopOf c = mainLoop
    · rw [main] at split
      simp only [heralds, main, split, List.count_cons_self]
      omega
    · simp only [heralds, main, split, List.count_cons_self, if_false]
      omega
  by_contra begun
  rw [h.once c known, if_neg begun] at onWay
  exact Nat.lt_irrefl _ onWay

/- ConnectEstablished runs: its functor is gone and the connection is Connected. -/
theorem birthsRun {w : World} {c : ConnId} {below : List Act} (h : Births w) (known : c < w.host.next)
    (split : w.stack (w.host.loopOf c) = .call (w.host.loopOf c) (established c) :: below) :
    Births (settle (w.host.loopOf c) below (ofConn w c ((w.host.endpoint c).run .connectEstablished))) := by
  have other : ∀ d, d ≠ c → ((settle (w.host.loopOf c) below
      (ofConn w c ((w.host.endpoint c).run .connectEstablished))).conn d) = w.conn d := by
    intro d ne
    simp [ofConn, ne]
  have mine : ((settle (w.host.loopOf c) below
      (ofConn w c ((w.host.endpoint c).run .connectEstablished))).conn c).state = .connected := by
    simp [ofConn, Endpoint.run, connectEstablished, enableReading, setState]
  have spent : heralds (settle (w.host.loopOf c) below (ofConn w c ((w.host.endpoint c).run .connectEstablished))) c + 1 =
      heralds w c := by
    have fresh := List.count_eq_zero.mpr (@connNotCall c ((w.host.endpoint c).run .connectEstablished).2
      (w.host.loopOf c) (established c))
    by_cases main : w.host.loopOf c = mainLoop
    · rw [main] at split fresh
      simp [heralds, settle, ofConn, World.putHost, Host.put, main, split, fresh]
      omega
    · have apart : mainLoop ≠ w.host.loopOf c := fun same => main same.symm
      simp [heralds, settle, ofConn, World.putHost, Host.put, main, apart, split, fresh]
      omega
  have fresh : ∀ l task, .call l task ∉ (ofConn w c ((w.host.endpoint c).run .connectEstablished)).2 :=
    fun l task => connNotCall l task
  have up : ∀ d, (w.conn d).state ≠ .connecting → ((settle (w.host.loopOf c) below
      (ofConn w c ((w.host.endpoint c).run .connectEstablished))).conn d).state ≠ .connecting := by
    intro d begun
    by_cases here : d = c
    · rw [here, mine]
      simp
    · rw [other d here]
      exact begun
  have one : w.stack (w.host.loopOf c) = [.call (w.host.loopOf c) (established c)] ++ below := split
  refine ⟨?_,?_,?_,?_⟩
  · intro d knownD
    by_cases here : d = c
    · subst here
      have before := h.once d known
      rw [mine]
      split at before <;> simp <;> omega
    · rw [other d here, ← h.once d knownD]
      refine heraldsSame one rfl rfl rfl ?_
      have apart : Act.call (w.host.loopOf c) (established c) ≠ .call (w.host.loopOf d) (established d) := by
        simp [established, Ne.symm here]
      rw [List.count_eq_zero.mpr (fresh _ _), List.count_singleton, if_neg (by simpa using apart)]
  · intro t l d member
    rcases settledAct one rfl member with ⟨_,new⟩ | old
    · exact absurd new (fresh l _)
    · exact h.stray t l d old
  · intro t l d f member waits
    rcases settledAct one rfl member with ⟨_,new⟩ | old
    · exact absurd new (fresh l _)
    · exact up d (h.calls t l d f old waits)
  · intro l d f member waits
    exact up d (h.queues l d f member waits)

theorem birthsHand {w : World} {t l : ThreadId} {task : Task} {below : List Act} (h : Births w)
    (split : w.stack t = .call l task :: below) (other : t ≠ l) (home : l = task.home w.host.loopOf) :
    Births (settle t below ({ w with queue := Function.update w.queue l (w.queue l ++ [task]) },[])) := by
  have one : w.stack t = [.call l task] ++ below := split
  have queued : ∀ l' task', task' ∈ Function.update w.queue l (w.queue l ++ [task]) l' →
      task' ∈ w.queue l' ∨ task' = task := by
    intro l' task' member
    exact (memPushed member).imp_right And.right
  refine ⟨?_,?_,?_,?_⟩
  · intro c known
    have state : ((settle t below ({ w with queue := Function.update w.queue l (w.queue l ++ [task]) },[])).conn c) =
        w.conn c := rfl
    rw [state, ← h.once c known]
    by_cases same : task = established c
    · subst same
      have mine : l = w.host.loopOf c := home
      have main : t = mainLoop := (h.stray t l c (by simp [split])).resolve_right (by rw [← mine]; exact other)
      subst main
      subst mine
      have apart : w.host.loopOf c ≠ mainLoop := fun same => other same.symm
      simp [heralds, settle, split, apart]
      omega
    · refine heraldsSame one rfl rfl ?_ ?_
      · simp only [Function.update_apply]
        split
        · rename_i here
          rw [List.count_append, List.count_singleton, if_neg (by simpa using same), ← here]
          simp
        · rfl
      · have apart : Act.call l task ≠ .call (w.host.loopOf c) (established c) := by simp [same]
        rw [List.count_nil, List.count_singleton, if_neg (by simpa using apart)]
  · intro t' l' c member
    rcases settledAct one rfl member with ⟨_,new⟩ | old
    · cases new
    · exact h.stray t' l' c old
  · intro t' l' c f member waits
    rcases settledAct one rfl member with ⟨_,new⟩ | old
    · cases new
    · exact h.calls t' l' c f old waits
  · intro l' c f member waits
    rcases queued l' _ member with old | new
    · exact h.queues l' c f old waits
    · exact h.calls t l c f (by simp [split, new]) waits

theorem birthsTake {w : World} {l : ThreadId} {task : Task} {rest : List Task} (h : Births w)
    (idle : w.stack l = []) (head : w.queue l = task :: rest) (home : l = task.home w.host.loopOf) :
    Births (settle l [] ({ w with queue := Function.update w.queue l rest },[.call l task])) := by
  have none_ : w.stack l = [] ++ [] := idle
  have queued : ∀ l' task', task' ∈ Function.update w.queue l rest l' → task' ∈ w.queue l' :=
    fun l' task' member => memPopped head member
  refine ⟨?_,?_,?_,?_⟩
  · intro c known
    have state : ((settle l [] ({ w with queue := Function.update w.queue l rest },[.call l task])).conn c) =
        w.conn c := rfl
    rw [state, ← h.once c known]
    by_cases same : task = established c
    · subst same
      have mine : l = w.host.loopOf c := home
      subst mine
      by_cases main : w.host.loopOf c = mainLoop
      · rw [main] at idle head
        simp [heralds, settle, main, idle, head]
      · have apart : mainLoop ≠ w.host.loopOf c := fun same => main same.symm
        simp [heralds, settle, main, apart, idle, head]
        omega
    · refine heraldsSame none_ rfl rfl ?_ ?_
      · simp only [Function.update_apply]
        split
        · rename_i here
          rw [here, head, List.count_cons, if_neg (by simpa using same)]
          simp
        · rfl
      · have apart : Act.call l task ≠ .call (w.host.loopOf c) (established c) := by simp [same]
        rw [List.count_nil, List.count_singleton, if_neg (by simpa using apart)]
  · intro t' l' c member
    rcases settledAct none_ rfl member with ⟨here,new⟩ | old
    · cases List.mem_singleton.mp new
      exact .inr (here.trans home)
    · exact h.stray t' l' c old
  · intro t' l' c f member waits
    rcases settledAct none_ rfl member with ⟨_,new⟩ | old
    · cases List.mem_singleton.mp new
      exact h.queues l c f (by simp [head]) waits
    · exact h.calls t' l' c f old waits
  · intro l' c f member waits
    exact h.queues l' c f (queued l' _ member) waits

/- A connection is made, with its ConnectEstablished. -/
theorem birthsAccept {w w' : World} {fd : Fd} (h : Births w) (r : Registry w) (idle : w.stack mainLoop = [])
    (made : Accepts w fd w') : Births w' := by
  have fresh : (w'.conn w.host.next).state = .connecting := by
    obtain ⟨_,_,_,new⟩ := made.new
    rw [new]
    rfl
  have unknownStack : ∀ t l, Act.call l (established w.host.next) ∉ w.stack t := by
    intro t l member
    exact Nat.lt_irrefl _ (r.stacked t _ member w.host.next (by simp [Act.conns, Task.conns, established]))
  have unknownQueue : ∀ l, established w.host.next ∉ w.queue l := by
    intro l member
    exact Nat.lt_irrefl _ (r.queues l _ member w.host.next (by simp [Task.conns, established]))
  have stacked : ∀ t a, a ∈ w'.stack t → t = mainLoop ∧ a = .call (nextLoop w.server) (established w.host.next) ∨
      a ∈ w.stack t := by
    intro t a member
    by_cases main : t = mainLoop
    · rw [main, made.main] at member
      exact .inl ⟨main,List.mem_singleton.mp member⟩
    · rw [made.apart t main] at member
      exact .inr member
  refine ⟨?_,?_,?_,?_⟩
  · intro d known
    rw [made.next] at known
    rcases Nat.lt_succ_iff_lt_or_eq.mp known with before | this
    · obtain ⟨conn,loop⟩ := made.old d before
      have ne : established w.host.next ≠ established d := by simp [established, Nat.ne_of_gt before]
      have none_ : Task.conn w.host.next .connectEstablished ≠ established d := ne
      rw [conn, ← h.once d before]
      simp only [heralds, loop, made.queue, made.main, idle]
      by_cases main : w.host.loopOf d = mainLoop
      · simp [main, none_]
      · simp [main, none_, made.apart _ main]
    · subst this
      rw [if_pos fresh]
      simp only [heralds, made.loop, made.queue, made.main, List.count_eq_zero.mpr (unknownQueue _)]
      by_cases main : nextLoop w.server = mainLoop
      · simp [main, established]
      · rw [if_neg main, made.apart _ main, List.count_eq_zero.mpr (unknownStack _ _)]
        simp [established]
  · intro t l d member
    rcases stacked t _ member with ⟨main,_⟩ | before
    · exact .inl main
    · have known := r.stacked t _ before d (by simp [Act.conns, Task.conns, established])
      rw [(made.old d known).2]
      exact h.stray t l d before
  · intro t l d f member waits
    rcases stacked t _ member with ⟨_,same⟩ | before
    · cases same
      simp [later] at waits
    · have known := r.stacked t _ before d (by simp [Act.conns, Task.conns])
      rw [(made.old d known).1]
      exact h.calls t l d f before waits
  · intro l d f member waits
    rw [made.queue] at member
    have known := r.queues l _ member d (by simp [Task.conns])
    rw [(made.old d known).1]
    exact h.queues l d f member waits

theorem birthsStep {w w' : World} {a : Action} (r : Registry w) (p : Placed w) (h : Births w)
    (taken : step w a = some w') : Births w' := by
  cases turnCases r p taken with
  | @member t c top below out known home split does =>
    by_cases special : top = [.call t (established c)]
    · subst special home
      cases does with
      | run => exact birthsRun h known split
    · have begins := memberBegins does special (fun f same waits =>
        h.calls t t c f (by simp [split, same]) waits)
      refine birthsAside h split ⟨rfl,rfl,putState .connecting begins,rfl,rfl,?_,fun l d f member => ?_⟩
      · intro l d member
        cases does with
        | run =>
          cases List.mem_singleton.mp member
          exact special rfl
        | _ => simp at member
      · exact absurd member (connNotCall _ _)
  | @request t c call top below again known split caller =>
    have notTop : ∀ l d, .call l (established d) ∉ top := by cases caller <;> simp
    have notAgain : ∀ l task, .call l task ∉ again := by cases caller <;> simp
    refine birthsAside h split ⟨rfl,rfl,putState .connecting (requestBegins _ _ _),rfl,rfl,notTop,?_⟩
    intro l d f member
    rcases List.mem_append.mp member with handed | rest
    · obtain ⟨g,made,same⟩ := List.mem_map.mp handed
      cases same
      obtain ⟨waits,begun⟩ := requestLeaves (Option.mem_toList.mp made)
      refine ⟨?_,fun _ => fun fresh => begun ((requestBegins _ _ _).mpr fresh)⟩
      rintro rfl
      simp [later] at waits
    · exact absurd rest (notAgain _ _)
  | @close t c below home split =>
    exact birthsAside h (topSplit split) (asideServer rfl rfl rfl (by simp) (by simp))
  | hand split other home => exact birthsHand h split other home
  | @take l task rest idle head loop => exact birthsTake h idle head (p.queues l task (by simp [head]))
  | @remove c below out known ran split does =>
    refine birthsAside h (topSplit split) (asideServer does.host does.stack does.queue
      (by simp [established]) (fun l d f member => ?_))
    rcases does.outcome with ⟨_,_,none_⟩ | ⟨_,_,_,_,_,acts⟩
    · simp [none_] at member
    · simp [acts] at member
      exact member.2.2
  | @sweepErase x rest stale force below known split off =>
    exact birthsAside h (topSplit split) (asideServer rfl rfl rfl (by simp) (by simp))
  | @sweepEnd stale force below split =>
    refine birthsAside h (topSplit split) (asideServer rfl rfl rfl (by simp) ?_)
    intro l c f member
    cases force <;> simp [sweepEnd] at member <;> exact member.2.2.symm
  | @sweepNext x rest stale force below split on =>
    exact birthsAside h (topSplit split) (asideServer rfl rfl rfl (by simp) (by simp))
  | @skip top again below split skips =>
    refine birthsAside h (topSplit split) (asideServer rfl rfl rfl ?_ ?_) <;>
      cases skips <;> simp
  | @serve t top below out split own calm does =>
    refine birthsAside h split (asideServer does.host does.stack does.queue (fun l c member => ?_) ?_)
    · cases own _ member
    · intro l c f member
      obtain ⟨_,_,task⟩ := does.acts _ member
      cases task
  | accept idle free made => exact birthsAccept h r idle made

theorem birthsInitial {w : World} (h : Initial w) : Births w := by
  obtain ⟨threadNum,callbacks,mark,idleTimeout,same⟩ := h
  subst same
  exact ⟨fun c known => absurd known (Nat.not_lt_zero c),fun t l c member => (by cases member),
    fun t l c f member => (by cases member),fun l c f member => (by cases member)⟩

end TcFrame.TcpServer
