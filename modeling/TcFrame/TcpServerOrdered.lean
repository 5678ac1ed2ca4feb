import TcFrame.TcpServerSockets

/-! The order of the functors of a connection: ConnectEstablished has run before
ConnectDestroyed begins, and what is Disconnected stays so. -/
namespace TcFrame.TcpServer
open Endpoint Machine

def destroyed (c : ConnId) : Task := .conn c .connectDestroyed

/- ConnectEstablished comes before ConnectDestroyed: the main loop hands it over before it
does anything else, and the queue keeps the order. -/
structure Ordered (w : World) : Prop where
  alone : ∀ l c, .call l (established c) ∈ w.stack mainLoop → w.stack mainLoop = [.call l (established c)]
  stray : ∀ t l c, .call l (destroyed c) ∈ w.stack t → t = mainLoop ∨ t = l
  far : ∀ l c f, .conn c f ∈ w.queue l → later f = false → l ≠ mainLoop
  stacked : ∀ l c, (w.conn c).state = .connecting → .call l (destroyed c) ∉ w.stack l
  queued : ∀ l c pre post, (w.conn c).state = .connecting → w.queue l = pre ++ destroyed c :: post →
    established c ∈ pre ∨ .call l (established c) ∈ w.stack l

/- The main loop has begun every connection of its own before it does anything else. -/
theorem mainBegun {w : World} (b : Births w) (h : Ordered w) {f : Act} {below : List Act} (top : w.stack mainLoop = f :: below)
    (other : ∀ l c, f ≠ .call l (established c)) {c : ConnId} (known : c < w.host.next) (home : w.host.loopOf c = mainLoop) :
    (w.conn c).state ≠ .connecting := by
  intro fresh
  have once := b.once c known
  rw [if_pos fresh] at once
  simp only [heralds, home, if_true, Nat.add_zero] at once
  have notQueued : established c ∉ w.queue mainLoop := fun member => h.far mainLoop c _ member rfl rfl
  have onStack : .call mainLoop (established c) ∈ w.stack mainLoop := by
    rw [List.count_eq_zero.mpr notQueued] at once
    exact List.count_pos_iff.mp (by omega)
  have only := h.alone mainLoop c onStack
  rw [top] at only
  exact other _ _ (List.cons.inj only).1

theorem belowKept {w : World} {t t' : ThreadId} {top below : List Act} {out : Effect} {a : Act}
    (split : w.stack t = top ++ below) (stack : out.1.stack = w.stack) (member : a ∈ w.stack t')
    (under : t' = t → a ∉ top) : a ∈ (settle t below out).stack t' := by
  simp only [settle, stack, Function.update_apply]
  split
  · rename_i here
    rw [here, split] at member
    exact List.mem_append_right _ ((List.mem_append.mp member).resolve_left (under here))
  · exact member

theorem aloneSettle {w : World} (h : Ordered w) {t : ThreadId} {top below : List Act} {out : Effect}
    (split : w.stack t = top ++ below) (stack : out.1.stack = w.stack)
    (calm : top = [] → userRuns (w.stack t) = true) (acts : ∀ l c, .call l (established c) ∉ out.2) :
    ∀ l c, .call l (established c) ∈ (settle t below out).stack mainLoop →
      (settle t below out).stack mainLoop = [.call l (established c)] := by
  intro l c member
  rcases settledAct split stack member with ⟨_,new⟩ | old
  · exact absurd new (acts l c)
  · have only := h.alone l c old
    by_cases main : mainLoop = t
    · subst main
      rw [split] at only
      cases top with
      | nil =>
        have runs := calm rfl
        rw [split, only] at runs
        cases runs
      | cons f rest =>
        have below_ : below = [] := (List.append_eq_nil_iff.mp (List.cons.inj only).2).2
        simp only [settle, Function.update_self, below_, List.append_nil] at member
        exact absurd member (acts l c)
    · simp only [settle, stack, Function.update_of_ne main]
      exact only

/- The turns that make no ConnectEstablished and hand nothing over. -/
theorem orderedAside {w : World} (h : Ordered w) {t : ThreadId} {top below : List Act} {out : Effect}
    (split : w.stack t = top ++ below) (stack : out.1.stack = w.stack) (queue : out.1.queue = w.queue)
    (begins : ∀ c, (out.1.conn c).state = .connecting → (w.conn c).state = .connecting)
    (spent : ∀ l c, .call l (established c) ∈ top → (out.1.conn c).state ≠ .connecting)
    (acts : ∀ l c, .call l (established c) ∉ out.2)
    (makes : ∀ l c, .call l (destroyed c) ∈ out.2 → t = mainLoop ∧ (l = mainLoop → (w.conn c).state ≠ .connecting))
    (calm : top = [] → userRuns (w.stack t) = true) : Ordered (settle t below out) := by
  refine ⟨aloneSettle h split stack calm acts,?_,?_,?_,?_⟩
  · intro t' l c member
    rcases settledAct split stack member with ⟨here,new⟩ | old
    · exact .inl (here.trans (makes l c new).1)
    · exact h.stray t' l c old
  · intro l c f member
    have before : .conn c f ∈ w.queue l := by rw [← queue]; exact member
    exact h.far l c f before
  · intro l c fresh member
    rcases settledAct split stack member with ⟨here,new⟩ | old
    · obtain ⟨main,begun⟩ := makes l c new
      exact begun (here.trans main) (begins c fresh)
    · exact h.stacked l c (begins c fresh) old
  · intro l c pre post fresh parts
    have parts' : w.queue l = pre ++ destroyed c :: post := by rw [← queue]; exact parts
    rcases h.queued l c pre post (begins c fresh) parts' with ahead | running
    · exact .inl ahead
    · exact .inr (belowKept split stack running (fun _ member => spent l c member fresh))

theorem laterNot {f : Functor} : later f = false ↔ f = .connectEstablished ∨ f = .connectDestroyed := by
  cases f <;> simp [later]

/- The only place left for the ConnectEstablished of a connection that is Connecting. -/
theorem onItsWay {w : World} (b : Births w) {c : ConnId} (known : c < w.host.next) (fresh : (w.conn c).state = .connecting)
    (gone : .call (w.host.loopOf c) (established c) ∉ w.stack mainLoop) :
    established c ∈ w.queue (w.host.loopOf c) ∨ .call (w.host.loopOf c) (established c) ∈ w.stack (w.host.loopOf c) := by
  have once := b.once c known
  rw [if_pos fresh] at once
  simp only [heralds, List.count_eq_zero.mpr gone] at once
  by_cases queued : established c ∈ w.queue (w.host.loopOf c)
  · exact .inl queued
  · rw [List.count_eq_zero.mpr queued] at once
    split at once
    · omega
    · exact .inr (List.count_pos_iff.mp (by omega))

theorem orderedHand {w : World} (r : Registry w) (b : Births w) (h : Ordered w) {t l : ThreadId} {task : Task}
    {below : List Act} (split : w.stack t = .call l task :: below) (other : t ≠ l) (home : l = task.home w.host.loopOf) :
    Ordered (settle t below ({ w with queue := Function.update w.queue l (w.queue l ++ [task]) },[])) := by
  have one : w.stack t = [.call l task] ++ below := split
  have top : .call l task ∈ w.stack t := by rw [split]; exact List.mem_cons_self
  have running : ∀ l' c, .call l' (established c) ∈ w.stack l' →
      .call l' (established c) ∈ (settle t below ({ w with queue := Function.update w.queue l (w.queue l ++ [task]) },[])).stack l' := by
    intro l' c member
    refine belowKept one rfl member (fun here same => ?_)
    cases List.mem_singleton.mp same
    exact other here.symm
  refine ⟨aloneSettle h one rfl (by simp) (by simp),?_,?_,?_,?_⟩
  · intro t' l' c member
    exact h.stray t' l' c ((settledAct one rfl member).resolve_left (by simp))
  · intro l' c f member early
    rcases memPushed member with before | ⟨here,new⟩
    · exact h.far l' c f before early
    · subst here new
      have main : t = mainLoop := by
        rcases laterNot.mp early with same | same <;> subst same
        · have here : l' = w.host.loopOf c := home
          exact (b.stray t l' c top).resolve_right (by rw [← here]; exact other)
        · exact (h.stray t l' c top).resolve_right other
      rw [← main]
      exact other.symm
  · intro l' c fresh member
    exact h.stacked l' c fresh ((settledAct one rfl member).resolve_left (by simp))
  · intro l' c pre post fresh parts
    have lift : established c ∈ pre ∨ .call l' (established c) ∈ w.stack l' → _ := Or.imp id (running l' c)
    simp only [settle, Function.update_apply] at parts
    split at parts
    · rename_i here
      subst here
      rcases List.eq_nil_or_concat post with empty | ⟨post',last,made⟩
      · rw [empty] at parts
        obtain ⟨ahead,same⟩ := List.append_inj' parts rfl
        cases same
        have known : c < w.host.next := r.stacked t _ top c (by simp [Act.conns, Task.conns, destroyed])
        have here : l' = w.host.loopOf c := home
        have main : t = mainLoop := (h.stray t l' c top).resolve_right other
        have gone : .call (w.host.loopOf c) (established c) ∉ w.stack mainLoop := by
          intro member
          have only := h.alone _ c member
          rw [← main, split] at only
          cases only
        rw [← ahead]
        have way := onItsWay b known fresh gone
        rw [← here] at way
        exact way.imp id (running l' c)
      · rw [made, List.concat_eq_append, ← List.cons_append, ← List.append_assoc] at parts
        obtain ⟨ahead,_⟩ := List.append_inj' parts rfl
        exact lift (h.queued l' c pre post' fresh ahead)
    · exact lift (h.queued l' c pre post fresh parts)

theorem orderedTake {w : World} (h : Ordered w) {l : ThreadId} {task : Task} {rest : List Task}
    (idle : w.stack l = []) (head : w.queue l = task :: rest) :
    Ordered (settle l [] ({ w with queue := Function.update w.queue l rest },[.call l task])) := by
  have none_ : w.stack l = [] ++ [] := idle
  have under : ∀ l' task', task' ∈ Function.update w.queue l rest l' → task' ∈ w.queue l' :=
    fun l' task' member => memPopped head member
  have running : ∀ l' c, .call l' (established c) ∈ w.stack l' → .call l' (established c) ∈
      (settle l [] ({ w with queue := Function.update w.queue l rest },[.call l task])).stack l' :=
    fun l' c member => belowKept none_ rfl member (by simp)
  refine ⟨?_,?_,?_,?_,?_⟩
  · intro l' c member
    by_cases main : mainLoop = l
    · subst main
      simp only [settle, Function.update_self] at member
      cases List.mem_singleton.mp member
      exact absurd rfl (h.far mainLoop c .connectEstablished (by rw [head]; exact List.mem_cons_self) rfl)
    · simp only [settle, Function.update_of_ne main] at member ⊢
      exact h.alone l' c member
  · intro t' l' c member
    rcases settledAct none_ rfl member with ⟨here,new⟩ | old
    · cases List.mem_singleton.mp new
      exact .inr here
    · exact h.stray t' l' c old
  · exact fun l' c f member early => h.far l' c f (under l' _ member) early
  · intro l' c fresh member
    rcases settledAct none_ rfl member with ⟨here,new⟩ | old
    · cases List.mem_singleton.mp new
      rcases h.queued l c [] rest fresh head with ahead | running
      · cases ahead
      · rw [idle] at running
        cases running
    · exact h.stacked l' c fresh old
  · intro l' c pre post fresh parts
    simp only [settle, Function.update_apply] at parts
    split at parts
    · rename_i here
      subst here
      have parts' : w.queue l' = (task :: pre) ++ destroyed c :: post := by rw [head, parts]; rfl
      rcases h.queued l' c _ post fresh parts' with ahead | here
      · rcases List.mem_cons.mp ahead with same | ahead
        · rw [same]
          exact .inr (by simp [settle])
        · exact .inl ahead
      · exact .inr (running l' c here)
    · exact (h.queued l' c pre post fresh parts).imp id (running l' c)

theorem orderedAccept {w w' : World} {fd : Fd} (r : Registry w) (h : Ordered w) (idle : w.stack mainLoop = [])
    (made : Accepts w fd w') : Ordered w' := by
  have old : ∀ {t a}, a ∈ w'.stack t → t = mainLoop ∧ a = .call (nextLoop w.server) (established w.host.next) ∨
      a ∈ w.stack t := by
    intro t a member
    by_cases main : t = mainLoop
    · rw [main, made.main] at member
      exact .inl ⟨main,List.mem_singleton.mp member⟩
    · rw [made.apart t main] at member
      exact .inr member
  refine ⟨?_,?_,?_,?_,?_⟩
  · intro l c member
    rw [made.main] at member ⊢
    rw [List.mem_singleton.mp member]
  · intro t l c member
    rcases old member with ⟨_,same⟩ | before
    · cases same
    · exact h.stray t l c before
  · intro l c f member early
    rw [made.queue] at member
    exact h.far l c f member early
  · intro l c fresh member
    rcases old member with ⟨_,same⟩ | before
    · cases same
    · have known := r.stacked l _ before c (by simp [Act.conns, Task.conns, destroyed])
      rw [(made.old c known).1] at fresh
      exact h.stacked l c fresh before
  · intro l c pre post fresh parts
    rw [made.queue] at parts
    have known := r.queues l (destroyed c) (by rw [parts]; simp) c (by simp [Task.conns, destroyed])
    rw [(made.old c known).1] at fresh
    refine (h.queued l c pre post fresh parts).imp id (fun member => ?_)
    by_cases main : l = mainLoop
    · rw [main, idle] at member
      cases member
    · rw [made.apart l main]
      exact member

theorem orderedServer {w : World} (h : Ordered w) {t : ThreadId} {top below : List Act} {out : Effect}
    (split : w.stack t = top ++ below) (host : out.1.host = w.host) (stack : out.1.stack = w.stack)
    (queue : out.1.queue = w.queue) (spent : ∀ l c, .call l (established c) ∉ top)
    (acts : ∀ l c, .call l (established c) ∉ out.2)
    (makes : ∀ l c, .call l (destroyed c) ∈ out.2 → t = mainLoop ∧ (l = mainLoop → (w.conn c).state ≠ .connecting))
    (calm : top = [] → userRuns (w.stack t) = true) : Ordered (settle t below out) := by
  have conn : out.1.conn = w.conn := World.connSame host
  exact orderedAside h split stack queue (by rw [conn]; exact fun _ fresh => fresh)
    (fun l c member => absurd member (spent l c)) acts makes calm

theorem orderedStep {w w' : World} {a : Action} (r : Registry w) (p : Placed w) (b : Births w) (h : Ordered w)
    (taken : step w a = some w') : Ordered w' := by
  cases turnCases r p taken with
  | @member t c top below out known home split does =>
    have calm : top = [] → userRuns (w.stack t) = true := by
      cases does with
      | event idle up ok => exact fun _ => by rw [idle]; rfl
      | _ => simp
    by_cases special : top = [.call t (established c)]
    · subst special home
      cases does with
      | run =>
        refine orderedAside h split rfl rfl (fun d fresh => ?_) (fun l d member => ?_) (fun _ _ => connNotCall _ _)
          (fun _ _ member => absurd member (connNotCall _ _)) calm
        · by_cases here : d = c
          · rw [here]
            exact establishedFresh b known split
          · simpa [ofConn, here] using fresh
        · cases List.mem_singleton.mp member
          simp [ofConn, Endpoint.run, connectEstablished, enableReading, setState]
    · have begins := memberBegins does special (fun f same waits => b.calls t t c f (by simp [split, same]) waits)
      refine orderedAside h split rfl rfl (fun d => (putState .connecting begins d).mp) (fun l d member => ?_)
        (fun _ _ => connNotCall _ _) (fun _ _ member => absurd member (connNotCall _ _)) calm
      cases does with
      | run =>
        cases List.mem_singleton.mp member
        exact absurd rfl special
      | _ => simp at member
  | @request t c call top below again known split caller =>
    have notTop : ∀ l d, .call l (established d) ∉ top := by cases caller <;> simp
    have notAgain : ∀ l task, .call l task ∉ again := by cases caller <;> simp
    have early : ∀ l d f, .call l (.conn d f) ∈ (callConn w t c call).2 ++ again → later f = true := by
      intro l d f member
      rcases List.mem_append.mp member with handed | rest
      · obtain ⟨g,made,same⟩ := List.mem_map.mp handed
        cases same
        exact (requestLeaves (Option.mem_toList.mp made)).1
      · exact absurd rest (notAgain _ _)
    refine orderedAside h split rfl rfl (fun d => (putState .connecting (requestBegins _ _ _) d).mp)
      (fun l d member => absurd member (notTop l d)) (fun l d member => ?_) (fun l d member => ?_) (fun empty => ?_)
    · exact absurd (early l d _ member) (by simp [later])
    · exact absurd (early l d _ member) (by simp [later])
    · cases caller with
      | user runs => exact runs
      | _ => cases empty
  | @close t c below home split =>
    exact orderedServer h (topSplit split) rfl rfl rfl (by simp) (by simp [established])
      (by simp [destroyed]) (by simp)
  | hand split other home => exact orderedHand r b h split other home
  | take idle head loop => exact orderedTake h idle head
  | @remove c below out known ran split does =>
    refine orderedServer h (topSplit split) does.host does.stack does.queue (by simp [established])
      (fun l d member => ?_) (fun l d member => ?_) (by simp) <;> rcases does.outcome with ⟨_,_,none_⟩ | ⟨_,_,_,_,_,acts⟩
    · simp [none_] at member
    · simp [acts, established] at member
    · simp [none_] at member
    · simp only [acts, destroyed, List.mem_cons, Act.call.injEq, Task.conn.injEq, reduceCtorEq, List.not_mem_nil,
        or_false, and_true] at member
      obtain ⟨home,same⟩ := member
      subst same
      exact ⟨rfl,fun main => mainBegun b h split (by simp [established]) known (home.symm.trans main)⟩
  | @sweepErase x rest stale force below known split off =>
    exact orderedServer h (topSplit split) rfl rfl rfl (by simp) (by simp) (by simp) (by simp)
  | @sweepEnd stale force below split =>
    refine orderedServer h (topSplit split) rfl rfl rfl (by simp) (fun l c member => ?_)
      (fun l c member => ?_) (by simp)
    · cases force <;> simp [sweepEnd, established] at member
    · have listed : c ∈ stale ∧ w.host.loopOf c = l := by
        cases force <;> simpa [sweepEnd, destroyed] using member
      have known : c < w.host.next := topKnown r split c (by simp [Act.conns, listed.1])
      exact ⟨rfl,fun main => mainBegun b h split (by simp) known (listed.2.trans main)⟩
  | @sweepNext x rest stale force below split on =>
    exact orderedServer h (topSplit split) rfl rfl rfl (by simp) (by simp) (by simp) (by simp)
  | @skip top again below split skips =>
    refine orderedServer h (topSplit split) rfl rfl rfl ?_ ?_ ?_ (by simp) <;>
      cases skips <;> simp
  | @serve t top below out split own calm does =>
    refine orderedServer h split does.host does.stack does.queue (fun l c member => ?_) (fun l c member => ?_)
      (fun l c member => ?_) calm
    · cases own _ member
    · obtain ⟨_,_,task⟩ := does.acts _ member
      cases task
    · obtain ⟨_,_,task⟩ := does.acts _ member
      cases task
  | accept idle free made => exact orderedAccept r h idle made

theorem orderedInitial {w : World} (h : Initial w) : Ordered w := by
  obtain ⟨threadNum,callbacks,mark,idleTimeout,same⟩ := h
  subst same
  refine ⟨fun l c member => (by cases member),fun t l c member => (by cases member),fun l c f member => (by cases member),
    fun l c fresh member => (by cases member),fun l c pre post fresh parts => ?_⟩
  have empty : ([] : List Task) = pre ++ destroyed c :: post := parts
  simp at empty

theorem overStep {w w' : World} {a : Action} (r : Registry w) (p : Placed w) (b : Births w) (taken : step w a = some w') :
    ∀ c < w.host.next, (w.conn c).state = .disconnected → (w'.conn c).state = .disconnected := by
  intro d known finished
  have put : ∀ {c : ConnId} {e : Endpoint}, (d = c → e.conn.state = .disconnected) →
      ((w.putHost (w.host.put c e)).conn d).state = .disconnected :=
    fun mine => World.connPutCases (P := fun conn => conn.state = .disconnected) mine (fun _ => finished)
  cases turnCases r p taken with
  | @member t c top below out known' home split does =>
    refine put (fun here => ?_)
    subst here
    have mine : (w.host.endpoint d).conn.state = .disconnected := finished
    cases does with
    | resume own => rw [resumeState]; exact mine
    | @run f =>
      refine ((unreleasedRun (fun same => ?_)).finished mine).1
      subst same home
      exact establishedFresh b known split
    | event idle up ok => exact ((unreleasedChange (Connection.handleChange _ ok)).finished mine).1
  | request known' split caller =>
    refine put (fun here => ?_)
    subst here
    rw [requestOver finished]
    exact finished
  | remove known' ran split does =>
    rw [connSettle, World.connSame does.host]
    exact finished
  | serve split own calm does =>
    rw [connSettle, World.connSame does.host]
    exact finished
  | accept idle free made => rw [(made.old d known).1]; exact finished
  | _ => exact finished

theorem destroyedEnds {e : Endpoint} (begun : e.conn.state ≠ .connecting) :
    Closed e (e.run .connectDestroyed).1 ∧ (e.run .connectDestroyed).2 = [.closeSocket] ∨
      e.conn.state = .disconnected ∧ e.run .connectDestroyed = (e,[]) := by
  cases up : e.isOpenState with
  | true =>
    simp only [Endpoint.run, connectDestroyed, up, if_true]
    exact .inl ⟨removeIfAddedClosed (disconnectClosed e),trivial⟩
  | false =>
    simp only [Endpoint.run, connectDestroyed, up, Bool.false_eq_true, if_false]
    exact .inr ⟨shutState up begun,trivial⟩

theorem destroyedOver {e : Endpoint} (begun : e.conn.state ≠ .connecting) :
    (e.run .connectDestroyed).1.conn.state = .disconnected := by
  rcases destroyedEnds begun with ⟨closed,_⟩ | ⟨finished,nothing⟩
  · exact closed.state
  · rw [nothing]
    exact finished

end TcFrame.TcpServer
