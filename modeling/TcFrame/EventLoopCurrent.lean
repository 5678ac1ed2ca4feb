import TcFrame.EpollPoller
import TcFrame.Machine
import Mathlib.Logic.Function.Basic

/-! Which loop a thread finds as its own: t_currentThreadLoop of every thread, while loops
are constructed, started and destroyed on any threads. -/
namespace TcFrame.CurrentLoop
open Machine

abbrev LoopId := Nat

/- m_thread of a loop. -/
inductive Worker where
  | none
  | spawned (w : ThreadId)       -- made, its lambda not begun
  | looping (w : ThreadId)
  | ended (w : ThreadId)
  deriving DecidableEq, Repr

structure Instance where
  threadId : ThreadId
  worker : Worker
  alive : Bool
  deriving DecidableEq, Repr

structure Threads where
  currentThreadLoop : ThreadId → Option LoopId
  loops : List Instance

def getCurrentThreadEventLoop (s : Threads) (t : ThreadId) : Option LoopId := s.currentThreadLoop t

/- Loop runs, or is to run, on this thread: on the worker of a loop that starts itself, else
on the thread that AssertInLoopThread asks for. -/
def Instance.runsOn (i : Instance) (t : ThreadId) : Bool :=
  i.alive &&
    match i.worker with
    | .none => i.threadId == t
    | .looping w => w == t
    | .spawned _ | .ended _ => false

def Instance.mentions (i : Instance) (t : ThreadId) : Bool :=
  i.threadId == t ||
    match i.worker with
    | .none => false
    | .spawned w | .looping w | .ended w => w == t

/- The destructor joins the worker, so it comes to its end behind the end of the worker. -/
def Instance.joined (i : Instance) : Bool :=
  match i.worker with
  | .none | .ended _ => true
  | .spawned _ | .looping _ => false

/- A thread that runs the code of a user: not a worker before its lambda or behind it. -/
def Instance.silences (i : Instance) (t : ThreadId) : Bool := i.worker == .spawned t || i.worker == .ended t

namespace Threads

def home (s : Threads) (l : LoopId) (t : ThreadId) : Prop := ∃ i, s.loops[l]? = some i ∧ i.runsOn t = true

def runs (s : Threads) (t : ThreadId) : Bool := s.loops.all (fun i => !i.silences t)

/- A std::thread that starts is none of the threads so far. -/
def isNew (s : Threads) (t : ThreadId) : Bool :=
  s.loops.all (fun i => !i.mentions t) && (s.currentThreadLoop t).isNone

def setCurrent (s : Threads) (t : ThreadId) (l : Option LoopId) : Threads :=
  { s with currentThreadLoop := Function.update s.currentThreadLoop t l }

def setLoop (s : Threads) (l : LoopId) (i : Instance) : Threads := { s with loops := s.loops.set l i }

end Threads

/- `construct` and `autoStart` are the constructor with auto_start = false and true,
`begin_` the lambda of the worker up to Loop, `end_` its end. -/
inductive Action where
  | construct (t : ThreadId)
  | autoStart (t w : ThreadId)
  | begin_ (l : LoopId)
  | end_ (l : LoopId)
  | destroy (t : ThreadId) (l : LoopId)
  deriving DecidableEq, Repr

def eventLoop (s : Threads) (t : ThreadId) (worker : Worker) : Threads :=
  Threads.setCurrent { s with loops := s.loops ++ [⟨t,worker,true⟩] } t (some s.loops.length)

def step (s : Threads) : Action → Option Threads
  | .construct t => if s.runs t then some (eventLoop s t .none) else none
  | .autoStart t w => if s.runs t ∧ s.isNew w ∧ t ≠ w then some (eventLoop s t (.spawned w)) else none
  | .begin_ l =>
    match s.loops[l]? with
    | some ⟨_,.spawned w,alive⟩ => some ((s.setLoop l ⟨w,.looping w,alive⟩).setCurrent w (some l))
    | _ => none
  | .end_ l =>
    match s.loops[l]? with
    | some ⟨threadId,.looping w,alive⟩ => some ((s.setLoop l ⟨threadId,.ended w,alive⟩).setCurrent w none)
    | _ => none
  | .destroy t l =>
    match s.loops[l]? with
    | some i =>
      if s.runs t ∧ i.alive ∧ i.joined then some ((s.setLoop l { i with alive := false }).setCurrent t none) else none
    | none => none

/- The sub loops of a TcpServer that is constructed on a thread. -/
def subLoops (t : ThreadId) (workers : List ThreadId) : List Action := workers.map (.autoStart t)

def fresh : Threads := ⟨fun _ => none,[]⟩

/- The loop that an action is about. -/
def Action.loop (s : Threads) : Action → LoopId
  | .construct _ | .autoStart _ _ => s.loops.length
  | .begin_ l | .end_ l | .destroy _ l => l

/- On each thread that runs any code the current loop is one whose Loop is there, or null if
none is. -/
structure Own (s : Threads) : Prop where
  mine : ∀ t l, s.runs t = true → getCurrentThreadEventLoop s t = some l → s.home l t
  none : ∀ t l, s.runs t = true → getCurrentThreadEventLoop s t = none → ¬ s.home l t

/- A step leaves each thread with its own loop, and one about another loop does not change it. -/
def keepsOwn (s : Threads) (a : Action) : Prop :=
  ∀ s', step s a = some s' → Own s' ∧
    ∀ t l, s'.runs t = true → getCurrentThreadEventLoop s t = some l → l ≠ a.loop s → getCurrentThreadEventLoop s' t = some l

/- No loop starts itself, a loop is constructed on a thread without one, and is destroyed on
its own thread. -/
def onOwnThread (s : Threads) : Action → Prop
  | .construct t => s.loops.all (fun i => !i.runsOn t) = true
  | .autoStart _ _ => False
  | .destroy t l => (s.loops[l]?).any (fun i => i.runsOn t) = true
  | _ => True

instance (s : Threads) (a : Action) : Decidable (onOwnThread s a) := by cases a <;> unfold onOwnThread <;> infer_instance

theorem homeConstruct (s : Threads) (t u : ThreadId) (worker : Worker) (l : LoopId) :
    (eventLoop s t worker).home l u ↔ s.home l u ∨ l = s.loops.length ∧ (⟨t,worker,true⟩ : Instance).runsOn u = true := by
  have same : (eventLoop s t worker).loops = s.loops ++ [⟨t,worker,true⟩] := rfl
  simp only [Threads.home, same, List.getElem?_append]
  split
  · rename_i inside
    have other : l ≠ s.loops.length := Nat.ne_of_lt inside
    simp [other]
  · rename_i outside
    have none : s.loops[l]? = none := List.getElem?_eq_none (Nat.le_of_not_lt outside)
    by_cases last : l = s.loops.length
    · simp [last]
    · have beyond := Nat.sub_ne_zero_of_lt (Nat.lt_of_le_of_ne (Nat.le_of_not_lt outside) (Ne.symm last))
      simp [none, last, beyond]

theorem homeDestroyed {s : Threads} {l : LoopId} {i : Instance} (found : s.loops[l]? = some i) (t u : ThreadId) (k : LoopId) :
    ((s.setLoop l { i with alive := false }).setCurrent t none).home k u ↔ s.home k u ∧ k ≠ l := by
  have same : ((s.setLoop l { i with alive := false }).setCurrent t none).loops = s.loops.set l { i with alive := false } := rfl
  simp only [Threads.home, same]
  by_cases self : k = l
  · have there : l < s.loops.length := (List.getElem?_eq_some_iff.mp found).1
    rw [self, List.getElem?_set_self there]
    simp [Instance.runsOn]
  · rw [List.getElem?_set_ne (Ne.symm self)]
    simp [self]

theorem homeBelow {s : Threads} {l : LoopId} {t : ThreadId} (h : s.home l t) : l < s.loops.length := by
  obtain ⟨i,found,_⟩ := h
  exact (List.getElem?_eq_some_iff.mp found).1

theorem currentSet (s : Threads) (t u : ThreadId) (l : Option LoopId) :
    getCurrentThreadEventLoop (s.setCurrent t l) u = if u = t then l else getCurrentThreadEventLoop s u := by
  simp only [getCurrentThreadEventLoop, Threads.setCurrent, Function.update_apply]

/- While no loop starts itself: each thread has its own loop, and one at most. -/
structure Single (s : Threads) : Prop where
  own : Own s
  manual : ∀ i ∈ s.loops, i.worker = .none
  unique : ∀ t l k, s.home l t → s.home k t → l = k

theorem runsManual {s : Threads} (manual : ∀ i ∈ s.loops, i.worker = .none) (t : ThreadId) : s.runs t = true := by
  refine List.all_eq_true.mpr (fun i member => ?_)
  simp [Instance.silences, manual i member]

theorem homeManual {s : Threads} (manual : ∀ i ∈ s.loops, i.worker = .none) {l : LoopId} {t : ThreadId} {i : Instance}
    (found : s.loops[l]? = some i) : s.home l t ↔ i.alive = true ∧ i.threadId = t := by
  have none := manual i (List.mem_of_getElem? found)
  simp [Threads.home, found, Instance.runsOn, none]

theorem homeThread {s : Threads} (manual : ∀ i ∈ s.loops, i.worker = .none) {l : LoopId} {t u : ThreadId}
    (here : s.home l t) (there : s.home l u) : t = u := by
  have found := here
  obtain ⟨i,found,_⟩ := found
  exact ((homeManual manual found).mp here).2.symm.trans ((homeManual manual found).mp there).2

theorem currentHome {s : Threads} (h : Single s) {t : ThreadId} {l : LoopId} (there : s.home l t) :
    getCurrentThreadEventLoop s t = some l := by
  have runs := runsManual h.manual t
  cases here : getCurrentThreadEventLoop s t with
  | none => exact absurd there (h.own.none t l runs here)
  | some k => rw [h.unique t k l (h.own.mine t k runs here) there]

theorem noHome {s : Threads} {t : ThreadId} : s.loops.all (fun i => !i.runsOn t) = true ↔ ∀ l, ¬ s.home l t := by
  rw [List.all_eq_true]
  constructor
  · rintro none l ⟨i,found,runs⟩
    have quiet := none i (List.mem_of_getElem? found)
    rw [runs] at quiet
    cases quiet
  · intro none i member
    obtain ⟨l,found⟩ := List.mem_iff_getElem?.mp member
    by_contra runs
    exact none l ⟨i,found,by simpa using runs⟩

theorem manualConstruct {s : Threads} (manual : ∀ i ∈ s.loops, i.worker = .none) (t : ThreadId) :
    ∀ i ∈ (eventLoop s t .none).loops, i.worker = .none := by
  intro i member
  rcases List.mem_append.mp member with old | new
  · exact manual i old
  · rw [List.mem_singleton.mp new]

theorem manualDestroyed {s : Threads} (manual : ∀ i ∈ s.loops, i.worker = .none) {l : LoopId} {i : Instance}
    (found : s.loops[l]? = some i) (t : ThreadId) :
    ∀ j ∈ ((s.setLoop l { i with alive := false }).setCurrent t none).loops, j.worker = .none := by
  intro j member
  rcases List.mem_or_eq_of_mem_set member with old | new
  · exact manual j old
  · rw [new]
    exact manual i (List.mem_of_getElem? found)

/- What can be done while no loop starts itself. -/
inductive Acts (s : Threads) : Action → Threads → Prop where
  | construct {t} : Acts s (.construct t) (eventLoop s t .none)
  | autoStart {t w} (other : t ≠ w) : Acts s (.autoStart t w) (eventLoop s t (.spawned w))
  | destroy {t l i} (found : s.loops[l]? = some i) (alive : i.alive = true) :
      Acts s (.destroy t l) ((s.setLoop l { i with alive := false }).setCurrent t none)

theorem manualActs {s s' : Threads} {a : Action} (manual : ∀ i ∈ s.loops, i.worker = .none) (taken : step s a = some s') :
    Acts s a s' := by
  cases a with
  | construct t =>
    simp only [step] at taken
    split at taken <;> cases taken
    exact .construct
  | autoStart t w =>
    simp only [step] at taken
    split at taken <;> cases taken
    rename_i may
    exact .autoStart may.2.2
  | begin_ l | end_ l =>
    -- There is no worker.
    simp only [step] at taken
    split at taken
    · rename_i found
      cases manual _ (List.mem_of_getElem? found)
    · cases taken
  | destroy t l =>
    simp only [step] at taken
    split at taken
    · rename_i i found
      split at taken <;> cases taken
      rename_i may
      exact .destroy found may.2.1
    · cases taken

theorem singleConstruct {s : Threads} {t : ThreadId} (h : Single s) (alone : ∀ l, ¬ s.home l t) :
    Single (eventLoop s t .none) := by
  have manual := manualConstruct h.manual t
  have here : ∀ {l u}, (eventLoop s t .none).home l u ↔ s.home l u ∨ l = s.loops.length ∧ u = t := by
    intro l u
    have runs : (⟨t,.none,true⟩ : Instance).runsOn u = true ↔ u = t := by
      simp only [Instance.runsOn, Bool.true_and, beq_iff_eq]
      exact eq_comm
    rw [homeConstruct, runs]
  refine ⟨⟨fun u l _ current => here.mpr ?_,fun u l _ current home => ?_⟩,manual,fun u l k mine other => ?_⟩
  · rw [eventLoop, currentSet] at current
    split at current
    · cases current
      exact .inr ⟨rfl,by assumption⟩
    · exact .inl (h.own.mine u l (runsManual h.manual u) current)
  · rw [eventLoop, currentSet] at current
    split at current
    · cases current
    · rename_i other
      rcases here.mp home with old | ⟨_,self⟩
      · exact h.own.none u l (runsManual h.manual u) current old
      · exact other self
  · rcases here.mp mine with old | ⟨new,self⟩
    · rcases here.mp other with old' | ⟨_,self⟩
      · exact h.unique u l k old old'
      · exact absurd (self ▸ old) (alone l)
    · rcases here.mp other with old | ⟨new',_⟩
      · exact absurd (self ▸ old) (alone k)
      · rw [new, new']

theorem singleDestroyed {s : Threads} {t : ThreadId} {l : LoopId} {i : Instance} (h : Single s) (found : s.loops[l]? = some i)
    (own : s.home l t) : Single ((s.setLoop l { i with alive := false }).setCurrent t none) := by
  have manual := manualDestroyed h.manual found t
  refine ⟨⟨fun u k _ current => ?_,fun u k _ current home => ?_⟩,manual,fun u k j mine other => ?_⟩
  · rw [currentSet] at current
    split at current
    · cases current
    · rename_i other
      have there := h.own.mine u k (runsManual h.manual u) current
      refine (homeDestroyed found t u k).mpr ⟨there,fun self => other ?_⟩
      exact homeThread h.manual there (self ▸ own)
  · obtain ⟨there,apart⟩ := (homeDestroyed found t u k).mp home
    rw [currentSet] at current
    split at current
    · rename_i self
      exact apart (h.unique t k l (self ▸ there) own)
    · exact h.own.none u k (runsManual h.manual u) current there
  · exact h.unique u k j ((homeDestroyed found t u k).mp mine).1 ((homeDestroyed found t u j).mp other).1

theorem ownHome {s : Threads} {t : ThreadId} {l : LoopId} (ok : onOwnThread s (.destroy t l)) : s.home l t := by
  obtain ⟨i,found,runs⟩ := (Option.any_eq_true _ _).mp ok
  exact ⟨i,found,runs⟩

theorem singleStep {s s' : Threads} {a : Action} (h : Single s) (ok : onOwnThread s a) (taken : step s a = some s') :
    Single s' := by
  cases manualActs h.manual taken with
  | construct => exact singleConstruct h (noHome.mp ok)
  | autoStart => exact ok.elim
  | destroy found => exact singleDestroyed h found (ownHome ok)

theorem unmovedStep {s s' : Threads} {a : Action} (h : Single s) (ok : onOwnThread s a) (taken : step s a = some s')
    {t : ThreadId} {l : LoopId} (current : getCurrentThreadEventLoop s t = some l) (other : l ≠ a.loop s) :
    getCurrentThreadEventLoop s' t = some l := by
  have there := h.own.mine t l (runsManual h.manual t) current
  cases manualActs h.manual taken with
  | @construct u =>
    have apart : t ≠ u := by
      rintro rfl
      exact noHome.mp ok l there
    rw [eventLoop, currentSet, if_neg apart]
    exact current
  | autoStart => exact ok.elim
  | @destroy u k i found =>
    have apart : t ≠ u := by
      rintro rfl
      exact other (h.unique t l k there (ownHome ok))
    rw [currentSet, if_neg apart]
    exact current

theorem keepsConstruct {s : Threads} {t : ThreadId} (h : Single s) (keeps : keepsOwn s (.construct t)) :
    ∀ l, ¬ s.home l t := by
  intro l there
  have taken : step s (.construct t) = some (eventLoop s t .none) := if_pos (runsManual h.manual t)
  have below : l ≠ s.loops.length := Nat.ne_of_lt (homeBelow there)
  have runs := runsManual (manualConstruct h.manual t) t
  have current := (keeps _ taken).2 t l runs (currentHome h there) below
  rw [eventLoop, currentSet, if_pos rfl] at current
  exact below (Option.some.inj current).symm

/- The thread that constructs a loop that starts itself is left with that loop as its own. -/
theorem keepsAutoStart {s : Threads} {t w : ThreadId} (h : Single s) (other : t ≠ w) :
    ¬ Own (eventLoop s t (.spawned w)) := by
  intro own
  have runs : (eventLoop s t (.spawned w)).runs t = true := by
    refine List.all_eq_true.mpr (fun i member => ?_)
    rcases List.mem_append.mp member with old | new
    · simp [Instance.silences, h.manual i old]
    · simp [List.mem_singleton.mp new, Instance.silences, Ne.symm other]
  have current : getCurrentThreadEventLoop (eventLoop s t (.spawned w)) t = some s.loops.length := by
    rw [eventLoop, currentSet, if_pos rfl]
  rcases (homeConstruct s t t _ _).mp (own.mine t _ runs current) with old | ⟨_,begun⟩
  · exact Nat.lt_irrefl _ (homeBelow old)
  · cases begun

/- A loop destroyed on another thread stays the current loop of its own. -/
theorem keepsDestroy {s : Threads} {t : ThreadId} {l : LoopId} {i : Instance} (h : Single s)
    (found : s.loops[l]? = some i) (alive : i.alive = true)
    (own : Own ((s.setLoop l { i with alive := false }).setCurrent t none)) : s.home l t := by
  have there : s.home l i.threadId := (homeManual h.manual found).mpr ⟨alive,rfl⟩
  by_cases self : i.threadId = t
  · rw [← self]
    exact there
  · have runs := runsManual (manualDestroyed h.manual found t) i.threadId
    have current : getCurrentThreadEventLoop ((s.setLoop l { i with alive := false }).setCurrent t none) i.threadId =
        some l := by
      rw [currentSet, if_neg self]
      exact currentHome h there
    exact absurd rfl ((homeDestroyed found t _ l).mp (own.mine _ l runs current)).2

theorem keepsIff {s s' : Threads} {a : Action} (h : Single s) (taken : step s a = some s') :
    onOwnThread s a ↔ keepsOwn s a := by
  constructor
  · intro ok s'' taken'
    exact ⟨(singleStep h ok taken').own,fun _ _ _ current other => unmovedStep h ok taken' current other⟩
  · intro keeps
    have own := (keeps s' taken).1
    cases manualActs h.manual taken with
    | construct => exact noHome.mpr (keepsConstruct h keeps)
    | autoStart other => exact absurd own (keepsAutoStart h other)
    | destroy found alive =>
      obtain ⟨i,found',runs⟩ := keepsDestroy h found alive own
      rw [onOwnThread, found']
      exact runs

theorem singleFresh : Single fresh := by
  have none : ∀ {l t}, ¬ fresh.home l t := fun home => Nat.not_lt_zero _ (homeBelow home)
  refine ⟨⟨fun t l _ current => ?_,fun _ _ _ _ => none⟩,fun _ member => ?_,fun _ _ _ mine => absurd mine none⟩
  · cases current
  · cases member

/- The steps of a run leave every thread with its own loop exactly if they keep to loops that
do not start themselves, one to a thread and each destroyed where it was constructed. -/
theorem currentOwnIff {as : List Action} {s : Threads} (reached : run step fresh as = some s) :
    Throughout step onOwnThread fresh as ↔ Throughout step keepsOwn fresh as :=
  throughoutIff (fun _ _ _ => singleStep) (fun _ _ _ => keepsIff) singleFresh reached

/- Threads 0 and 3 have a loop each, thread 3 two after another. -/
def apart : List Action := [.construct 0,.construct 3,.destroy 3 1,.construct 3,.destroy 0 0]

theorem currentOwnIffApart : ∃ s, run step fresh apart = some s ∧ getCurrentThreadEventLoop s 3 = some 2 ∧
    Throughout step keepsOwn fresh apart := by
  have ok : Throughout step onOwnThread fresh apart := by decide
  have reached : ∃ s, run step fresh apart = some s ∧ getCurrentThreadEventLoop s 3 = some 2 := ⟨_,rfl,rfl⟩
  obtain ⟨s,reached,current⟩ := reached
  exact ⟨s,reached,current,(currentOwnIff reached).mp ok⟩

/- Thread 0 makes its loop and then a TcpServer with one sub loop, whose thread is 5. -/
def serverMade : List Action := [.construct 0] ++ subLoops 0 [5] ++ [.begin_ 1]

/- The sub loop has quit, and thread 0 destroys it. -/
def serverGone : List Action := [.end_ 1,.destroy 0 1]

/- The main thread finds the sub loop as its own, and behind the server none. -/
theorem currentOther : ∃ s s', run step fresh serverMade = some s ∧ s.home 0 0 ∧ s.home 1 5 ∧
    getCurrentThreadEventLoop s 0 = some 1 ∧ run step s serverGone = some s' ∧ s'.home 0 0 ∧
    getCurrentThreadEventLoop s' 0 = none ∧ ¬ Throughout step keepsOwn fresh serverMade := by
  have made : ∃ s s', run step fresh serverMade = some s ∧ s.home 0 0 ∧ s.home 1 5 ∧
      getCurrentThreadEventLoop s 0 = some 1 ∧ run step s serverGone = some s' ∧ s'.home 0 0 ∧
      getCurrentThreadEventLoop s' 0 = none := ⟨_,_,rfl,⟨_,rfl,rfl⟩,⟨_,rfl,rfl⟩,rfl,rfl,⟨_,rfl,rfl⟩,rfl⟩
  obtain ⟨s,s',reached,main,sub,current,gone,main',current'⟩ := made
  refine ⟨s,s',reached,main,sub,current,gone,main',current',fun keeps => ?_⟩
  have second := (keeps.2 _ rfl).1
  have still := (second _ rfl).2 0 0 rfl rfl (by decide)
  cases still

end TcFrame.CurrentLoop
