import TcFrame.TimerQueueTimeout
import Mathlib.Data.List.Pairwise

/-! One call of ProcessDelayedTasks. The due tasks leave the heap in one region under the
mutex; then each has its turn, its callback without the mutex. A callback may do anything with
the loop's timers while the clock goes on. -/
namespace TcFrame.TimerQueue

/- What a callback does, and the time that it takes. -/
inductive Deed where
  | runAt (when_ : Nat) (callback : Bool)
  | runEvery (interval : Int) (callback : Bool)
  | cancel (id : TimerId)
  | passes (nanos : Nat)
  deriving DecidableEq, Repr

/- `fired` are the tasks whose callback was called, with the time it returned. -/
structure Batch where
  queue : TimerQueue
  now : Nat
  fired : List (TimerId × Nat)

def Batch.ids (s : Batch) : List TimerId := s.fired.map Prod.fst

def perform (s : Batch) : Deed → Batch
  | .runAt when_ callback => { s with queue := s.queue.runAt when_ callback }
  | .runEvery interval callback => { s with queue := s.queue.runEvery s.now interval callback }
  | .cancel id => { s with queue := (s.queue.cancel id).1 }
  | .passes nanos => { s with now := s.now + nanos }

/- What the callbacks do, and the time from a callback's return to the next region. -/
structure Script where
  deeds : TimerId → List Deed
  late : TimerId → Nat

def callback (script : Script) (s : Batch) (id : TimerId) : Batch :=
  if s.queue.mayFire id then
    let returned := (script.deeds id).foldl perform s
    { returned with fired := returned.fired ++ [(id,returned.now)] }
  else s

def turn (script : Script) (s : Batch) (id : TimerId) : Batch :=
  let s' := callback script s id
  { s' with now := s'.now + script.late id, queue := s'.queue.finish (s'.now + script.late id) id }

def processDelayedTasks (script : Script) (now : Nat) (q : TimerQueue) : Batch :=
  (q.collect now).1.foldl (turn script) ⟨(q.collect now).2,now,[]⟩

/- The entries that may be at the top: the heap does not say which of equal ones is. -/
def Least (q : TimerQueue) (id : TimerId) : Prop :=
  id ∈ q.delayedTasks ∧ ∀ other ∈ q.delayedTasks, (q.task id).expireTime ≤ (q.task other).expireTime

/- The first region, whatever order the heap has equal entries in. -/
inductive Collects (now : Nat) : TimerQueue → List TimerId → TimerQueue → Prop where
  | stop {q} (later : ∀ id, q.Least id → now < (q.task id).expireTime) : Collects now q [] q
  | skip {q id ready q'} (least : q.Least id) (due : (q.task id).expireTime ≤ now) (dead : q.isDead id = true)
      (rest : Collects now (q.pop id) ready q') : Collects now q ready q'
  | take {q id ready q'} (least : q.Least id) (due : (q.task id).expireTime ≤ now) (alive : q.isDead id = false)
      (rest : Collects now (q.pop id) ready q') : Collects now q (id :: ready) q'

/- The call, for any such order. -/
def Processes (script : Script) (now : Nat) (q : TimerQueue) (ready : List TimerId) (s : Batch) : Prop :=
  ∃ q', Collects now q ready q' ∧ s = ready.foldl (turn script) ⟨q',now,[]⟩

theorem topIsLeast {q : TimerQueue} {id : TimerId} (front : q.top = some id) : q.Least id :=
  ⟨topMember front,topLeast front⟩

theorem collectLoopCollects (now fuel : Nat) {q : TimerQueue} (enough : q.delayedTasks.length ≤ fuel)
    (before : List TimerId) : ∃ ready, (collectLoop now fuel q before).1 = before ++ ready ∧
      Collects now q ready (collectLoop now fuel q before).2 := by
  induction fuel generalizing q before with
  | zero =>
    refine ⟨[],(List.append_nil _).symm,.stop (fun id least => ?_)⟩
    have member := least.1
    rw [List.eq_nil_of_length_eq_zero (Nat.le_zero.mp enough)] at member
    cases member
  | succ fuel ih =>
    simp only [collectLoop]
    split
    · rename_i none_
      refine ⟨[],(List.append_nil _).symm,.stop (fun id least => ?_)⟩
      have member := least.1
      rw [topNone none_] at member
      cases member
    · rename_i id front
      have shorter : (q.pop id).delayedTasks.length ≤ fuel := by
        rw [pop, List.length_erase_of_mem (topMember front)]
        omega
      split
      · rename_i due
        split
        · rename_i dead
          obtain ⟨ready,made,rest⟩ := ih shorter before
          exact ⟨ready,made,.skip (topIsLeast front) due dead rest⟩
        · rename_i alive
          obtain ⟨ready,made,rest⟩ := ih shorter (before ++ [id])
          rw [List.append_assoc] at made
          exact ⟨id :: ready,made,.take (topIsLeast front) due (Bool.eq_false_iff.mpr alive) rest⟩
      · rename_i ahead
        refine ⟨[],(List.append_nil _).symm,.stop (fun other least => ?_)⟩
        exact Nat.lt_of_lt_of_le (Nat.lt_of_not_le ahead) (topLeast front other least.1)

theorem processes (script : Script) (now : Nat) (q : TimerQueue) :
    Processes script now q (q.collect now).1 (processDelayedTasks script now q) := by
  obtain ⟨ready,made,collected⟩ := collectLoopCollects now q.delayedTasks.length (Nat.le_refl _) []
  have same : (q.collect now).1 = ready := made
  exact ⟨(q.collect now).2,same ▸ collected,rfl⟩

/- What the first region takes out. -/
structure Collected (q : TimerQueue) (now : Nat) (ready : List TimerId) (q' : TimerQueue) : Prop where
  pops : OnlyPops q q'
  due : ∀ id, id ∈ ready ↔ q.isDead id = false ∧ (q.task id).expireTime ≤ now ∧ id ∈ q.delayedTasks
  once : ready.Nodup
  sorted : ready.Pairwise (fun a b => (q.task a).expireTime ≤ (q.task b).expireTime)

theorem collectsCollected {q q' : TimerQueue} {now : Nat} {ready : List TimerId}
    (single : ∀ id, q.isDead id = false → q.delayedTasks.count id ≤ 1) (h : Collects now q ready q') :
    Collected q now ready q' := by
  induction h with
  | @stop q later =>
    refine ⟨⟨rfl,rfl,rfl⟩,fun id => ⟨List.not_mem_nil.elim,?_⟩,List.nodup_nil,.nil⟩
    rintro ⟨_,due,member⟩
    obtain ⟨least,front⟩ : ∃ least, q.top = some least := by
      cases front : q.top with
      | none => rw [topNone front] at member; cases member
      | some least => exact ⟨least,rfl⟩
    have ahead := later least (topIsLeast front)
    have below := topLeast front id member
    omega
  | @skip q id ready q' least due dead rest ih =>
    obtain ⟨pops,all,once,sorted⟩ := ih (fun other alive =>
      Nat.le_trans (List.erase_sublist.count_le other) (single other alive))
    refine ⟨⟨pops.next,pops.task,pops.timers⟩,fun other => (all other).trans ?_,once,sorted⟩
    refine and_congr_right (fun alive => and_congr_right (fun _ => List.mem_erase_of_ne ?_))
    intro same
    have dead' : q.isDead other = false := alive
    rw [same, dead] at dead'
    cases dead'
  | @take q id ready q' least due alive rest ih =>
    obtain ⟨pops,all,once,sorted⟩ := ih (fun other alive =>
      Nat.le_trans (List.erase_sublist.count_le other) (single other alive))
    have gone : id ∉ (q.pop id).delayedTasks := by
      have count := single id alive
      refine List.count_eq_zero.mp ?_
      rw [pop, List.count_erase_self]
      omega
    have fresh : id ∉ ready := fun again => gone ((all id).mp again).2.2
    refine ⟨⟨pops.next,pops.task,pops.timers⟩,fun other => ?_,List.nodup_cons.mpr ⟨fresh,once⟩,
      List.pairwise_cons.mpr ⟨fun other later => ?_,sorted⟩⟩
    · by_cases same : other = id
      · rw [same]
        exact ⟨fun _ => ⟨alive,due,least.1⟩,fun _ => List.mem_cons_self⟩
      · rw [List.mem_cons, or_iff_right same, all other]
        exact and_congr_right (fun _ => and_congr_right (fun _ => List.mem_erase_of_ne same))
    · exact least.2 other (List.mem_of_mem_erase ((all other).mp later).2.2)

/- What a callback's deeds do to the tasks that were there before: they cancel those that are
still timers, and change nothing else. -/
structure Touched (deeds : List Deed) (q q' : TimerQueue) : Prop where
  next : q.nextTimerId ≤ q'.nextTimerId
  kind : ∀ id < q.nextTimerId, (q'.task id).repeats = (q.task id).repeats ∧
    (q'.task id).interval = (q.task id).interval ∧ (q'.task id).callback = (q.task id).callback ∧
    (q'.task id).expireTime = (q.task id).expireTime
  timers : ∀ id < q.nextTimerId, q'.timers id = true ↔ q.timers id = true ∧ .cancel id ∉ deeds
  cancelled : ∀ id < q.nextTimerId, (q'.task id).cancelled = true ↔
    (q.task id).cancelled = true ∨ q.timers id = true ∧ .cancel id ∈ deeds
  heap : ∀ id ∈ q.delayedTasks, id ∈ q'.delayedTasks

theorem touchedAdd (q : TimerQueue) (task : TimerTask) {deed : Deed} (other : ∀ id, deed ≠ .cancel id) :
    Touched [deed] q (q.add task) := by
  have old : ∀ id < q.nextTimerId, (q.add task).task id = q.task id ∧ (q.add task).timers id = q.timers id := by
    intro id below
    simp [add, Function.update_of_ne (Nat.ne_of_lt below)]
  have none_ : ∀ id, .cancel id ∉ [deed] := fun id here => other id (List.mem_singleton.mp here).symm
  refine ⟨Nat.le_succ _,?_,?_,?_,fun id member => List.mem_append_left _ member⟩
  · intro id below
    rw [(old id below).1]
    exact ⟨rfl,rfl,rfl,rfl⟩
  · intro id below
    rw [(old id below).2]
    exact (and_iff_left (none_ id)).symm
  · intro id below
    rw [(old id below).1]
    exact (or_iff_left (fun here => none_ id here.2)).symm

theorem touchedCancel (q : TimerQueue) (id : TimerId) : Touched [.cancel id] q (q.cancel id).1 := by
  have named : ∀ other, Deed.cancel other ∈ [Deed.cancel id] ↔ other = id := by simp
  unfold cancel
  split
  · rename_i live
    refine ⟨Nat.le_refl _,?_,?_,?_,fun _ member => member⟩
    · intro other _
      by_cases same : other = id
      · simp [same]
      · simp [Function.update_of_ne same]
    · intro other _
      by_cases same : other = id
      · simp [same]
      · simp [same]
    · intro other _
      by_cases same : other = id
      · simp [same, live]
      · simp [same]
  · rename_i gone
    refine ⟨Nat.le_refl _,fun _ _ => ⟨rfl,rfl,rfl,rfl⟩,fun other _ => ?_,fun other _ => ?_,fun _ member => member⟩
    · rw [named]
      exact ⟨fun live => ⟨live,fun same => gone (same ▸ live)⟩,And.left⟩
    · rw [named]
      exact ⟨.inl,fun either => either.resolve_right (fun here => gone (here.2 ▸ here.1))⟩

theorem touchedNothing (q : TimerQueue) {deeds : List Deed} (none_ : ∀ id, .cancel id ∉ deeds) : Touched deeds q q :=
  ⟨Nat.le_refl _,fun _ _ => ⟨rfl,rfl,rfl,rfl⟩,fun id _ => (and_iff_left (none_ id)).symm,
    fun id _ => (or_iff_left (fun here => none_ id here.2)).symm,fun _ member => member⟩

theorem performTouches (s : Batch) (deed : Deed) : Touched [deed] s.queue (perform s deed).queue := by
  cases deed with
  | runAt when_ callback => exact touchedAdd s.queue _ (fun id same => nomatch same)
  | runEvery interval callback => exact touchedAdd s.queue _ (fun id same => nomatch same)
  | cancel id => exact touchedCancel s.queue id
  | passes nanos => exact touchedNothing s.queue (fun id here => by simp at here)

theorem touchedTrans {q q' q'' : TimerQueue} {first rest : List Deed} (h : Touched first q q')
    (h' : Touched rest q' q'') : Touched (first ++ rest) q q'' := by
  have below : ∀ {id}, id < q.nextTimerId → id < q'.nextTimerId := fun less => Nat.lt_of_lt_of_le less h.next
  refine ⟨Nat.le_trans h.next h'.next,?_,?_,?_,fun id member => h'.heap id (h.heap id member)⟩
  · intro id less
    obtain ⟨repeats,interval,callback,expire⟩ := h.kind id less
    obtain ⟨repeats',interval',callback',expire'⟩ := h'.kind id (below less)
    exact ⟨repeats'.trans repeats,interval'.trans interval,callback'.trans callback,expire'.trans expire⟩
  · intro id less
    rw [h'.timers id (below less), h.timers id less, List.mem_append, not_or, and_assoc]
  · intro id less
    rw [h'.cancelled id (below less), h.cancelled id less, h.timers id less, List.mem_append]
    by_cases here : Deed.cancel id ∈ first <;> simp [here]

theorem deedsTouch (deeds : List Deed) (s : Batch) : Touched deeds s.queue (deeds.foldl perform s).queue := by
  induction deeds generalizing s with
  | nil => exact touchedNothing s.queue (fun id => List.not_mem_nil)
  | cons deed rest ih => exact touchedTrans (performTouches s deed) (ih (perform s deed))

theorem performFired (deeds : List Deed) (s : Batch) : (deeds.foldl perform s).fired = s.fired := by
  induction deeds generalizing s with
  | nil => rfl
  | cons deed rest ih =>
    rw [List.foldl_cons, ih]
    cases deed <;> rfl

/- The region behind a callback touches one task. -/
structure Finished (q : TimerQueue) (now : Nat) (id : TimerId) (q' : TimerQueue) : Prop where
  next : q'.nextTimerId = q.nextTimerId
  others : ∀ other, other ≠ id → q'.task other = q.task other ∧ q'.timers other = q.timers other
  kind : (q'.task id).repeats = (q.task id).repeats ∧ (q'.task id).interval = (q.task id).interval ∧
    (q'.task id).callback = (q.task id).callback
  heap : ∀ other ∈ q.delayedTasks, other ∈ q'.delayedTasks
  live : q'.timers id = true → q.timers id = true
  oneShot : (q.task id).repeats = false → q'.timers id = false
  rearmed : (q.task id).repeats = true → q'.timers id = true → (q.task id).cancelled = false →
    id ∈ q'.delayedTasks ∧ (q'.task id).expireTime = now + (q.task id).interval

theorem finishes (q : TimerQueue) (now : Nat) (id : TimerId) : Finished q now id (q.finish now id) := by
  unfold finish
  split
  · rename_i repeats
    have periodic : ∀ {q' : TimerQueue}, (q.task id).repeats = false → q'.timers id = false :=
      fun once => absurd (once.symm.trans repeats) Bool.false_ne_true
    split
    · refine ⟨rfl,fun other different => ⟨Function.update_of_ne different _ _,rfl⟩,?_,?_,?_,periodic,?_⟩
      · simp
      · exact fun other member => List.mem_append_left _ member
      · exact fun live => live
      · intro _ _ _
        exact ⟨List.mem_append_right _ (List.mem_singleton_self _),by simp⟩
    · rename_i dead
      refine ⟨rfl,fun _ _ => ⟨rfl,rfl⟩,⟨rfl,rfl,rfl⟩,fun _ member => member,fun live => live,periodic,
        fun _ live kept => ?_⟩
      exact absurd (by simp [live, kept]) dead
  · rename_i once
    refine ⟨rfl,fun other different => ⟨rfl,Function.update_of_ne different _ _⟩,⟨rfl,rfl,rfl⟩,fun _ member => member,?_,?_,?_⟩
    · intro live
      simp at live
    · exact fun _ => Function.update_self _ _ _
    · exact fun repeats => absurd repeats once

/- What a whole turn does; `new` is what it adds to the tasks fired. -/
structure Turned (script : Script) (s : Batch) (id : TimerId) (new : List (TimerId × Nat)) (t : Batch) : Prop where
  fired : t.fired = s.fired ++ new
  fires : s.queue.mayFire id = true ∧ new.map Prod.fst = [id] ∨ s.queue.mayFire id = false ∧ new = []
  next : s.queue.nextTimerId ≤ t.queue.nextTimerId
  kind : ∀ x < s.queue.nextTimerId, (t.queue.task x).repeats = (s.queue.task x).repeats ∧
    (t.queue.task x).interval = (s.queue.task x).interval ∧ (t.queue.task x).callback = (s.queue.task x).callback
  expire : ∀ x < s.queue.nextTimerId, x ≠ id → (t.queue.task x).expireTime = (s.queue.task x).expireTime
  timers : ∀ x < s.queue.nextTimerId, x ≠ id →
    (t.queue.timers x = true ↔ s.queue.timers x = true ∧ ¬ ∃ other ∈ new.map Prod.fst, .cancel x ∈ script.deeds other)
  cancelled : ∀ x < s.queue.nextTimerId, x ≠ id →
    ((t.queue.task x).cancelled = true ↔ (s.queue.task x).cancelled = true ∨
      s.queue.timers x = true ∧ ∃ other ∈ new.map Prod.fst, .cancel x ∈ script.deeds other)
  heap : ∀ x ∈ s.queue.delayedTasks, x ∈ t.queue.delayedTasks
  oneShot : (t.queue.task id).repeats = false → t.queue.timers id = false
  rearmed : ∀ returned, (id,returned) ∈ new → (t.queue.task id).repeats = true → t.queue.timers id = true →
    id < s.queue.nextTimerId → (s.queue.timers id = true ↔ (s.queue.task id).cancelled = false) →
    id ∈ t.queue.delayedTasks ∧ returned + (t.queue.task id).interval ≤ (t.queue.task id).expireTime

/- A turn out of its two halves. -/
theorem turnedFrom {script : Script} {s s' : Batch} {id : TimerId} {new : List (TimerId × Nat)} {deeds : List Deed}
    (fired : s'.fired = s.fired ++ new)
    (fires : s.queue.mayFire id = true ∧ new = [(id,s'.now)] ∨ s.queue.mayFire id = false ∧ new = [])
    (named : ∀ x, .cancel x ∈ deeds ↔ ∃ other ∈ new.map Prod.fst, .cancel x ∈ script.deeds other)
    (touched : Touched deeds s.queue s'.queue) {late : Nat} {q : TimerQueue}
    (finished : Finished s'.queue (s'.now + late) id q) :
    Turned script s id new { s' with now := s'.now + late, queue := q } := by
  have kind : ∀ x < s.queue.nextTimerId, (q.task x).repeats = (s.queue.task x).repeats ∧
      (q.task x).interval = (s.queue.task x).interval ∧ (q.task x).callback = (s.queue.task x).callback := by
    intro x below
    obtain ⟨repeats,interval,callback,_⟩ := touched.kind x below
    by_cases same : x = id
    · subst same
      obtain ⟨repeats',interval',callback'⟩ := finished.kind
      exact ⟨repeats'.trans repeats,interval'.trans interval,callback'.trans callback⟩
    · rw [(finished.others x same).1]
      exact ⟨repeats,interval,callback⟩
  refine ⟨fired,?_,finished.next ▸ touched.next,kind,?_,?_,?_,fun x member => finished.heap x (touched.heap x member),?_,?_⟩
  · rcases fires with ⟨may,here⟩ | skipped
    · exact .inl ⟨may,by rw [here]; rfl⟩
    · exact .inr skipped
  · intro x below different
    rw [(finished.others x different).1]
    exact (touched.kind x below).2.2.2
  · intro x below different
    rw [(finished.others x different).2, touched.timers x below, named]
  · intro x below different
    rw [(finished.others x different).1, touched.cancelled x below, named]
  · intro once
    exact finished.oneShot (finished.kind.1 ▸ once)
  · intro returned here repeats live below waiting
    rcases fires with ⟨_,made⟩ | ⟨_,none_⟩
    · rw [made, List.mem_singleton, Prod.mk.injEq] at here
      have kept : (s'.queue.task id).cancelled = false := by
        obtain ⟨before,none_⟩ := (touched.timers id below).mp (finished.live live)
        refine Bool.eq_false_iff.mpr (fun gone => ?_)
        rcases (touched.cancelled id below).mp gone with gone | gone
        · exact absurd gone (Bool.eq_false_iff.mp (waiting.mp before))
        · exact none_ gone.2
      obtain ⟨member,expire⟩ := finished.rearmed (finished.kind.1 ▸ repeats) live kept
      refine ⟨member,?_⟩
      simp only [expire, here.2, finished.kind.2.1]
      omega
    · rw [none_] at here
      cases here

theorem turnTurned (script : Script) (s : Batch) (id : TimerId) : ∃ new, Turned script s id new (turn script s id) := by
  have named : ∀ x, Deed.cancel x ∈ script.deeds id ↔
      ∃ other ∈ [(id,((script.deeds id).foldl perform s).now)].map Prod.fst, .cancel x ∈ script.deeds other := by
    simp
  unfold turn callback
  split
  · rename_i may
    have touched := deedsTouch (script.deeds id) s
    have fired := performFired (script.deeds id) s
    generalize (script.deeds id).foldl perform s = r at named touched fired ⊢
    exact ⟨[(id,r.now)],@turnedFrom script s ⟨r.queue,r.now,r.fired ++ [(id,r.now)]⟩ id _ _ (by rw [fired]) (.inl ⟨may,rfl⟩)
      named touched _ _ (finishes r.queue _ id)⟩
  · rename_i never
    refine ⟨[],?_⟩
    exact turnedFrom (List.append_nil _).symm (.inr ⟨Bool.eq_false_iff.mpr never,rfl⟩) (by simp)
      (touchedNothing s.queue (fun id => List.not_mem_nil)) (finishes _ _ id)

/- Between two turns: `done` have had theirs, `rest` wait for theirs. `q` are the timers as the
call found them. -/
structure Midway (script : Script) (q : TimerQueue) (done rest : List TimerId) (s : Batch) : Prop where
  next : q.nextTimerId ≤ s.queue.nextTimerId
  kind : ∀ x < q.nextTimerId, (s.queue.task x).repeats = (q.task x).repeats ∧
    (s.queue.task x).interval = (q.task x).interval ∧ (s.queue.task x).callback = (q.task x).callback
  waiting : ∀ x ∈ rest, s.queue.timers x = true ↔ (s.queue.task x).cancelled = false
  cancelled : ∀ x ∈ rest, (s.queue.task x).cancelled = true ↔ ∃ other ∈ s.ids, .cancel x ∈ script.deeds other
  order : s.ids.Sublist done
  exactly : ∀ x ∈ done, x ∈ s.ids ↔ ∀ other ∈ s.ids, [other,x].Sublist done → .cancel x ∉ script.deeds other
  oneShot : ∀ x ∈ s.ids, (q.task x).repeats = false → s.queue.timers x = false
  rearmed : ∀ x returned, (x,returned) ∈ s.fired → (q.task x).repeats = true → s.queue.timers x = true →
    x ∈ s.queue.delayedTasks ∧ returned + (q.task x).interval ≤ (s.queue.task x).expireTime

/- The last of a list comes behind all others. -/
theorem pairBeforeLast {l : List TimerId} {a x id : TimerId} :
    [a,x].Sublist (l ++ [id]) ↔ [a,x].Sublist l ∨ a ∈ l ∧ x = id := by
  constructor
  · intro sub
    obtain ⟨front,last,same,inside,end_⟩ := List.sublist_append_iff.mp sub
    match front, same with
    | [], same =>
      have long := end_.length_le
      rw [← List.nil_append last, ← same] at long
      simp at long
    | [b], same =>
      obtain ⟨rfl,rfl⟩ := List.cons.inj same
      exact .inr ⟨List.singleton_sublist.mp inside,List.mem_singleton.mp (List.singleton_sublist.mp end_)⟩
    | [b,c], same =>
      obtain ⟨rfl,rest⟩ := List.cons.inj same
      obtain ⟨rfl,_⟩ := List.cons.inj rest
      exact .inl inside
    | b :: c :: d :: front, same => simp at same
  · rintro (inside | ⟨inside,rfl⟩)
    · exact inside.trans (List.sublist_append_left l [id])
    · exact (List.singleton_sublist.mpr inside).append (List.Sublist.refl [x])

theorem orElse {p r : Prop} : p ∨ ¬p ∧ r ↔ p ∨ r := by
  by_cases p <;> simp [*]

/- Who has fired, after one more turn. -/
theorem firedMidway {script : Script} {q : TimerQueue} {done rest : List TimerId} {id : TimerId} {s : Batch}
    (h : Midway script q done (id :: rest) s) (fresh : id ∉ done) {ids : List TimerId}
    (turned : (s.queue.task id).cancelled = false ∧ ids = s.ids ++ [id] ∨
      (s.queue.task id).cancelled = true ∧ ids = s.ids) :
    ids.Sublist (done ++ [id]) ∧ ∀ x ∈ done ++ [id],
      x ∈ ids ↔ ∀ other ∈ ids, [other,x].Sublist (done ++ [id]) → .cancel x ∉ script.deeds other := by
  have named := h.cancelled id List.mem_cons_self
  have inside : ∀ other ∈ s.ids, other ∈ done := fun other here => h.order.subset here
  have behind : ∀ other, [other,id].Sublist (done ++ [id]) ↔ other ∈ done := by
    intro other
    rw [pairBeforeLast]
    exact ⟨fun either => (either.resolve_left (fun sub => fresh (sub.subset (by simp)))).1,fun member => .inr ⟨member,rfl⟩⟩
  have before : ∀ x ∈ done, ∀ other, [other,x].Sublist (done ++ [id]) ↔ [other,x].Sublist done := by
    intro x member other
    rw [pairBeforeLast, or_iff_left]
    rintro ⟨_,same⟩
    exact fresh (same ▸ member)
  rcases turned with ⟨kept,rfl⟩ | ⟨gone,rfl⟩
  · refine ⟨h.order.append (List.Sublist.refl [id]),fun x member => ?_⟩
    rcases List.mem_append.mp member with old | last
    · have different : x ∉ [id] := fun same => fresh (List.mem_singleton.mp same ▸ old)
      rw [List.mem_append, or_iff_left different, h.exactly x old]
      constructor
      · intro free other here sub
        rw [before x old] at sub
        rcases List.mem_append.mp here with here | here
        · exact free other here sub
        · exact absurd (sub.subset List.mem_cons_self) (List.mem_singleton.mp here ▸ fresh)
      · intro free other here sub
        exact free other (List.mem_append_left _ here) ((before x old other).mpr sub)
    · cases List.mem_singleton.mp last
      refine ⟨fun _ other here sub cancels => ?_,fun _ => List.mem_append_right _ last⟩
      rcases List.mem_append.mp here with here | here
      · have gone := named.mpr ⟨other,here,cancels⟩
        rw [kept] at gone
        cases gone
      · exact fresh (List.mem_singleton.mp here ▸ (behind other).mp sub)
  · refine ⟨h.order.trans (List.sublist_append_left done [id]),fun x member => ?_⟩
    rcases List.mem_append.mp member with old | last
    · rw [h.exactly x old]
      exact forall_congr' (fun other => imp_congr_right (fun _ => imp_congr_left (before x old other).symm))
    · cases List.mem_singleton.mp last
      refine ⟨fun here => absurd (inside id here) fresh,fun free => ?_⟩
      obtain ⟨other,here,cancels⟩ := named.mp gone
      exact absurd cancels (free other here ((behind other).mpr (inside other here)))

theorem turnMidway {script : Script} {q : TimerQueue} {done rest : List TimerId} {id : TimerId} {s t : Batch}
    {new : List (TimerId × Nat)} (h : Midway script q done (id :: rest) s)
    (apart : (done ++ id :: rest).Nodup) (old : ∀ x ∈ done ++ id :: rest, x < q.nextTimerId)
    (calls : (q.task id).callback = true) (turned : Turned script s id new t) :
    Midway script q (done ++ [id]) rest t := by
  have below : ∀ {x}, x ∈ done ++ id :: rest → x < s.queue.nextTimerId :=
    fun member => Nat.lt_of_lt_of_le (old _ member) h.next
  have here : id ∈ done ++ id :: rest := List.mem_append_right _ List.mem_cons_self
  have fresh : id ∉ done := fun member => (List.nodup_append.mp apart).2.2 id member id List.mem_cons_self rfl
  have later : ∀ {x}, x ∈ rest → x ≠ id ∧ x < s.queue.nextTimerId := by
    intro x member
    have sub := (List.nodup_append.mp apart).2.1
    refine ⟨fun same => (List.nodup_cons.mp sub).1 (same ▸ member),below ?_⟩
    exact List.mem_append_right _ (List.mem_cons_of_mem _ member)
  have ids : t.ids = s.ids ++ new.map Prod.fst := by rw [Batch.ids, turned.fired, List.map_append]; rfl
  have waits := h.waiting id List.mem_cons_self
  have called : (s.queue.task id).callback = true := (h.kind id (old id here)).2.2.trans calls
  have fired := @firedMidway script q done rest id s h fresh t.ids (by
    rcases turned.fires with ⟨may,made⟩ | ⟨never,none_⟩
    · simp only [mayFire, called, Bool.and_true, Bool.not_eq_true'] at may
      exact .inl ⟨may,made ▸ ids⟩
    · simp only [mayFire, called, Bool.and_true, Bool.not_eq_false'] at never
      exact .inr ⟨never,by rw [ids, none_, List.map_nil, List.append_nil]⟩)
  have newest : ∀ x returned, (x,returned) ∈ new → x = id := by
    intro x returned member
    have named : x ∈ new.map Prod.fst := List.mem_map.mpr ⟨_,member,rfl⟩
    rcases turned.fires with ⟨_,made⟩ | ⟨_,none_⟩
    · exact List.mem_singleton.mp (made ▸ named)
    · rw [none_] at member
      cases member
  -- A task fired in an earlier turn is another one, and was there before.
  have earlier : ∀ x ∈ s.ids, x ≠ id ∧ x < s.queue.nextTimerId := by
    intro x member
    have inside := h.order.subset member
    exact ⟨fun same => fresh (same ▸ inside),below (List.mem_append_left _ inside)⟩
  refine ⟨Nat.le_trans h.next turned.next,?_,?_,?_,fired.1,fired.2,?_,?_⟩
  · intro x less
    obtain ⟨repeats,interval,callback⟩ := h.kind x less
    obtain ⟨repeats',interval',callback'⟩ := turned.kind x (Nat.lt_of_lt_of_le less h.next)
    exact ⟨repeats'.trans repeats,interval'.trans interval,callback'.trans callback⟩
  · intro x member
    obtain ⟨different,less⟩ := later member
    rw [turned.timers x less different, ← Bool.not_eq_true, turned.cancelled x less different,
      h.waiting x (List.mem_cons_of_mem _ member), ← Bool.not_eq_true, orElse, not_or]
  · intro x member
    obtain ⟨different,less⟩ := later member
    rw [turned.cancelled x less different, h.waiting x (List.mem_cons_of_mem _ member), ← Bool.not_eq_true,
      orElse, h.cancelled x (List.mem_cons_of_mem _ member), ids]
    simp only [List.mem_append, or_and_right, exists_or]
  · intro x member once
    rw [ids, List.mem_append] at member
    rcases member with member | member
    · obtain ⟨different,less⟩ := earlier x member
      have gone := h.oneShot x member once
      refine Bool.eq_false_iff.mpr (fun live => ?_)
      have before := ((turned.timers x less different).mp live).1
      rw [gone] at before
      cases before
    · obtain ⟨⟨x',returned⟩,entry,rfl⟩ := List.mem_map.mp member
      cases newest x' returned entry
      refine turned.oneShot ?_
      rw [(turned.kind _ (below here)).1, (h.kind _ (old _ here)).1]
      exact once
  · intro x returned entry repeats live
    rw [turned.fired, List.mem_append] at entry
    rcases entry with entry | entry
    · obtain ⟨different,less⟩ := earlier x (List.mem_map.mpr ⟨_,entry,rfl⟩)
      obtain ⟨member,expire⟩ := h.rearmed x returned entry repeats ((turned.timers x less different).mp live).1
      exact ⟨turned.heap x member,by rw [turned.expire x less different]; exact expire⟩
    · cases newest x returned entry
      have kind := h.kind _ (old _ here)
      have kind' := turned.kind _ (below here)
      obtain ⟨member,expire⟩ := turned.rearmed returned entry (by rw [kind'.1, kind.1]; exact repeats) live (below here) waits
      rw [kind'.2.1, kind.2.1] at expire
      exact ⟨member,expire⟩

theorem turnsMidway {script : Script} {q : TimerQueue} {done rest : List TimerId} {s : Batch}
    (h : Midway script q done rest s) (apart : (done ++ rest).Nodup) (old : ∀ x ∈ done ++ rest, x < q.nextTimerId)
    (calls : ∀ x ∈ rest, (q.task x).callback = true) :
    Midway script q (done ++ rest) [] (rest.foldl (turn script) s) := by
  induction rest generalizing done s with
  | nil => rwa [List.append_nil]
  | cons id rest ih =>
    obtain ⟨new,turned⟩ := turnTurned script s id
    have next := turnMidway h apart old (calls id List.mem_cons_self) turned
    have same : done ++ id :: rest = done ++ [id] ++ rest := by simp
    rw [same] at apart old ⊢
    exact ih next apart old (fun x member => calls x (List.mem_cons_of_mem _ member))

/- What one call is to do with the timers `q` that it finds at time `now`. -/
structure RunsDue (script : Script) (now : Nat) (q : TimerQueue) (ready : List TimerId) (s : Batch) : Prop where
  once : s.ids.Nodup
  sorted : s.ids.Pairwise (fun a b => (q.task a).expireTime ≤ (q.task b).expireTime)
  due : ∀ id, id ∈ ready ↔ q.isDead id = false ∧ (q.task id).expireTime ≤ now
  exactly : ∀ id, id ∈ s.ids ↔ q.isDead id = false ∧ (q.task id).expireTime ≤ now ∧
    ∀ other ∈ s.ids, [other,id].Sublist ready → .cancel id ∉ script.deeds other
  old : ∀ id ∈ s.ids, id < q.nextTimerId
  oneShot : ∀ id ∈ s.ids, (q.task id).repeats = false → s.queue.timers id = false
  rearmed : ∀ id returned, (id,returned) ∈ s.fired → (q.task id).repeats = true → s.queue.timers id = true →
    id ∈ s.queue.delayedTasks ∧ returned + (q.task id).interval ≤ (s.queue.task id).expireTime

/- One call runs the due live tasks, each once and by their expire times, but for those that
a callback before them cancels. What a callback schedules or the call re-arms is not run. -/
theorem batchExact {script : Script} {now : Nat} {q : TimerQueue} {ready : List TimerId} {s : Batch} (h : q.Booked)
    (handedOut : ∀ id, q.timers id = true → id < q.nextTimerId)
    (calls : ∀ id, q.isDead id = false → (q.task id).callback = true) (processed : Processes script now q ready s) :
    RunsDue script now q ready s := by
  obtain ⟨q',collects,made⟩ := processed
  obtain ⟨pops,all,once,sorted⟩ := collectsCollected (fun id alive => Nat.le_of_eq (h.one id alive)) collects
  have due : ∀ id, id ∈ ready ↔ q.isDead id = false ∧ (q.task id).expireTime ≤ now := by
    intro id
    rw [all id]
    refine and_congr_right (fun alive => and_iff_left ?_)
    exact List.count_pos_iff.mp (by rw [h.one id alive]; exact Nat.one_pos)
  have alive : ∀ id ∈ ready, (q.task id).cancelled = false ∧ q.timers id = true := by
    intro id member
    have alive := ((due id).mp member).1
    simpa [isDead] using alive
  have old : ∀ id ∈ ready, id < q.nextTimerId := fun id member => handedOut id (alive id member).2
  have start : Midway script q [] ready ⟨q',now,[]⟩ := by
    refine ⟨Nat.le_of_eq pops.next.symm,?_,?_,?_,List.Sublist.refl [],fun x member => List.not_mem_nil.elim member,
      fun x member => List.not_mem_nil.elim member,fun x returned member => List.not_mem_nil.elim member⟩
    · intro x _
      rw [pops.task]
      exact ⟨rfl,rfl,rfl⟩
    · intro x member
      obtain ⟨kept,live⟩ := alive x member
      rw [pops.task, pops.timers]
      exact ⟨fun _ => kept,fun _ => live⟩
    · intro x member
      rw [pops.task, (alive x member).1]
      simp [Batch.ids]
  have run := turnsMidway start once old (fun id member => calls id ((due id).mp member).1)
  rw [← made, List.nil_append] at run
  refine ⟨once.sublist run.order,sorted.sublist run.order,due,fun id => ?_,fun id member => old id (run.order.subset member),
    run.oneShot,run.rearmed⟩
  rw [← and_assoc, ← due id]
  exact ⟨fun member => ⟨run.order.subset member,(run.exactly id (run.order.subset member)).mp member⟩,
    fun both => (run.exactly id both.1).mpr both.2⟩

/- Two one-shot tasks and a periodic one, all due. The first cancels the second and schedules
one that is due already. -/
def threeDue : TimerQueue := ((empty.runAt 5 true).runAt 6 true).runEvery 0 1 true

def cancelsSecond : Script :=
  ⟨fun id => if id = 1 then [.cancel 2,.passes 10,.runAt 0 true] else [.passes 100],fun _ => 7⟩

theorem threeDueBatch : RunsDue cancelsSecond 2000000 threeDue [1,2,3] (processDelayedTasks cancelsSecond 2000000 threeDue) ∧
    (processDelayedTasks cancelsSecond 2000000 threeDue).fired = [(1,2000010),(3,2000124)] := by
  have kept : threeDue.Kept [] := keptAdd (keptAdd (keptAdd keptEmpty rfl) rfl) rfl
  have ready : (threeDue.collect 2000000).1 = [1,2,3] := by decide
  have calls : ∀ id, threeDue.isDead id = false → (threeDue.task id).callback = true := by
    intro id alive
    match id with
    | 0 => exact absurd alive (by decide)
    | 1 | 2 | 3 => rfl
    | id + 4 => exact absurd alive (by simp [threeDue, runAt, runEvery, add, empty, isDead, Function.update])
  have processed := processes cancelsSecond 2000000 threeDue
  rw [ready] at processed
  exact ⟨batchExact (keptBooked kept) (fun id live => keptBelow kept live) calls processed,by decide⟩

end TcFrame.TimerQueue
