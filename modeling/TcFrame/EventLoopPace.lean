import TcFrame.EventLoopCancel
import TcFrame.TimerQueueBatch

/-! The pace of the timers. The loop reads the clock once for a batch of due tasks and once
more behind each periodic one, for its next expire time. What is promised follows from these
readings alone: a turn begins with the reading of its batch, no later than the call. -/
namespace TcFrame.Loop
open Machine

structure Turn where
  begun : Nat
  ended : Option Nat
  deriving DecidableEq, Repr

/- `clock` is the last reading of the loop's own thread and `collected` the one of the batch.
For each timer: the turns of its callback, newest first, and what RunAt or RunEvery asked. -/
structure Pace where
  clock : Nat
  collected : Nat
  turns : TimerId → List Turn
  armed : TimerId → Nat
  every : TimerId → Nat

def unpaced : Pace := ⟨0,0,fun _ => [],fun _ => 0,fun _ => 0⟩

def Pace.asked (k : Pace) (id : TimerId) (armed every : Nat) : Pace :=
  { k with armed := Function.update k.armed id armed, every := Function.update k.every id every }

def Pace.begins (k : Pace) (id : TimerId) : Pace :=
  { k with turns := Function.update k.turns id (⟨k.collected,none⟩ :: k.turns id) }

def endTurn (now : Nat) : List Turn → List Turn
  | [] => []
  | turn :: older => { turn with ended := some now } :: older

def Pace.ends (k : Pace) (id : TimerId) (now : Nat) : Pace :=
  { k with turns := Function.update k.turns id (endTurn now (k.turns id)) }

theorem askedOther (k : Pace) {id new : TimerId} (other : id ≠ new) (armed every : Nat) :
    (k.asked new armed every).armed id = k.armed id ∧ (k.asked new armed every).every id = k.every id :=
  ⟨Function.update_of_ne other _ _,Function.update_of_ne other _ _⟩

theorem beginsOther (k : Pace) {id other : TimerId} (apart : other ≠ id) : (k.begins id).turns other = k.turns other :=
  Function.update_of_ne apart _ _

theorem endsOther (k : Pace) {id other : TimerId} (apart : other ≠ id) (now : Nat) :
    (k.ends id now).turns other = k.turns other :=
  Function.update_of_ne apart _ _

theorem beginsTurns (k : Pace) (id : TimerId) : (k.begins id).turns id = ⟨k.collected,none⟩ :: k.turns id :=
  Function.update_self _ _ _

theorem endsTurns (k : Pace) (id : TimerId) (now : Nat) : (k.ends id now).turns id = endTurn now (k.turns id) :=
  Function.update_self _ _ _

def periodNanos (interval : Int) : Nat := (if interval ≤ 0 then 1 else interval.toNat) * TimerQueue.nanosPerMilli

def pace (w : World) (a : Action) (_ : World) (k : Pace) : Pace :=
  match a with
  | .loop (.timeout now) => { k with clock := now }
  | .loop (.collect now) => { k with clock := now, collected := now }
  | .loop .fire => ((invokes w a).map k.begins).getD k
  | .loop (.finish now) =>
    match w.phase with
    | .fired true id _ => { k.ends id now with clock := now }
    | _ => { k with clock := now }
  | .runAt _ when_ _ => k.asked w.loop.timers.nextTimerId when_ 0
  | .runEvery _ now interval _ =>
    k.asked w.loop.timers.nextTimerId (now + periodNanos interval) (periodNanos interval)
  | _ => k

/- The steady clock, as one thread reads it. -/
def Forward (x : World × Pace) : Action → Prop
  | .loop (.timeout now) | .loop (.collect now) | .loop (.finish now) => x.2.clock ≤ now
  | _ => True

instance (x : World × Pace) (a : Action) : Decidable (Forward x a) := by
  unfold Forward
  split <;> infer_instance

/- The later turn begins when the earlier one is over and `d` more has passed. -/
def Apart (d : Nat) (later earlier : Turn) : Prop := ∃ e, earlier.ended = some e ∧ e + d ≤ later.begun

/- When a waiting timer is due: when it was asked for, and from then on its interval behind
the end of its last turn. -/
inductive Due (k : Pace) (id : TimerId) : Nat → Prop where
  | first (none_ : k.turns id = []) : Due k id (k.armed id)
  | again {turn older e} (last : k.turns id = turn :: older) (ended : turn.ended = some e) : Due k id (e + k.every id)

/- Collected, and its turn still to come. -/
def unfired : Phase → List TimerId
  | .ready rest => rest
  | .fired _ _ rest => rest
  | _ => []

/- Instants `d` apart, the latest first. -/
theorem spacedBelow {d t x : Nat} {l : List Nat} (spaced : (x :: l).Pairwise (fun later earlier => earlier + d ≤ later))
    (from_ : ∀ y ∈ x :: l, t ≤ y) : t + l.length * d ≤ x := by
  induction l generalizing x with
  | nil =>
    rw [List.length_nil, Nat.zero_mul, Nat.add_zero]
    exact from_ x List.mem_cons_self
  | cons y l ih =>
    obtain ⟨before,rest⟩ := List.pairwise_cons.mp spaced
    have here := ih rest (fun z member => from_ z (List.mem_cons_of_mem _ member))
    have gap := before y List.mem_cons_self
    rw [List.length_cons, Nat.succ_mul]
    omega

theorem countSpaced {d : Nat} {l : List Nat} (spaced : l.Pairwise (fun later earlier => earlier + d ≤ later))
    (t n : Nat) : l.countP (fun x => t ≤ x ∧ x < t + n * d) ≤ n := by
  rw [List.countP_eq_length_filter]
  have within : ∀ x ∈ l.filter (fun x => t ≤ x ∧ x < t + n * d), t ≤ x ∧ x < t + n * d := by
    intro x member
    exact of_decide_eq_true (List.mem_filter.mp member).2
  have apart := spaced.sublist (List.filter_sublist (p := fun x => t ≤ x ∧ x < t + n * d))
  cases seen : l.filter (fun x => t ≤ x ∧ x < t + n * d) with
  | nil => exact Nat.zero_le n
  | cons x rest =>
    rw [seen] at within apart
    have below := spacedBelow apart (fun y member => (within y member).1)
    have inside := (within x List.mem_cons_self).2
    have fewer : rest.length * d < n * d := by omega
    exact Nat.lt_of_mul_lt_mul_right fewer

/- What is promised of one timer's turns. -/
structure Steady (k : Pace) (id : TimerId) : Prop where
  apart : (k.turns id).Pairwise (Apart (k.every id))
  armed : ∀ turn ∈ k.turns id, k.armed id ≤ turn.begun
  forward : ∀ turn ∈ k.turns id, ∀ e, turn.ended = some e → turn.begun ≤ e

/- The next turn of a timer that is due. -/
theorem steadyBegins {k : Pace} {id : TimerId} {t : Nat} (h : Steady k id) (waits : Due k id t)
    (due : t ≤ k.collected) : Steady (k.begins id) id := by
  obtain ⟨apart,armed,forward⟩ := h
  have now : (∀ turn ∈ k.turns id, Apart (k.every id) ⟨k.collected,none⟩ turn) ∧ k.armed id ≤ k.collected := by
    cases waits with
    | first none_ =>
      refine ⟨fun turn member => ?_,due⟩
      rw [none_] at member
      cases member
    | @again last older e known ended =>
      rw [known] at apart armed forward ⊢
      have past := forward last List.mem_cons_self e ended
      refine ⟨fun turn member => ?_,?_⟩
      · rcases List.mem_cons.mp member with same | member
        · rw [same]
          exact ⟨e,ended,due⟩
        · obtain ⟨e',ended',gap⟩ := (List.pairwise_cons.mp apart).1 turn member
          exact ⟨e',ended',by dsimp only; omega⟩
      · have first := armed last List.mem_cons_self
        omega
  refine ⟨?_,?_,?_⟩
  · rw [beginsTurns]
    exact List.pairwise_cons.mpr ⟨now.1,apart⟩
  · rw [beginsTurns]
    exact List.forall_mem_cons.mpr ⟨now.2,armed⟩
  · rw [beginsTurns]
    refine List.forall_mem_cons.mpr ⟨fun e ended => ?_,forward⟩
    cases ended

theorem steadyEnds {k : Pace} {id : TimerId} {now : Nat} {turn : Turn} {older : List Turn} (h : Steady k id)
    (last : k.turns id = turn :: older) (later : turn.begun ≤ now) : Steady (k.ends id now) id := by
  obtain ⟨apart,armed,forward⟩ := h
  rw [last] at apart armed forward
  obtain ⟨gaps,rest⟩ := List.pairwise_cons.mp apart
  refine ⟨?_,?_,?_⟩
  · rw [endsTurns, last]
    exact List.pairwise_cons.mpr ⟨gaps,rest⟩
  · rw [endsTurns, last]
    exact List.forall_mem_cons.mpr ⟨armed turn List.mem_cons_self,(List.forall_mem_cons.mp armed).2⟩
  · rw [endsTurns, last]
    refine List.forall_mem_cons.mpr ⟨fun e ended => ?_,(List.forall_mem_cons.mp forward).2⟩
    cases Option.some.inj ended
    exact later

/- What both look at is the timer's own. -/
theorem dueCongr {k k' : Pace} {id : TimerId} {t : Nat} (h : Due k id t) (turns : k'.turns id = k.turns id)
    (armed : k'.armed id = k.armed id) (every : k'.every id = k.every id) : Due k' id t := by
  cases h with
  | first none_ =>
    rw [← armed]
    exact .first (turns.trans none_)
  | again last ended =>
    rw [← every]
    exact .again (turns.trans last) ended

theorem steadyCongr {k k' : Pace} {id : TimerId} (h : Steady k id) (turns : k'.turns id = k.turns id)
    (armed : k'.armed id = k.armed id) (every : k'.every id = k.every id) : Steady k' id := by
  obtain ⟨apart,first,forward⟩ := h
  refine ⟨?_,?_,?_⟩
  · rwa [turns, every]
  · rwa [turns, armed]
  · rwa [turns]

/- `waits` are the tasks in the heap and those of the batch whose turn is still to come; a
task without a callback comes and goes unseen. -/
structure Paced (q : TimerQueue) (p : Phase) (k : Pace) : Prop where
  read : k.collected ≤ k.clock
  fresh : ∀ id, q.nextTimerId ≤ id → k.turns id = []
  every : ∀ id < q.nextTimerId, (q.task id).interval = k.every id
  waits : ∀ id ∈ unfired p ++ q.delayedTasks, (q.task id).callback = true → Due k id (q.task id).expireTime
  due : ∀ id ∈ unfired p, (q.task id).expireTime ≤ k.collected
  running : ∀ id rest, p = .fired true id rest → ∃ older, k.turns id = ⟨k.collected,none⟩ :: older
  silent : ∀ id rest, p = .fired false id rest → (q.task id).callback = true → (q.task id).cancelled = true
  steady : ∀ id, Steady k id

theorem unfiredFlight {p : Phase} {id : TimerId} (member : id ∈ unfired p) : id ∈ flight p := by
  cases p with
  | ready rest => exact member
  | fired running other rest => exact List.mem_cons_of_mem _ member
  | _ => cases member

theorem calmUnfired {p : Phase} (calm : flight p = []) : unfired p = [] :=
  List.eq_nil_iff_forall_not_mem.mpr (fun id member => by
    have inside := unfiredFlight member
    rw [calm] at inside
    cases inside)

theorem calmFired {p : Phase} (calm : flight p = []) {running : Bool} {id : TimerId} {rest : List TimerId} :
    p ≠ .fired running id rest := by
  intro fired
  rw [fired] at calm
  cases calm

/- Nothing is in flight any more. -/
theorem pacedCalm {q : TimerQueue} {p p' : Phase} {k : Pace} (h : Paced q p k) (after : flight p' = []) : Paced q p' k := by
  refine ⟨h.read,h.fresh,h.every,?_,?_,?_,?_,h.steady⟩
  · intro id member
    rw [calmUnfired after] at member
    exact h.waits id (List.mem_append_right _ member)
  · intro id member
    rw [calmUnfired after] at member
    cases member
  · exact fun id rest fired => absurd fired (calmFired after)
  · exact fun id rest fired => absurd fired (calmFired after)

/- The loop reads the clock and records nothing else. -/
theorem pacedRead {q : TimerQueue} {p : Phase} {k : Pace} {now : Nat} (h : Paced q p k) (later : k.clock ≤ now) :
    Paced q p { k with clock := now } := by
  refine ⟨Nat.le_trans h.read later,h.fresh,h.every,?_,h.due,h.running,h.silent,?_⟩
  · exact fun id member calls => dueCongr (h.waits id member calls) rfl rfl rfl
  · exact fun id => steadyCongr (h.steady id) rfl rfl rfl

theorem pacedAdd {q : TimerQueue} {p : Phase} {k : Pace} {task : TimerTask} (kept : q.Kept (flight p)) (h : Paced q p k) :
    Paced (q.add task) p (k.asked q.nextTimerId task.expireTime task.interval) := by
  have older : ∀ {id}, id ∈ unfired p ++ q.delayedTasks → id ≠ q.nextTimerId := by
    intro id member
    refine Nat.ne_of_lt (kept.known id ?_)
    rcases List.mem_append.mp member with inside | inside
    · exact List.mem_append_left _ (unfiredFlight inside)
    · exact List.mem_append_right _ inside
  have flying : ∀ {running id rest}, p = .fired running id rest → id ≠ q.nextTimerId := by
    intro running id rest fired
    refine Nat.ne_of_lt (kept.known id (List.mem_append_left _ ?_))
    rw [fired]
    exact List.mem_cons_self
  have same : ∀ {id}, id ≠ q.nextTimerId → (q.add task).task id = q.task id := by
    intro id other
    simp only [TimerQueue.add, Function.update_of_ne other]
  have none_ : k.turns q.nextTimerId = [] := h.fresh _ (Nat.le_refl _)
  refine ⟨h.read,fun id above => h.fresh id (Nat.le_of_succ_le above),?_,?_,?_,h.running,?_,?_⟩
  · intro id below
    by_cases new : id = q.nextTimerId
    · simp only [new, TimerQueue.add, Pace.asked, Function.update_self]
    · rw [same new, (askedOther k new _ _).2]
      exact h.every id (Nat.lt_of_le_of_ne (Nat.le_of_lt_succ below) new)
  · intro id member calls
    rw [TimerQueue.add, ← List.append_assoc] at member
    rcases List.mem_append.mp member with old | new
    · have other := older old
      rw [same other] at calls ⊢
      exact dueCongr (h.waits id old calls) rfl (askedOther k other _ _).1 (askedOther k other _ _).2
    · rw [List.mem_singleton.mp new]
      have first : Due (k.asked q.nextTimerId task.expireTime task.interval) q.nextTimerId
          ((k.asked q.nextTimerId task.expireTime task.interval).armed q.nextTimerId) := .first none_
      simpa only [TimerQueue.add, Pace.asked, Function.update_self] using first
  · intro id member
    rw [same (older (List.mem_append_left _ member))]
    exact h.due id member
  · intro id rest fired
    rw [same (flying fired)]
    exact h.silent id rest fired
  · intro id
    by_cases new : id = q.nextTimerId
    · have empty_ : (k.asked q.nextTimerId task.expireTime task.interval).turns id = [] := by rw [new]; exact none_
      refine ⟨?_,?_,?_⟩ <;> rw [empty_]
      · exact .nil
      · exact fun turn member => absurd member List.not_mem_nil
      · exact fun turn member => absurd member List.not_mem_nil
    · exact steadyCongr (h.steady id) rfl (askedOther k new _ _).1 (askedOther k new _ _).2

/- Cancel raises a flag and touches no time. -/
theorem cancelTask (q : TimerQueue) (id other : TimerId) : ((q.cancel id).1.task other).interval = (q.task other).interval ∧
    ((q.cancel id).1.task other).expireTime = (q.task other).expireTime ∧
    ((q.cancel id).1.task other).callback = (q.task other).callback ∧
    ((q.task other).cancelled = true → ((q.cancel id).1.task other).cancelled = true) := by
  unfold TimerQueue.cancel
  split
  · by_cases same : other = id
    · simp [same]
    · simp [Function.update_of_ne same]
  · exact ⟨rfl,rfl,rfl,fun flag => flag⟩

theorem cancelPlaces (q : TimerQueue) (id : TimerId) : (q.cancel id).1.nextTimerId = q.nextTimerId ∧
    (q.cancel id).1.delayedTasks = q.delayedTasks := by
  unfold TimerQueue.cancel
  split <;> exact ⟨rfl,rfl⟩

theorem pacedCancel {q : TimerQueue} {p : Phase} {k : Pace} (h : Paced q p k) (id : TimerId) :
    Paced (q.cancel id).1 p k := by
  obtain ⟨next,entries⟩ := cancelPlaces q id
  refine ⟨h.read,?_,?_,?_,?_,h.running,?_,h.steady⟩
  · rw [next]
    exact h.fresh
  · intro other below
    rw [(cancelTask q id other).1]
    exact h.every other (next ▸ below)
  · intro other member calls
    rw [entries] at member
    rw [(cancelTask q id other).2.2.1] at calls
    rw [(cancelTask q id other).2.1]
    exact h.waits other member calls
  · intro other member
    rw [(cancelTask q id other).2.1]
    exact h.due other member
  · intro other rest fired calls
    rw [(cancelTask q id other).2.2.1] at calls
    exact (cancelTask q id other).2.2.2 (h.silent other rest fired calls)

theorem collectsFewer {now : Nat} {q q' : TimerQueue} {ready : List TimerId} (h : TimerQueue.Collects now q ready q') :
    q'.delayedTasks.Sublist q.delayedTasks := by
  induction h with
  | stop later => exact List.Sublist.refl _
  | skip least due dead rest ih => exact ih.trans List.erase_sublist
  | take least due alive rest ih => exact ih.trans List.erase_sublist

theorem answerDrops {q : TimerQueue} {now : Nat} {out : Nat × TimerQueue} (h : TimerQueue.Answer q now out) :
    TimerQueue.DropsDead q out.2 := by
  cases h with
  | never dropped empty_ => exact dropped
  | timer dropped front alive left => exact dropped

theorem timeoutDrops (q : TimerQueue) (now : Nat) : TimerQueue.DropsDead q (q.getPollTimeoutMs now).2 :=
  answerDrops (TimerQueue.loopAnswers now q.delayedTasks.length (Nat.le_refl _))

theorem pacedTimeout {q : TimerQueue} {p p' : Phase} {k : Pace} (h : Paced q p k) (after : flight p' = []) (now : Nat) :
    Paced (q.getPollTimeoutMs now).2 p' k := by
  obtain ⟨⟨next,task,_⟩,fewer,_⟩ := timeoutDrops q now
  have calm := pacedCalm h after
  refine ⟨h.read,?_,?_,?_,?_,calm.running,?_,h.steady⟩
  · rw [next]
    exact h.fresh
  · rw [next, task]
    exact h.every
  · rw [calmUnfired after, task]
    exact fun id member => h.waits id (List.mem_append_right _ (fewer.subset member))
  · rw [calmUnfired after]
    exact fun id member => nomatch member
  · rw [task]
    exact calm.silent

theorem pacedCollect {q : TimerQueue} {k : Pace} {now : Nat} (kept : q.Kept []) (h : Paced q .timers k) :
    Paced (q.collect now).2 (.ready (q.collect now).1) { k with clock := now, collected := now } := by
  obtain ⟨ready,made,collects⟩ := TimerQueue.collectLoopCollects now q.delayedTasks.length (Nat.le_refl _) []
  have same : (q.collect now).1 = ready := made
  have once : q.delayedTasks.Nodup := kept.nodup
  have collected := TimerQueue.collectsCollected (fun id _ => List.nodup_iff_count_le_one.mp once id) collects
  have fewer := collectsFewer collects
  obtain ⟨next,task,_⟩ := TimerQueue.collectPops q now
  rw [same]
  refine ⟨Nat.le_refl _,?_,?_,?_,?_,?_,?_,fun id => steadyCongr (h.steady id) rfl rfl rfl⟩
  · rw [next]
    exact h.fresh
  · rw [next, task]
    exact h.every
  · rw [task]
    intro id member calls
    refine dueCongr (h.waits id ?_ calls) rfl rfl rfl
    rcases List.mem_append.mp member with due | left
    · exact ((collected.due id).mp due).2.2
    · exact fewer.subset left
  · rw [task]
    exact fun id member => ((collected.due id).mp member).2.1
  · intro id rest fired
    cases fired
  · intro id rest fired
    cases fired

theorem pacedFire {q : TimerQueue} {k : Pace} {id : TimerId} {rest : List TimerId} (kept : q.Kept (id :: rest))
    (h : Paced q (.ready (id :: rest)) k) :
    Paced q (.fired (q.mayFire id) id rest) (if q.mayFire id then k.begins id else k) := by
  have alone := (List.nodup_cons.mp kept.nodup).1
  have others : ∀ other ∈ rest ++ q.delayedTasks, other ∈ unfired (.ready (id :: rest)) ++ q.delayedTasks :=
    fun other member => List.mem_cons_of_mem _ member
  split
  · rename_i may
    have calls : (q.task id).callback = true := (Bool.and_eq_true_iff.mp may).2
    have begins := steadyBegins (h.steady id) (h.waits id List.mem_cons_self calls) (h.due id List.mem_cons_self)
    refine ⟨h.read,?_,h.every,?_,fun other member => h.due other (List.mem_cons_of_mem _ member),?_,?_,?_⟩
    · intro other above
      have apart : other ≠ id := fun same =>
        Nat.not_lt.mpr above (same ▸ kept.known id List.mem_cons_self)
      rw [beginsOther k apart]
      exact h.fresh other above
    · intro other member calls'
      have apart : other ≠ id := fun same => alone (same ▸ member)
      exact dueCongr (h.waits other (others other member) calls') (beginsOther k apart) rfl rfl
    · intro other rest' fired
      rw [← (Phase.fired.inj fired).2.1]
      exact ⟨k.turns id,beginsTurns k id⟩
    · intro other rest' fired
      have silent := (Phase.fired.inj fired).1
      rw [may] at silent
      cases silent
    · intro other
      by_cases same : other = id
      · rw [same]
        exact begins
      · exact steadyCongr (h.steady other) (beginsOther k same) rfl rfl
  · rename_i never
    refine ⟨h.read,h.fresh,h.every,fun other member => h.waits other (others other member),
      fun other member => h.due other (List.mem_cons_of_mem _ member),?_,?_,h.steady⟩
    · intro other rest' fired
      exact absurd (Phase.fired.inj fired).1 never
    · intro other rest' fired calls
      rw [← (Phase.fired.inj fired).2.1] at calls ⊢
      simpa [TimerQueue.mayFire, calls] using never

/- Whom the end of a turn puts into the heap. -/
theorem finishEntries {q : TimerQueue} {now : Nat} {id other : TimerId} (member : other ∈ (q.finish now id).delayedTasks) :
    other ∈ q.delayedTasks ∨ other = id ∧ (q.task id).cancelled = false ∧
      ((q.finish now id).task id).expireTime = now + (q.task id).interval := by
  unfold TimerQueue.finish at member ⊢
  split at member
  · rename_i repeats
    split at member
    · rename_i again
      rcases List.mem_append.mp member with before | new
      · exact .inl before
      · refine .inr ⟨List.mem_singleton.mp new,by simpa using (Bool.and_eq_true_iff.mp again).2,?_⟩
        rw [if_pos repeats, if_pos again]
        simp only [Function.update_self]
    · exact .inl member
  · exact .inl member

/- The turn that ends when the phase is left. -/
def Pace.finishes (k : Pace) (running : Bool) (id : TimerId) (now : Nat) : Pace :=
  if running then k.ends id now else k

theorem finishesSame (k : Pace) (running : Bool) (id : TimerId) (now : Nat) :
    (k.finishes running id now).armed = k.armed ∧ (k.finishes running id now).every = k.every ∧
      (k.finishes running id now).collected = k.collected ∧ (k.finishes running id now).clock = k.clock ∧
      ∀ other, other ≠ id → (k.finishes running id now).turns other = k.turns other := by
  unfold Pace.finishes
  split
  · exact ⟨rfl,rfl,rfl,rfl,fun other apart => endsOther k apart now⟩
  · exact ⟨rfl,rfl,rfl,rfl,fun _ _ => rfl⟩

theorem pacedFinish {q : TimerQueue} {k : Pace} {running : Bool} {id : TimerId} {rest : List TimerId} {now : Nat}
    (kept : q.Kept (id :: rest)) (h : Paced q (.fired running id rest) k) (later : k.clock ≤ now) :
    Paced (q.finish now id) (.ready rest) { k.finishes running id now with clock := now } := by
  obtain ⟨next,untouched,kind,_⟩ := TimerQueue.finishes q now id
  obtain ⟨armed,every,collected,clock,turns⟩ := finishesSame k running id now
  have alone := (List.nodup_cons.mp kept.nodup).1
  have below : id < q.nextTimerId := kept.known id List.mem_cons_self
  refine ⟨?_,?_,?_,?_,?_,?_,?_,?_⟩
  · simp only [collected]
    exact Nat.le_trans h.read later
  · rw [next]
    intro other above
    have apart : other ≠ id := fun same => Nat.not_lt.mpr above (same ▸ below)
    simp only [turns other apart]
    exact h.fresh other above
  · rw [next]
    intro other known
    simp only [every, ← h.every other known]
    by_cases same : other = id
    · rw [same]
      exact kind.2.1
    · rw [(untouched other same).1]
  · intro other member calls
    have places : other ∈ rest ++ q.delayedTasks ∨ other = id ∧ (q.task id).cancelled = false ∧
        ((q.finish now id).task id).expireTime = now + (q.task id).interval := by
      rcases List.mem_append.mp member with waits | entry
      · exact .inl (List.mem_append_left _ waits)
      · rcases finishEntries entry with before | again
        · exact .inl (List.mem_append_right _ before)
        · exact .inr again
    rcases places with before | ⟨same,uncancelled,expires⟩
    · have apart : other ≠ id := fun same => alone (same ▸ before)
      rw [(untouched other apart).1] at calls ⊢
      exact dueCongr (h.waits other before calls) (turns other apart) (congrFun armed other) (congrFun every other)
    · rw [same] at calls ⊢
      rw [kind.2.2] at calls
      cases running with
      | false =>
        have cancelled := h.silent id rest rfl calls
        rw [cancelled] at uncancelled
        cases uncancelled
      | true =>
        obtain ⟨older,open_⟩ := h.running id rest rfl
        rw [expires, h.every id below]
        have closed : (k.ends id now).turns id = ⟨k.collected,some now⟩ :: older := by
          rw [endsTurns, open_]
          rfl
        exact .again closed rfl
  · intro other member
    have apart : other ≠ id := fun same => alone (same ▸ List.mem_append_left _ member)
    rw [(untouched other apart).1]
    simp only [collected]
    exact h.due other member
  · intro other rest' fired
    cases fired
  · intro other rest' fired
    cases fired
  · intro other
    have ended : Steady (k.finishes running id now) other := by
      by_cases same : other = id
      · rw [same]
        cases running with
        | false => exact h.steady id
        | true =>
          obtain ⟨older,open_⟩ := h.running id rest rfl
          exact steadyEnds (h.steady id) open_ (Nat.le_trans h.read later)
      · exact steadyCongr (h.steady other) (turns other same) (congrFun armed other) (congrFun every other)
    exact steadyCongr ended rfl rfl rfl

theorem pacedLoop {w w' : World} {s : LoopStep} {k : Pace} (kept : TimersKept w) (h : Paced w.loop.timers w.phase k)
    (forward : Forward (w,k) (.loop s)) (moved : LoopTaken w s w') :
    Paced w'.loop.timers w'.phase (pace w (.loop s) w' k) := by
  unfold TimersKept at kept
  cases moved with
  | timeout phase => exact pacedRead (pacedTimeout h rfl _) forward
  | collect phase =>
    rw [phase] at kept h
    exact pacedCollect kept h
  | @fire id rest phase =>
    rw [phase] at kept h
    have fires := pacedFire kept h
    simp only [pace, invokes, phase]
    split at fires
    · rename_i may
      rw [if_pos may]
      exact fires
    · rename_i never
      rw [if_neg never]
      exact fires
  | @finish now running id rest phase =>
    rw [phase] at kept h
    have finishes := pacedFinish kept h forward
    simp only [pace, phase]
    cases running <;> exact finishes
  | start phase | enter phase | leave phase | begin_ phase | pollReturns phase | drain phase | handle phase
  | handled phase | calling phase | swap phase | call phase | called phase | calledAll phase | again phase =>
    exact pacedCalm h rfl

theorem pacedStep {w w' : World} {a : Action} {k : Pace} (kept : TimersKept w) (h : Paced w.loop.timers w.phase k)
    (forward : Forward (w,k) a) (taken : step w a = some w') : Paced w'.loop.timers w'.phase (pace w a w' k) := by
  cases takenCases taken with
  | loop quiet moved => exact pacedLoop kept h forward moved
  | callLoop own quiet phase => exact pacedCalm h rfl
  | queueInLoop may => exact h
  | quit may => exact h
  | runAt may => exact pacedAdd kept h
  | runEvery may => exact pacedAdd kept h
  | cancel may => exact pacedCancel h _
  | queued held | added held =>
    have same := wakeForWorkTimers w.loop
    simp only [calling, same]
    exact h
  | cancelled held | quitted held =>
    have same := wakeFromOutsideTimers w.loop
    simp only [calling, same]
    exact h

theorem pacedInitial {w : World} (start : Initial w) : Paced w.loop.timers w.phase unpaced := by
  have none_ : ∀ p, flight p = [] → Paced TimerQueue.empty p unpaced := by
    intro p calm
    have idle : Paced TimerQueue.empty .idle unpaced := by
      refine ⟨Nat.le_refl _,fun _ _ => rfl,fun _ _ => rfl,?_,?_,?_,?_,fun _ => ⟨.nil,?_,?_⟩⟩
      · exact fun id member => nomatch member
      · exact fun id member => nomatch member
      · exact fun id rest fired => nomatch fired
      · exact fun id rest fired => nomatch fired
      · exact fun turn member => nomatch member
      · exact fun turn member => nomatch member
    exact pacedCalm idle calm
  cases start with
  | autoStart other => exact none_ .spawned rfl
  | manual => exact none_ .idle rfl

theorem pacedReached {s w : World} {as : List Action} {k : Pace} (start : Initial s)
    (forward : Throughout (recording step pace) Forward (s,unpaced) as)
    (reached : run (recording step pace) (s,unpaced) as = some (w,k)) : Paced w.loop.timers w.phase k := by
  have keep : ∀ (x : World × Pace) a (y : World × Pace), (TimersKept x.1 ∧ Paced x.1.loop.timers x.1.phase x.2) →
      Forward x a → recording step pace x a = some y → TimersKept y.1 ∧ Paced y.1.loop.timers y.1.phase y.2 := by
    intro x a y h ahead recorded
    obtain ⟨taken,noted⟩ := recordingCases recorded
    rw [noted]
    exact ⟨timersKeptStep h.1 taken,pacedStep h.1 h.2 ahead taken⟩
  have first : TimersKept (s,unpaced).1 ∧ Paced (s,unpaced).1.loop.timers (s,unpaced).1.phase (s,unpaced).2 :=
    ⟨timersKeptInitial start,pacedInitial start⟩
  exact (invariantWhen keep first forward reached).2

/- A timer in the run of a loop whose thread reads a clock that does not go back. Its callback
never begins before the time asked for, nor before the interval has passed since the callback
last ended; so in `n` intervals at most `n` calls begin. In the heap it is due at that time. -/
theorem periodKept {s w : World} {as : List Action} {k : Pace} (start : Initial s)
    (forward : Throughout (recording step pace) Forward (s,unpaced) as)
    (reached : run (recording step pace) (s,unpaced) as = some (w,k)) (id : TimerId) :
    (k.turns id).Pairwise (Apart (k.every id)) ∧ (∀ turn ∈ k.turns id, k.armed id ≤ turn.begun) ∧
      (∀ t n, (k.turns id).countP (fun turn => t ≤ turn.begun ∧ turn.begun < t + n * k.every id) ≤ n) ∧
      (id ∈ w.loop.timers.delayedTasks → (w.loop.timers.task id).callback = true → Due k id (expires w id)) := by
  have h := pacedReached start forward reached
  obtain ⟨apart,armed,ordered⟩ := h.steady id
  refine ⟨apart,armed,fun t n => ?_,fun member => h.waits id (List.mem_append_right _ member)⟩
  have spaced : ((k.turns id).map Turn.begun).Pairwise (fun later earlier => earlier + k.every id ≤ later) := by
    refine List.pairwise_map.mpr (apart.imp_of_mem ?_)
    intro later earlier _ member gap
    obtain ⟨e,ended,behind⟩ := gap
    have past := ordered earlier member e ended
    omega
  have count := countSpaced spaced t n
  rw [List.countP_map] at count
  exact count

/- A periodic timer of five milliseconds. Its first call takes one; the second has begun. -/
def secondTurn : List Action :=
  [.runEvery 0 0 5 true,.returns 0,.callLoop,.loop .enter,.loop .test,.loop (.timeout 0),.loop (.pollReturns []),
    .loop .store,.loop .swap,.loop .store,.loop (.collect 5000000),.loop .fire,.loop (.finish 6000000),.loop .again,
    .loop .test,.loop (.timeout 6000000),.loop (.pollReturns []),.loop .store,.loop .swap,.loop .store,
    .loop (.collect 11000000),.loop .fire]

theorem periodKeptTwice : ∃ w k, run (recording step pace) (constructed 0 0 false,unpaced) secondTurn = some (w,k) ∧
    k.turns 1 = [⟨11000000,none⟩,⟨5000000,some 6000000⟩] ∧ (k.turns 1).Pairwise (Apart 5000000) := by
  have reached : ∃ w k, run (recording step pace) (constructed 0 0 false,unpaced) secondTurn = some (w,k) ∧
      k.turns 1 = [⟨11000000,none⟩,⟨5000000,some 6000000⟩] ∧ k.every 1 = 5000000 := ⟨_,_,rfl,rfl,rfl⟩
  obtain ⟨w,k,taken,told,asked⟩ := reached
  have forward : Throughout (recording step pace) Forward (constructed 0 0 false,unpaced) secondTurn := by decide
  exact ⟨w,k,taken,told,asked ▸ (periodKept .manual forward taken 1).1⟩

end TcFrame.Loop
