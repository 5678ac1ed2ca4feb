import TcFrame.TimerQueue

/-! What the regions under the loop's mutex keep of the timers. A task is in the heap, or
ProcessDelayedTasks has it out; m_timers holds those of them that have not been cancelled. -/
namespace TcFrame.TimerQueue

/- `out` are the tasks ProcessDelayedTasks has taken and not yet dealt with. -/
structure Kept (q : TimerQueue) (out : List TimerId) : Prop where
  nodup : (out ++ q.delayedTasks).Nodup
  known : ∀ id ∈ out ++ q.delayedTasks, id < q.nextTimerId
  held : ∀ id, q.timers id = true → id ∈ out ++ q.delayedTasks
  live : ∀ id, q.timers id = true → (q.task id).cancelled = false
  dead : ∀ id ∈ out ++ q.delayedTasks, q.timers id = false → (q.task id).cancelled = true

theorem keptEmpty : empty.Kept [] :=
  ⟨List.nodup_nil,fun id member => (by cases member),fun id live => (by cases live),fun id live => (by cases live),
    fun id member => by cases member⟩

/- Where the tasks are does not matter, as long as none is dropped or doubled. -/
theorem keptPerm {q q' : TimerQueue} {out out' : List TimerId} (h : q.Kept out)
    (moved : (out' ++ q'.delayedTasks).Perm (out ++ q.delayedTasks)) (next : q'.nextTimerId = q.nextTimerId)
    (task : q'.task = q.task) (timers : q'.timers = q.timers) : q'.Kept out' := by
  refine ⟨moved.nodup_iff.mpr h.nodup,?_,?_,?_,?_⟩
  · intro id member
    rw [next]
    exact h.known id (moved.mem_iff.mp member)
  · intro id live
    rw [timers] at live
    exact moved.mem_iff.mpr (h.held id live)
  · rw [timers, task]
    exact h.live
  · intro id member
    rw [timers, task]
    exact h.dead id (moved.mem_iff.mp member)

theorem keptBelow {q : TimerQueue} {out : List TimerId} (h : q.Kept out) {id : TimerId}
    (live : q.timers id = true) : id < q.nextTimerId :=
  h.known id (h.held id live)

/- For a task that is somewhere, the two tests of a dead entry are one. -/
theorem deadIff {q : TimerQueue} {out : List TimerId} (h : q.Kept out) {id : TimerId}
    (member : id ∈ out ++ q.delayedTasks) : q.isDead id = !q.timers id := by
  cases known : q.timers id with
  | true => simp [isDead, h.live id known, known]
  | false => simp [isDead, h.dead id member known]

theorem earliestMember (q : TimerQueue) (id : TimerId) (rest : List TimerId) :
    q.earliest id rest ∈ id :: rest := by
  induction rest generalizing id with
  | nil => exact List.mem_singleton_self id
  | cons other rest ih =>
    simp only [earliest]
    split
    · exact List.mem_cons_of_mem _ (ih other)
    · rcases List.mem_cons.mp (ih id) with same | later
      · rw [same]; exact List.mem_cons_self
      · exact List.mem_cons_of_mem _ (List.mem_cons_of_mem _ later)

theorem earliestLeast (q : TimerQueue) (id : TimerId) (rest : List TimerId) :
    ∀ other ∈ id :: rest, (q.task (q.earliest id rest)).expireTime ≤ (q.task other).expireTime := by
  induction rest generalizing id with
  | nil =>
    intro other member
    rw [List.mem_singleton.mp member]
    exact Nat.le_refl _
  | cons next rest ih =>
    intro other member
    simp only [earliest]
    split
    · rename_i earlier
      rcases List.mem_cons.mp member with same | member
      · rw [same]
        exact Nat.le_trans (ih next next List.mem_cons_self) (Nat.le_of_lt earlier)
      · exact ih next other member
    · rename_i later
      rcases List.mem_cons.mp member with same | member
      · rw [same]
        exact ih id id List.mem_cons_self
      · rcases List.mem_cons.mp member with same | member
        · rw [same]
          exact Nat.le_trans (ih id id List.mem_cons_self) (Nat.le_of_not_lt later)
        · exact ih id other (List.mem_cons_of_mem _ member)

theorem topNone {q : TimerQueue} (h : q.top = none) : q.delayedTasks = [] := by
  unfold top at h
  split at h
  · assumption
  · cases h

theorem topMember {q : TimerQueue} {id : TimerId} (h : q.top = some id) : id ∈ q.delayedTasks := by
  unfold top at h
  split at h
  · cases h
  · rename_i first rest entries
    rw [entries, ← Option.some.inj h]
    exact earliestMember q first rest

theorem topLeast {q : TimerQueue} {id : TimerId} (h : q.top = some id) :
    ∀ other ∈ q.delayedTasks, (q.task id).expireTime ≤ (q.task other).expireTime := by
  unfold top at h
  split at h
  · cases h
  · rename_i first rest entries
    rw [entries, ← Option.some.inj h]
    exact earliestLeast q first rest

/- An entry taken off the heap and put behind those that are out. -/
theorem keptTaken {q : TimerQueue} {out : List TimerId} {id : TimerId} (h : q.Kept out)
    (member : id ∈ q.delayedTasks) : (q.pop id).Kept (out ++ [id]) := by
  refine keptPerm h ?_ rfl rfl rfl
  rw [List.append_assoc]
  exact ((List.perm_cons_erase member).symm).append_left out

/- A dead entry leaves for good. -/
theorem keptDropped {q : TimerQueue} {out : List TimerId} {id : TimerId} (h : q.Kept out)
    (member : id ∈ q.delayedTasks) (dead : q.isDead id = true) : (q.pop id).Kept out := by
  have gone : q.timers id = false := by
    have := deadIff h (List.mem_append_right out member)
    rw [dead] at this
    simpa using this.symm
  have fewer : ∀ other, other ∈ out ++ (q.pop id).delayedTasks → other ∈ out ++ q.delayedTasks := by
    intro other inside
    rcases List.mem_append.mp inside with inside | inside
    · exact List.mem_append_left _ inside
    · exact List.mem_append_right _ (List.mem_of_mem_erase inside)
  refine ⟨?_,fun other inside => h.known other (fewer other inside),?_,h.live,
    fun other inside => h.dead other (fewer other inside)⟩
  · exact h.nodup.sublist (List.Sublist.append_left List.erase_sublist out)
  · intro other live
    have different : other ≠ id := by
      intro same
      rw [same] at live
      exact absurd live (by simp [pop, gone])
    rcases List.mem_append.mp (h.held other live) with inside | inside
    · exact List.mem_append_left _ inside
    · exact List.mem_append_right _ ((List.mem_erase_of_ne different).mpr inside)

theorem keptAdd {q : TimerQueue} {out : List TimerId} {task : TimerTask} (h : q.Kept out)
    (fresh : task.cancelled = false) : (q.add task).Kept out := by
  have older : ∀ {id}, id ∈ out ++ q.delayedTasks → id ≠ q.nextTimerId :=
    fun member => Nat.ne_of_lt (h.known _ member)
  have places : out ++ (q.add task).delayedTasks = out ++ q.delayedTasks ++ [q.nextTimerId] :=
    (List.append_assoc _ _ _).symm
  refine ⟨?_,?_,?_,?_,?_⟩
  · rw [places]
    refine List.nodup_append.mpr ⟨h.nodup,List.pairwise_singleton _ _,?_⟩
    intro id member other new
    rw [List.mem_singleton.mp new]
    exact older member
  · intro id member
    rw [places] at member
    rcases List.mem_append.mp member with old | new
    · exact Nat.lt_succ_of_lt (h.known id old)
    · rw [List.mem_singleton.mp new]
      exact Nat.lt_succ_self _
  · intro id live
    rw [places]
    by_cases new : id = q.nextTimerId
    · rw [new]
      exact List.mem_append_right _ (List.mem_singleton_self _)
    · exact List.mem_append_left _ (h.held id (by simpa [add, Function.update_of_ne new] using live))
  · intro id live
    by_cases new : id = q.nextTimerId
    · simpa [add, new] using fresh
    · simpa [add, Function.update_of_ne new] using h.live id (by simpa [add, Function.update_of_ne new] using live)
  · intro id member gone
    rw [places] at member
    rcases List.mem_append.mp member with old | new
    · have different := older old
      simpa [add, Function.update_of_ne different] using
        h.dead id old (by simpa [add, Function.update_of_ne different] using gone)
    · rw [List.mem_singleton.mp new] at gone
      simp [add] at gone

theorem keptCancel {q : TimerQueue} {out : List TimerId} (h : q.Kept out) (id : TimerId) :
    (q.cancel id).1.Kept out := by
  unfold cancel
  split
  · refine ⟨h.nodup,h.known,?_,?_,?_⟩
    · intro other live
      by_cases same : other = id
      · rw [same]
        exact h.held id (by assumption)
      · exact h.held other (by simpa [Function.update_of_ne same] using live)
    · intro other live
      by_cases same : other = id
      · simp [same] at live
      · simpa [Function.update_of_ne same] using h.live other (by simpa [Function.update_of_ne same] using live)
    · intro other member gone
      by_cases same : other = id
      · simp [same]
      · simpa [Function.update_of_ne same] using h.dead other member (by simpa [Function.update_of_ne same] using gone)
  · exact h

/- GetPollTimeoutMs drops dead entries and touches nothing else. -/
theorem pollLoopKept {now : Nat} (out : List TimerId) (fuel : Nat) {q : TimerQueue} (h : q.Kept out) :
    (pollTimeoutLoop now fuel q).2.Kept out := by
  induction fuel generalizing q with
  | zero => exact h
  | succ fuel ih =>
    simp only [pollTimeoutLoop]
    split
    · exact h
    · rename_i id front
      split
      · rename_i dead
        exact ih (keptDropped h (topMember front) dead)
      · split
        · exact h
        · split
          · exact h
          · split <;> exact h

theorem collectLoopKept {now : Nat} (fuel : Nat) {q : TimerQueue} {ready : List TimerId} (h : q.Kept ready) :
    (collectLoop now fuel q ready).2.Kept (collectLoop now fuel q ready).1 := by
  induction fuel generalizing q ready with
  | zero => exact h
  | succ fuel ih =>
    simp only [collectLoop]
    split
    · exact h
    · rename_i id front
      split
      · split
        · rename_i dead
          exact ih (keptDropped h (topMember front) dead)
        · exact ih (keptTaken h (topMember front))
      · exact h

/- A periodic task that is still a timer goes back to the heap with a new key. -/
theorem keptRearmed {q : TimerQueue} {id : TimerId} {rest : List TimerId} (h : q.Kept (id :: rest))
    (live : q.timers id = true) (expireTime : Nat) :
    Kept { q with
      task := Function.update q.task id { q.task id with expireTime := expireTime }
      delayedTasks := q.delayedTasks ++ [id] } rest := by
  obtain ⟨apart,others⟩ := List.nodup_cons.mp h.nodup
  have places : rest ++ (q.delayedTasks ++ [id]) = rest ++ q.delayedTasks ++ [id] := (List.append_assoc _ _ _).symm
  have flag : ∀ other, (Function.update q.task id { q.task id with expireTime := expireTime } other).cancelled =
      (q.task other).cancelled := by
    intro other
    by_cases same : other = id
    · simp [same]
    · simp [Function.update_of_ne same]
  refine ⟨?_,?_,?_,?_,?_⟩
  · rw [places]
    refine List.nodup_append.mpr ⟨others,List.pairwise_singleton _ _,?_⟩
    intro other member last final same
    rw [List.mem_singleton.mp final] at same
    exact apart (same ▸ member)
  · intro other member
    rw [places] at member
    rcases List.mem_append.mp member with old | new
    · exact h.known other (List.mem_cons_of_mem _ old)
    · rw [List.mem_singleton.mp new]
      exact h.known id List.mem_cons_self
  · intro other known
    rw [places]
    rcases List.mem_cons.mp (h.held other known) with same | member
    · rw [same]
      exact List.mem_append_right _ (List.mem_singleton_self _)
    · exact List.mem_append_left _ member
  · intro other known
    rw [flag]
    exact h.live other known
  · intro other member gone
    rw [places] at member
    rw [flag]
    rcases List.mem_append.mp member with old | new
    · exact h.dead other (List.mem_cons_of_mem _ old) gone
    · rw [List.mem_singleton.mp new, live] at gone
      cases gone

/- A task that is no timer any more is let go. -/
theorem keptLetGo {q : TimerQueue} {id : TimerId} {rest : List TimerId} (h : q.Kept (id :: rest))
    (gone : q.timers id = false) : q.Kept rest := by
  refine ⟨(List.nodup_cons.mp h.nodup).2,fun other member => h.known other (List.mem_cons_of_mem _ member),?_,h.live,
    fun other member => h.dead other (List.mem_cons_of_mem _ member)⟩
  intro other live
  refine (List.mem_cons.mp (h.held other live)).resolve_left ?_
  intro same
  rw [same, gone] at live
  cases live

/- The erase behind a one-shot task's callback. -/
theorem keptErased {q : TimerQueue} {id : TimerId} {rest : List TimerId} (h : q.Kept (id :: rest)) :
    Kept { q with timers := Function.update q.timers id false } rest := by
  obtain ⟨apart,others⟩ := List.nodup_cons.mp h.nodup
  have still : ∀ {other}, Function.update q.timers id false other = true → other ≠ id ∧ q.timers other = true := by
    intro other live
    by_cases same : other = id
    · simp [same] at live
    · exact ⟨same,by simpa [Function.update_of_ne same] using live⟩
  refine ⟨others,fun other member => h.known other (List.mem_cons_of_mem _ member),?_,?_,?_⟩
  · intro other live
    obtain ⟨different,before⟩ := still live
    exact (List.mem_cons.mp (h.held other before)).resolve_left different
  · intro other live
    exact h.live other (still live).2
  · intro other member gone
    have different : other ≠ id := fun same => apart (same ▸ member)
    exact h.dead other (List.mem_cons_of_mem _ member) (by simpa [Function.update_of_ne different] using gone)

/- The end of a task's turn. -/
theorem keptFinish {q : TimerQueue} {now : Nat} {id : TimerId} {rest : List TimerId} (h : q.Kept (id :: rest)) :
    (q.finish now id).Kept rest := by
  unfold finish
  split
  · split
    · rename_i again
      exact keptRearmed h (Bool.and_eq_true_iff.mp again).1 _
    · rename_i never
      refine keptLetGo h ?_
      by_contra live
      have known : q.timers id = true := by simpa using live
      exact never (by simp [known, h.live id known])
  · exact keptErased h

/- The two loops only take entries off the heap. -/
structure OnlyPops (q q' : TimerQueue) : Prop where
  next : q'.nextTimerId = q.nextTimerId
  task : q'.task = q.task
  timers : q'.timers = q.timers

theorem pollLoopPops (now fuel : Nat) (q : TimerQueue) : OnlyPops q (pollTimeoutLoop now fuel q).2 := by
  induction fuel generalizing q with
  | zero => exact ⟨rfl,rfl,rfl⟩
  | succ fuel ih =>
    simp only [pollTimeoutLoop]
    split
    · exact ⟨rfl,rfl,rfl⟩
    · rename_i id front
      split
      · exact ⟨(ih (q.pop id)).next,(ih (q.pop id)).task,(ih (q.pop id)).timers⟩
      · split
        · exact ⟨rfl,rfl,rfl⟩
        · split
          · exact ⟨rfl,rfl,rfl⟩
          · split <;> exact ⟨rfl,rfl,rfl⟩

theorem collectLoopPops (now fuel : Nat) (q : TimerQueue) (ready : List TimerId) :
    OnlyPops q (collectLoop now fuel q ready).2 := by
  induction fuel generalizing q ready with
  | zero => exact ⟨rfl,rfl,rfl⟩
  | succ fuel ih =>
    simp only [collectLoop]
    split
    · exact ⟨rfl,rfl,rfl⟩
    · rename_i id front
      split
      · exact ⟨(ih (q.pop id) _).next,(ih (q.pop id) _).task,(ih (q.pop id) _).timers⟩
      · exact ⟨rfl,rfl,rfl⟩

theorem timeoutPops (q : TimerQueue) (now : Nat) : OnlyPops q (q.getPollTimeoutMs now).2 := pollLoopPops now _ q

theorem collectPops (q : TimerQueue) (now : Nat) : OnlyPops q (q.collect now).2 := collectLoopPops now _ q []

/- A timeout above zero ends no later than any live timer expires. -/
theorem pollTimeoutBounds {now : Nat} (fuel : Nat) {q : TimerQueue} (h : q.Kept [])
    (enough : q.delayedTasks.length ≤ fuel) (sleeps : 0 < (pollTimeoutLoop now fuel q).1) :
    ∀ id, q.timers id = true →
      now + (pollTimeoutLoop now fuel q).1 * nanosPerMilli ≤ (q.task id).expireTime := by
  induction fuel generalizing q with
  | zero =>
    intro id live
    have member := h.held id live
    rw [List.eq_nil_of_length_eq_zero (Nat.le_zero.mp enough)] at member
    cases member
  | succ fuel ih =>
    intro id live
    have member : id ∈ q.delayedTasks := h.held id live
    simp only [pollTimeoutLoop] at sleeps ⊢
    split at sleeps
    · rename_i none
      rw [topNone none] at member
      cases member
    · rename_i top front
      have least := topLeast front id member
      split at sleeps
      · rename_i dead
        rw [if_pos dead]
        have shorter : (q.pop top).delayedTasks.length ≤ fuel := by
          have one := List.length_erase_of_mem (topMember front)
          simp only [pop, one]
          omega
        exact ih (keptDropped h (topMember front) dead) shorter sleeps id live
      · rename_i alive
        rw [if_neg alive]
        split at sleeps
        · cases sleeps
        · rename_i ahead
          rw [if_neg ahead]
          have whole := Nat.div_mul_le_self ((q.task top).expireTime - now) nanosPerMilli
          split at sleeps
          · cases sleeps
          · rename_i some
            rw [if_neg some]
            split
            · rename_i far
              have capped := Nat.mul_le_mul_right nanosPerMilli (Nat.le_of_lt far)
              dsimp only
              omega
            · dsimp only
              omega

/- What no region does to a timer that exists: it is not added again, not un-cancelled,
and stays one-shot or periodic. -/
structure Later (q q' : TimerQueue) : Prop where
  next : q.nextTimerId ≤ q'.nextTimerId
  timers : ∀ id < q.nextTimerId, q'.timers id = true → q.timers id = true
  cancelled : ∀ id < q.nextTimerId, (q.task id).cancelled = true → (q'.task id).cancelled = true
  repeats : ∀ id < q.nextTimerId, (q'.task id).repeats = (q.task id).repeats

theorem laterSame {q q' : TimerQueue} (h : OnlyPops q q') : Later q q' := by
  refine ⟨Nat.le_of_eq h.next.symm,fun id _ live => ?_,fun id _ gone => ?_,fun id _ => ?_⟩
  · rwa [h.timers] at live
  · rwa [h.task]
  · rw [h.task]

theorem laterAdd (q : TimerQueue) (task : TimerTask) : Later q (q.add task) := by
  refine ⟨Nat.le_succ _,?_,?_,?_⟩
  · intro id below live
    simpa [add, Function.update_of_ne (Nat.ne_of_lt below)] using live
  · intro id below gone
    simpa [add, Function.update_of_ne (Nat.ne_of_lt below)] using gone
  · intro id below
    simp [add, Function.update_of_ne (Nat.ne_of_lt below)]

theorem laterCancel (q : TimerQueue) (id : TimerId) : Later q (q.cancel id).1 := by
  unfold cancel
  split
  · refine ⟨Nat.le_refl _,?_,?_,?_⟩
    · intro other _ live
      by_cases same : other = id
      · simp [same] at live
      · simpa [Function.update_of_ne same] using live
    · intro other _ gone
      by_cases same : other = id
      · simp [same]
      · simpa [Function.update_of_ne same] using gone
    · intro other _
      by_cases same : other = id
      · simp [same]
      · simp [Function.update_of_ne same]
  · exact laterSame ⟨rfl,rfl,rfl⟩

theorem laterFinish (q : TimerQueue) (now : Nat) (id : TimerId) : Later q (q.finish now id) := by
  unfold finish
  split
  · split
    · refine ⟨Nat.le_refl _,fun _ _ live => live,?_,?_⟩
      · intro other _ gone
        by_cases same : other = id
        · simpa [same] using gone
        · simpa [Function.update_of_ne same] using gone
      · intro other _
        by_cases same : other = id
        · simp [same]
        · simp [Function.update_of_ne same]
    · exact laterSame ⟨rfl,rfl,rfl⟩
  · refine ⟨Nat.le_refl _,?_,fun _ _ gone => gone,fun _ _ => rfl⟩
    intro other _ live
    by_cases same : other = id
    · simp [same] at live
    · simpa [Function.update_of_ne same] using live

end TcFrame.TimerQueue
