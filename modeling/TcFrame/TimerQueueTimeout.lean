import Mathlib.Data.List.Nodup
import Mathlib.Order.Bounds.Basic
import TcFrame.TimerQueueTasks

/-! The timeout that GetPollTimeoutMs computes. Cancelled entries lie in the heap until they
come to its top; the loop takes them off and answers with the first live one. -/
namespace TcFrame.TimerQueue

/- Every live task has one heap entry; every other entry is one of a cancelled task. -/
structure Booked (q : TimerQueue) : Prop where
  one : ∀ id, q.isDead id = false → q.delayedTasks.count id = 1
  others : ∀ id ∈ q.delayedTasks, q.isDead id = true → (q.task id).cancelled = true

/- What the regions under the mutex keep includes it. -/
theorem keptBooked {q : TimerQueue} (h : q.Kept []) : q.Booked := by
  refine ⟨fun id alive => ?_,fun id member dead => ?_⟩
  · have live : q.timers id = true := by
      simp only [isDead, Bool.or_eq_false_iff, Bool.not_eq_false'] at alive
      exact alive.2
    exact List.count_eq_one_of_mem h.nodup (h.held id live)
  · have gone := @deadIff q [] h id member
    rw [dead] at gone
    exact h.dead id member (by simpa using gone.symm)

/- Entries of dead tasks have left the heap; all else is as it was. -/
structure DropsDead (q q' : TimerQueue) : Prop where
  pops : OnlyPops q q'
  fewer : q'.delayedTasks.Sublist q.delayedTasks
  live : ∀ id, q.isDead id = false → q'.delayedTasks.count id = q.delayedTasks.count id

theorem dropsNothing (q : TimerQueue) : DropsDead q q := ⟨⟨rfl,rfl,rfl⟩,List.Sublist.refl _,fun _ _ => rfl⟩

theorem dropsTop {q q' : TimerQueue} {id : TimerId} (dead : q.isDead id = true) (h : DropsDead (q.pop id) q') :
    DropsDead q q' := by
  refine ⟨⟨h.pops.next,h.pops.task,h.pops.timers⟩,h.fewer.trans List.erase_sublist,fun other alive => ?_⟩
  have different : other ≠ id := by
    intro same
    rw [same, dead] at alive
    cases alive
  exact (h.live other alive).trans (List.count_erase_of_ne different)

/- The milliseconds from `now` to `e`, not below zero and not above ten seconds. -/
def millisLeft (e now : Nat) : Int := min 10000 (max 0 (((e : Int) - now) / nanosPerMilli))

/- What the loop answers, and what is left of the timers. -/
inductive Answer (q : TimerQueue) (now : Nat) : Nat × TimerQueue → Prop where
  | never {q'} (dropped : DropsDead q q') (empty_ : q'.delayedTasks = []) : Answer q now (10000,q')
  | timer {q' id} {ms : Nat} (dropped : DropsDead q q') (front : q'.top = some id) (alive : q.isDead id = false)
      (left : (ms : Int) = millisLeft (q.task id).expireTime now) : Answer q now (ms,q')

theorem answerLater {q : TimerQueue} {id : TimerId} {now : Nat} {out : Nat × TimerQueue} (dead : q.isDead id = true)
    (h : Answer (q.pop id) now out) : Answer q now out := by
  cases h with
  | never dropped empty_ => exact .never (dropsTop dead dropped) empty_
  | timer dropped front alive left => exact .timer (dropsTop dead dropped) front alive left

theorem loopAnswers (now fuel : Nat) {q : TimerQueue} (enough : q.delayedTasks.length ≤ fuel) :
    Answer q now (pollTimeoutLoop now fuel q) := by
  induction fuel generalizing q with
  | zero => exact .never (dropsNothing q) (List.eq_nil_of_length_eq_zero (Nat.le_zero.mp enough))
  | succ fuel ih =>
    simp only [pollTimeoutLoop]
    split
    · rename_i none_
      exact .never (dropsNothing q) (topNone none_)
    · rename_i id front
      split
      · rename_i dead
        refine answerLater dead (ih ?_)
        rw [pop, List.length_erase_of_mem (topMember front)]
        omega
      · rename_i alive
        have same : ∀ {ms : Nat}, (ms : Int) = millisLeft (q.task id).expireTime now → Answer q now (ms,q) :=
          fun left => .timer (dropsNothing q) front (Bool.eq_false_iff.mpr alive) left
        split
        · refine same ?_
          simp only [millisLeft, nanosPerMilli]
          omega
        · split
          · refine same ?_
            simp only [millisLeft, nanosPerMilli] at *
            omega
          · split <;> refine same ?_ <;> simp only [millisLeft, nanosPerMilli] at * <;> omega

/- More rounds than there are entries change nothing: the loop has come to its end. -/
theorem loopEnds (now : Nat) {fuel fuel' : Nat} {q : TimerQueue} (enough : q.delayedTasks.length ≤ fuel)
    (enough' : q.delayedTasks.length ≤ fuel') : pollTimeoutLoop now fuel q = pollTimeoutLoop now fuel' q := by
  induction fuel generalizing q fuel' with
  | zero =>
    have none_ : q.top = none := by
      rw [top, List.eq_nil_of_length_eq_zero (Nat.le_zero.mp enough)]
    cases fuel' <;> simp only [pollTimeoutLoop, none_]
  | succ fuel ih =>
    cases front : q.top with
    | none => cases fuel' <;> simp only [pollTimeoutLoop, front]
    | some id =>
      have member := topMember front
      have one := List.length_erase_of_mem member
      have some_ := List.length_pos_of_mem member
      obtain ⟨fuel',rfl⟩ : ∃ n, fuel' = n + 1 := ⟨fuel' - 1,by omega⟩
      have shorter := @ih fuel' (q.pop id) (by simp only [pop]; omega) (by simp only [pop]; omega)
      simp only [pollTimeoutLoop, front, shorter]

/- When the live timers expire. -/
def expiries (q : TimerQueue) : Set Nat := { e | ∃ id, q.isDead id = false ∧ (q.task id).expireTime = e }

/- The timeout is that of the earliest live timer, whatever lies above it in the heap; only
dead entries leave, and the loop needs no more rounds than there are entries. -/
theorem timeoutExact {q : TimerQueue} (h : q.Booked) (now : Nat) :
    (∀ e, IsLeast q.expiries e → ((q.getPollTimeoutMs now).1 : Int) = millisLeft e now) ∧
    (q.expiries = ∅ → (q.getPollTimeoutMs now).1 = 10000) ∧
    DropsDead q (q.getPollTimeoutMs now).2 ∧
    ∀ fuel, q.delayedTasks.length ≤ fuel → pollTimeoutLoop now fuel q = q.getPollTimeoutMs now := by
  have ends : ∀ fuel, q.delayedTasks.length ≤ fuel → pollTimeoutLoop now fuel q = q.getPollTimeoutMs now :=
    fun fuel enough => loopEnds now enough (Nat.le_refl _)
  have answer : Answer q now (q.getPollTimeoutMs now) := loopAnswers now _ (Nat.le_refl _)
  -- A live timer is still in the heap.
  have held : ∀ {q'}, DropsDead q q' → ∀ id, q.isDead id = false → id ∈ q'.delayedTasks := by
    intro q' dropped id alive
    refine List.count_pos_iff.mp ?_
    rw [dropped.live id alive, h.one id alive]
    exact Nat.one_pos
  generalize q.getPollTimeoutMs now = out at answer ends ⊢
  cases answer with
  | never dropped empty_ =>
    refine ⟨fun e least => ?_,fun _ => rfl,dropped,ends⟩
    obtain ⟨id,alive,_⟩ := least.1
    have member := held dropped id alive
    rw [empty_] at member
    cases member
  | @timer q' id ms dropped front alive left =>
    have first : IsLeast q.expiries (q.task id).expireTime := by
      refine ⟨⟨id,alive,rfl⟩,?_⟩
      rintro e ⟨other,lives,rfl⟩
      have below := topLeast front other (held dropped other lives)
      rwa [dropped.pops.task] at below
    refine ⟨fun e least => ?_,fun none_ => ?_,dropped,ends⟩
    · rw [least.unique first]
      exact left
    · have here := first.1
      rw [none_] at here
      exact here.elim

/- A cancelled timer above one that is due in a little more than eight milliseconds. -/
def cancelledFirst : TimerQueue := (((empty.runAt 5 true).runAt 9000000 true).cancel 1).1

theorem cancelledFirstTimeout : ((cancelledFirst.getPollTimeoutMs 7).1 : Int) = 8 ∧
    DropsDead cancelledFirst (cancelledFirst.getPollTimeoutMs 7).2 ∧
    (cancelledFirst.getPollTimeoutMs 7).2.delayedTasks = [2] := by
  have booked : cancelledFirst.Booked := keptBooked (keptCancel (keptAdd (keptAdd keptEmpty rfl) rfl) 1)
  have least : IsLeast cancelledFirst.expiries 9000000 := by
    refine ⟨⟨2,by decide,by decide⟩,?_⟩
    rintro e ⟨id,alive,rfl⟩
    match id with
    | 0 => exact absurd alive (by decide)
    | 1 => exact absurd alive (by decide)
    | 2 => decide
    | id + 3 => exact absurd alive (by simp [cancelledFirst, runAt, add, cancel, empty, isDead, Function.update])
  obtain ⟨exact_,_,dropped,_⟩ := timeoutExact booked 7
  exact ⟨exact_ 9000000 least,dropped,by decide⟩

end TcFrame.TimerQueue
