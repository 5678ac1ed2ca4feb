import Mathlib.Logic.Function.Basic
import Mathlib.Tactic.Common

/-! One mutex with one condition variable, as POSIX and the C++ library describe them:
blocking and releasing the mutex are one step, a notification wakes threads that are
asleep and is lost on all others, nothing wakes up by itself. A thread that was woken
takes the mutex again like any other. Nothing here names a program: `τ` is any type of
threads, and where a thread stands in its own code is given by `place`. -/
namespace TcFrame

structure Monitor (τ : Type*) where
  holder : Option τ
  sleeping : List τ
  deriving DecidableEq, Repr

/- `parting` is a thread that has found its predicate false and is about to block, with
the mutex still in its hands. A thread in `waiting` is asleep or was woken. -/
inductive Place where
  | away
  | inside
  | parting
  | waiting
  deriving DecidableEq, Repr

def Place.holds : Place → Bool
  | .inside | .parting => true
  | .away | .waiting => false

namespace Monitor
variable {τ : Type*} [DecidableEq τ]

def open_ : Monitor τ := ⟨none,[]⟩

def acquire (m : Monitor τ) (t : τ) : Monitor τ := { m with holder := some t }
def release (m : Monitor τ) : Monitor τ := { m with holder := none }
def block (m : Monitor τ) (t : τ) : Monitor τ := ⟨none,t :: m.sleeping⟩
def notifyOne (m : Monitor τ) (woken : τ) : Monitor τ := { m with sleeping := m.sleeping.erase woken }
def notifyAll (m : Monitor τ) : Monitor τ := { m with sleeping := [] }

/- notify_one wakes some thread that is asleep, whenever there is one. -/
def mayWake (m : Monitor τ) (woken : τ) : Bool := m.sleeping.isEmpty || decide (woken ∈ m.sleeping)

/- The monitor and the places of the threads say the same. -/
structure Guarded (m : Monitor τ) (place : τ → Place) : Prop where
  holder : ∀ t, (place t).holds = true ↔ m.holder = some t
  asleep : ∀ t ∈ m.sleeping, place t = .waiting
  once : m.sleeping.Nodup

variable {m : Monitor τ} {place : τ → Place} {t : τ} {p : Place}

omit [DecidableEq τ] in
theorem exclusive (h : Guarded m place) {u : τ} (mine : (place t).holds = true) (other : (place u).holds = true) :
    t = u := by
  have first := (h.holder t).mp mine
  rw [(h.holder u).mp other] at first
  exact (Option.some.inj first).symm

omit [DecidableEq τ] in
theorem awake (h : Guarded m place) (elsewhere : place t ≠ .waiting) : t ∉ m.sleeping :=
  fun asleep => elsewhere (h.asleep t asleep)

omit [DecidableEq τ] in
theorem guardedOpen (outside : ∀ t, (place t).holds = false) : Guarded open_ place :=
  ⟨fun t => by simp [outside, open_],fun _ member => absurd member List.not_mem_nil,List.nodup_nil⟩

theorem asleepUpdate (h : Guarded m place) (awake : t ∉ m.sleeping) :
    ∀ u ∈ m.sleeping, Function.update place t p u = .waiting := by
  intro u member
  have other : u ≠ t := fun same => awake (same ▸ member)
  rw [Function.update_of_ne other]
  exact h.asleep u member

/- What a step of thread `t` may do to the monitor, and the place it brings the thread to. -/
inductive Move (m : Monitor τ) (place : τ → Place) (t : τ) : Monitor τ → Place → Prop where
  | stay {p : Place} (awake : place t ≠ .waiting) (same : p.holds = (place t).holds) : Move m place t m p
  | acquire (free : m.holder = none) (awake : t ∉ m.sleeping) : Move m place t (m.acquire t) .inside
  | release (held : (place t).holds = true) : Move m place t m.release .away
  | block (parting : place t = .parting) : Move m place t (m.block t) .waiting
  | notifyOne {p : Place} (woken : τ) (awake : place t ≠ .waiting) (same : p.holds = (place t).holds) :
      Move m place t (m.notifyOne woken) p
  | notifyAll {p : Place} (awake : place t ≠ .waiting) (same : p.holds = (place t).holds) : Move m place t m.notifyAll p

theorem guardedStay (h : Guarded m place) (elsewhere : place t ≠ .waiting) (same : p.holds = (place t).holds) :
    Guarded m (Function.update place t p) := by
  refine ⟨fun u => ?_,asleepUpdate h (awake h elsewhere),h.once⟩
  rw [Function.update_apply]
  split
  · rename_i here
    rw [same, here]
    exact h.holder t
  · exact h.holder u

theorem guardedAcquire (h : Guarded m place) (free : m.holder = none) (awake : t ∉ m.sleeping) :
    Guarded (m.acquire t) (Function.update place t .inside) := by
  have others := asleepUpdate (p := .inside) h awake
  refine ⟨fun u => ?_,others,h.once⟩
  rw [Function.update_apply]
  split
  · rename_i here
    simp [here, acquire, Place.holds]
  · rename_i other
    have outside : ¬ (place u).holds = true := by rw [h.holder u, free]; simp
    simp [outside, acquire, Ne.symm other]

theorem guardedRelease (h : Guarded m place) (held : (place t).holds = true) (gone : p.holds = false) :
    Guarded m.release (Function.update place t p) := by
  have awake : t ∉ m.sleeping := awake h (fun waits => by rw [waits] at held; cases held)
  have others := asleepUpdate (p := p) h awake
  refine ⟨fun u => ?_,others,h.once⟩
  rw [Function.update_apply]
  split
  · simp [gone, release]
  · rename_i other
    have outside : ¬ (place u).holds = true := fun there => other (exclusive h there held)
    simp [outside, release]

theorem guardedBlock (h : Guarded m place) (held : (place t).holds = true) :
    Guarded (m.block t) (Function.update place t .waiting) := by
  have awake : t ∉ m.sleeping := awake h (fun waits => by rw [waits] at held; cases held)
  have left := guardedRelease h held (p := .waiting) rfl
  refine ⟨left.holder,fun u member => ?_,List.nodup_cons.mpr ⟨awake,h.once⟩⟩
  rcases List.mem_cons.mp member with here | before
  · rw [here, Function.update_self]
  · exact left.asleep u before

theorem guardedNotifyOne (h : Guarded m place) (woken : τ) : Guarded (m.notifyOne woken) place :=
  ⟨h.holder,fun u member => h.asleep u (List.mem_of_mem_erase member),h.once.erase woken⟩

omit [DecidableEq τ] in
theorem guardedNotifyAll (h : Guarded m place) : Guarded m.notifyAll place :=
  ⟨h.holder,fun _ member => absurd member List.not_mem_nil,List.nodup_nil⟩

/- The monitor and the places agree after every move. -/
theorem guardedMove (h : Guarded m place) {m' : Monitor τ} (moves : Move m place t m' p) :
    Guarded m' (Function.update place t p) := by
  cases moves with
  | stay awake same => exact guardedStay h awake same
  | acquire free awake => exact guardedAcquire h free awake
  | release held => exact guardedRelease h held rfl
  | block parting => exact guardedBlock h (by rw [parting]; rfl)
  | notifyOne woken awake same => exact guardedStay (guardedNotifyOne h woken) awake same
  | notifyAll awake same => exact guardedStay (guardedNotifyAll h) awake same

theorem wokenAwake (h : Guarded m place) (woken : τ) : woken ∉ (m.notifyOne woken).sleeping :=
  h.once.not_mem_erase

/- No thread is asleep and none is about to be. -/
structure Roused (m : Monitor τ) (place : τ → Place) : Prop where
  none : m.sleeping = []
  stays : ∀ t, place t ≠ .parting

/- A notification of all rouses every thread, when none stands between its test and its
blocking. From then on they stay so, as long as no test sends a thread to sleep. -/
theorem rousedAll (nobody : ∀ u, place u ≠ .parting) (stays : p ≠ .parting) :
    Roused m.notifyAll (Function.update place t p) := by
  refine ⟨rfl,fun u => ?_⟩
  rw [Function.update_apply]
  split
  · exact stays
  · exact nobody u

theorem rousedMove (h : Roused m place) {m' : Monitor τ} (moves : Move m place t m' p) (stays : p ≠ .parting) :
    Roused m' (Function.update place t p) := by
  have none : m'.sleeping = [] := by
    cases moves with
    | block parting => exact absurd parting (h.stays t)
    | notifyOne woken => simp [notifyOne, h.none]
    | notifyAll => rfl
    | _ => exact h.none
  refine ⟨none,fun u => ?_⟩
  rw [Function.update_apply]
  split
  · exact stays
  · exact h.stays u

end Monitor
end TcFrame
