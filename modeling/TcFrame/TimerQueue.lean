import Mathlib.Logic.Function.Basic
import Mathlib.Data.List.Basic

/-! The timers of one loop: m_timers, m_delayed_tasks and the tasks both refer to.
Every function is one region under the loop's mutex. Times are nanoseconds of the
steady clock. -/
namespace TcFrame

abbrev TimerId := Nat

structure TimerTask where
  expireTime : Nat
  interval : Nat
  repeats : Bool
  cancelled : Bool
  callback : Bool
  deriving DecidableEq, Repr

/- A task and its id are made together, so an id stands for the shared_ptr: `timers`
are the keys of m_timers, `delayedTasks` the entries of the heap. -/
structure TimerQueue where
  nextTimerId : TimerId
  task : TimerId → TimerTask
  timers : TimerId → Bool
  delayedTasks : List TimerId

namespace TimerQueue

def nanosPerMilli : Nat := 1000000

def empty : TimerQueue :=
  ⟨1,fun _ => ⟨0,0,false,false,false⟩,fun _ => false,[]⟩

/- An entry with the least expire time; of several the one pushed first. -/
def earliest (q : TimerQueue) : TimerId → List TimerId → TimerId
  | id, [] => id
  | id, other :: rest =>
    if (q.task other).expireTime < (q.task id).expireTime then q.earliest other rest else q.earliest id rest

def top (q : TimerQueue) : Option TimerId :=
  match q.delayedTasks with
  | [] => none
  | id :: rest => some (q.earliest id rest)

def pop (q : TimerQueue) (id : TimerId) : TimerQueue := { q with delayedTasks := q.delayedTasks.erase id }

def isDead (q : TimerQueue) (id : TimerId) : Bool := (q.task id).cancelled || !q.timers id

def add (q : TimerQueue) (task : TimerTask) : TimerQueue :=
  { nextTimerId := q.nextTimerId + 1
    task := Function.update q.task q.nextTimerId task
    timers := Function.update q.timers q.nextTimerId true
    delayedTasks := q.delayedTasks ++ [q.nextTimerId] }

def runAt (q : TimerQueue) (when_ : Nat) (callback : Bool) : TimerQueue :=
  q.add ⟨when_,0,false,false,callback⟩

/- The argument is the interval in milliseconds after the conversion. -/
def runEvery (q : TimerQueue) (now : Nat) (interval : Int) (callback : Bool) : TimerQueue :=
  let intervalMs := if interval ≤ 0 then 1 else interval.toNat
  q.add ⟨now + intervalMs * nanosPerMilli,intervalMs * nanosPerMilli,true,false,callback⟩

def cancel (q : TimerQueue) (id : TimerId) : TimerQueue × Bool :=
  if q.timers id then
    ({ q with
      task := Function.update q.task id { q.task id with cancelled := true }
      timers := Function.update q.timers id false },true)
  else (q,false)

/- The loop of GetPollTimeoutMs; every round but the last takes an entry off the heap. -/
def pollTimeoutLoop (now : Nat) : Nat → TimerQueue → Nat × TimerQueue
  | 0, q => (10000,q)
  | fuel + 1, q =>
    match q.top with
    | none => (10000,q)
    | some id =>
      if q.isDead id then pollTimeoutLoop now fuel (q.pop id)
      else if (q.task id).expireTime ≤ now then (0,q)
      else
        let remain := ((q.task id).expireTime - now) / nanosPerMilli
        if remain = 0 then (0,q) else if 10000 < remain then (10000,q) else (remain,q)

def getPollTimeoutMs (q : TimerQueue) (now : Nat) : Nat × TimerQueue :=
  pollTimeoutLoop now q.delayedTasks.length q

/- The first region of ProcessDelayedTasks: the due tasks leave the heap. -/
def collectLoop (now : Nat) : Nat → TimerQueue → List TimerId → List TimerId × TimerQueue
  | 0, q, ready => (ready,q)
  | fuel + 1, q, ready =>
    match q.top with
    | none => (ready,q)
    | some id =>
      if (q.task id).expireTime ≤ now then
        collectLoop now fuel (q.pop id) (if q.isDead id then ready else ready ++ [id])
      else (ready,q)

def collect (q : TimerQueue) (now : Nat) : List TimerId × TimerQueue :=
  collectLoop now q.delayedTasks.length q []

def mayFire (q : TimerQueue) (id : TimerId) : Bool := !(q.task id).cancelled && (q.task id).callback

/- After the callback: a periodic task goes back to the heap, another leaves m_timers. -/
def finish (q : TimerQueue) (now : Nat) (id : TimerId) : TimerQueue :=
  if (q.task id).repeats then
    if q.timers id && !(q.task id).cancelled then
      { q with
        task := Function.update q.task id { q.task id with expireTime := now + (q.task id).interval }
        delayedTasks := q.delayedTasks ++ [id] }
    else q
  else { q with timers := Function.update q.timers id false }

end TimerQueue
end TcFrame
