import TcFrame.Logger
import Mathlib.Data.List.Infix

/-! What becomes of the events: from the queue each goes to every appender before the next
one is taken, and the log thread leaves only with the flag cleared and the queue empty. -/
namespace TcFrame.Logger
open Machine

/- The event that is in no queue and not yet with every appender, and what appender `a` has
of it. -/
def LoopPc.inFlight : LoopPc → List LogEvent
  | .unlock event | .append event _ => [event]
  | _ => []

def LoopPc.arrived (a : Nat) : LoopPc → List LogEvent
  | .append event i => if a < i then [event] else []
  | _ => []

/- Appender `a` was flushed behind its last event. -/
def LoopPc.settled (a : Nat) : LoopPc → Bool
  | .lock | .test | .block | .wait | .check | .unlockEnd | .leave | .exited => true
  | .flush i => decide (a < i)
  | .drain | .unlock _ | .append _ _ | .relock => false

/- The queue, the event in flight and what every appender has (`out`). Only behind the log
thread's end does Shutdown empty the queue and drop the appenders. -/
structure Delivered (n : Nat) (out : List LogEvent) (w : World) : Prop where
  received : ∀ a < n, w.received a = out ++ w.loop.arrived a
  order : w.loop ≠ .exited → w.pushed = out ++ w.loop.inFlight ++ w.logQueue
  kept : out <+: w.pushed
  appenders : w.loop ≠ .exited → w.appenderNum = n
  flushed : ∀ a < n, w.loop.settled a = true → w.flushed a = out.length

/- Shutdown stands behind its join. -/
def StopPc.after : StopPc → Bool
  | .flush _ | .lock | .clear | .unlock => true
  | _ => false

structure Stopping (out : List LogEvent) (w : World) : Prop where
  begun : w.stop ≠ .idle ∨ w.isRunning = false → w.before.isSome = true
  before : ∀ b, w.before = some b → b <+: w.pushed
  closed : w.loop = .leave ∨ w.loop = .exited → ∃ b, w.before = some b ∧ b <+: out
  gone : w.stop.after = true ∨ w.joinable = false ∨ w.stopped = true → w.loop = .exited

section Loop
variable {n : Nat} {out : List LogEvent} {w : World}

/- The last Append of an event: now every appender has it. -/
theorem deliveredAppended {event : LogEvent} {i : Nat} (h : Delivered n out w) (here : w.loop = .append event i)
    (all : w.appenderNum ≤ i) (m : Monitor Agent) :
    Delivered n (out ++ [event]) { w with monitor := m, loop := .relock } := by
  have running : w.loop ≠ .exited := by rw [here]; simp
  have number := h.appenders running
  have order := h.order running
  simp only [here, LoopPc.inFlight] at order
  have same : ∀ a < n, w.received a = out ++ [event] := by
    intro a small
    have below : a < i := by omega
    rw [h.received a small, here]
    simp [LoopPc.arrived, below]
  refine ⟨fun a small => ?_,fun _ => ?_,?_,fun _ => number,fun a small settled => nomatch settled⟩
  · simp [same a small, LoopPc.arrived]
  · simpa [LoopPc.inFlight] using order
  · exact ⟨w.logQueue,order.symm⟩

theorem deliveredLoop {pc : LoopPc} {m : Monitor Agent} (h : Delivered n out w)
    (moves : LoopMove w w.loop pc m) : ∃ out', out <+: out' ∧ Delivered n out' { w with monitor := m, loop := pc } := by
  generalize here : w.loop = old at moves
  have received := h.received
  have order := h.order
  have appenders := h.appenders
  have flushed := h.flushed
  rw [here] at received order appenders flushed
  cases moves with
  | appended all => exact ⟨_,List.prefix_append _ _,deliveredAppended h here all _⟩
  | leave =>
    exact ⟨out,List.prefix_rfl,received,fun running => absurd rfl running,h.kept,fun running => absurd rfl running,
      flushed⟩
  | flushed all =>
    refine ⟨out,List.prefix_rfl,received,fun _ => order (by simp),h.kept,fun _ => appenders (by simp),?_⟩
    intro a small _
    have number := appenders (by simp)
    exact flushed a small (decide_eq_true (by omega))
  | more | drained | unlock =>
    refine ⟨out,List.prefix_rfl,received,fun _ => order (by simp),h.kept,fun _ => appenders (by simp),?_⟩
    intro a small settled
    simp [LoopPc.settled] at settled
  | _ => exact ⟨out,List.prefix_rfl,received,fun _ => order (by simp),h.kept,fun _ => appenders (by simp),flushed⟩

theorem deliveredTake {event : LogEvent} {rest : List LogEvent} (h : Delivered n out w) (here : w.loop = .drain)
    (head : w.logQueue = event :: rest) : Delivered n out { w with logQueue := rest, loop := .unlock event } := by
  have running : w.loop ≠ .exited := by rw [here]; simp
  have order := h.order running
  have received := h.received
  rw [here] at received
  refine ⟨received,fun _ => ?_,h.kept,fun _ => h.appenders running,fun a small settled => nomatch settled⟩
  rw [order, here, head]
  simp [LoopPc.inFlight]

theorem deliveredAppend {event : LogEvent} {i : Nat} (h : Delivered n out w) (here : w.loop = .append event i) :
    Delivered n out { w.append i event with loop := .append event (i + 1) } := by
  have running : w.loop ≠ .exited := by rw [here]; simp
  have order := h.order running
  rw [here] at order
  refine ⟨fun a small => ?_,fun _ => order,h.kept,fun _ => h.appenders running,fun a small settled => nomatch settled⟩
  have before := h.received a small
  simp only [here, LoopPc.arrived] at before
  simp only [World.append, LoopPc.arrived, Function.update_apply]
  split
  · rename_i self
    rw [← self, before, self]
    simp
  · rename_i other
    have same : a < i + 1 ↔ a < i := by omega
    simp only [before, same]

theorem deliveredFlush {i : Nat} (h : Delivered n out w) (here : w.loop = .flush i) :
    Delivered n out { w.flush i with loop := .flush (i + 1) } := by
  have running : w.loop ≠ .exited := by rw [here]; simp
  have order := h.order running
  have received := h.received
  have before := h.flushed
  rw [here] at order received before
  refine ⟨received,fun _ => order,h.kept,fun _ => h.appenders running,fun a small settled => ?_⟩
  simp only [World.flush, Function.update_apply]
  split
  · rename_i self
    rw [← self, received a small]
    simp [LoopPc.arrived]
  · rename_i other
    refine before a small (decide_eq_true ?_)
    have upto : a < i + 1 := of_decide_eq_true settled
    omega

/- The log thread ends with the flag cleared and the queue empty: what was pushed when
Shutdown was called is out. -/
theorem stoppingLoop {out' : List LogEvent} {pc : LoopPc} {m : Monitor Agent} (h : Stopping out w)
    (d : Delivered n out w) (grown : out <+: out') (moves : LoopMove w w.loop pc m) :
    Stopping out' { w with monitor := m, loop := pc } := by
  generalize here : w.loop = old at moves
  have running : w.loop ≠ .exited := by
    intro ended
    rw [ended] at here
    rw [← here] at moves
    cases moves
  refine ⟨h.begun,h.before,?_,fun ended => absurd (h.gone ended) running⟩
  cases moves with
  | nothing cleared empty =>
    obtain ⟨b,first⟩ := Option.isSome_iff_exists.mp (h.begun (.inr cleared))
    have order := d.order running
    simp only [here, empty, LoopPc.inFlight, List.append_nil] at order
    exact fun _ => ⟨b,first,(order ▸ h.before b first).trans grown⟩
  | leave =>
    obtain ⟨b,first,known⟩ := h.closed (.inl here)
    exact fun _ => ⟨b,first,known.trans grown⟩
  | _ => exact fun ended => by simp at ended

theorem deliveredPush {event : LogEvent} {producers : ProducerId → ProducerPc} (h : Delivered n out w) :
    Delivered n out
      { w with logQueue := w.logQueue ++ [event], pushed := w.pushed ++ [event], producers := producers } := by
  refine ⟨h.received,fun running => ?_,h.kept.trans (List.prefix_append _ _),h.appenders,h.flushed⟩
  have order := h.order running
  simp only [order, List.append_assoc]

theorem stoppingStop {pc : StopPc} {m : Monitor Agent} (h : Stopping out w) (moves : StopMove w w.stop pc m) :
    Stopping out { w with monitor := m, stop := pc } := by
  generalize here : w.stop = old at moves
  have begun : w.stop ≠ .idle := by
    intro idle
    rw [idle] at here
    rw [← here] at moves
    cases moves
  refine ⟨fun _ => h.begun (.inl begun),h.before,h.closed,fun ended => ?_⟩
  cases moves with
  | notify | joinable => exact h.gone (ended.imp_left (fun after => nomatch after))
  | alone gone => exact h.gone (.inr (.inl gone))
  | flushed | lock => exact h.gone (.inl (by rw [here]; rfl))

theorem stoppingShutdown (h : Stopping out w) :
    Stopping out { w with stop := .store, before := w.before.or (some w.pushed) } := by
  refine ⟨fun _ => by simp,fun b first => ?_,fun ended => ?_,
    fun ended => h.gone (ended.imp_left (fun after => nomatch after))⟩
  · rcases Option.or_eq_some_iff.mp first with old | ⟨_,new⟩
    · exact h.before b old
    · exact Option.some.inj new ▸ List.prefix_rfl
  · obtain ⟨b,first,known⟩ := h.closed ended
    exact ⟨b,by simp [first],known⟩

/- Shutdown's own Flush adds nothing: the log thread flushed every appender before it left. -/
theorem deliveredFlushAfter {i : Nat} {stop : StopPc} (h : Delivered n out w) (ended : w.loop = .exited) :
    Delivered n out { w.flush i with stop := stop } := by
  refine ⟨h.received,h.order,h.kept,h.appenders,fun a small settled => ?_⟩
  simp only [World.flush, Function.update_apply]
  split
  · rename_i self
    rw [← self, h.received a small, ended]
    simp [LoopPc.arrived]
  · exact h.flushed a small settled

end Loop

theorem deliveryStep {n : Nat} {w w' : World} {a : Action} (h : ∃ out, Delivered n out w ∧ Stopping out w)
    (taken : step w a = some w') : ∃ out, Delivered n out w' ∧ Stopping out w' := by
  obtain ⟨out,d,s⟩ := h
  cases stepCases taken with
  | loopMove moves =>
    obtain ⟨out',grown,after⟩ := deliveredLoop d moves
    exact ⟨out',after,stoppingLoop s d grown moves⟩
  | take here head =>
    have running : w.loop ≠ .exited := by rw [here]; simp
    exact ⟨out,deliveredTake d here head,s.begun,s.before,by simp,fun ended => absurd (s.gone ended) running⟩
  | append here more =>
    have running : w.loop ≠ .exited := by rw [here]; simp
    exact ⟨out,deliveredAppend d here,s.begun,s.before,by simp,fun ended => absurd (s.gone ended) running⟩
  | flush here more =>
    have running : w.loop ≠ .exited := by rw [here]; simp
    exact ⟨out,deliveredFlush d here,s.begun,s.before,by simp,fun ended => absurd (s.gone ended) running⟩
  | producerMove | log =>
    exact ⟨out,⟨d.received,d.order,d.kept,d.appenders,d.flushed⟩,s.begun,s.before,s.closed,s.gone⟩
  | push =>
    refine ⟨out,deliveredPush d,s.begun,fun b first => ?_,s.closed,s.gone⟩
    exact (s.before b first).trans (List.prefix_append _ _)
  | stopMove moves => exact ⟨out,⟨d.received,d.order,d.kept,d.appenders,d.flushed⟩,stoppingStop s moves⟩
  | shutdown => exact ⟨out,⟨d.received,d.order,d.kept,d.appenders,d.flushed⟩,stoppingShutdown s⟩
  | store here =>
    have before := s.begun (.inl (by rw [here]; simp))
    exact ⟨out,⟨d.received,d.order,d.kept,d.appenders,d.flushed⟩,fun _ => before,s.before,s.closed,
      fun ended => s.gone (ended.imp_left (fun after => nomatch after))⟩
  | join here gone =>
    have before := s.begun (.inl (by rw [here]; simp))
    exact ⟨out,⟨d.received,d.order,d.kept,d.appenders,d.flushed⟩,fun _ => before,s.before,s.closed,fun _ => gone⟩
  | flushAfter here =>
    have before := s.begun (.inl (by rw [here]; simp))
    have ended : w.loop = .exited := s.gone (.inl (by rw [here]; rfl))
    exact ⟨out,deliveredFlushAfter d ended,fun _ => before,s.before,s.closed,fun _ => ended⟩
  | clear here =>
    have before := s.begun (.inl (by rw [here]; simp))
    have ended : w.loop = .exited := s.gone (.inl (by rw [here]; rfl))
    exact ⟨out,⟨d.received,fun running => absurd ended running,d.kept,fun running => absurd ended running,d.flushed⟩,
      fun _ => before,s.before,s.closed,fun _ => ended⟩
  | finish here =>
    have before := s.begun (.inl (by rw [here]; simp))
    have ended : w.loop = .exited := s.gone (.inl (by rw [here]; rfl))
    exact ⟨out,⟨d.received,d.order,d.kept,d.appenders,d.flushed⟩,fun _ => before,s.before,s.closed,fun _ => ended⟩

theorem deliveryInitialized (minLevel : LogLevel) (n : Nat) :
    ∃ out, Delivered n out (initialized minLevel n) ∧ Stopping out (initialized minLevel n) := by
  refine ⟨[],⟨fun _ _ => rfl,fun _ => rfl,List.nil_prefix,fun _ => rfl,fun _ _ _ => rfl⟩,?_,?_,?_,?_⟩
  all_goals simp [initialized, StopPc.after]

theorem receivedPrefix {n : Nat} {out : List LogEvent} {w : World} (h : Delivered n out w) {a : Nat} (small : a < n) :
    w.received a <+: w.pushed := by
  rw [h.received a small]
  cases here : w.loop with
  | append event i =>
    rw [h.order (by rw [here]; simp), here]
    simp only [LoopPc.arrived, LoopPc.inFlight]
    split
    · exact List.prefix_append _ _
    · rw [List.append_nil, List.append_assoc]
      exact List.prefix_append _ _
  | _ => simpa [LoopPc.arrived] using h.kept

/- In every run each appender has received a prefix of what was pushed, and when a Shutdown
has returned, what was pushed when Shutdown was first called was passed to every appender
and flushed. -/
theorem eventsDelivered {minLevel : LogLevel} {n : Nat} {as : List Action} {w : World}
    (reached : run step (initialized minLevel n) as = some w) :
    (∀ a < n, w.received a <+: w.pushed) ∧
      (w.stopped = true → ∃ b, w.before = some b ∧ ∀ a < n, b <+: (w.received a).take (w.flushed a)) := by
  obtain ⟨out,d,s⟩ := invariant (fun _ _ _ h taken => deliveryStep h taken) (deliveryInitialized minLevel n) reached
  refine ⟨fun a small => receivedPrefix d small,fun stopped => ?_⟩
  have ended : w.loop = .exited := s.gone (.inr (.inr stopped))
  obtain ⟨b,first,known⟩ := s.closed (.inr ended)
  refine ⟨b,first,fun a small => ?_⟩
  have all : w.received a = out := by
    rw [d.received a small, ended]
    exact List.append_nil _
  rw [all, d.flushed a small (by rw [ended]; rfl), List.take_length]
  exact known

/- An event below the level is not pushed, and the second one comes while the first is with
the appenders. -/
def logTwo : List Action :=
  [info 0 "one"] ++ List.replicate 6 (.produce 0) ++ [debug 1 "low"] ++ List.replicate 2 (.produce 1) ++
    List.replicate 6 .logLoop ++ [fatal 1 "two"] ++ List.replicate 5 (.produce 1) ++ [.shutdown,.stop,.stop,.stop] ++
    List.replicate 18 .logLoop ++ List.replicate 7 .stop

theorem eventsDeliveredTwo :
    ∃ w, run step (initialized .info 2) logTwo = some w ∧ w.stopped = true ∧
      w.received 1 = [⟨.info,"one"⟩,⟨.fatal,"two"⟩] ∧
      ∃ b, w.before = some b ∧ ∀ a < 2, b <+: (w.received a).take (w.flushed a) := by
  have reached : ∃ w, run step (initialized .info 2) logTwo = some w ∧ w.stopped = true ∧
      w.received 1 = [⟨.info,"one"⟩,⟨.fatal,"two"⟩] := ⟨_,rfl,rfl,rfl⟩
  obtain ⟨w,reached,stopped,both⟩ := reached
  exact ⟨w,reached,stopped,both,(eventsDelivered reached).2 stopped⟩

end TcFrame.Logger
