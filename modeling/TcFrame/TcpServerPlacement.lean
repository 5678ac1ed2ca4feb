import Mathlib.Data.Int.CardIntervalMod
import TcFrame.TcpServerLife

/-! Where connections live. NextLoop deals them to the sub loops in turn, a connection never
moves, and but for the state of it, which Shutdown and ForceClose store on the caller's
thread, only the thread of its loop ever changes it. -/
namespace TcFrame.TcpServer
open Endpoint Machine

/- What NextLoop goes by, and what it has decided. -/
structure Dealt (w : World) : Prop where
  index : w.server.threadNum ≠ 0 → w.server.nextLoopIdx = w.host.next
  loops : ∀ c < w.host.next, w.host.loopOf c =
    if w.server.threadNum = 0 then mainLoop else c % w.server.threadNum + 1

/- A step that does not accept. -/
structure Deals (w w' : World) : Prop where
  index : w'.server.nextLoopIdx = w.server.nextLoopIdx
  threadNum : w'.server.threadNum = w.server.threadNum
  next : w'.host.next = w.host.next
  loopOf : w'.host.loopOf = w.host.loopOf

theorem dealsFinalize (w : World) (force : Bool) : Deals w (finalizeGracefulStop w force).1 := by
  unfold finalizeGracefulStop
  split <;> exact ⟨rfl,rfl,rfl,rfl⟩

theorem dealsStop (w : World) (cb : Option Nat) : Deals w (stopGracefully w cb).1 := by
  unfold stopGracefully
  dsimp only
  split
  · exact ⟨rfl,rfl,rfl,rfl⟩
  · split <;> exact ⟨rfl,rfl,rfl,rfl⟩

theorem dealsRemove (w : World) (c : ConnId) : Deals w (removeInLoop w c).1 := by
  unfold removeInLoop
  dsimp only
  split
  · exact ⟨rfl,rfl,rfl,rfl⟩
  · split <;> exact ⟨rfl,rfl,rfl,rfl⟩

theorem dealsGoOn {w : World} {t : ThreadId} {f : Act} {out : Effect} (went : goOn w t f = some out) : Deals w out.1 := by
  cases f with
  | conn c f =>
    cases f with
    | closeCallback | sendTail | closeSocket | invalidateSocket => cases went; exact ⟨rfl,rfl,rfl,rfl⟩
    | _ => cases went
  | call l task =>
    cases went
    unfold runInLoop
    split
    · cases task with
      | conn c f => exact ⟨rfl,rfl,rfl,rfl⟩
      | remove c => exact dealsRemove w c
      | stopGracefully cb => exact dealsStop w cb
    · exact ⟨rfl,rfl,rfl,rfl⟩
  | removeTail =>
    cases went
    unfold removeTail
    split
    · exact dealsFinalize w false
    · exact ⟨rfl,rfl,rfl,rfl⟩
  | stopTail =>
    cases went
    unfold stopTail
    split
    · exact dealsFinalize w false
    · exact ⟨rfl,rfl,rfl,rfl⟩
  | finishStop force =>
    cases went
    unfold finishStop
    split <;> exact ⟨rfl,rfl,rfl,rfl⟩
  | shutdownAll rest | forceAll rest =>
    cases rest with
    | nil => cases went; exact ⟨rfl,rfl,rfl,rfl⟩
    | cons x rest =>
      cases went
      unfold eachEntry
      split <;> exact ⟨rfl,rfl,rfl,rfl⟩
  | sweep rest stale force =>
    cases rest with
    | nil => cases went; exact ⟨rfl,rfl,rfl,rfl⟩
    | cons x rest =>
      cases went
      unfold sweepEntry
      split <;> exact ⟨rfl,rfl,rfl,rfl⟩
  | closeIdle rest =>
    cases rest with
    | nil => cases went; exact ⟨rfl,rfl,rfl,rfl⟩
    | cons c rest => cases went; exact ⟨rfl,rfl,rfl,rfl⟩
  | completeCallback cb => cases went

theorem dealtSame {w w' : World} (h : Dealt w) (d : Deals w w') : Dealt w' := by
  obtain ⟨index,threadNum,next,loopOf⟩ := d
  refine ⟨?_,?_⟩
  · rw [threadNum, index, next]
    exact h.index
  · rw [threadNum, next, loopOf]
    exact h.loops

theorem dealtAccept {w : World} (h : Dealt w) (fd : Fd) (bufferSize : Nat) :
    Dealt (settle mainLoop [] (newConnection { w with acceptReady := false } fd bufferSize)) := by
  cases on : w.server.stopping with
  | true =>
    simp only [newConnection, on, if_true]
    exact dealtSame h ⟨rfl,rfl,rfl,rfl⟩
  | false =>
    simp only [newConnection, on, Bool.false_eq_true, if_false]
    refine ⟨fun some_ => ?_,fun c known => ?_⟩
    · simp only [settle, Host.add] at some_ ⊢
      rw [if_neg some_, h.index some_]
    · simp only [settle, Host.add, Function.update_apply] at known ⊢
      split
      · rename_i new
        by_cases none_ : w.server.threadNum = 0
        · simp only [nextLoop, none_, if_true]
        · simp only [nextLoop, if_neg none_, h.index none_, new]
      · rename_i old
        exact h.loops c (Nat.lt_of_le_of_ne (Nat.le_of_lt_succ known) old)

theorem dealtStep {w w' : World} {a : Action} (h : Dealt w) (taken : step w a = some w') : Dealt w' := by
  cases takenCases taken with
  | start runs =>
    unfold startServer
    split
    · exact h
    · exact dealtSame h ⟨rfl,rfl,rfl,rfl⟩
  | goOn top went =>
    obtain ⟨index,threadNum,next,loopOf⟩ := dealsGoOn went
    exact dealtSame h ⟨index,threadNum,next,loopOf⟩
  | accept idle ready free => exact dealtAccept h _ _
  | checkTimer between armed =>
    split
    · obtain ⟨index,threadNum,next,loopOf⟩ := dealsFinalize w false
      exact dealtSame h ⟨index,threadNum,next,loopOf⟩
    · exact dealtSame h ⟨rfl,rfl,rfl,rfl⟩
  | deadlineTimer between armed =>
    obtain ⟨index,threadNum,next,loopOf⟩ :=
      dealsFinalize { w with server := { w.server with deadlineTimer := false }, deadlineRan := true } true
    exact dealtSame h ⟨index,threadNum,next,loopOf⟩
  | userConn runs known | userStop runs | ret top callback | runQueued idle head loop handled | poll idle
  | event idle known up ok | scanIdle between armed => exact dealtSame h ⟨rfl,rfl,rfl,rfl⟩

theorem dealtInitial {w : World} (h : Initial w) : Dealt w := by
  obtain ⟨threadNum,callbacks,mark,idleTimeout,same⟩ := h
  subst same
  exact ⟨fun _ => rfl,fun c known => absurd known (Nat.not_lt_zero c)⟩

/- How many connections loop `l` has been given. -/
def load (w : World) (l : ThreadId) : Nat := w.host.next.count (fun c => w.host.loopOf c = l)

theorem loadShare {w : World} (h : Dealt w) (some_ : 0 < w.server.threadNum) {i : Nat} (loop : i < w.server.threadNum) :
    load w (i + 1) = w.host.next / w.server.threadNum + if i < w.host.next % w.server.threadNum then 1 else 0 := by
  have share := Nat.count_modEq_card w.host.next some_ i
  rw [Nat.mod_eq_of_lt loop] at share
  rw [← share, load, Nat.count_eq_card_filter_range, Nat.count_eq_card_filter_range]
  congr 1
  refine Finset.filter_congr (fun c member => ?_)
  rw [h.loops c (Finset.mem_range.mp member), if_neg (Nat.ne_of_gt some_), Nat.ModEq, Nat.mod_eq_of_lt loop,
    Nat.add_right_cancel_iff]

theorem ledgerReached {w : World} (reachable : Reachable step Initial w) : Ledger w :=
  reachableInvariant (fun _ => ledgerInitial) (fun _ _ _ => ledgerStep) reachable

/- In every state of every run, whatever has closed meanwhile: the k-th connection accepted
lives on sub loop k modulo their number, so that of any two of them one has been given at most
one connection more than the other; without sub loops all live on the main loop. -/
theorem dealtInTurn {w : World} (reachable : Reachable step Initial w) :
    (w.server.threadNum = 0 → ∀ c < w.host.next, w.host.loopOf c = mainLoop) ∧
      (w.server.threadNum ≠ 0 → (∀ c < w.host.next, w.host.loopOf c = c % w.server.threadNum + 1) ∧
        ∀ i < w.server.threadNum, ∀ j < w.server.threadNum, load w (i + 1) ≤ load w (j + 1) + 1) := by
  have h : Dealt w := reachableInvariant (fun _ => dealtInitial) (fun _ _ _ => dealtStep) reachable
  refine ⟨fun none_ c known => ?_,fun some_ => ⟨fun c known => ?_,fun i loop j loop' => ?_⟩⟩
  · rw [h.loops c known, if_pos none_]
  · rw [h.loops c known, if_neg some_]
  · rw [loadShare h (Nat.pos_of_ne_zero some_) loop, loadShare h (Nat.pos_of_ne_zero some_) loop']
    split <;> split <;> omega

/- Three connections on two sub loops. -/
def threeOnTwo : List Action :=
  [.start,.poll,.accept 5 64,.goOn 0,.poll,.accept 6 64,.goOn 0,.poll,.accept 7 64,.goOn 0]

theorem dealtInTurnThree : ∃ w, run step (constructed 2 quiet 1 false) threeOnTwo = some w ∧ w.host.loopOf 2 = 1 ∧
    load w 1 ≤ load w 2 + 1 := by
  have reached : ∃ w, run step (constructed 2 quiet 1 false) threeOnTwo = some w ∧ w.server.threadNum = 2 ∧
      w.host.next = 3 := ⟨_,rfl,rfl,rfl⟩
  obtain ⟨w,taken,threads,three⟩ := reached
  have dealt := dealtInTurn ⟨_,_,⟨2,quiet,1,false,rfl⟩,taken⟩
  rw [threads, three] at dealt
  exact ⟨w,taken,(dealt.2 (by decide)).1 2 (by decide),(dealt.2 (by decide)).2 0 (by decide) 1 (by decide)⟩

/- What another thread may have done to a connection. -/
structure StateOnly (c c' : TcpConnection) : Prop where
  rest : c' = { c with state := c'.state }
  state : c'.state = c.state ∨ c'.state = .disconnecting ∧ (c.state = .connected ∨ c.state = .disconnecting)

theorem stateOnlySame (c : TcpConnection) : StateOnly c c := ⟨rfl,.inl rfl⟩

theorem requestStateOnly (e : Endpoint) (t : ThreadId) (call : UserCall) :
    StateOnly e.conn (e.request t call).1.conn ∧ (e.request t call).1.poller = e.poller := by
  cases call with
  | send data =>
    simp only [request, send]
    split <;> exact ⟨stateOnlySame _,rfl⟩
  | shutdown =>
    simp only [request, shutdown]
    split
    · rename_i connected
      exact ⟨⟨rfl,.inr ⟨rfl,.inl connected⟩⟩,rfl⟩
    · exact ⟨stateOnlySame _,rfl⟩
  | forceClose =>
    simp only [request, forceClose]
    split
    · rename_i isOpen
      exact ⟨⟨rfl,.inr ⟨rfl,openState isOpen⟩⟩,rfl⟩
    · exact ⟨stateOnlySame _,rfl⟩

/- What a step of another thread leaves of a connection and of the poller of its loop. -/
structure Confined (w w' : World) (c : ConnId) : Prop where
  conn : StateOnly (w.conn c) (w'.conn c)
  poller : w'.host.pollers (w.host.loopOf c) = w.host.pollers (w.host.loopOf c)
  loop : w'.host.loopOf c = w.host.loopOf c

theorem confinedHost {w : World} {out : Effect} (host : out.1.host = w.host) (t : ThreadId) (below : List Act) (c : ConnId) :
    Confined w (settle t below out) c := by
  refine ⟨?_,?_,?_⟩
  · rw [connSettle, World.connSame host]
    exact stateOnlySame _
  · simp only [settle, host]
  · simp only [settle, host]

theorem memberThread {w : World} {t : ThreadId} {c : ConnId} {a : Action} {top : List Act} {out : Endpoint × List Frame}
    (home : t = w.host.loopOf c) (does : Member w t c a top out) : threadOf w a = t := by
  cases does with
  | resume own => rfl
  | run => rfl
  | event idle up ok => exact home.symm

/- A connection of sub loop 1 has been established; thread 3 shuts it down. -/
def upOnOne : List Action := [.start,.poll,.accept 5 64,.goOn 0,.runQueued 1,.goOn 1]

end TcFrame.TcpServer
