import TcFrame.ConnectionInput
import TcFrame.ConnectionStream

/-! The high-water notifications of a connection. SendInLoop compares the length of the output
buffer before and after its append; writes take bytes out elsewhere, and the callback may send
again before SendInLoop goes on. -/
namespace TcFrame.Connection
open Endpoint Machine

def outputLength (w : World) : Nat := w.conn.outputBuffer.readableBytes

def crosses (mark old new : Nat) : Bool := decide (old < mark) && decide (mark ≤ new)

def highWater : Frame → Option Nat
  | .highWaterMarkCallback pending => some pending
  | _ => none

/- What a step leaves of the stack that it finds. -/
def remains (w : World) : Action → List Frame
  | .resume | .ret => w.stack.tail
  | _ => w.stack

/- The high-water callbacks that a step invokes, by their argument: those among the frames it
puts on the stack. -/
def invoked (w : World) (a : Action) (w' : World) : List Nat :=
  (w'.stack.take (w'.stack.length - (remains w a).length)).filterMap highWater

/- What a step does to the output: SendInLoop appends one message, and anything else adds
nothing and invokes nothing. -/
inductive Sends (w w' : World) (calls : List Nat) : Prop where
  | appends (m : Message) (passed : w'.passed = w.passed ++ [m])
      (size : outputLength w' = outputLength w + m.data.length)
      (made : calls = if crosses w.conn.highWaterMark (outputLength w) (outputLength w') then [outputLength w'] else [])
  | leaves (passed : w'.passed = w.passed) (size : outputLength w' ≤ outputLength w) (none_ : calls = [])

theorem invokedFrames {w w' : World} {a : Action} {frames : List Frame} (stack_ : w'.stack = frames ++ remains w a) :
    invoked w a w' = frames.filterMap highWater := by
  rw [invoked, stack_, List.length_append, Nat.add_sub_cancel, List.take_left]

theorem leavesSends {w w' : World} {a : Action} {frames : List Frame} (stack_ : w'.stack = frames ++ remains w a)
    (none_ : frames.filterMap highWater = []) (passed : w'.passed = w.passed) (size : outputLength w' ≤ outputLength w) :
    Sends w w' (invoked w a w') :=
  .leaves passed size ((invokedFrames stack_).trans none_)

theorem callSilent (set : Bool) {f : Frame} (other : highWater f = none) :
    (TcpConnection.call set f).filterMap highWater = [] := by
  cases set <;> simp [TcpConnection.call, other]

/- No function but SendInLoop invokes the callback or adds to the output. -/
theorem changeLeaves {e e' : Endpoint} {frames : List Frame} (valid : e.conn.outputBuffer.Valid) (h : Change e e' frames) :
    e'.conn.outputBuffer.readableBytes ≤ e.conn.outputBuffer.readableBytes ∧ frames.filterMap highWater = [] ∧
      e'.conn.highWaterMark = e.conn.highWaterMark := by
  have wrote : ∀ {n}, n ≤ e.conn.outputBuffer.readableBytes →
      (e.written n).conn.outputBuffer.readableBytes ≤ e.conn.outputBuffer.readableBytes := by
    intro n accepted
    obtain ⟨valid',readable⟩ := Buffer.writeToFdKeeps valid accepted
    have size := Buffer.readableLength valid'
    rw [readable, List.length_drop, Buffer.readableLength valid] at size
    simp only [written]
    omega
  cases h with
  | ignored => exact ⟨Nat.le_refl _,rfl,rfl⟩
  | established fresh => exact ⟨Nat.le_refl _,callSilent _ rfl,rfl⟩
  | closed open_ done frames_ =>
    refine ⟨Nat.le_of_eq (by rw [done.output]),?_,done.mark⟩
    have silent := @callSilent e.conn.callbacks.close .closeCallback rfl
    rcases frames_ with made | made | made <;> rw [made]
    · rw [List.filterMap_append, silent]
      rfl
    · exact silent
    · rfl
  | received bs => exact ⟨Nat.le_refl _,callSilent _ rfl,rfl⟩
  | wrotePart connected accepted left => exact ⟨wrote accepted,rfl,rfl⟩
  | wroteAll connected accepted left => exact ⟨wrote accepted,callSilent _ rfl,rfl⟩
  | shutting pending =>
    obtain ⟨ch,conn,_⟩ := watchWritingConn e
    rw [conn]
    exact ⟨Nat.le_refl _,rfl,rfl⟩

theorem resumeLeaves (e : Endpoint) (f : Frame) :
    (e.resume f).1.conn.outputBuffer = e.conn.outputBuffer ∧ (e.resume f).2.filterMap highWater = [] ∧
      (e.resume f).1.conn.highWaterMark = e.conn.highWaterMark := by
  cases f with
  | sendTail =>
    obtain ⟨ch,conn,_⟩ := watchWritingConn e
    simp only [Endpoint.resume, conn]
    exact ⟨trivial,rfl,trivial⟩
  | closeSocket =>
    simp only [Endpoint.resume, closeSocket]
    split <;> exact ⟨rfl,rfl,rfl⟩
  | _ => exact ⟨rfl,rfl,rfl⟩

/- SendInLoop in state Connected: one test of the lengths around the append decides. -/
theorem sendInLoopNotifies {e : Endpoint} {data : Bytes} (connected : e.conn.isConnected = true)
    (valid : e.conn.outputBuffer.Valid) (set : e.conn.callbacks.highWaterMark = true) :
    (e.sendInLoop data).1.conn.outputBuffer.readableBytes = e.conn.outputBuffer.readableBytes + data.length ∧
      (e.sendInLoop data).2.filterMap highWater =
        (if crosses e.conn.highWaterMark e.conn.outputBuffer.readableBytes
            (e.sendInLoop data).1.conn.outputBuffer.readableBytes
          then [(e.sendInLoop data).1.conn.outputBuffer.readableBytes] else []) ∧
      (e.sendInLoop data).1.conn.highWaterMark = e.conn.highWaterMark := by
  have size := Buffer.readableLength (Buffer.appendValid valid data)
  rw [Buffer.appendReadable valid, List.length_append, Buffer.readableLength valid] at size
  simp only [sendInLoop, connected, Bool.not_true, Bool.false_eq_true, if_false]
  refine ⟨size.symm,?_,trivial⟩
  rw [List.filterMap_append, set, Bool.true_and, TcpConnection.call, crosses]
  split <;> rfl

/- A functor run on the loop's thread. -/
theorem execSends {w : World} {f : Functor} (valid : w.conn.outputBuffer.Valid)
    (set : w.conn.callbacks.highWaterMark = true) (fresh : f = .connectEstablished → w.state = .connecting) :
    Sends w (exec w f) ((w.ep.run f).2.filterMap highWater) ∧ (exec w f).conn.highWaterMark = w.conn.highWaterMark := by
  have ep := (execRun w f).1
  have other : (∀ m, f ≠ .sendInLoop m) → (exec w f).passed = w.passed →
      Sends w (exec w f) ((w.ep.run f).2.filterMap highWater) ∧ (exec w f).conn.highWaterMark = w.conn.highWaterMark := by
    intro not_ passed
    obtain ⟨size,none_,mark⟩ := changeLeaves valid (runChange w.ep not_ fresh)
    rw [← ep] at size mark
    exact ⟨.leaves passed size none_,mark⟩
  cases f with
  | sendInLoop m =>
    cases connected : w.ep.conn.isConnected with
    | true =>
      obtain ⟨size,made,mark⟩ := @sendInLoopNotifies w.ep m.data connected valid set
      have ran : w.ep.run (.sendInLoop m) = w.ep.sendInLoop m.data := rfl
      rw [← ran, ← ep] at size made mark
      refine ⟨.appends m ?_ size made,mark⟩
      simp only [exec, World.conn, connected, if_true]
    | false =>
      have refused : w.ep.run (.sendInLoop m) = (w.ep,[]) := sendInLoopRefused connected
      rw [refused] at ep ⊢
      refine ⟨.leaves ?_ (Nat.le_of_eq ?_) rfl,?_⟩
      · simp [exec, World.conn, connected, continueWith]
      · rw [outputLength, World.conn, ep]
        rfl
      · rw [World.conn, ep]
        rfl
  | _ => exact other (by simp) rfl

/- A public call itself touches neither the output nor the mark. -/
theorem requestLeaves (w : World) (t : ThreadId) (c : UserCall) :
    (request w t c).1.conn.outputBuffer = w.conn.outputBuffer ∧
      (request w t c).1.conn.highWaterMark = w.conn.highWaterMark := by
  cases c <;> simp only [request, send, shutdown, forceClose] <;> split <;> exact ⟨rfl,rfl⟩

theorem userSends {w : World} (c : UserCall) (valid : w.conn.outputBuffer.Valid)
    (set : w.conn.callbacks.highWaterMark = true) :
    Sends w (runInline (request w loopThread c)) (invoked w (.user c) (runInline (request w loopThread c))) ∧
      (runInline (request w loopThread c)).conn.highWaterMark = w.conn.highWaterMark := by
  obtain ⟨output,mark⟩ := requestLeaves w loopThread c
  have passed := (requestLogs w loopThread c).2.1
  have called := requestCalled w loopThread c
  have size : outputLength (request w loopThread c).1 = outputLength w := congrArg Buffer.readableBytes output
  unfold runInline
  split
  · rw [@invokedFrames w _ (.user c) [] (by rw [called.stack]; rfl)]
    exact ⟨.leaves passed (Nat.le_of_eq size) rfl,mark⟩
  · rename_i f handed
    obtain ⟨sends,mark'⟩ := @execSends (request w loopThread c).1 f (by rw [output]; exact valid) (by rw [called.callbacks]; exact set)
      (fun same => absurd same (handedBegun handed))
    rw [@invokedFrames w _ (.user c) ((request w loopThread c).1.ep.run f).2 (by rw [(execRun _ f).2, called.stack]; rfl)]
    refine ⟨?_,mark'.trans mark⟩
    cases sends with
    | appends m grown size' made =>
      rw [size] at size' made
      rw [mark] at made
      exact .appends m (by rw [grown, passed]) size' made
    | leaves same size' none_ => exact .leaves (same.trans passed) (size ▸ size') none_

/- Every step sends as it should, and none moves the mark. -/
theorem stepSends {w w' : World} {a : Action} (stream : Stream w.ep (streamOf w))
    (set : w.conn.callbacks.highWaterMark = true) (taken : step w a = some w') :
    Sends w w' (invoked w a w') ∧ w'.conn.highWaterMark = w.conn.highWaterMark := by
  have valid := stream.valid
  have functor : ∀ (v : World) (f : Functor), v.ep = w.ep → v.passed = w.passed → v.stack = w.stack →
      remains w a = w.stack → (f = .connectEstablished → v.state = .connecting) →
      Sends w (exec v f) (invoked w a (exec v f)) ∧ (exec v f).conn.highWaterMark = w.conn.highWaterMark := by
    intro v f ep passed stack_ left fresh
    have conn : v.conn = w.conn := congrArg Endpoint.conn ep
    obtain ⟨sends,mark⟩ := @execSends v f (by rw [conn]; exact valid) (by rw [conn]; exact set) fresh
    rw [invokedFrames (by rw [(execRun v f).2, stack_, left])]
    rw [conn] at mark
    refine ⟨?_,mark⟩
    have size : outputLength v = outputLength w := by rw [outputLength, conn, outputLength]
    cases sends with
    | appends m grown size' made =>
      rw [size] at size' made
      rw [conn] at made
      exact .appends m (by rw [grown, passed]) size' made
    | leaves same size' none_ => exact .leaves (same.trans passed) (size ▸ size') none_
  cases stepCases taken with
  | establish idle fresh => exact functor w _ rfl rfl rfl rfl (fun _ => fresh)
  | destroy idle => exact functor w _ rfl rfl rfl rfl (by simp)
  | @event ev idle up ok =>
    obtain ⟨size,none_,mark⟩ := changeLeaves valid (handleChange w.ep ok)
    have stack_ : (continueWith w (handle w.ep ev) []).stack = (handle w.ep ev).2 ++ w.stack := by rw [idle]; rfl
    exact ⟨leavesSends stack_ none_ rfl size,mark⟩
  | @runQueued f rest idle head fresh => exact functor { w with queue := rest } f rfl rfl rfl rfl fresh
  | @resume f below top own =>
    obtain ⟨output,none_,mark⟩ := resumeLeaves w.ep f
    have stack_ : (continueWith w (w.ep.resume f) below).stack = (w.ep.resume f).2 ++ w.stack.tail := by rw [top]; rfl
    exact ⟨leavesSends stack_ none_ rfl (Nat.le_of_eq (congrArg Buffer.readableBytes output)),mark⟩
  | @ret f below top callback =>
    have stack_ : below = [] ++ w.stack.tail := by rw [top]; rfl
    exact ⟨leavesSends stack_ rfl rfl (Nat.le_refl _),rfl⟩
  | @user c runs => exact userSends c valid set
  | @foreign t c other free =>
    obtain ⟨output,mark⟩ := requestLeaves w t c
    have stack_ : (request w t c).1.stack = [] ++ w.stack := (requestCalled w t c).stack
    exact ⟨leavesSends stack_ rfl (requestLogs w t c).2.1 (Nat.le_of_eq (congrArg Buffer.readableBytes output)),mark⟩
  | @push t f flying => exact ⟨@leavesSends w _ (.push t) [] rfl rfl rfl (Nat.le_refl _),rfl⟩
  | @environment x w' done =>
    obtain ⟨poller,isOpen,same,_⟩ := environmentCases done
    subst same
    exact ⟨@leavesSends w _ (.environment x) [] rfl rfl rfl (Nat.le_refl _),rfl⟩

/- The appends of a run with the lengths around them, and the notifications. -/
structure History where
  appends : List (Nat × Nat)
  calls : List Nat
  deriving DecidableEq, Repr

def noteSends (w : World) (a : Action) (w' : World) (h : History) : History :=
  ⟨h.appends ++ (if w'.passed.length = w.passed.length then [] else [(outputLength w,outputLength w')]),
    h.calls ++ invoked w a w'⟩

/- The notifications that the appends call for. -/
def due (mark : Nat) (appends : List (Nat × Nat)) : List Nat :=
  (appends.filter (fun x => crosses mark x.1 x.2)).map Prod.snd

structure Notified (mark : Nat) (w : World) (h : History) : Prop where
  stream : Stream w.ep (streamOf w)
  set : w.conn.callbacks.highWaterMark = true
  mark_ : w.conn.highWaterMark = mark
  calls : h.calls = due mark h.appends

theorem notifiedStep {mark : Nat} {w w' : World} {a : Action} {h : History} (n : Notified mark w h)
    (taken : step w a = some w') : Notified mark w' (noteSends w a w' h) := by
  obtain ⟨sends,kept⟩ := stepSends n.stream n.set taken
  refine ⟨streamStep n.stream taken,by rw [stepCallbacks taken]; exact n.set,kept.trans n.mark_,?_⟩
  rw [noteSends, due, List.filter_append, List.map_append, ← due, n.calls]
  refine congrArg (due mark h.appends ++ ·) ?_
  cases sends with
  | appends m grown size made =>
    have longer : ¬ w'.passed.length = w.passed.length := by rw [grown]; simp
    rw [made, n.mark_, if_neg longer, List.filter_cons]
    split <;> rfl
  | leaves same size none_ => rw [none_, same, if_pos rfl, List.filter_nil, List.map_nil]

/- Every run of sends, writes and closes, with sends from within the notifications: the
callback is invoked once for each append that takes the output from below the mark to it or
above, with the length behind that append. Behind an invocation the length is at the mark or
above, before the next one below it. -/
theorem crossingsNotified {s : World} (start : Initial s) (set : s.conn.callbacks.highWaterMark = true) :
    (∀ w as h, run (recording step noteSends) (s,⟨[],[]⟩) as = some (w,h) → h.calls = due s.conn.highWaterMark h.appends) ∧
    ∀ (as bs : List Action) (b c : Action) (v v' w w' : World), run step s as = some v → step v b = some v' →
      run step v' bs = some w → step w c = some w' → invoked v b v' ≠ [] → invoked w c w' ≠ [] →
        s.conn.highWaterMark ≤ outputLength v' ∧ outputLength w < s.conn.highWaterMark := by
  have first : Notified s.conn.highWaterMark s ⟨[],[]⟩ := ⟨streamInitial start,set,rfl,rfl⟩
  have keep : ∀ (w : World) (a : Action) (w' : World), (∃ h, Notified s.conn.highWaterMark w h) → step w a = some w' →
      ∃ h, Notified s.conn.highWaterMark w' h := fun w a w' held taken => ⟨_,notifiedStep held.choose_spec taken⟩
  have notified : ∀ {w as}, run step s as = some w → ∃ h, Notified s.conn.highWaterMark w h :=
    fun reached => invariant keep ⟨_,first⟩ reached
  -- A step that invokes the callback crosses the mark.
  have crossed : ∀ {w w' a h}, Notified s.conn.highWaterMark w h → step w a = some w' → invoked w a w' ≠ [] →
      outputLength w < s.conn.highWaterMark ∧ s.conn.highWaterMark ≤ outputLength w' := by
    intro w w' a h n taken some_
    cases (stepSends n.stream n.set taken).1 with
    | appends m grown size made =>
      rw [made, n.mark_] at some_
      have over_ : crosses s.conn.highWaterMark (outputLength w) (outputLength w') = true := by
        by_contra under
        exact some_ (if_neg under)
      simpa [crosses] using over_
    | leaves same size none_ => exact absurd none_ some_
  have noted : ∀ (w : World) (a : Action) (w' : World) (h : History), Notified s.conn.highWaterMark w h →
      step w a = some w' → Notified s.conn.highWaterMark w' (noteSends w a w' h) := fun _ _ _ _ n taken => notifiedStep n taken
  refine ⟨fun w as h reached => (recordingInvariant noted first reached).calls,?_⟩
  intro as bs b c v v' w w' before invokes between again some_ some_'
  obtain ⟨_,n⟩ := notified before
  obtain ⟨_,n'⟩ := notified (runAppend before (runCons.mpr ⟨v',invokes,between⟩))
  exact ⟨(crossed n invokes some_).2,(crossed n' again some_').1⟩

/- A send from within the first notification, a partial write, and a second crossing. -/
def crossesTwice : List Action :=
  [.establish,.user (.send [1,2]),.resume,.user (.send [3,4]),.user (.send [5]),.resume,.ret,.resume,
    .event (.write (.ok 3)),.user (.send [6])]

theorem crossingsNotifiedTwice :
    ∃ w h, run (recording step noteSends) (fresh 5 ⟨false,false,false,false,true⟩ 3 8,⟨[],[]⟩) crossesTwice = some (w,h) ∧
      h.calls = due 3 h.appends ∧ h.appends = [(0,2),(2,4),(4,5),(2,3)] ∧ h.calls = [4,3] := by
  have told : (run (recording step noteSends) (fresh 5 ⟨false,false,false,false,true⟩ 3 8,⟨[],[]⟩) crossesTwice).map Prod.snd =
      some ⟨[(0,2),(2,4),(4,5),(2,3)],[4,3]⟩ := by decide
  obtain ⟨⟨w,h⟩,reached,noted⟩ := Option.map_eq_some_iff.mp told
  have calls := (crossingsNotified (freshInitial 5 ⟨false,false,false,false,true⟩ 3 8) rfl).1 w crossesTwice h reached
  cases noted
  exact ⟨w,_,reached,calls,rfl,rfl⟩

end TcFrame.Connection
