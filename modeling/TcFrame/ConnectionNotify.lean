import TcFrame.TcpServerEstablish
import TcFrame.TcpClientReconnect

/-! The connection callback. ConnectEstablished calls it; no closing function does. -/
namespace TcFrame
open Endpoint Machine

/- The calls that a connection in this state owes its user, with what IsConnected() says
in them. -/
def owedCalls : ConnectionState → List Bool
  | .connecting => []
  | .disconnected => [true,false]
  | _ => [true]

namespace Endpoint

theorem changeSilent {e e' : Endpoint} {frames : List Frame} (h : Change e e' frames) (begun : e.conn.state ≠ .connecting) :
    .connectionCallback ∉ frames := by
  cases h with
  | established fresh => exact absurd fresh begun
  | closed open_ done frames_ => rcases frames_ with same | same | same <;> simp [same, TcpConnection.call]
  | _ => simp [TcpConnection.call]

theorem resumeSilent (e : Endpoint) (f : Frame) : .connectionCallback ∉ (e.resume f).2 := by
  cases f with
  | closeSocket =>
    simp only [resume, closeSocket]
    split <;> simp
  | _ => simp [resume]

theorem runSilent {e : Endpoint} {f : Functor} (begun : f ≠ .connectDestroyed → e.conn.state ≠ .connecting)
    (other : f ≠ .connectEstablished) : .connectionCallback ∉ (e.run f).2 := by
  cases f with
  | connectEstablished => exact absurd rfl other
  | connectDestroyed =>
    simp only [run, connectDestroyed]
    split <;> simp
  | sendInLoop m =>
    cases passes : e.conn.isConnected with
    | true =>
      obtain ⟨_,notify,frames⟩ := @sendInLoopPassed e m.data passes
      simp [run, frames, TcpConnection.call]
    | false => simp [run, sendInLoopRefused passes]
  | shutdownInLoop => exact changeSilent (shutdownInLoopChange e) (begun (by simp))
  | forceCloseInLoop => exact changeSilent (forceCloseInLoopChange e) (begun (by simp))

end Endpoint

namespace TcpServer

/- The calls of a connection's callback so far, with what IsConnected() said in them. -/
def notes (c : ConnId) (w : World) (_ : Action) (w' : World) (told : List Bool) : List Bool :=
  let l := w'.host.loopOf c
  if (w.stack l).count (.conn c .connectionCallback) < (w'.stack l).count (.conn c .connectionCallback) then
    told ++ [(w'.conn c).isConnected]
  else told

/- A step that does not call it. -/
structure Untold (c : ConnId) (w w' : World) : Prop where
  frames : ∀ l, (w'.stack l).count (.conn c .connectionCallback) ≤ (w.stack l).count (.conn c .connectionCallback)
  old : c < w.host.next → ((w'.conn c).state = .connecting ↔ (w.conn c).state = .connecting) ∧
    (w'.conn c).callbacks = (w.conn c).callbacks
  new : w.host.next ≤ c → c < w'.host.next → (w'.conn c).state = .connecting

/- The step that runs ConnectEstablished. -/
structure Tells (c : ConnId) (w w' : World) : Prop where
  known : c < w.host.next
  fresh : (w.conn c).state = .connecting
  state : (w'.conn c).state = .connected
  callbacks : (w'.conn c).callbacks = (w.conn c).callbacks
  frames : (w.conn c).callbacks.connection = true →
    (w.stack (w'.host.loopOf c)).count (.conn c .connectionCallback) <
      (w'.stack (w'.host.loopOf c)).count (.conn c .connectionCallback)

theorem untoldSettle {w : World} {t : ThreadId} {top below : List Act} {out : Effect} {c : ConnId}
    (split : w.stack t = top ++ below) (stack : out.1.stack = w.stack) (next : out.1.host.next = w.host.next)
    (silent : .conn c .connectionCallback ∉ out.2)
    (old : ((out.1.conn c).state = .connecting ↔ (w.conn c).state = .connecting) ∧
      (out.1.conn c).callbacks = (w.conn c).callbacks) : Untold c w (settle t below out) := by
  refine ⟨fun l => ?_,fun _ => old,fun unknown known => ?_⟩
  · simp only [settle, stack, Function.update_apply]
    split
    · rename_i here
      rw [here, split, List.count_append, List.count_append, List.count_eq_zero.mpr silent]
      omega
    · exact Nat.le_refl _
  · exact absurd (next ▸ known) (Nat.not_lt_of_le unknown)

theorem untoldServer {w : World} {t : ThreadId} {top below : List Act} {out : Effect} {c : ConnId}
    (split : w.stack t = top ++ below) (stack : out.1.stack = w.stack) (host : out.1.host = w.host)
    (silent : .conn c .connectionCallback ∉ out.2) : Untold c w (settle t below out) :=
  untoldSettle split stack (by rw [host]) silent (by rw [World.connSame host]; exact ⟨Iff.rfl,rfl⟩)

theorem memberSilent {w : World} {a : Action} {t : ThreadId} {c : ConnId} {top : List Act} {out : Endpoint × List Frame}
    (does : Member w t c a top out) (other : top ≠ [.call t (established c)])
    (begun : ∀ f, top = [.call t (.conn c f)] → later f = true → (w.conn c).state ≠ .connecting) :
    .connectionCallback ∉ out.2 := by
  cases does with
  | resume own => exact resumeSilent _ _
  | @run f =>
    have apart : f ≠ .connectEstablished := by
      rintro rfl
      exact other rfl
    exact runSilent (fun kept => begun f rfl (by simp [later, apart, kept])) apart
  | @event ev idle up ok => exact changeSilent (Connection.handleChange _ ok) up

theorem sameMember {w : World} {a : Action} {t : ThreadId} {c : ConnId} {top : List Act} {out : Endpoint × List Frame}
    (does : Member w t c a top out) : Same (w.host.endpoint c) out.1 := by
  cases does with
  | resume own => exact sameResume _ _
  | run => exact sameRun _
  | event idle up ok => exact sameChange (Connection.handleChange _ ok)

theorem establishTells {w : World} {c : ConnId} {below : List Act} (h : Births w) (known : c < w.host.next)
    (split : w.stack (w.host.loopOf c) = .call (w.host.loopOf c) (established c) :: below) :
    Tells c w (settle (w.host.loopOf c) below (ofConn w c ((w.host.endpoint c).run .connectEstablished))) := by
  refine ⟨known,establishedFresh h known split,?_,putCallbacks (sameRun _) c,fun set => ?_⟩
  · simp [ofConn, Endpoint.run, connectEstablished, enableReading, setState]
  · have set' : (w.host.endpoint c).conn.callbacks.connection = true := set
    simp [settle, ofConn, World.putHost, Host.put, Endpoint.run, connectEstablished, TcpConnection.call, set', split]

theorem notifyTurn {w w' : World} {a : Action} (c : ConnId) (r : Registry w) (p : Placed w) (h : Births w)
    (taken : step w a = some w') : Untold c w w' ∨ Tells c w w' := by
  cases turnCases r p taken with
  | @member t d top below out known home split does =>
    by_cases special : top = [.call t (established d)]
    · subst special home
      cases does with
      | run =>
        have tells := establishTells h known split
        by_cases here : c = d
        · rw [here]
          exact .inr tells
        · refine .inl (untoldSettle split rfl rfl ?_ ?_)
          · simpa [ofConn] using fun _ same => here same.symm
          · simp [ofConn, here]
    · have begun : ∀ f, top = [.call t (.conn d f)] → later f = true → (w.conn d).state ≠ .connecting :=
        fun f same waits => h.calls t t d f (by simp [split, same]) waits
      have silent := memberSilent does special begun
      refine .inl (untoldSettle split rfl rfl ?_ ?_)
      · intro member
        obtain ⟨f,made,same⟩ := List.mem_map.mp member
        cases same
        exact silent made
      · exact ⟨putState .connecting (memberBegins does special begun) c,putCallbacks (sameMember does) c⟩
  | @request t d call top below again known split caller =>
    have silent : .conn c .connectionCallback ∉ again := by cases caller <;> simp
    refine .inl (untoldSettle split rfl rfl ?_ ?_)
    · intro member
      rcases List.mem_append.mp member with handed | rest
      · obtain ⟨f,_,same⟩ := List.mem_map.mp handed
        cases same
      · exact silent rest
    · exact ⟨putState .connecting (requestBegins _ _ _) c,putCallbacks (sameRequest _ _ _) c⟩
  | @close t d below home split =>
    exact .inl (untoldServer (topSplit split) rfl rfl (by simp))
  | @hand t l task below split other home =>
    exact .inl (untoldServer (topSplit split) rfl rfl (by simp))
  | take idle head loop => exact .inl (untoldServer (idleSplit idle) rfl rfl (by simp))
  | @remove d below out known ran split does =>
    refine .inl (untoldServer (topSplit split) does.stack does.host ?_)
    rcases does.outcome with ⟨_,_,none_⟩ | ⟨_,_,_,_,_,acts⟩
    · simp [none_]
    · simp [acts]
  | @sweepErase x rest stale force below known split off =>
    exact .inl (untoldServer (topSplit split) rfl rfl (by simp))
  | @sweepEnd stale force below split =>
    refine .inl (untoldServer (topSplit split) rfl rfl ?_)
    cases force <;> simp [sweepEnd]
  | @sweepNext x rest stale force below split on =>
    exact .inl (untoldServer (topSplit split) rfl rfl (by simp))
  | @skip top again below split skips =>
    refine .inl (untoldServer (topSplit split) rfl rfl ?_)
    cases skips <;> simp
  | serve split own calm does =>
    exact .inl (untoldServer split does.stack does.host (fun member => does.acts _ member))
  | accept idle free made =>
    refine .inl ⟨fun l => ?_,fun known => ?_,fun unknown known => ?_⟩
    · by_cases main : l = mainLoop
      · rw [main, made.main, idle]
        simp
      · rw [made.apart l main]
    · rw [(made.old c known).1]
      exact ⟨Iff.rfl,rfl⟩
    · rw [made.next] at known
      obtain ⟨_,_,_,new⟩ := made.new
      rw [Nat.le_antisymm (Nat.le_of_lt_succ known) unknown, new]
      rfl

structure Told (c : ConnId) (w : World) (told : List Bool) : Prop where
  unmade : w.host.next ≤ c → told = []
  made : c < w.host.next → (w.conn c).callbacks.connection = true →
    told = if (w.conn c).state = .connecting then [] else [true]

theorem toldStep {w w' : World} {a : Action} {c : ConnId} {told : List Bool} (r : Registry w) (p : Placed w) (b : Births w)
    (h : Told c w told) (taken : step w a = some w') : Told c w' (notes c w a w' told) := by
  have next := (registryStep r taken).2.next
  rcases notifyTurn c r p b taken with u | t
  · have quiet : notes c w a w' told = told := if_neg (Nat.not_lt_of_le (u.frames _))
    rw [quiet]
    refine ⟨fun unknown => h.unmade (Nat.le_trans next unknown),fun known set => ?_⟩
    by_cases before : c < w.host.next
    · obtain ⟨state,callbacks⟩ := u.old before
      rw [callbacks] at set
      simpa only [state] using h.made before set
    · rw [if_pos (u.new (Nat.le_of_not_lt before) known)]
      exact h.unmade (Nat.le_of_not_lt before)
  · refine ⟨fun unknown => absurd (Nat.lt_of_lt_of_le t.known next) (Nat.not_lt_of_le unknown),fun known set => ?_⟩
    rw [t.callbacks] at set
    have said : notes c w a w' told = told ++ [(w'.conn c).isConnected] := if_pos (t.frames set)
    rw [said, h.made t.known set, if_pos t.fresh, t.state]
    simp [TcpConnection.isConnected, t.state]

theorem toldReachable {s w : World} {as : List Action} {c : ConnId} {told : List Bool} (start : Initial s)
    (reached : run (recording step (notes c)) (s,[]) as = some (w,told)) : Told c w told := by
  let inv (u : World) (told : List Bool) : Prop := Registry u ∧ Placed u ∧ Births u ∧ Told c u told
  have first : inv s [] := by
    refine ⟨registryInitial start,placedInitial start,birthsInitial start,fun _ => rfl,fun known => ?_⟩
    obtain ⟨_,_,_,_,same⟩ := start
    subst same
    exact absurd known (Nat.not_lt_zero c)
  have keep : ∀ u a v told, inv u told → step u a = some v → inv v (notes c u a v told) := by
    rintro u a v told ⟨r,p,b,h⟩ taken
    exact ⟨(registryStep r taken).1,placedStep r p taken,birthsStep r p b taken,toldStep r p b h taken⟩
  exact (recordingInvariant keep first reached).2.2.2

end TcpServer

namespace TcpClient

def notes (c : ConnId) (w : World) (_ : Action) (w' : World) (told : List Bool) : List Bool :=
  if (w.stack loopThread).count (.conn c .connectionCallback) < (w'.stack loopThread).count (.conn c .connectionCallback) then
    told ++ [(w'.conns c).isConnected]
  else told

structure Untold (c : ConnId) (w w' : World) : Prop where
  frames : (w'.stack loopThread).count (.conn c .connectionCallback) ≤
    (w.stack loopThread).count (.conn c .connectionCallback)
  next : w.next ≤ w'.next ∧ (c < w'.next → c < w.next)
  old : c < w.next → ((w.conns c).state ≠ .connecting → (w'.conns c).state ≠ .connecting) ∧
    (w'.conns c).callbacks = (w.conns c).callbacks

/- The step that makes it: HandleConnect runs ConnectEstablished itself. -/
structure Tells (c : ConnId) (w w' : World) : Prop where
  unmade : w.next ≤ c
  made : c < w'.next
  state : (w'.conns c).state = .connected
  frames : (w'.conns c).callbacks.connection = true →
    (w.stack loopThread).count (.conn c .connectionCallback) < (w'.stack loopThread).count (.conn c .connectionCallback)

theorem untoldSettle {w : World} {t : ThreadId} {below : List Act} {out : Effect} {c : ConnId}
    (suffix : below <:+ w.stack t) (stack : out.1.stack = w.stack) (next : out.1.next = w.next)
    (silent : .conn c .connectionCallback ∉ out.2)
    (old : ((w.conns c).state ≠ .connecting → (out.1.conns c).state ≠ .connecting) ∧
      (out.1.conns c).callbacks = (w.conns c).callbacks) : Untold c w (settle t below out) := by
  have same : (settle t below out).next = w.next := next
  refine ⟨?_,⟨by rw [same],fun known => by rwa [same] at known⟩,fun _ => old⟩
  simp only [settle, stack, Function.update_apply]
  split
  · rename_i here
    rw [here, List.count_append, List.count_eq_zero.mpr silent, Nat.zero_add]
    exact suffix.sublist.count_le _
  · exact Nat.le_refl _

theorem untoldSame {w : World} {t : ThreadId} {below : List Act} {out : Effect} {c : ConnId}
    (suffix : below <:+ w.stack t) (stack : out.1.stack = w.stack) (next : out.1.next = w.next)
    (conns : out.1.conns = w.conns) (silent : .conn c .connectionCallback ∉ out.2) : Untold c w (settle t below out) :=
  untoldSettle suffix stack next silent (by rw [conns]; exact ⟨fun begun => begun,rfl⟩)

theorem untoldConn {w : World} {t : ThreadId} {below : List Act} {c d : ConnId} {out : Endpoint × List Frame}
    (suffix : below <:+ w.stack t) (same : Same (w.endpoint d) out.1)
    (begun : out.1.conn.state ≠ .connecting) (silent : .connectionCallback ∉ out.2) :
    Untold c w (settle t below (ofConn w d out)) := by
  refine untoldSettle suffix rfl rfl ?_ ?_
  · intro member
    obtain ⟨f,made,here⟩ := List.mem_map.mp member
    cases here
    exact silent made
  · by_cases here : c = d
    · subst here
      simp only [ofConn, putSame]
      exact ⟨fun _ => begun,same.callbacks⟩
    · rw [ofConn, putOther w _ here]
      exact ⟨fun before => before,rfl⟩

theorem untoldCall {w : World} {t : ThreadId} {below : List Act} {c d : ConnId} {call : UserCall}
    (suffix : below <:+ w.stack t) : Untold c w (settle t below (callConn w t d call)) := by
  refine untoldSettle suffix rfl rfl (by simp [callConn]) ?_
  by_cases here : c = d
  · subst here
    simp only [callConn, putSame]
    exact ⟨(requestMonotone (w.endpoint c) t call).1,(sameRequest _ t call).callbacks⟩
  · rw [callConn, putOther w _ here]
    exact ⟨fun before => before,rfl⟩

theorem notifyHandle {w v : World} {below : List Act} {fd : Fd} {bufferSize : Nat} {tail : Act} (c : ConnId)
    (sound : Sound w) (suffix : below <:+ w.stack loopThread) (next : v.next = w.next)
    (conns : v.conns = w.conns) (tail_ : tail ≠ .conn c .connectionCallback) :
    let w' := settle loopThread below ((handleConnect v fd bufferSize).1,(handleConnect v fd bufferSize).2 ++ [tail])
    Untold c w w' ∨ Tells c w w' := by
  have frames := handleConnectFrames v fd bufferSize
  have next' : (settle loopThread below
      ((handleConnect v fd bufferSize).1,(handleConnect v fd bufferSize).2 ++ [tail])).next = w.next + 1 := by
    simp [settle, handleConnect, ofConn, World.put, adopt, next]
  by_cases here : c = w.next
  · subst here
    refine .inr ⟨Nat.le_refl _,by rw [next']; exact Nat.lt_succ_self _,?_,fun set => ?_⟩
    · simp [settle, handleConnect, ofConn, World.endpoint, ← next, Endpoint.run, connectEstablished, enableReading, setState]
    · have unmade : .conn w.next .connectionCallback ∉ w.stack loopThread :=
        fun member => Nat.lt_irrefl _ (sound.fits _ _ member).2.1
      have set' : ((adopt v fd bufferSize).endpoint v.next).conn.callbacks.connection = true := by
        have kept := (sameRun ((adopt v fd bufferSize).endpoint v.next) (f := .connectEstablished)).callbacks
        rw [← kept]
        simpa [settle, handleConnect, ofConn, ← next] using set
      rw [List.count_eq_zero.mpr unmade]
      refine List.count_pos_iff.mpr ?_
      rw [next] at set'
      simp [settle, handleConnect, ofConn, Endpoint.run, connectEstablished, TcpConnection.call, next, set']
  · have other : .conn c .connectionCallback ∉ (handleConnect v fd bufferSize).2 ++ [tail] := by
      intro member
      rcases List.mem_append.mp member with called | last
      · have same := frames _ called
        rw [next] at same
        cases same
        exact here rfl
      · exact tail_ (List.mem_singleton.mp last).symm
    refine .inl ⟨?_,⟨by rw [next']; exact Nat.le_succ _,fun known => ?_⟩,fun known => ?_⟩
    · have shape : (settle loopThread below ((handleConnect v fd bufferSize).1,(handleConnect v fd bufferSize).2 ++ [tail])).stack
          loopThread = (handleConnect v fd bufferSize).2 ++ [tail] ++ below := by simp [settle]
      rw [shape, List.count_append, List.count_eq_zero.mpr other, Nat.zero_add]
      exact suffix.sublist.count_le _
    · rw [next'] at known
      exact Nat.lt_of_le_of_ne (Nat.le_of_lt_succ known) here
    · have apart : c ≠ v.next := by rw [next]; exact here
      have same : (settle loopThread below
          ((handleConnect v fd bufferSize).1,(handleConnect v fd bufferSize).2 ++ [tail])).conns c = w.conns c := by
        simp [settle, handleConnect, ofConn, apart, adopt, conns]
      rw [same]
      exact ⟨fun begun => begun,rfl⟩

theorem notifyConnect {w : World} {below : List Act} {fd : Fd} {bufferSize : Nat} {outcome : Outcome} (c : ConnId)
    (sound : Sound w) (suffix : below <:+ w.stack loopThread) :
    let w' := settle loopThread below (connect w fd bufferSize outcome)
    Untold c w w' ∨ Tells c w w' := by
  have opened : ∀ v : World, (openSocket v fd).stack = v.stack ∧ (openSocket v fd).next = v.next ∧
      (openSocket v fd).conns = v.conns :=
    fun v => ⟨(resetSocketRest v).2.2.2.1,(resetSocketRest v).2.1,(resetSocketRest v).1⟩
  obtain ⟨stack,next,conns⟩ := opened { w with client := { w.client with started := true, connecting := true } }
  unfold connect
  split
  · exact .inl (untoldSame suffix rfl rfl rfl (by simp))
  · cases outcome with
    | connected => exact notifyHandle c sound suffix next conns (by simp)
    | inProgress => exact .inl (untoldSame suffix stack next conns (by simp))
    | failed =>
      refine .inl (untoldSame suffix ?_ ?_ ?_ (by simp)) <;> dsimp only
      · rw [(resetSocketRest _).2.2.2.1]
        exact stack
      · rw [(resetSocketRest _).2.1]
        exact next
      · rw [(resetSocketRest _).1]
        exact conns

theorem notifyStep {w w' : World} {a : Action} (c : ConnId) (sound : Sound w)
    (begun : ∀ d < w.next, (w.conns d).state ≠ .connecting) (plain : Plain w) (taken : step w a = some w') :
    Untold c w w' ∨ Tells c w w' := by
  have under : ∀ {t f rest}, w.stack t = f :: rest → rest <:+ w.stack t := by
    intro t f rest top
    exact ⟨[f],top.symm⟩
  have none_ : ∀ t, [] <:+ w.stack t := fun t => List.nil_suffix
  have fits : ∀ {t f rest}, w.stack t = f :: rest → f.Fits w t := by
    intro t f rest top
    exact sound.fits t f (by simp [top])
  cases stepCases taken with
  | connect runs fresh => exact notifyConnect c sound List.suffix_rfl
  | disconnect runs =>
    unfold disconnect
    dsimp only
    split
    · rename_i d _
      have u := @untoldCall { w with client := { w.client with autoReconnect := false, started := false } } loopThread
        (w.stack loopThread) c d .shutdown List.suffix_rfl
      exact .inl ⟨u.frames,u.next,u.old⟩
    · exact .inl (untoldSame List.suffix_rfl rfl rfl rfl (by simp))
  | setAutoReconnect => exact .inl ⟨Nat.le_refl _,⟨Nat.le_refl _,id⟩,fun _ => ⟨id,rfl⟩⟩
  | user runs known => exact .inl (untoldCall List.suffix_rfl)
  | close top =>
    refine .inl (untoldSame (under top) rfl rfl rfl ?_)
    unfold handleRemoveConnection
    split <;> simp
  | @resume t d f rest top own =>
    have up := begun d (fits top).2.1
    exact .inl (untoldConn (under top) (sameResume _ _) (by rw [resumeState]; exact up) (resumeSilent _ _))
  | @run d f rest top =>
    obtain ⟨known,apart⟩ := fits top
    have other := plain.calls loopThread d f (by simp [top])
    exact .inl (untoldConn (under top) (sameRun _) ((runAdvances (w.endpoint d) other).begun (begun d known))
      (runSilent (fun _ => begun d known) apart))
  | post top other => exact .inl (untoldSame (under top) rfl rfl rfl (by simp))
  | connectTail top =>
    exact .inl (untoldSame (under top) (resetSocketRest w).2.2.2.1 (resetSocketRest w).2.1 (resetSocketRest w).1 (by simp))
  | @temporaryTail t ch d rest top =>
    obtain ⟨conns,next,_,_,_,stack,_⟩ := removeTemporaryRest (resetSocket w) ch
    exact .inl (untoldSame (under top) (stack.trans (resetSocketRest w).2.2.2.1) (next.trans (resetSocketRest w).2.1)
      (conns.trans (resetSocketRest w).1) (by simp))
  | removeTail top =>
    refine .inl (untoldSame (under top) ?_ ?_ ?_ (by simp)) <;> (unfold removeTail; split <;> rfl)
  | ret top callback => exact .inl (untoldSame (under top) rfl rfl rfl (by simp))
  | runQueued idle head => exact .inl (untoldSame (none_ _) rfl rfl rfl (by simp))
  | @event d ev idle known ok =>
    have up := begun d known
    exact .inl (untoldConn (none_ _) (sameChange (Connection.handleChange _ ok))
      ((handleAdvances (w.endpoint d) ev).begun up) (changeSilent (Connection.handleChange _ ok) up))
  | @temporaryEvent k ch revents err bufferSize out idle waiting found watched out_ =>
    unfold handleEvent at out_
    split at out_
    · cases out_
      exact .inl (untoldSame (none_ _) rfl rfl rfl (by simp))
    · unfold writeCallback at out_
      split at out_
      · cases out_
        have rest : ∀ v : World, (retry v).stack = v.stack ∧ (retry v).next = v.next ∧ (retry v).conns = v.conns := by
          intro v
          unfold retry
          split <;> exact ⟨rfl,rfl,rfl⟩
        obtain ⟨conns,next,_,_,_,stack,_⟩ := removeTemporaryRest (retry { w with
          temporaries := Function.update w.temporaries k none, client := { w.client with connecting := false } }) ch
        obtain ⟨stack',next',conns'⟩ := rest { w with
          temporaries := Function.update w.temporaries k none, client := { w.client with connecting := false } }
        exact .inl (untoldSame (none_ _) (stack.trans stack') (next.trans next') (conns.trans conns') (by simp))
      · split at out_ <;> cases out_
        exact notifyHandle c sound (none_ _) rfl rfl (by simp)
  | reconnect idle fresh =>
    rw [doReconnectIgnored]
    exact .inl (untoldSame (none_ _) rfl rfl rfl (by simp))
  | environment done =>
    obtain ⟨_,_,poller,isOpen,same,_⟩ := environmentWithin done
    subst same
    exact .inl ⟨Nat.le_refl _,⟨Nat.le_refl _,id⟩,fun _ => ⟨id,rfl⟩⟩

def Begun (w : World) : Prop := ∀ c < w.next, (w.conns c).state ≠ .connecting

theorem begunStep {w w' : World} {a : Action} (sound : Sound w) (plain : Plain w) (begun : Begun w)
    (taken : step w a = some w') : Begun w' := by
  intro c known
  rcases notifyStep c sound begun plain taken with u | t
  · have before := u.next.2 known
    exact (u.old before).1 (begun c before)
  · simp [t.state]

structure Told (c : ConnId) (w : World) (told : List Bool) : Prop where
  unmade : w.next ≤ c → told = []
  made : c < w.next → (w.conns c).callbacks.connection = true → told = [true]

theorem toldStep {w w' : World} {a : Action} {c : ConnId} {told : List Bool} (sound : Sound w) (plain : Plain w)
    (begun : Begun w) (h : Told c w told) (taken : step w a = some w') : Told c w' (notes c w a w' told) := by
  rcases notifyStep c sound begun plain taken with u | t
  · have quiet : notes c w a w' told = told := if_neg (Nat.not_lt_of_le u.frames)
    rw [quiet]
    refine ⟨fun unknown => h.unmade (Nat.le_trans u.next.1 unknown),fun known set => ?_⟩
    have before := u.next.2 known
    rw [(u.old before).2] at set
    exact h.made before set
  · refine ⟨fun unknown => absurd t.made (Nat.not_lt_of_le unknown),fun known set => ?_⟩
    have said : notes c w a w' told = told ++ [(w'.conns c).isConnected] := if_pos (t.frames set)
    rw [said, h.unmade t.unmade]
    simp [TcpConnection.isConnected, t.state]

theorem toldReachable {s w : World} {as : List Action} {c : ConnId} {told : List Bool} (start : Initial s)
    (reached : run (recording step (notes c)) (s,[]) as = some (w,told)) : Begun w ∧ Told c w told := by
  have nobody : ∀ d, ¬ d < s.next := fun d known => by simp [start.nobody.1] at known
  let inv (u : World) (told : List Bool) : Prop := Sound u ∧ Plain u ∧ Begun u ∧ Told c u told
  have first : inv s [] :=
    ⟨soundInitial start,plainInitial start,fun d known => absurd known (nobody d),fun _ => rfl,
      fun known => absurd known (nobody c)⟩
  have keep : ∀ u a v told, inv u told → step u a = some v → inv v (notes c u a v told) := by
    rintro u a v told ⟨sound,plain,begun,h⟩ taken
    exact ⟨soundStep sound taken,plainStep plain taken,begunStep sound plain begun taken,toldStep sound plain begun h taken⟩
  exact (recordingInvariant keep first reached).2.2

end TcpClient

theorem owedIff {s : ConnectionState} {told : List Bool} (h : told = if s = .connecting then [] else [true]) :
    told = owedCalls s ↔ s ≠ .disconnected := by
  subst h
  cases s <;> simp [owedCalls]

def watched : Callbacks := ⟨true,false,false,false,false⟩

/- An accepted connection up to its callback. -/
def accepts : List TcpServer.Action := [.start,.poll,.accept 5 64,.goOn 0,.ret 0]

/- Its peer ends it: HandleClose, its close callback and the removal run to their end. -/
def acceptsAndEnds : List TcpServer.Action := accepts ++
  [.event 0 (.read (.ok [])),.goOn 0,.goOn 0,.goOn 0,.goOn 0,.goOn 0,.goOn 0]

end TcFrame
