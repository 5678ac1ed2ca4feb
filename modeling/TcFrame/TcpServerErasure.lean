import TcFrame.TcpServerTurns

/-! Which entry a removal erases. The table is keyed by descriptor numbers, and the functor
of HandleRemoveConnection reads its key from the connection. Socket::Close gives the number
back before it overwrites the field, so in between the main loop can accept it anew. -/
namespace TcFrame.TcpServer
open Machine

/- The entry under a number is that of the last connection accepted on it. -/
structure Latest (w : World) : Prop where
  last : ∀ fd e, w.lookup fd = some e → ∀ d < w.host.next, (w.conn d).channel.fd = fd → d ≤ e

theorem latestShrinks {w w' : World} (h : Latest w) (next : w'.host.next = w.host.next)
    (channel : ∀ d < w.host.next, (w'.conn d).channel.fd = (w.conn d).channel.fd)
    (fewer : ∀ fd e, w'.lookup fd = some e → w.lookup fd = some e) : Latest w' := by
  refine ⟨fun fd e entry d known key => ?_⟩
  rw [next] at known
  rw [channel d known] at key
  exact h.last fd e (fewer fd e entry) d known key

theorem latestAccept {w w' : World} {fd : Fd} (h : Latest w) (made : Accepts w fd w') : Latest w' := by
  refine ⟨fun fd' e entry d known key => ?_⟩
  obtain ⟨callbacks,mark,bufferSize,new⟩ := made.new
  rw [made.next] at known
  rw [made.lookup] at entry
  split at entry
  · cases Option.some.inj entry
    exact Nat.le_of_lt_succ known
  · rename_i other
    rcases Nat.lt_succ_iff_lt_or_eq.mp known with before | this
    · rw [(made.old d before).1] at key
      exact h.last fd' e entry d before key
    · subst this
      rw [new] at key
      exact absurd key.symm other

theorem latestStep {w w' : World} {a : Action} (r : Registry w) (p : Placed w) (h : Latest w)
    (taken : step w a = some w') : Latest w' := by
  obtain ⟨_,keeps⟩ := registryStep r taken
  have same : w'.host.next = w.host.next → Latest w' := by
    intro next
    refine latestShrinks h next keeps.channel (fun fd e entry => ?_)
    rcases keeps.shrinks fd e entry with old | new
    · exact old
    · have bound := ((registryStep r taken).1.table.key fd e entry).1
      rw [next] at bound
      exact absurd new (Nat.not_le_of_lt bound)
  cases turnCases r p taken with
  | accept idle free made => exact latestAccept h made
  | remove known ran split does => exact same (by rw [show (settle mainLoop _ _).host = _ from does.host])
  | serve split own calm does => exact same (by rw [show (settle _ _ _).host = _ from does.host])
  | _ => exact same rfl

theorem latestInitial {w : World} (h : Initial w) : Latest w := by
  obtain ⟨threadNum,callbacks,mark,idleTimeout,same⟩ := h
  subst same
  exact ⟨fun fd e entry => by cases entry⟩

/- The number of connection c has been handed out again, and accepted on the listening
socket, since c was made. -/
def acceptedAgain (w : World) (c : ConnId) : Prop :=
  ∃ d, c < d ∧ d < w.host.next ∧ (w.conn d).channel.fd = (w.conn c).channel.fd

/- The step erases the entry of another connection than c. -/
def erasesOther (w : World) (c : ConnId) (w' : World) : Prop :=
  ∃ fd d, w.lookup fd = some d ∧ d ≠ c ∧ w'.lookup fd ≠ some d

theorem removalEntry {w w' : World} {a : Action} {c : ConnId} (taken : step w a = some w')
    (ran : removalOf w a = some c) :
    (∀ fd, (w.conn c).socket.fd ≠ some fd → w'.lookup fd = w.lookup fd) ∧
      ∀ fd, (w.conn c).socket.fd = some fd → w'.lookup fd = none := by
  obtain ⟨t,below,act,top⟩ := removalTop ran
  subst act
  simp only [step, top, goOn, runInLoop, runTask, Option.map_some, Option.some.injEq] at taken
  have made : w'.lookup = (removeInLoop w c).1.lookup := by rw [← taken]; rfl
  rw [made]
  rcases (removesInLoop w c).outcome with ⟨missing,lookup,_⟩ | ⟨fd,d,stored,found,lookup,_⟩
  · rw [lookup]
    refine ⟨fun _ _ => rfl,fun fd stored => ?_⟩
    rcases missing with none_ | ⟨fd',stored',absent⟩
    · rw [none_] at stored; cases stored
    · rw [stored'] at stored
      cases stored
      exact absent
  · refine ⟨fun fd' other => ?_,fun fd' same => ?_⟩
    · rw [lookup, if_neg (fun here => other (by rw [here]; exact stored))]
    · rw [lookup, if_pos (Option.some.inj (same.symm.trans stored))]

/- In every state of every run, a removal of c erases another one's entry exactly when c's
socket still stores its number, this has been accepted again, and there is an entry. -/
theorem removalErasesOwn {s w w' : World} {as : List Action} {a : Action} {c : ConnId} (start : Initial s)
    (reached : run step s as = some w) (taken : step w a = some w') (ran : removalOf w a = some c) :
    ¬ erasesOther w c w' ↔
      ¬ ((w.conn c).socket.fd.isSome = true ∧ acceptedAgain w c ∧ (w.lookup (w.conn c).channel.fd).isSome = true) := by
  have sound : Registry w ∧ Placed w ∧ Latest w := by
    have keep : ∀ u b v, Registry u ∧ Placed u ∧ Latest u → step u b = some v → Registry v ∧ Placed v ∧ Latest v :=
      fun u b v h moved => ⟨(registryStep h.1 moved).1,placedStep h.1 h.2.1 moved,latestStep h.1 h.2.1 h.2.2 moved⟩
    exact invariant keep ⟨registryInitial start,placedInitial start,latestInitial start⟩ reached
  obtain ⟨r,p,latest⟩ := sound
  obtain ⟨others,mine⟩ := removalEntry taken ran
  have known : c < w.host.next := by
    obtain ⟨t,below,_,top⟩ := removalTop ran
    exact topKnown r top c (by simp [Act.conns, Task.conns])
  refine not_congr ⟨?_,?_⟩
  · rintro ⟨fd,d,entry,other,erased⟩
    have stored : (w.conn c).socket.fd = some fd := by
      by_contra elsewhere
      exact erased (by rw [others fd elsewhere]; exact entry)
    have key := socketFd r.table known stored
    obtain ⟨made,channel⟩ := r.table.key fd d entry
    have older : c < d := Nat.lt_of_le_of_ne (latest.last fd d entry c known key) (Ne.symm other)
    exact ⟨by rw [stored]; rfl,⟨d,older,made,channel.trans key.symm⟩,by rw [key, entry]; rfl⟩
  · rintro ⟨valid,⟨d,older,made,same⟩,present⟩
    obtain ⟨fd,stored⟩ := Option.isSome_iff_exists.mp valid
    obtain ⟨e,entry⟩ := Option.isSome_iff_exists.mp present
    have key := socketFd r.table known stored
    rw [key] at entry
    have newest := latest.last fd e entry d made (same.trans key)
    refine ⟨fd,e,entry,Nat.ne_of_gt (Nat.lt_of_lt_of_le older newest),?_⟩
    rw [mine fd stored]
    simp

/- One sub loop; its connection is closed by the peer, and its thread is about to close
the descriptor. -/
def closesOnSubLoop : List Action :=
  [.start,.poll,.accept 5 64,.goOn 0,.runQueued 1,.goOn 1,.event 0 (.read (.ok [])),.goOn 1,.goOn 1]

theorem removalErasesOwnOnSubLoop : ∃ w w', run step (constructed 1 quiet 1 false) (closesOnSubLoop ++ [.runQueued 0]) =
    some w ∧ step w (.goOn 0) = some w' ∧ removalOf w (.goOn 0) = some 0 ∧ ¬ erasesOther w 0 w' := by
  have reached : ∃ w w', run step (constructed 1 quiet 1 false) (closesOnSubLoop ++ [.runQueued 0]) = some w ∧
      step w (.goOn 0) = some w' ∧ removalOf w (.goOn 0) = some 0 ∧ w.host.next = 1 := ⟨_,_,rfl,rfl,rfl,rfl⟩
  obtain ⟨w,w',first,taken,ran,one⟩ := reached
  refine ⟨w,w',first,taken,ran,(removalErasesOwn ⟨1,quiet,1,false,rfl⟩ first taken ran).mpr ?_⟩
  rintro ⟨_,⟨d,older,made,_⟩,_⟩
  rw [one] at made
  exact absurd older (Nat.not_lt_of_le (Nat.le_of_lt_succ made))

/- Between the two statements of Socket::Close the main loop accepts a connection on the
number, and then runs the removal. -/
def acceptsInBetween : List Action :=
  closesOnSubLoop ++ [.goOn 1,.poll,.accept 5 64,.goOn 0,.runQueued 0]

theorem removalErasesNext : ¬ ∀ s w w' as a c, Initial s → run step s as = some w → step w a = some w' →
    removalOf w a = some c → ¬ erasesOther w c w' := by
  intro claimed
  have reached : ∃ w w', run step (constructed 1 quiet 1 false) acceptsInBetween = some w ∧
      step w (.goOn 0) = some w' ∧ removalOf w (.goOn 0) = some 0 ∧ w.lookup 5 = some 1 ∧ w'.lookup 5 = none :=
    ⟨_,_,rfl,rfl,rfl,rfl,rfl⟩
  obtain ⟨w,w',first,taken,ran,entry,erased⟩ := reached
  exact claimed _ w w' _ _ 0 ⟨1,quiet,1,false,rfl⟩ first taken ran ⟨5,1,entry,by decide,by rw [erased]; simp⟩

end TcFrame.TcpServer
