import TcFrame.PeerClose
import TcFrame.WSPollPoller

/-! The WSAPoll poller with its asserts. RemoveChannel asserts that the index is inside both
arrays, Poll that the channel beside a descriptor is the descriptor's own; a failed assert has
no value. -/
namespace TcFrame
open TcpServer (Revents)

/- The revents of one descriptor: the bits TransRevents looks at, and any of the others. -/
structure Ready where
  bits : PollBits
  others : Bool
  deriving DecidableEq, Repr

def Ready.any (r : Ready) : Bool :=
  r.bits.readable || r.bits.writable || r.bits.error || r.bits.hangUp || r.bits.readHangUp || r.others

/- How WSAPoll returns: below zero with an error code, zero, or with the revents set. -/
inductive WSAPoll where
  | failed (err : Int)
  | timedOut
  | ready (revents : Nat → Ready)

def wouldBlock : Int := 10035
def interrupted : Int := 10004

namespace WSPollPoller

/- The loop of Poll over the last `n` positions. The result are the channels whose revents are
set, with what SetRevents gets. -/
def pollLoop (p : WSPollPoller) (table : Nat → Channel) (revents : Nat → Ready) : Nat → Option (List (Nat × Revents))
  | 0 => some []
  | n + 1 =>
    let i := p.pollfds.length - (n + 1)
    if (revents i).any then
      match p.channels[i]?, p.pollfds[i]? with
      | some c, some pfd =>
        if (table c).fd = pfd.fd then (pollLoop p table revents n).map ((c,transRevents (revents i).bits) :: ·) else none
      | _, _ => none
    else pollLoop p table revents n

/- What Poll returns, and the active channels behind those that were there. -/
def poll (p : WSPollPoller) (table : Nat → Channel) (active : List (Nat × Revents)) : WSAPoll → Option (Int × List (Nat × Revents))
  | .failed err => some (if err = wouldBlock ∨ err = interrupted then 0 else -1,active)
  | .timedOut => some (0,active)
  | .ready revents =>
    (pollLoop p table revents p.pollfds.length).map (fun found => ((active ++ found).length,active ++ found))

def checkedRemoveChannel (p : WSPollPoller) (ch : Channel) : Option (WSPollPoller × Channel) :=
  match p.fdToIdx ch.fd with
  | none => some (p.removeChannel ch)
  | some idx => if idx < p.pollfds.length ∧ idx < p.channels.length then some (p.removeChannel ch) else none

def checkedUpdateChannel (p : WSPollPoller) (ch : Channel) : Option (WSPollPoller × Channel) :=
  if ch.hasNoEvents && (p.fdToIdx ch.fd).isSome then p.checkedRemoveChannel ch else some (p.updateChannel ch)

def checkedCall (x : WSPollPoller × (Nat → Channel)) : PollerCall → Option (WSPollPoller × (Nat → Channel))
  | .updateChannel c events =>
    (x.1.checkedUpdateChannel { x.2 c with events := events }).map (fun out => (out.1,Function.update x.2 c out.2))
  | .removeChannel c => (x.1.checkedRemoveChannel (x.2 c)).map (fun out => (out.1,Function.update x.2 c out.2))

theorem checkedRemoveHolds {p : WSPollPoller} (h : p.Sound) (ch : Channel) :
    p.checkedRemoveChannel ch = some (p.removeChannel ch) := by
  unfold checkedRemoveChannel
  split
  · rfl
  · rename_i idx found
    have inside := indexedInside h.indexed found
    rw [entriesLength h] at inside
    exact if_pos ⟨inside,h.sizes ▸ inside⟩

theorem checkedUpdateHolds {p : WSPollPoller} (h : p.Sound) (ch : Channel) :
    p.checkedUpdateChannel ch = some (p.updateChannel ch) := by
  unfold checkedUpdateChannel
  split
  · rename_i removes
    obtain ⟨quiet,known⟩ := Bool.and_eq_true_iff.mp removes
    rw [checkedRemoveHolds h, updateChannel, if_pos quiet, if_pos known]
  · rfl

theorem checkedCallHolds {x : WSPollPoller × (Nat → Channel)} (h : x.1.Sound) (c : PollerCall) :
    checkedCall x c = some (call updateChannel removeChannel x c) := by
  cases c with
  | updateChannel c events => simp only [checkedCall, checkedUpdateHolds h, Option.map_some, call]
  | removeChannel c => simp only [checkedCall, checkedRemoveHolds h, Option.map_some, call]

theorem soundCalls {x : WSPollPoller × (Nat → Channel)} (h : x.1.Sound) (cs : List PollerCall) :
    (calls updateChannel removeChannel x cs).1.Sound ∧
      (registry (calls updateChannel removeChannel x cs).1,(calls updateChannel removeChannel x cs).2) =
        calls Registry.updateChannel Registry.removeChannel (registry x.1,x.2) cs :=
  callsRefine (fun _ ch sound => updateRefines sound ch) (fun _ ch sound => removeRefines sound ch) h cs

theorem checkedCallsHold {x : WSPollPoller × (Nat → Channel)} (h : x.1.Sound) (cs : List PollerCall) :
    Machine.run checkedCall x cs = some (calls updateChannel removeChannel x cs) := by
  induction cs generalizing x with
  | nil => rfl
  | cons c cs ih =>
    have next : (call updateChannel removeChannel x c).1.Sound := (soundCalls h [c]).1
    exact Machine.runCons.mpr ⟨_,checkedCallHolds h c,ih next⟩

end WSPollPoller

/- Every channel keeps its identity and its descriptor, and a registered one is found under
its own descriptor. -/
structure Owned (fds : Nat → Fd) (x : Registry × (Nat → Channel)) : Prop where
  table : ∀ c, (x.2 c).id = c ∧ (x.2 c).fd = fds c
  entry : ∀ fd id events, x.1 fd = some (id,events) → fds id = fd

theorem ownedCreated (fds : Nat → Fd) : Owned fds ((fun _ => none),created fds) :=
  ⟨fun _ => ⟨rfl,rfl⟩,fun _ _ _ found => nomatch found⟩

/- What one call leaves in the registry is what was there or the channel's own entry. -/
theorem registryOwned {r : Registry} {ch : Channel} {fd : Fd} {id : Nat} {events : Events} :
    ((r.removeChannel ch).1 fd = some (id,events) → r fd = some (id,events)) ∧
    ((r.updateChannel ch).1 fd = some (id,events) → (∃ old, r fd = some (id,old)) ∨ fd = ch.fd ∧ id = ch.id) := by
  have removes : (r.removeChannel ch).1 fd = some (id,events) → r fd = some (id,events) := by
    unfold Registry.removeChannel
    split
    · intro found
      simp only [Function.update_apply] at found
      split at found
      · cases found
      · exact found
    · exact fun found => found
  refine ⟨removes,?_⟩
  unfold Registry.updateChannel
  split
  · exact fun found => .inl ⟨events,removes found⟩
  · split
    · intro found
      simp only [Function.update_apply] at found
      split at found
      · rename_i here
        cases found
        exact .inr ⟨here,rfl⟩
      · exact .inl ⟨events,found⟩
    · rename_i id' old taken
      intro found
      simp only [Function.update_apply] at found
      split at found
      · rename_i here
        cases found
        exact .inl ⟨old,here ▸ taken⟩
      · exact .inl ⟨events,found⟩

/- The flag of a channel is all that a call changes in it. -/
theorem registryChannel (r : Registry) (ch : Channel) :
    ((r.removeChannel ch).2.id = ch.id ∧ (r.removeChannel ch).2.fd = ch.fd) ∧
    ((r.updateChannel ch).2.id = ch.id ∧ (r.updateChannel ch).2.fd = ch.fd) := by
  have removes : (r.removeChannel ch).2.id = ch.id ∧ (r.removeChannel ch).2.fd = ch.fd := by
    unfold Registry.removeChannel
    split <;> exact ⟨rfl,rfl⟩
  refine ⟨removes,?_⟩
  unfold Registry.updateChannel
  split
  · exact removes
  · split <;> exact ⟨rfl,rfl⟩

theorem ownedCall {fds : Nat → Fd} {x : Registry × (Nat → Channel)} (h : Owned fds x) (c : PollerCall) :
    Owned fds (call Registry.updateChannel Registry.removeChannel x c) := by
  have table : ∀ {c : Nat} {ch : Channel}, ch.id = c ∧ ch.fd = fds c →
      ∀ c', (Function.update x.2 c ch c').id = c' ∧ (Function.update x.2 c ch c').fd = fds c' := by
    intro c ch own c'
    rw [Function.update_apply]
    split
    · rename_i same
      rwa [same]
    · exact h.table c'
  cases c with
  | updateChannel c events =>
    obtain ⟨id,fd⟩ := h.table c
    obtain ⟨sameId,sameFd⟩ := (registryChannel x.1 { x.2 c with events := events }).2
    refine ⟨table ⟨sameId.trans id,sameFd.trans fd⟩,fun fd' id' events' found => ?_⟩
    rcases registryOwned.2 found with ⟨old,before⟩ | ⟨here,own⟩
    · exact h.entry fd' id' old before
    · rw [here, own]
      exact (congrArg fds id).trans fd.symm
  | removeChannel c =>
    obtain ⟨id,fd⟩ := h.table c
    obtain ⟨sameId,sameFd⟩ := (registryChannel x.1 (x.2 c)).1
    exact ⟨table ⟨sameId.trans id,sameFd.trans fd⟩,fun fd' id' events' found => h.entry fd' id' events' (registryOwned.1 found)⟩

theorem ownedCalls {fds : Nat → Fd} {x : Registry × (Nat → Channel)} (h : Owned fds x) (cs : List PollerCall) :
    Owned fds (calls Registry.updateChannel Registry.removeChannel x cs) := by
  induction cs generalizing x with
  | nil => exact h
  | cons c cs ih => exact ih (ownedCall h c)

namespace WSPollPoller

/- The arrays and the map as one: what stands at an index is one descriptor, its index in the
map, and a channel with that descriptor. -/
structure Represents (p : WSPollPoller) (table : Nat → Channel) : Prop where
  sizes : p.channels.length = p.pollfds.length
  apart : (p.pollfds.map PollFd.fd).Nodup
  mapped : ∀ fd, (p.fdToIdx fd).isSome = true ↔ fd ∈ p.pollfds.map PollFd.fd
  index : ∀ (i : Nat) (pfd : PollFd), p.pollfds[i]? = some pfd →
    p.fdToIdx pfd.fd = some i ∧ ∃ c, p.channels[i]? = some c ∧ (table c).fd = pfd.fd

theorem soundRepresents {p : WSPollPoller} {fds : Nat → Fd} {table : Nat → Channel} (h : p.Sound)
    (owned : Owned fds (p.registry,table)) : p.Represents table := by
  have at_ : ∀ (i : Nat) (pfd : PollFd), p.pollfds[i]? = some pfd → ∃ c, p.channels[i]? = some c ∧ p.entries[i]? = some (pfd,c) := by
    intro i pfd found
    have inside := (List.getElem?_eq_some_iff.mp found).1
    obtain ⟨c,beside⟩ : ∃ c, p.channels[i]? = some c := ⟨_,List.getElem?_eq_getElem (h.sizes ▸ inside)⟩
    exact ⟨c,beside,List.getElem?_zip_eq_some.mpr ⟨found,beside⟩⟩
  have index : ∀ (i : Nat) (pfd : PollFd), p.pollfds[i]? = some pfd →
      p.fdToIdx pfd.fd = some i ∧ ∃ c, p.channels[i]? = some c ∧ (table c).fd = pfd.fd := by
    intro i pfd found
    obtain ⟨c,beside,entry⟩ := at_ i pfd found
    refine ⟨(h.indexed pfd.fd i).mpr (by rw [entry]; rfl),c,beside,?_⟩
    have registered : p.registry pfd.fd = some (c,pfd.events) := (registryFound h).mpr (List.mem_of_getElem? entry)
    rw [(owned.table c).2]
    exact owned.entry pfd.fd c pfd.events registered
  refine ⟨h.sizes,fdsNodup h,fun fd => ⟨fun known => ?_,fun member => ?_⟩,index⟩
  · obtain ⟨i,found⟩ := Option.isSome_iff_exists.mp known
    obtain ⟨⟨pfd,c⟩,there,own⟩ := indexedAt h.indexed found
    have here := (List.getElem?_zip_eq_some.mp there).1
    exact List.mem_map.mpr ⟨pfd,List.mem_of_getElem? here,own⟩
  · obtain ⟨pfd,here,own⟩ := List.mem_map.mp member
    obtain ⟨i,found⟩ := List.mem_iff_getElem?.mp here
    rw [← own, (index i pfd found).1]
    rfl

theorem pollLoopHolds {p : WSPollPoller} {table : Nat → Channel} (h : p.Represents table) (revents : Nat → Ready) {n : Nat}
    (inside : n ≤ p.pollfds.length) : (pollLoop p table revents n).isSome = true := by
  induction n with
  | zero => rfl
  | succ n ih =>
    simp only [pollLoop]
    split
    · have below : p.pollfds.length - (n + 1) < p.pollfds.length := by omega
      obtain ⟨pfd,found⟩ : ∃ pfd, p.pollfds[p.pollfds.length - (n + 1)]? = some pfd := ⟨_,List.getElem?_eq_getElem below⟩
      obtain ⟨_,c,beside,own⟩ := h.index _ pfd found
      simp only [beside, found, if_pos own, Option.isSome_map]
      exact ih (by omega)
    · exact ih (by omega)

theorem pollHolds {p : WSPollPoller} {table : Nat → Channel} (h : p.Represents table) (active : List (Nat × Revents))
    (answer : WSAPoll) : (p.poll table active answer).isSome = true := by
  cases answer with
  | failed err => rfl
  | timedOut => rfl
  | ready revents =>
    simp only [poll, Option.isSome_map]
    exact pollLoopHolds h revents (Nat.le_refl _)

theorem removeLeaves {p : WSPollPoller} (h : p.Sound) (ch : Channel) {fd : Fd} (other : fd ≠ ch.fd) :
    (p.removeChannel ch).1.registry fd = p.registry fd := by
  obtain ⟨_,left,_⟩ := removeRefines h ch
  rw [left, Registry.removeChannel]
  split
  · exact Function.update_of_ne other _ _
  · rfl

/- Any calls on any channels: no assert fails on the way, the arrays and the map agree behind
them, the asserts of the next Poll or RemoveChannel hold, and a removal leaves the channel and
the interest of every other descriptor alone. -/
theorem callsRepresent (fds : Nat → Fd) (cs : List PollerCall) :
    ∃ p table, Machine.run checkedCall (new,created fds) cs = some (p,table) ∧ p.Represents table ∧
      (∀ active answer, (p.poll table active answer).isSome = true) ∧
      ∀ c, ∃ p' ch, p.checkedRemoveChannel (table c) = some (p',ch) ∧
        ∀ fd, fd ≠ (table c).fd → p'.registry fd = p.registry fd := by
  obtain ⟨sound,same⟩ := @soundCalls (new,created fds) soundNew cs
  have reached := @checkedCallsHold (new,created fds) soundNew cs
  have owned := ownedCalls (ownedCreated fds) cs
  have start : registry new = fun _ => none := rfl
  rw [start] at same
  rw [← same] at owned
  generalize calls updateChannel removeChannel (new,created fds) cs = x at sound reached owned
  have represents := soundRepresents sound owned
  exact ⟨x.1,x.2,reached,represents,pollHolds represents,
    fun c => ⟨_,_,checkedRemoveHolds sound (x.2 c),fun fd other => removeLeaves sound (x.2 c) other⟩⟩

end WSPollPoller
end TcFrame
