import TcFrame.EpollPoller
import TcFrame.IndexedList
import Mathlib.Data.List.Zip

/-! The WSAPoll poller, and what both pollers are for: a registry that gives each descriptor
at most one channel and its interest. Both refine it, the epoll poller where every
epoll_ctl that fits the kernel's set succeeds. -/
namespace TcFrame

structure PollFd where
  fd : Fd
  events : Events
  deriving DecidableEq, Repr

structure WSPollPoller where
  pollfds : List PollFd
  channels : List Nat
  fdToIdx : Fd → Option Nat

namespace WSPollPoller

def new : WSPollPoller := ⟨[],[],fun _ => none⟩

/- std::swap of two elements of a vector. -/
def swap {α : Type} (xs : List α) (i j : Nat) : List α :=
  match xs[i]?, xs[j]? with
  | some x, some y => (xs.set i y).set j x
  | _, _ => xs

def removeChannel (p : WSPollPoller) (ch : Channel) : WSPollPoller × Channel :=
  match p.fdToIdx ch.fd with
  | none => (p,ch)
  | some idx =>
    let lastIdx := p.pollfds.length - 1
    let p : WSPollPoller :=
      if idx ≠ lastIdx then
        let pollfds := swap p.pollfds idx lastIdx
        { pollfds := pollfds
          channels := swap p.channels idx lastIdx
          fdToIdx :=
            match pollfds[idx]? with
            | some moved => Function.update p.fdToIdx moved.fd (some idx)
            | none => p.fdToIdx }
      else p
    ({ pollfds := p.pollfds.dropLast
       channels := p.channels.dropLast
       fdToIdx := Function.update p.fdToIdx ch.fd none },{ ch with added := false })

def updateChannel (p : WSPollPoller) (ch : Channel) : WSPollPoller × Channel :=
  if ch.hasNoEvents then
    if (p.fdToIdx ch.fd).isSome then p.removeChannel ch else (p,ch)
  else
    let pfd : PollFd := ⟨ch.fd,ch.events⟩
    match p.fdToIdx ch.fd with
    | none =>
      ({ pollfds := p.pollfds ++ [pfd]
         channels := p.channels ++ [ch.id]
         fdToIdx := Function.update p.fdToIdx ch.fd (some p.pollfds.length) },{ ch with added := true })
    | some idx => ({ p with pollfds := p.pollfds.set idx pfd },ch)

/- The arrays side by side, as Poll goes through them. -/
def entries (p : WSPollPoller) : List (PollFd × Nat) := p.pollfds.zip p.channels

end WSPollPoller

/- Which channel a descriptor has, and what is watched for it. -/
abbrev Registry := Fd → Option (Nat × Events)

namespace Registry

def removeChannel (r : Registry) (ch : Channel) : Registry × Channel :=
  if (r ch.fd).isSome then (Function.update r ch.fd none,{ ch with added := false }) else (r,ch)

/- An entry that is there keeps its channel, even when another channel asks. -/
def updateChannel (r : Registry) (ch : Channel) : Registry × Channel :=
  if ch.hasNoEvents then r.removeChannel ch
  else
    match r ch.fd with
    | none => (Function.update r ch.fd (some (ch.id,ch.events)),{ ch with added := true })
    | some (id,_) => (Function.update r ch.fd (some (id,ch.events)),ch)

end Registry

/- An operation of a poller against the registry's: the poller stays sound, stands for the
registry that is left, and treats the channel alike. -/
def Refines {P : Type} (Sound : P → Prop) (registry : P → Registry) (out : P × Channel) (spec : Registry × Channel) : Prop :=
  Sound out.1 ∧ registry out.1 = spec.1 ∧ out.2 = spec.2

/- UpdateChannel of a poller: the channel goes when it asks for nothing, else it is put in
under a descriptor that is free or taken. -/
theorem refinesUpdate {P : Type} {Sound : P → Prop} {registry : P → Registry} {p : P} {ch : Channel} {known : Bool}
    {removed put : P × Channel} (sound : Sound p) (same : (registry p ch.fd).isSome = known)
    (removes : Refines Sound registry removed ((registry p).removeChannel ch))
    (adds : registry p ch.fd = none → Refines Sound registry put
      (Function.update (registry p) ch.fd (some (ch.id,ch.events)),{ ch with added := true }))
    (changes : ∀ id old, registry p ch.fd = some (id,old) → Refines Sound registry put
      (Function.update (registry p) ch.fd (some (id,ch.events)),ch)) :
    Refines Sound registry (if ch.hasNoEvents then if known then removed else (p,ch) else put)
      ((registry p).updateChannel ch) := by
  unfold Registry.updateChannel
  by_cases quiet : ch.hasNoEvents = true
  · rw [if_pos quiet, if_pos quiet]
    split
    · exact removes
    · rename_i absent
      rw [Registry.removeChannel, same, if_neg absent]
      exact ⟨sound,rfl,rfl⟩
  · rw [if_neg quiet, if_neg quiet]
    cases found : registry p ch.fd with
    | none => exact adds found
    | some x => exact changes x.1 x.2 found

namespace EpollPoller

/- epoll_ctl fails only where the descriptor's presence does not match the operation. -/
def willing : Fd → Bool := fun _ => true

/- The map and the kernel's set have the same descriptors. -/
def Paired (p : EpollPoller) : Prop := ∀ fd, (p.fdToChannel fd).isSome = (p.interest fd).isSome

def registry (p : EpollPoller) : Registry := fun fd =>
  (p.fdToChannel fd).bind (fun id => (p.interest fd).map (fun events => (id,events)))

theorem registrySome {p : EpollPoller} (h : p.Paired) (fd : Fd) : (p.registry fd).isSome = (p.fdToChannel fd).isSome := by
  have same := h fd
  unfold registry
  cases chan : p.fdToChannel fd with
  | none => rfl
  | some id =>
    rw [chan, Option.isSome_some] at same
    obtain ⟨events,found⟩ := Option.isSome_iff_exists.mp same.symm
    rw [found]
    rfl

theorem registryFound {p : EpollPoller} {fd : Fd} {id : Nat} {events : Events} :
    p.registry fd = some (id,events) ↔ p.fdToChannel fd = some id ∧ p.interest fd = some events := by
  unfold registry
  constructor
  · intro found
    obtain ⟨i,chan,rest⟩ := Option.bind_eq_some_iff.mp found
    obtain ⟨es,watched,same⟩ := Option.map_eq_some_iff.mp rest
    cases same
    exact ⟨chan,watched⟩
  · rintro ⟨chan,watched⟩
    rw [chan, watched]
    rfl

theorem pairedPut {p : EpollPoller} (h : p.Paired) (fd : Fd) {chan : Option Nat} {events : Option Events}
    (same : chan.isSome = events.isSome) :
    (⟨Function.update p.fdToChannel fd chan,Function.update p.interest fd events⟩ : EpollPoller).Paired := by
  intro other
  simp only [Function.update_apply]
  split
  · exact same
  · exact h other

theorem registryPut (p : EpollPoller) (fd : Fd) (chan : Option Nat) (events : Option Events) :
    (⟨Function.update p.fdToChannel fd chan,Function.update p.interest fd events⟩ : EpollPoller).registry =
      Function.update p.registry fd (chan.bind (fun id => events.map (fun events => (id,events)))) := by
  funext other
  simp only [registry, Function.update_apply]
  split <;> rfl

theorem removeRefines {p : EpollPoller} (h : p.Paired) (ch : Channel) :
    Refines Paired registry (p.removeChannel willing ch) (p.registry.removeChannel ch) := by
  have same := registrySome h ch.fd
  unfold removeChannel Registry.removeChannel
  rw [same]
  cases found : p.fdToChannel ch.fd with
  | none => exact ⟨h,rfl,rfl⟩
  | some id => exact ⟨@pairedPut p h ch.fd none none rfl,registryPut p ch.fd none none,rfl⟩

/- Without an entry the channel is added, in the map and in the kernel. -/
theorem addRefines {p : EpollPoller} (h : p.Paired) {ch : Channel} (free : p.fdToChannel ch.fd = none) :
    Refines Paired registry
      ((updateEpoll willing { p with fdToChannel := Function.update p.fdToChannel ch.fd (some ch.id) } .add ch),
        { ch with added := true })
      (Function.update p.registry ch.fd (some (ch.id,ch.events)),{ ch with added := true }) := by
  have pair := h ch.fd
  rw [free] at pair
  have unwatched : p.interest ch.fd = none := Option.not_isSome_iff_eq_none.mp (by rw [← pair]; simp)
  simp only [updateEpoll, willing, unwatched, epollCtl]
  exact ⟨pairedPut h ch.fd rfl,registryPut p ch.fd (some ch.id) (some ch.events),rfl⟩

/- With one only the kernel's interest changes. -/
theorem changeRefines {p : EpollPoller} (h : p.Paired) {ch : Channel} {id : Nat} {old : Events}
    (chan : p.fdToChannel ch.fd = some id) (watched : p.interest ch.fd = some old) :
    Refines Paired registry (p.updateEpoll willing .mod ch,ch)
      (Function.update p.registry ch.fd (some (id,ch.events)),ch) := by
  have kept : p.fdToChannel = Function.update p.fdToChannel ch.fd (some id) := by
    rw [← chan, Function.update_eq_self]
  simp only [updateEpoll, willing, watched, epollCtl]
  rw [kept]
  exact ⟨pairedPut h ch.fd rfl,registryPut p ch.fd (some id) (some ch.events),rfl⟩

theorem updateRefines {p : EpollPoller} (h : p.Paired) (ch : Channel) :
    Refines Paired registry (p.updateChannel willing ch) (p.registry.updateChannel ch) := by
  have same := registrySome h ch.fd
  refine refinesUpdate h same (removeRefines h ch) (fun free => ?_) (fun id old taken => ?_)
  · have none_ : p.fdToChannel ch.fd = none := by simpa [free] using same
    rw [if_neg (by simp [none_])]
    exact addRefines h none_
  · obtain ⟨chan,watched⟩ := registryFound.mp taken
    rw [if_pos (by simp [chan])]
    exact changeRefines h chan watched

end EpollPoller

namespace WSPollPoller

/- The map indexes the arrays, which are of one length. -/
structure Sound (p : WSPollPoller) : Prop where
  sizes : p.channels.length = p.pollfds.length
  indexed : Indexed (fun x : PollFd × Nat => x.1.fd) p.entries p.fdToIdx

def registry (p : WSPollPoller) : Registry := fun fd =>
  (lookup p.entries p.fdToIdx fd).map (fun x => (x.2,x.1.events))

theorem soundNew : new.Sound := ⟨rfl,indexedEmpty⟩

theorem registrySome {p : WSPollPoller} (h : p.Sound) (fd : Fd) : (p.registry fd).isSome = (p.fdToIdx fd).isSome := by
  unfold registry lookup
  cases found : p.fdToIdx fd with
  | none => rfl
  | some i =>
    obtain ⟨x,there,_⟩ := indexedAt h.indexed found
    rw [Option.bind_some, there]
    rfl

/- What the map finds for a descriptor is the entry that the arrays have for it. -/
theorem registryFound {p : WSPollPoller} (h : p.Sound) {fd : Fd} {id : Nat} {events : Events} :
    p.registry fd = some (id,events) ↔ (⟨fd,events⟩,id) ∈ p.entries := by
  constructor
  · intro found
    obtain ⟨⟨pfd,c⟩,there,same⟩ := Option.map_eq_some_iff.mp found
    obtain ⟨member,own⟩ := (lookupMember h.indexed).mp there
    cases same
    cases own
    exact member
  · intro member
    rw [registry, (lookupMember h.indexed).mpr ⟨member,rfl⟩]
    rfl

theorem fdsNodup {p : WSPollPoller} (h : p.Sound) : (p.pollfds.map PollFd.fd).Nodup := by
  have fds := indexedNodup h.indexed
  have pollfds : p.entries.map Prod.fst = p.pollfds := List.map_fst_zip (Nat.le_of_eq h.sizes.symm)
  rw [← pollfds, List.map_map]
  exact fds

theorem entriesLength {p : WSPollPoller} (h : p.Sound) : p.entries.length = p.pollfds.length := by
  rw [entries, List.length_zip, h.sizes, Nat.min_self]

/- Swapping with the last element and popping is moving the last one over; with the last
element itself there is nothing to swap. -/
theorem swapPop {α : Type} {xs : List α} {i : Nat} {last : α} (inside : i < xs.length)
    (end_ : xs[xs.length - 1]? = some last) : (swap xs i (xs.length - 1)).dropLast = swapRemove xs i last := by
  obtain ⟨x,here⟩ : ∃ x, xs[i]? = some x := ⟨_,List.getElem?_eq_getElem inside⟩
  simp only [swap, here, end_, swapRemove, List.dropLast_eq_take, List.length_set, List.take_set_of_le (Nat.le_refl _)]

theorem popLast {α : Type} (xs : List α) (last : α) : xs.dropLast = swapRemove xs (xs.length - 1) last := by
  simp only [swapRemove, List.dropLast_eq_take, List.length_set, List.take_set_of_le (Nat.le_refl _)]

theorem swapFront {α : Type} {xs : List α} {i j : Nat} {last : α} (inside : i < xs.length) (apart : i ≠ j)
    (end_ : xs[j]? = some last) : (swap xs i j)[i]? = some last := by
  obtain ⟨x,here⟩ : ∃ x, xs[i]? = some x := ⟨_,List.getElem?_eq_getElem inside⟩
  simp only [swap, here, end_, List.getElem?_set_ne apart.symm, List.getElem?_set_self inside]

theorem zipSet {α β : Type} (xs : List α) (ys : List β) (i : Nat) (x : α) (y : β) :
    (xs.set i x).zip (ys.set i y) = (xs.zip ys).set i (x,y) := by
  induction xs generalizing ys i with
  | nil => simp
  | cons a xs ih =>
    cases ys with
    | nil => simp
    | cons b ys =>
      cases i with
      | zero => rfl
      | succ i => simp [ih]

theorem zipSwapRemove {α β : Type} {xs : List α} {ys : List β} (sizes : ys.length = xs.length) (i : Nat) (x : α) (y : β) :
    (swapRemove xs i x).zip (swapRemove ys i y) = swapRemove (xs.zip ys) i (x,y) := by
  simp only [swapRemove, List.dropLast_eq_take, List.length_set, List.length_zip, sizes, Nat.min_self, ← zipSet]
  exact List.take_zipWith.symm

/- RemoveChannel on an entry that is there. -/
theorem removeShape {p : WSPollPoller} (h : p.Sound) (ch : Channel) {i : Nat} (found : p.fdToIdx ch.fd = some i) :
    ∃ pfd id, p.entries[p.entries.length - 1]? = some (pfd,id) ∧
      p.removeChannel ch =
        (⟨swapRemove p.pollfds i pfd,swapRemove p.channels i id,swapIndex p.fdToIdx ch.fd pfd.fd i⟩,
          { ch with added := false }) := by
  have size := entriesLength h
  have inside := indexedInside h.indexed found
  have sizes := h.sizes
  obtain ⟨⟨pfd,id⟩,end_⟩ : ∃ x, p.entries[p.entries.length - 1]? = some x :=
    ⟨_,List.getElem?_eq_getElem (by omega)⟩
  refine ⟨pfd,id,end_,?_⟩
  obtain ⟨lastFd,lastChannel⟩ := List.getElem?_zip_eq_some.mp end_
  rw [size] at lastFd lastChannel inside
  simp only at lastFd lastChannel
  unfold removeChannel
  simp only [found]
  by_cases here : i = p.pollfds.length - 1
  · -- The last entry goes itself; the map is not told of a move.
    have own : pfd.fd = ch.fd := by
      obtain ⟨x,there,same⟩ := indexedAt h.indexed found
      rw [here, ← size, end_] at there
      cases Option.some.inj there
      exact same
    rw [if_neg (not_not.mpr here)]
    rw [popLast p.pollfds pfd, popLast p.channels id, sizes, ← here, swapIndex, own, Function.update_idem]
  · have moved := swapFront inside here lastFd
    rw [if_pos here]
    simp only [moved, swapPop inside lastFd]
    rw [← sizes] at lastChannel inside
    have both := swapPop inside lastChannel
    rw [sizes] at both
    rw [both]
    rfl

/- What a change of the arrays and the map does to the registry. -/
theorem registryPut {p q : WSPollPoller} {fd : Fd} {x : Option (PollFd × Nat)}
    (same : lookup q.entries q.fdToIdx = Function.update (lookup p.entries p.fdToIdx) fd x) :
    q.registry = Function.update p.registry fd (x.map (fun x => (x.2,x.1.events))) := by
  funext other
  simp only [registry, same, Function.update_apply]
  split <;> rfl

theorem removeRefines {p : WSPollPoller} (h : p.Sound) (ch : Channel) :
    Refines Sound registry (p.removeChannel ch) (p.registry.removeChannel ch) := by
  have same := registrySome h ch.fd
  rw [Registry.removeChannel, same]
  cases found : p.fdToIdx ch.fd with
  | none =>
    simp only [removeChannel, found]
    exact ⟨h,rfl,rfl⟩
  | some i =>
    obtain ⟨pfd,id,end_,shape⟩ := removeShape h ch found
    have zipped := zipSwapRemove h.sizes i pfd id
    rw [shape]
    refine ⟨⟨?_,?_⟩,registryPut (x := none) ?_,rfl⟩
    · simp only [swapRemove, List.length_dropLast, List.length_set, h.sizes]
    · simp only [entries, zipped]
      exact indexedSwapRemove h.indexed found end_
    · simp only [entries, zipped]
      exact lookupSwapRemove h.indexed found end_

theorem addRefines {p : WSPollPoller} (h : p.Sound) {ch : Channel} (free : p.fdToIdx ch.fd = none) :
    Refines Sound registry
      ({ pollfds := p.pollfds ++ [⟨ch.fd,ch.events⟩]
         channels := p.channels ++ [ch.id]
         fdToIdx := Function.update p.fdToIdx ch.fd (some p.pollfds.length) },{ ch with added := true })
      (Function.update p.registry ch.fd (some (ch.id,ch.events)),{ ch with added := true }) := by
  have zipped : (p.pollfds ++ [(⟨ch.fd,ch.events⟩ : PollFd)]).zip (p.channels ++ [ch.id]) =
      p.entries ++ [(⟨ch.fd,ch.events⟩,ch.id)] := List.zip_append h.sizes.symm
  refine ⟨⟨?_,?_⟩,registryPut (x := some (⟨ch.fd,ch.events⟩,ch.id)) ?_,rfl⟩
  · simp [h.sizes]
  · simp only [entries, zipped, ← entriesLength h]
    exact indexedPush h.indexed free
  · simp only [entries, zipped, ← entriesLength h]
    exact lookupPush h.indexed ((⟨ch.fd,ch.events⟩,ch.id) : PollFd × Nat)

/- The entry is replaced and stays with the channel that it had. -/
theorem changeRefines {p : WSPollPoller} (h : p.Sound) {ch : Channel} {i id : Nat} {old : Events}
    (found : p.fdToIdx ch.fd = some i) (taken : p.registry ch.fd = some (id,old)) :
    Refines Sound registry ({ p with pollfds := p.pollfds.set i ⟨ch.fd,ch.events⟩ },ch)
      (Function.update p.registry ch.fd (some (id,ch.events)),ch) := by
  have there : p.entries[i]? = some (⟨ch.fd,old⟩,id) := by
    obtain ⟨⟨⟨fd,events⟩,c⟩,there,own⟩ := indexedAt h.indexed found
    rw [registry, lookup, found, Option.bind_some, there] at taken
    cases Option.some.inj taken
    rw [there, ← own]
  have kept : p.channels.set i id = p.channels := by
    obtain ⟨inside,same⟩ := List.getElem?_eq_some_iff.mp (List.getElem?_zip_eq_some.mp there).2
    simp only at same
    rw [← same, List.set_getElem_self]
  have zipped : (p.pollfds.set i ⟨ch.fd,ch.events⟩).zip p.channels = p.entries.set i (⟨ch.fd,ch.events⟩,id) := by
    rw [entries, ← zipSet, kept]
  refine ⟨⟨?_,?_⟩,registryPut (x := some (⟨ch.fd,ch.events⟩,id)) ?_,rfl⟩
  · simp [h.sizes]
  · simp only [entries, zipped]
    exact indexedSet h.indexed found
  · simp only [entries, zipped]
    exact lookupSet h.indexed (x := (⟨ch.fd,ch.events⟩,id)) found

theorem updateRefines {p : WSPollPoller} (h : p.Sound) (ch : Channel) :
    Refines Sound registry (p.updateChannel ch) (p.registry.updateChannel ch) := by
  have same := registrySome h ch.fd
  refine refinesUpdate h same (removeRefines h ch) (fun free => ?_) (fun id old taken => ?_)
  · have none_ : p.fdToIdx ch.fd = none := by simpa [free] using same
    simp only [none_]
    exact addRefines h none_
  · obtain ⟨i,found⟩ : ∃ i, p.fdToIdx ch.fd = some i := Option.isSome_iff_exists.mp (by rw [← same, taken]; rfl)
    simp only [found]
    exact changeRefines h found taken

end WSPollPoller

/- The calls, on the channels of a table. Enable* and Disable* change the interest and then
call UpdateChannel. -/
inductive PollerCall where
  | updateChannel (c : Nat) (events : Events)
  | removeChannel (c : Nat)
  deriving DecidableEq, Repr

section Calls
variable {P : Type} (update remove : P → Channel → P × Channel)

def call (x : P × (Nat → Channel)) : PollerCall → P × (Nat → Channel)
  | .updateChannel c events =>
    let out := update x.1 { x.2 c with events := events }
    (out.1,Function.update x.2 c out.2)
  | .removeChannel c =>
    let out := remove x.1 (x.2 c)
    (out.1,Function.update x.2 c out.2)

def calls (x : P × (Nat → Channel)) (cs : List PollerCall) : P × (Nat → Channel) := cs.foldl (call update remove) x

variable {update remove} {Sound : P → Prop} {registry : P → Registry}

/- A poller whose two operations refine the registry's does so over any calls. -/
theorem callsRefine (updates : ∀ p ch, Sound p → Refines Sound registry (update p ch) ((registry p).updateChannel ch))
    (removes : ∀ p ch, Sound p → Refines Sound registry (remove p ch) ((registry p).removeChannel ch))
    {x : P × (Nat → Channel)} (start : Sound x.1) (cs : List PollerCall) :
    Sound (calls update remove x cs).1 ∧
      (registry (calls update remove x cs).1,(calls update remove x cs).2) =
        calls Registry.updateChannel Registry.removeChannel (registry x.1,x.2) cs := by
  induction cs generalizing x with
  | nil => exact ⟨start,rfl⟩
  | cons c cs ih =>
    have stepped : Sound (call update remove x c).1 ∧ (registry (call update remove x c).1,(call update remove x c).2) =
        call Registry.updateChannel Registry.removeChannel (registry x.1,x.2) c := by
      cases c with
      | updateChannel c events =>
        obtain ⟨sound,left,channel⟩ := updates x.1 { x.2 c with events := events } start
        exact ⟨sound,Prod.ext left (congrArg (Function.update x.2 c) channel)⟩
      | removeChannel c =>
        obtain ⟨sound,left,channel⟩ := removes x.1 (x.2 c) start
        exact ⟨sound,Prod.ext left (congrArg (Function.update x.2 c) channel)⟩
    obtain ⟨sound,same⟩ := ih stepped.1
    refine ⟨sound,same.trans ?_⟩
    rw [stepped.2]
    rfl

end Calls

/- New channels, which may share descriptors. -/
def created (fds : Nat → Fd) : Nat → Channel := fun c => ⟨c,fds c,Events.none,false⟩

/- After the same calls both pollers register the same descriptors, each for the same channel
with the same interest, and every channel has the same flag. -/
theorem pollersAgree (fds : Nat → Fd) (cs : List PollerCall) :
    let e := calls (EpollPoller.updateChannel EpollPoller.willing) (EpollPoller.removeChannel EpollPoller.willing)
      (⟨fun _ => none,fun _ => none⟩,created fds) cs
    let w := calls WSPollPoller.updateChannel WSPollPoller.removeChannel (WSPollPoller.new,created fds) cs
    (∀ fd, (e.1.fdToChannel fd).isSome = (e.1.interest fd).isSome ∧
      (e.1.fdToChannel fd).isSome = (w.1.fdToIdx fd).isSome) ∧
    (∀ fd id events, e.1.fdToChannel fd = some id ∧ e.1.interest fd = some events ↔
      (⟨fd,events⟩,id) ∈ w.1.entries) ∧
    (w.1.pollfds.map PollFd.fd).Nodup ∧ w.1.channels.length = w.1.pollfds.length ∧ e.2 = w.2 := by
  intro e w
  have epoll := callsRefine (fun p ch h => EpollPoller.updateRefines h ch) (fun p ch h => EpollPoller.removeRefines h ch)
    (x := (⟨fun _ => none,fun _ => none⟩,created fds)) (fun _ => rfl) cs
  have wspoll := callsRefine (fun p ch h => WSPollPoller.updateRefines h ch)
    (fun p ch h => WSPollPoller.removeRefines h ch) (x := (WSPollPoller.new,created fds)) WSPollPoller.soundNew cs
  have same : (EpollPoller.registry e.1,e.2) = (WSPollPoller.registry w.1,w.2) := epoll.2.trans wspoll.2.symm
  have registry : EpollPoller.registry e.1 = WSPollPoller.registry w.1 := congrArg Prod.fst same
  have paired : e.1.Paired := epoll.1
  have sound : w.1.Sound := wspoll.1
  refine ⟨fun fd => ⟨paired fd,?_⟩,fun fd id events => ?_,WSPollPoller.fdsNodup sound,sound.sizes,congrArg Prod.snd same⟩
  · rw [← EpollPoller.registrySome paired, registry, WSPollPoller.registrySome sound]
  · rw [← EpollPoller.registryFound, registry, WSPollPoller.registryFound sound]

end TcFrame
