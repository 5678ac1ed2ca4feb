import Mathlib.Data.List.Nodup
import Mathlib.Logic.Function.Basic
import Mathlib.Tactic.Common

/-! Records in a row, found through a map from keys to positions. A record is taken out by
moving the last one to its place. Nothing here names a program: `α` is any type of records,
`key` reads a key off a record. -/
namespace TcFrame

variable {α κ : Type*} [DecidableEq κ] {key : α → κ} {xs : List α} {index : κ → Option Nat}

/- The map knows the position of every record, and no other. -/
def Indexed (key : α → κ) (xs : List α) (index : κ → Option Nat) : Prop :=
  ∀ k i, index k = some i ↔ (xs[i]?).map key = some k

def lookup (xs : List α) (index : κ → Option Nat) (k : κ) : Option α := (index k).bind (fun i => xs[i]?)

/- The last record takes the place of record `i`. -/
def swapRemove (xs : List α) (i : Nat) (last : α) : List α := (xs.set i last).dropLast

def swapIndex (index : κ → Option Nat) (k moved : κ) (i : Nat) : κ → Option Nat :=
  Function.update (Function.update index moved (some i)) k none

omit [DecidableEq κ] in
theorem indexedEmpty : Indexed key ([] : List α) (fun _ => none) := fun k i => by simp

omit [DecidableEq κ] in
theorem indexedAt (h : Indexed key xs index) {k : κ} {i : Nat} (found : index k = some i) :
    ∃ x, xs[i]? = some x ∧ key x = k :=
  Option.map_eq_some_iff.mp ((h k i).mp found)

omit [DecidableEq κ] in
theorem indexedInside (h : Indexed key xs index) {k : κ} {i : Nat} (found : index k = some i) : i < xs.length := by
  obtain ⟨x,there,_⟩ := indexedAt h found
  exact (List.getElem?_eq_some_iff.mp there).1

/- Two keys at one position are one key. -/
omit [DecidableEq κ] in
theorem indexedSame (h : Indexed key xs index) {k k' : κ} {i : Nat} (found : index k = some i)
    (other : index k' = some i) : k = k' :=
  Option.some.inj (((h k i).mp found).symm.trans ((h k' i).mp other))

/- What a key finds are the records with that key, one at most. -/
omit [DecidableEq κ] in
theorem lookupMember (h : Indexed key xs index) {k : κ} {x : α} : lookup xs index k = some x ↔ x ∈ xs ∧ key x = k := by
  constructor
  · intro found
    obtain ⟨i,there,here⟩ := Option.bind_eq_some_iff.mp found
    obtain ⟨y,at_,same⟩ := indexedAt h there
    cases Option.some.inj (at_.symm.trans here)
    exact ⟨List.mem_of_getElem? here,same⟩
  · rintro ⟨member,same⟩
    obtain ⟨i,here⟩ := List.mem_iff_getElem?.mp member
    have there : index k = some i := (h k i).mpr (by rw [here, Option.map_some, same])
    rw [lookup, there, Option.bind_some, here]

omit [DecidableEq κ] in
theorem indexedNodup (h : Indexed key xs index) : (xs.map key).Nodup := by
  refine List.nodup_iff_getElem?_ne_getElem?.mpr (fun i j before inside same => ?_)
  obtain ⟨k,here⟩ : ∃ k, (xs.map key)[j]? = some k := ⟨_,List.getElem?_eq_getElem inside⟩
  rw [here, List.getElem?_map] at same
  rw [List.getElem?_map] at here
  have first := (h k i).mpr same
  rw [(h k j).mpr here] at first
  have := Option.some.inj first
  omega

theorem indexedPush (h : Indexed key xs index) {x : α} (fresh : index (key x) = none) :
    Indexed key (xs ++ [x]) (Function.update index (key x) (some xs.length)) := by
  intro k i
  rw [Function.update_apply]
  split
  · rename_i same
    rw [same]
    constructor
    · intro here
      cases here
      simp
    · intro there
      by_cases inside : i < xs.length
      · rw [List.getElem?_append_left inside] at there
        rw [(h (key x) i).mpr there] at fresh
        cases fresh
      · have bound : i < (xs ++ [x]).length := by
          obtain ⟨y,found,_⟩ := Option.map_eq_some_iff.mp there
          exact (List.getElem?_eq_some_iff.mp found).1
        simp only [List.length_append, List.length_singleton] at bound
        exact congrArg some (by omega)
  · rename_i other
    rw [h k i]
    by_cases inside : i < xs.length
    · rw [List.getElem?_append_left inside]
    · rw [List.getElem?_eq_none (Nat.not_lt.mp inside), List.getElem?_append_right (Nat.not_lt.mp inside)]
      cases rest : i - xs.length with
      | zero => simp [Ne.symm other]
      | succ j => simp

theorem lookupPush (h : Indexed key xs index) (x : α) :
    lookup (xs ++ [x]) (Function.update index (key x) (some xs.length)) =
      Function.update (lookup xs index) (key x) (some x) := by
  funext k
  simp only [lookup, Function.update_apply]
  split
  · simp
  · cases found : index k with
    | none => rfl
    | some i => exact List.getElem?_append_left (indexedInside h found)

omit [DecidableEq κ] in
theorem indexedSet (h : Indexed key xs index) {x : α} {i : Nat} (found : index (key x) = some i) :
    Indexed key (xs.set i x) index := by
  intro k j
  rw [h k j, List.getElem?_set]
  split
  · rename_i here
    obtain ⟨y,there,same⟩ := indexedAt h found
    rw [← here, there, if_pos (indexedInside h found), Option.map_some, Option.map_some, same]
  · rfl

theorem lookupSet (h : Indexed key xs index) {x : α} {i : Nat} (found : index (key x) = some i) :
    lookup (xs.set i x) index = Function.update (lookup xs index) (key x) (some x) := by
  funext k
  simp only [lookup, Function.update_apply]
  split
  · rename_i same
    rw [same, found, Option.bind_some, List.getElem?_set_self (indexedInside h found)]
  · rename_i other
    cases there : index k with
    | none => rfl
    | some j =>
      have apart : i ≠ j := by
        intro same
        rw [← same] at there
        exact other (indexedSame h there found)
      simp only [Option.bind_some, List.getElem?_set_ne apart]

section SwapRemove
variable {k : κ} {i : Nat} {last : α}

omit [DecidableEq κ] in
theorem swapRemoveAt (inside : i < xs.length) (j : Nat) :
    (swapRemove xs i last)[j]? = if j + 1 < xs.length then if i = j then some last else xs[j]? else none := by
  have size : (xs.set i last).length - 1 = xs.length - 1 := by rw [List.length_set]
  rw [swapRemove, List.dropLast_eq_take, List.getElem?_take, size, List.getElem?_set]
  by_cases kept : j + 1 < xs.length
  · rw [if_pos (by omega), if_pos kept]
    split <;> rfl
  · rw [if_neg (by omega), if_neg kept]

omit [DecidableEq κ] in
theorem lastIndex (h : Indexed key xs index) (end_ : xs[xs.length - 1]? = some last) :
    index (key last) = some (xs.length - 1) :=
  (h _ _).mpr (by rw [end_]; rfl)

/- Where the last record goes unless it is the one taken out, and where the others stay. -/
omit [DecidableEq κ] in
theorem movedInside (h : Indexed key xs index) (found : index k = some i) (end_ : xs[xs.length - 1]? = some last)
    (other : key last ≠ k) : i + 1 < xs.length := by
  have inside := indexedInside h found
  by_contra atEnd
  have same : i = xs.length - 1 := by omega
  exact other (indexedSame h (lastIndex h end_) (same ▸ found))

omit [DecidableEq κ] in
theorem keptInside (h : Indexed key xs index) (found : index k = some i) (end_ : xs[xs.length - 1]? = some last)
    {k' : κ} {j : Nat} (found' : index k' = some j) (other : k' ≠ k) (still : k' ≠ key last) :
    i ≠ j ∧ j + 1 < xs.length := by
  have inside := indexedInside h found'
  refine ⟨fun same => other (indexedSame h found' (same ▸ found)),?_⟩
  by_contra atEnd
  have same : j = xs.length - 1 := by omega
  exact still (indexedSame h found' (same ▸ lastIndex h end_))

theorem indexedSwapRemove (h : Indexed key xs index) (found : index k = some i)
    (end_ : xs[xs.length - 1]? = some last) : Indexed key (swapRemove xs i last) (swapIndex index k (key last) i) := by
  have inside := indexedInside h found
  have lastAt := lastIndex h end_
  intro k' j
  rw [swapRemoveAt inside, swapIndex, Function.update_apply, Function.update_apply]
  by_cases gone : k' = k
  · -- The key that was taken out is nowhere: its place went to another, or was the last one.
    simp only [if_pos gone, reduceCtorEq, false_iff]
    intro there
    split at there
    · split at there
      · rename_i kept here
        have same : key last = k := (Option.some.inj there).trans gone
        rw [same, found] at lastAt
        have := Option.some.inj lastAt
        omega
      · rename_i kept other
        rw [gone] at there
        exact other (Option.some.inj (found.symm.trans ((h k j).mpr there)))
    · cases there
  · rw [if_neg gone]
    by_cases moved : k' = key last
    · rw [if_pos moved, moved]
      have before := movedInside h found end_ (moved ▸ gone)
      constructor
      · intro here
        cases here
        simp [before]
      · intro there
        split at there
        · split at there
          · exact congrArg some (by assumption)
          · have same := Option.some.inj (lastAt.symm.trans ((h _ _).mpr there))
            omega
        · cases there
    · rw [if_neg moved, h k' j]
      constructor
      · intro there
        obtain ⟨apart,before⟩ := keptInside h found end_ ((h k' j).mpr there) gone moved
        rw [if_pos before, if_neg apart]
        exact there
      · intro there
        split at there
        · split at there
          · exact absurd (Option.some.inj there).symm moved
          · exact there
        · cases there

theorem lookupSwapRemove (h : Indexed key xs index) (found : index k = some i)
    (end_ : xs[xs.length - 1]? = some last) :
    lookup (swapRemove xs i last) (swapIndex index k (key last) i) = Function.update (lookup xs index) k none := by
  have inside := indexedInside h found
  funext k'
  simp only [lookup, swapIndex, Function.update_apply]
  by_cases gone : k' = k
  · simp only [if_pos gone, Option.bind_none]
  · rw [if_neg gone, if_neg gone]
    by_cases moved : k' = key last
    · have before := movedInside h found end_ (moved ▸ gone)
      rw [if_pos moved, Option.bind_some, swapRemoveAt inside, if_pos before, if_pos rfl, moved, lastIndex h end_,
        Option.bind_some, end_]
    · rw [if_neg moved]
      cases there : index k' with
      | none => rfl
      | some j =>
        obtain ⟨apart,before⟩ := keptInside h found end_ there gone moved
        simp only [Option.bind_some, swapRemoveAt inside, if_pos before, if_neg apart]

end SwapRemove
end TcFrame
