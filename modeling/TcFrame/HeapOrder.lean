import Mathlib.Data.List.Basic
import Mathlib.Order.Basic

/-! The order of a binary heap kept in a vector, smallest key first. Nothing here names
a program. An entry may be a handle whose key is kept elsewhere, so that the key can
change under the vector: `Ordered` takes the keys as a function. -/
namespace TcFrame.Heap

variable {α β : Type*} [Preorder β]

/- Entry i + 1 has entry i / 2 for its parent. -/
def Ordered (key : α → β) (v : List α) : Prop :=
  ∀ (i : Nat) (x parent : α), v[i + 1]? = some x → v[i / 2]? = some parent → key parent ≤ key x

theorem orderedNil (key : α → β) : Ordered key [] := by
  intro i x parent entry
  simp at entry

/- Keys that change outside the vector do not matter to it. -/
theorem orderedCongr {key key' : α → β} {v : List α} (same : ∀ x ∈ v, key' x = key x) (h : Ordered key v) :
    Ordered key' v := by
  intro i x parent entry above
  rw [same x (List.mem_of_getElem? entry), same parent (List.mem_of_getElem? above)]
  exact h i x parent entry above

theorem frontLeast {key : α → β} {v : List α} (h : Ordered key v) {front : α} (first : v[0]? = some front) :
    ∀ x ∈ v, key front ≤ key x := by
  have below : ∀ (i : Nat) (x : α), v[i]? = some x → key front ≤ key x := by
    intro i
    induction i using Nat.strongRecOn with
    | ind i ih =>
      intro x entry
      cases i with
      | zero =>
        rw [first] at entry
        cases entry
        exact le_rfl
      | succ i =>
        have inside : i / 2 < v.length := by
          have bound := (List.getElem?_eq_some_iff.mp entry).1
          omega
        obtain ⟨parent,above⟩ : ∃ parent, v[i / 2]? = some parent := ⟨_,List.getElem?_eq_getElem inside⟩
        exact le_trans (ih (i / 2) (by omega) parent above) (h i x parent entry above)
  intro x member
  obtain ⟨i,entry⟩ := List.getElem?_of_mem member
  exact below i x entry

/- One order that is always a heap is the sorted one. -/
theorem orderedSorted {key : α → β} {v : List α} (sorted : v.Pairwise (fun x y => key x ≤ key y)) :
    Ordered key v := by
  intro i x parent entry above
  obtain ⟨inside,rfl⟩ := List.getElem?_eq_some_iff.mp entry
  obtain ⟨outside,rfl⟩ := List.getElem?_eq_some_iff.mp above
  exact List.pairwise_iff_getElem.mp sorted (i / 2) (i + 1) outside inside (by omega)

end TcFrame.Heap
