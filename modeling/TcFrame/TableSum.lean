import Mathlib.Data.List.AList
import Mathlib.Algebra.Order.BigOperators.Group.List
import Mathlib.Algebra.Order.Group.Nat
import Mathlib.Algebra.GroupWithZero.Nat
import Mathlib.Algebra.BigOperators.Group.Finset.Piecewise

/-! Sums over the values of a finite map, and over those of a function below a bound.
Nothing here names a program. What an erase or an insert does to the first is the value
under the key, if there is one. -/
namespace TcFrame.TableSum

variable {α β : Type*}

def sumOf (f : β → Nat) (l : List (Sigma fun _ : α => β)) : Nat := (l.map (fun x => f x.2)).sum

def total (f : β → Nat) (m : AList (fun _ : α => β)) : Nat := sumOf f m.entries

theorem totalOne (m : AList (fun _ : α => β)) : total (fun _ => 1) m = m.entries.length := by
  simp [total, sumOf]

theorem totalMono {f g : β → Nat} {m : AList (fun _ : α => β)} (grows : ∀ x ∈ m.entries, f x.2 ≤ g x.2) :
    total f m ≤ total g m :=
  List.sum_le_sum grows

theorem totalCongr {f g : β → Nat} {m : AList (fun _ : α => β)} (same : ∀ x ∈ m.entries, f x.2 = g x.2) :
    total f m = total g m := by
  rw [total, sumOf, List.map_congr_left same]
  rfl

section Keys
variable [DecidableEq α]

/- The value under a key, 0 for a key that is not there. -/
def under (f : β → Nat) (m : AList (fun _ : α => β)) (a : α) : Nat := ((m.lookup a).map f).getD 0

theorem sumKerase (f : β → Nat) (a : α) (l : List (Sigma fun _ : α => β)) :
    sumOf f (l.kerase a) + ((l.dlookup a).map f).getD 0 = sumOf f l := by
  induction l with
  | nil => rfl
  | cons x l ih =>
    by_cases same : a = x.1
    · rw [List.kerase_cons_eq same]
      subst same
      rw [List.dlookup_cons_eq]
      simp only [sumOf, List.map_cons, List.sum_cons, Option.map_some, Option.getD_some]
      omega
    · rw [List.kerase_cons_ne same, List.dlookup_cons_ne l x same]
      simp only [sumOf, List.map_cons, List.sum_cons] at ih ⊢
      omega

theorem totalErase (f : β → Nat) (m : AList (fun _ : α => β)) (a : α) :
    total f (m.erase a) + under f m a = total f m :=
  sumKerase f a m.entries

theorem totalInsert (f : β → Nat) (m : AList (fun _ : α => β)) (a : α) (b : β) :
    total f (m.insert a b) + under f m a = total f m + f b := by
  have rest := sumKerase f a m.entries
  have made : total f (m.insert a b) = f b + sumOf f (m.entries.kerase a) := by
    rw [total, AList.entries_insert]
    simp [sumOf]
  rw [made, total, under, AList.lookup]
  omega

end Keys

def upTo (n : Nat) (g : β → Nat) (f : Nat → β) : Nat := ∑ i ∈ Finset.range n, g (f i)

theorem upToUpdate {n t : Nat} (bound : t < n) (g : β → Nat) (f : Nat → β) (v : β) :
    upTo n g (Function.update f t v) + g (f t) = upTo n g f + g v := by
  have within : t ∈ Finset.range n := Finset.mem_range.mpr bound
  have pointwise : ∀ i, g (Function.update f t v i) = Function.update (g ∘ f) t (g v) i := by
    intro i
    rw [← Function.comp_update]
    rfl
  have after : upTo n g (Function.update f t v) = g v + ∑ i ∈ Finset.range n \ {t}, g (f i) := by
    rw [upTo, Finset.sum_congr rfl (fun i _ => pointwise i), Finset.sum_update_of_mem within]
    rfl
  have before : upTo n g f = g (f t) + ∑ i ∈ Finset.range n \ {t}, g (f i) :=
    Finset.sum_eq_add_sum_sdiff_singleton_of_mem within _
  omega

theorem upToSame {n : Nat} {g : β → Nat} {f f' : Nat → β} (same : ∀ i < n, g (f' i) = g (f i)) :
    upTo n g f' = upTo n g f :=
  Finset.sum_congr rfl (fun i within => same i (Finset.mem_range.mp within))

end TcFrame.TableSum
