import Mathlib.Algebra.Group.Int.Defs
import Mathlib.Algebra.Group.Nat.Defs
import Mathlib.Tactic.Common

/-! Computations with unsigned numbers of fixed width, which may end in a fault. The machine
reduces every sum and difference modulo 2^w; each is also kept as it was before, so that a
theorem can say that none of them wrapped. Nothing here names a program. -/
namespace TcFrame

structure Counted (φ α : Type) where
  sums : List Int
  result : Except φ α

namespace Counted
variable {φ α β : Type}

def bind (c : Counted φ α) (f : α → Counted φ β) : Counted φ β :=
  match c.result with
  | .ok a => ⟨c.sums ++ (f a).sums,(f a).result⟩
  | .error fault => ⟨c.sums,.error fault⟩

instance : Monad (Counted φ) where
  pure a := ⟨[],.ok a⟩
  bind := bind

def word (w : Nat) (x : Int) : Counted φ Nat := ⟨[x],.ok (x % 2 ^ w).toNat⟩

def fault (f : φ) : Counted φ α := ⟨[],.error f⟩

/- The computation comes to `a`, and nothing wraps on the way. -/
structure Exact (w : Nat) (c : Counted φ α) (a : α) : Prop where
  comes : c.result = .ok a
  within : ∀ x ∈ c.sums, 0 ≤ x ∧ x < 2 ^ w

theorem exactPure {w : Nat} {a : α} : Exact w (pure a : Counted φ α) a := ⟨rfl,fun _ none_ => nomatch none_⟩

theorem exactWord {w : Nat} {x : Int} {n : Nat} (same : x = n) (small : n < 2 ^ w) : Exact w (word w x : Counted φ Nat) n := by
  have below : (n : Int) < 2 ^ w := by exact_mod_cast small
  subst same
  refine ⟨?_,fun y here => ?_⟩
  · rw [word, Int.emod_eq_of_lt (Int.natCast_nonneg n) below, Int.toNat_natCast]
  · rw [List.mem_singleton.mp here]
    exact ⟨Int.natCast_nonneg n,below⟩

theorem exactBind {w : Nat} {c : Counted φ α} {f : α → Counted φ β} {a : α} {b : β} (first : Exact w c a)
    (rest : Exact w (f a) b) : Exact w (c >>= f) b := by
  have bound : c >>= f = ⟨c.sums ++ (f a).sums,(f a).result⟩ := by
    change bind c f = _
    rw [bind, first.comes]
  rw [bound]
  refine ⟨rest.comes,fun x here => ?_⟩
  rcases List.mem_append.mp here with here | here
  · exact first.within x here
  · exact rest.within x here

theorem bindOk {c : Counted φ α} {f : α → Counted φ β} {a : α} (first : c.result = .ok a) :
    (c >>= f).result = (f a).result := by
  change (bind c f).result = _
  rw [bind, first]

theorem bindError {c : Counted φ α} {f : α → Counted φ β} {e : φ} (first : c.result = .error e) :
    (c >>= f).result = .error e := by
  change (bind c f).result = _
  rw [bind, first]

end Counted
end TcFrame
