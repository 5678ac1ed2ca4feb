import TcFrame.Machine
import Mathlib.Data.List.Basic
import Mathlib.Algebra.Group.Int.Defs
import Mathlib.Algebra.Group.Nat.Defs

/-! A queue served in rounds. A round takes what there is room for off the front; what was
served may queue up again at the end, and a round that used all its room doubles it for the
next one. Between the rounds some leave and others arrive, those behind everyone waiting. -/
namespace TcFrame.Rounds

variable {β : Type*}

structure Queue (β : Type*) where
  room : Nat
  waiting : List β
  served : List β

inductive Action (β : Type*) where
  | arrive (x : β)
  | leave (gone : β → Bool)
  | serve (again : β → Bool)

def Action.serves : Action β → Bool
  | .serve _ => true
  | _ => false

/- How large the room is for the next round, when `length` were waiting for this one. -/
def grown (room length : Nat) : Nat := if length < room then room else 2 * room

def step (q : Queue β) : Action β → Option (Queue β)
  | .arrive x => some { q with waiting := q.waiting ++ [x] }
  | .leave gone => some { q with waiting := q.waiting.filter (fun x => !gone x) }
  | .serve again =>
    some { room := grown q.room q.waiting.length
           waiting := q.waiting.drop q.room ++ (q.waiting.take q.room).filter again
           served := q.served ++ q.waiting.take q.room }

def Keeps (x : β) : Action β → Prop
  | .leave gone => gone x = false
  | _ => True

theorem servedPrefix {q t : Queue β} {as : List (Action β)} (reached : Machine.run step q as = some t) :
    q.served <+: t.served := by
  have keep : ∀ (s : Queue β) a s', q.served <+: s.served → step s a = some s' → q.served <+: s'.served := by
    intro s a s' h taken
    cases a with
    | arrive x => cases Option.some.inj taken; exact h
    | leave gone => cases Option.some.inj taken; exact h
    | serve again => cases Option.some.inj taken; exact h.trans (List.prefix_append _ _)
  exact Machine.invariant keep (List.prefix_refl _) reached

/- The room is some power of two times `first`, and below it or twice `longest`. -/
def Bounded (first longest : Nat) (q : Queue β) : Prop :=
  (∃ k, q.room = first * 2 ^ k) ∧ q.room ≤ max first (2 * longest)

/- A room grows only when as many are waiting. -/
theorem boundedStep {first longest : Nat} {q t : Queue β} {a : Action β} (h : Bounded first longest q)
    (short : q.waiting.length ≤ longest) (taken : step q a = some t) : Bounded first longest t := by
  cases a with
  | arrive x => cases Option.some.inj taken; exact h
  | leave gone => cases Option.some.inj taken; exact h
  | serve again =>
    cases Option.some.inj taken
    obtain ⟨⟨k,power⟩,bound⟩ := h
    simp only [Bounded, grown]
    split
    · exact ⟨⟨k,power⟩,bound⟩
    · exact ⟨⟨k + 1,by rw [power, Nat.pow_succ, Nat.mul_comm 2, Nat.mul_assoc]⟩,by omega⟩

variable [DecidableEq β]

theorem idxOfFilter {x : β} {p : β → Bool} {xs : List β} (kept : p x = true) :
    (xs.filter p).idxOf x ≤ xs.idxOf x := by
  induction xs with
  | nil => exact Nat.le_refl _
  | cons y ys ih =>
    by_cases same : y = x
    · subst same
      rw [List.filter_cons_of_pos kept, List.idxOf_cons_self]
      exact Nat.zero_le _
    · rw [List.idxOf_cons_ne _ same]
      by_cases py : p y = true
      · rw [List.filter_cons_of_pos py, List.idxOf_cons_ne _ same]
        exact Nat.succ_le_succ ih
      · rw [List.filter_cons_of_neg py]
        exact Nat.le_succ_of_le ih

theorem idxOfDrop {x : β} {xs : List β} {n : Nat} (beyond : n ≤ xs.idxOf x) :
    (xs.drop n).idxOf x = xs.idxOf x - n := by
  induction n generalizing xs with
  | zero => rfl
  | succ n ih =>
    cases xs with
    | nil => simp
    | cons y ys =>
      by_cases same : y = x
      · subst same
        simp at beyond
      · rw [List.idxOf_cons_ne _ same] at beyond ⊢
        rw [List.drop_succ_cons, ih (by omega)]
        omega

/- After k rounds, each with twice the room of the one before, everyone among the first
room * (2 ^ k - 1) has been served. -/
def Within (x : β) (k : Nat) (q : Queue β) : Prop :=
  x ∈ q.waiting ∧ q.waiting.idxOf x < q.room * (2 ^ k - 1)

/- One round serves who stands in the first `room`, and moves everyone else up by as many. -/
theorem roundCases {x : β} {k : Nat} {q : Queue β} (within : Within x (k + 1) q) (again : β → Bool) :
    x ∈ q.waiting.take q.room ∨
      Within x k ⟨grown q.room q.waiting.length,q.waiting.drop q.room ++ (q.waiting.take q.room).filter again,
        q.served ++ q.waiting.take q.room⟩ := by
  obtain ⟨member,near⟩ := within
  by_cases first : q.waiting.idxOf x < q.room
  · exact .inl ((List.mem_take_iff_idxOf_lt member).mpr first)
  · have beyond : q.room ≤ q.waiting.idxOf x := by omega
    have inside := List.idxOf_lt_length_iff.mpr member
    have moved := idxOfDrop beyond
    have behind : x ∈ q.waiting.drop q.room := by
      rw [← List.idxOf_lt_length_iff, moved, List.length_drop]
      omega
    have doubled : grown q.room q.waiting.length = 2 * q.room := if_neg (by omega)
    refine .inr ⟨List.mem_append_left _ behind,?_⟩
    simp only [List.idxOf_append_of_mem behind, moved, doubled]
    have powers : q.room * (2 ^ (k + 1) - 1) = 2 * q.room * (2 ^ k - 1) + q.room := by
      have positive : 1 ≤ 2 ^ k := Nat.one_le_two_pow
      rw [Nat.pow_succ, show 2 ^ k * 2 - 1 = 2 * (2 ^ k - 1) + 1 by omega, Nat.mul_add, Nat.mul_one,
        ← Nat.mul_assoc, Nat.mul_comm q.room 2]
    omega

/- Whoever keeps waiting is served, after as many rounds as it takes the doubling room to
reach its place. -/
theorem servedWithin {x : β} {q t : Queue β} {as : List (Action β)}
    (within : Within x (as.countP Action.serves) q) (kept : ∀ a ∈ as, Keeps x a)
    (reached : Machine.run step q as = some t) : ∃ more, t.served = q.served ++ more ∧ x ∈ more := by
  induction as generalizing q with
  | nil => exact absurd within.2 (by simp)
  | cons a as ih =>
    obtain ⟨m,taken,rest⟩ := Machine.runCons.mp reached
    have later : ∀ b ∈ as, Keeps x b := fun b hb => kept b (List.mem_cons_of_mem _ hb)
    obtain ⟨member,near⟩ := within
    cases a with
    | arrive y =>
      cases Option.some.inj taken
      refine ih (q := ⟨q.room,q.waiting ++ [y],q.served⟩) ⟨List.mem_append_left _ member,?_⟩ later rest
      rw [List.idxOf_append_of_mem member]
      exact near
    | leave gone =>
      cases Option.some.inj taken
      have stays : (!gone x) = true := by
        have here : gone x = false := kept _ List.mem_cons_self
        rw [here]
        rfl
      refine ih (q := ⟨q.room,q.waiting.filter (fun y => !gone y),q.served⟩)
        ⟨List.mem_filter.mpr ⟨member,stays⟩,?_⟩ later rest
      exact Nat.lt_of_le_of_lt (idxOfFilter stays) near
    | serve again =>
      cases Option.some.inj taken
      rw [List.countP_cons_of_pos rfl] at near
      rcases roundCases ⟨member,near⟩ again with now | next
      · obtain ⟨more,all⟩ := servedPrefix rest
        refine ⟨q.waiting.take q.room ++ more,?_,List.mem_append_left _ now⟩
        rw [← all, List.append_assoc]
      · obtain ⟨more,all,there⟩ := ih next later rest
        exact ⟨q.waiting.take q.room ++ more,by rw [all, List.append_assoc],List.mem_append_right _ there⟩

end TcFrame.Rounds
