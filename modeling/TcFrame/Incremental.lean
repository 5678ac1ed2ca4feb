import Mathlib.Data.List.Basic

/-! Incremental decoding over any alphabet. `next` takes one item off the front of
the input, or says that more input is needed. The two laws make the result of
`drain` independent of how the input was cut. -/
namespace TcFrame

structure Incremental (β ε : Type*) where
  next : List β → Option (ε × List β)
  shorter : ∀ {bs e rest}, next bs = some (e,rest) → rest.length < bs.length
  stable : ∀ {bs e rest} (more : List β), next bs = some (e,rest) →
    next (bs ++ more) = some (e,rest ++ more)

namespace Incremental

variable {β ε : Type*} (p : Incremental β ε)

def drain (bs : List β) : List ε × List β :=
  match h : p.next bs with
  | none => ([],bs)
  | some (e,rest) =>
    have := p.shorter h
    (e :: (drain rest).1,(drain rest).2)
termination_by bs.length

theorem drainNone {bs : List β} (h : p.next bs = none) : p.drain bs = ([],bs) := by
  rw [drain]
  split
  · rfl
  · simp_all

theorem drainSome {bs rest : List β} {e : ε} (h : p.next bs = some (e,rest)) :
    p.drain bs = (e :: (p.drain rest).1,(p.drain rest).2) := by
  rw [drain]
  split
  · simp_all
  · rename_i e' rest' h'
    have same : (e',rest') = (e,rest) := Option.some.inj (h'.symm.trans h)
    cases same
    rfl

/- The complete decodings of an input: items taken off one after the other until
`next` asks for more. -/
inductive Decodes : List β → List ε → List β → Prop where
  | stop {bs} (h : p.next bs = none) : Decodes bs [] bs
  | item {bs e rest es last} (h : p.next bs = some (e,rest)) (tail : Decodes rest es last) :
      Decodes bs (e :: es) last

theorem decodesDrain (bs : List β) : p.Decodes bs (p.drain bs).1 (p.drain bs).2 := by
  induction len : bs.length using Nat.strongRecOn generalizing bs with
  | _ n ih =>
    cases h : p.next bs with
    | none => rw [p.drainNone h]; exact .stop h
    | some out =>
      obtain ⟨e,rest⟩ := out
      rw [p.drainSome h]
      exact .item h (ih rest.length (len ▸ p.shorter h) rest rfl)

theorem decodesUnique {bs es rest} (h : p.Decodes bs es rest) : p.drain bs = (es,rest) := by
  induction h with
  | stop h => exact p.drainNone h
  | item h tail ih => rw [p.drainSome h, ih]

theorem drainAppend (bs more : List β) :
    p.drain (bs ++ more) =
      ((p.drain bs).1 ++ (p.drain ((p.drain bs).2 ++ more)).1,
       (p.drain ((p.drain bs).2 ++ more)).2) := by
  induction len : bs.length using Nat.strongRecOn generalizing bs with
  | _ n ih =>
    cases h : p.next bs with
    | none => simp [p.drainNone h]
    | some out =>
      obtain ⟨e,rest⟩ := out
      rw [p.drainSome h, p.drainSome (p.stable more h),
        ih rest.length (len ▸ p.shorter h) rest rfl]
      simp

end Incremental
end TcFrame
