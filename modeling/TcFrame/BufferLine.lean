import Mathlib.Tactic.IntervalCases
import TcFrame.Buffer

/-! The search for a line end in the readable bytes. memchr looks for the next CR in what is
left of them; behind a CR without an LF the search goes on. A pointer is a position in the
vector, and the functions read through a memory that need not have a byte everywhere. -/
namespace TcFrame

def carriageReturn : UInt8 := 13
def lineFeed : UInt8 := 10

/- The byte at a position; no value where nothing may be read. -/
abbrev Memory := Nat → Option UInt8

/- memchr on `n` bytes from `p` on. It reads up to the first match and has no value when it
reads where it must not. -/
def memchr (m : Memory) (c : UInt8) : Nat → Nat → Option (Option Nat)
  | _, 0 => some none
  | p, n + 1 => (m p).bind (fun x => if x = c then some (some p) else memchr m c (p + 1) n)

namespace Buffer

/- The loop of FindCRLF up to `stop`; every round but the last moves `p` on. -/
def findCRLFLoop (m : Memory) (stop : Nat) : Nat → Nat → Option (Option Nat)
  | 0, _ => none
  | fuel + 1, p =>
    (memchr m carriageReturn p (stop - p)).bind (fun found =>
      match found with
      | none => some none
      | some q =>
        if q + 1 < stop then
          (m (q + 1)).bind (fun x => if x = lineFeed then some (some q) else findCRLFLoop m stop fuel (q + 1))
        else findCRLFLoop m stop fuel (q + 1))

/- No value when the assert fails. -/
def findCRLF (b : Buffer) (m : Memory) (start : Nat) : Option (Option Nat) :=
  if b.readIdx ≤ start then findCRLFLoop m b.writeIdx (b.writeIdx - start + 1) start else none

/- The readable bytes have CR at position `p` and LF behind it. -/
def LineEnd (b : Buffer) (p : Nat) : Prop :=
  b.readIdx ≤ p ∧ b.readable[p - b.readIdx]? = some carriageReturn ∧ b.readable[p + 1 - b.readIdx]? = some lineFeed

/- A memory that has the readable bytes; elsewhere it has anything or nothing. -/
def Shows (m : Memory) (b : Buffer) : Prop :=
  ∀ p, b.readIdx ≤ p → p < b.writeIdx → m p = b.readable[p - b.readIdx]?

end Buffer

/- What memchr finds. -/
inductive Found (m : Memory) (c : UInt8) (p n : Nat) : Option Nat → Prop where
  | here {q} (from_ : p ≤ q) (inside : q < p + n) (match_ : m q = some c) (first : ∀ i, p ≤ i → i < q → m i ≠ some c) :
      Found m c p n (some q)
  | nowhere (none_ : ∀ i, p ≤ i → i < p + n → m i ≠ some c) : Found m c p n none

theorem memchrFound {m : Memory} {c : UInt8} {p n : Nat} (has : ∀ i, p ≤ i → i < p + n → (m i).isSome = true) :
    ∃ r, memchr m c p n = some r ∧ Found m c p n r := by
  induction n generalizing p with
  | zero => exact ⟨none,rfl,.nowhere (fun i from_ inside => by omega)⟩
  | succ n ih =>
    obtain ⟨x,read⟩ := Option.isSome_iff_exists.mp (has p (Nat.le_refl _) (by omega))
    simp only [memchr, read, Option.bind_some]
    by_cases same : x = c
    · rw [if_pos same]
      exact ⟨some p,rfl,.here (Nat.le_refl _) (by omega) (same ▸ read) (fun i from_ before => by omega)⟩
    · rw [if_neg same]
      have other : m p ≠ some c := by rw [read]; simpa using same
      have later : ∀ i, p ≤ i → ¬ p + 1 ≤ i → m i ≠ some c := by
        intro i from_ not_
        rw [show i = p by omega]
        exact other
      obtain ⟨r,done,found⟩ := ih (p := p + 1) (fun i from_ inside => has i (by omega) (by omega))
      refine ⟨r,done,?_⟩
      cases found with
      | @here q from_ inside match_ first =>
        refine .here (by omega) (by omega) match_ (fun i from_ before => ?_)
        by_cases behind : p + 1 ≤ i
        · exact first i behind before
        · exact later i from_ behind
      | nowhere none_ =>
        refine .nowhere (fun i from_ inside => ?_)
        by_cases behind : p + 1 ≤ i
        · exact none_ i behind (by omega)
        · exact later i from_ behind

namespace Buffer

/- The first line end from `start` on, if there is one. -/
inductive FirstEnd (b : Buffer) (start : Nat) : Option Nat → Prop where
  | found {p} (from_ : start ≤ p) (ends : b.LineEnd p) (first : ∀ q, start ≤ q → b.LineEnd q → p ≤ q) :
      FirstEnd b start (some p)
  | none_ (nowhere : ∀ p, start ≤ p → ¬ b.LineEnd p) : FirstEnd b start none

section Search
variable {b : Buffer} {m : Memory}

theorem readableSome (h : b.Valid) {p : Nat} (from_ : b.readIdx ≤ p) :
    (b.readable[p - b.readIdx]?).isSome = true ↔ p < b.writeIdx := by
  have size := readableLength h
  have order := h.order
  simp only [readableBytes] at size
  rw [Option.isSome_iff_ne_none, ne_eq, List.getElem?_eq_none_iff]
  omega

theorem lineEndInside (h : b.Valid) {p : Nat} (ends : b.LineEnd p) : p + 1 < b.writeIdx := by
  obtain ⟨from_,_,feed⟩ := ends
  exact (readableSome h (p := p + 1) (by omega)).mp (by rw [feed]; rfl)

/- A position without CR, or without LF behind it, is no line end; the search may skip it. -/
theorem firstEndLater {p p' : Nat} {r : Option Nat} (later : b.FirstEnd p' r) (forward : p ≤ p')
    (skipped : ∀ i, p ≤ i → i < p' → ¬ b.LineEnd i) : b.FirstEnd p r := by
  cases later with
  | @found q from_ ends first =>
    refine .found (by omega) ends (fun i from_ other => ?_)
    by_cases behind : p' ≤ i
    · exact first i behind other
    · exact absurd other (skipped i from_ (by omega))
  | none_ nowhere =>
    refine .none_ (fun i from_ other => ?_)
    by_cases behind : p' ≤ i
    · exact nowhere i behind other
    · exact skipped i from_ (by omega) other

theorem loopFirstEnd (h : b.Valid) (shows : Shows m b) (fuel : Nat) {p : Nat} (from_ : b.readIdx ≤ p)
    (inside : p ≤ b.writeIdx) (enough : b.writeIdx - p < fuel) :
    ∃ r, findCRLFLoop m b.writeIdx fuel p = some r ∧ b.FirstEnd p r := by
  induction fuel generalizing p with
  | zero => omega
  | succ fuel ih =>
    have has : ∀ i, p ≤ i → i < p + (b.writeIdx - p) → (m i).isSome = true := by
      intro i start stop
      rw [shows i (by omega) (by omega)]
      exact (readableSome h (by omega)).mpr (by omega)
    obtain ⟨r,searched,found⟩ := @memchrFound m carriageReturn p (b.writeIdx - p) has
    have noReturn : ∀ i, p ≤ i → i < b.writeIdx → m i ≠ some carriageReturn → ¬ b.LineEnd i := by
      intro i start stop other ends
      rw [shows i (by omega) stop] at other
      exact other ends.2.1
    simp only [findCRLFLoop, searched, Option.bind_some]
    cases found with
    | nowhere none_ =>
      refine ⟨none,rfl,.none_ (fun i start ends => ?_)⟩
      have stop := lineEndInside h ends
      exact noReturn i start (by omega) (none_ i start (by omega)) ends
    | @here q start stop match_ first =>
      have before : ∀ i, p ≤ i → i < q → ¬ b.LineEnd i :=
        fun i from_ less => noReturn i from_ (by omega) (first i from_ less)
      -- The rest of the search, when no LF is behind the CR.
      have rest : ¬ b.LineEnd q → ∃ r, findCRLFLoop m b.writeIdx fuel (q + 1) = some r ∧ b.FirstEnd p r := by
        intro other
        obtain ⟨r,done,later⟩ := ih (p := q + 1) (by omega) (by omega) (by omega)
        refine ⟨r,done,firstEndLater later (by omega) (fun i from_ less => ?_)⟩
        by_cases here : i = q
        · exact here ▸ other
        · exact before i from_ (by omega)
      dsimp only
      split
      · rename_i next
        have behind := shows (q + 1) (by omega) next
        obtain ⟨x,read⟩ := Option.isSome_iff_exists.mp ((readableSome h (p := q + 1) (by omega)).mpr next)
        rw [read] at behind
        rw [behind, Option.bind_some]
        split
        · rename_i feed
          have ends : b.LineEnd q := ⟨by omega,by rw [← shows q (by omega) (by omega), match_],feed ▸ read⟩
          refine ⟨some q,rfl,.found start ends (fun i from_ other => ?_)⟩
          by_contra less
          exact before i from_ (by omega) other
        · rename_i feed
          refine rest (fun ends => feed ?_)
          exact Option.some.inj (read.symm.trans ends.2.2)
      · rename_i last
        exact rest (fun ends => last (lineEndInside h ends))

end Search

/- FindCRLF from any position in or right behind the readable bytes, whatever the memory has
outside them: it comes to an end without a read there and returns the first line end. -/
theorem findsFirstCRLF {b : Buffer} {m : Memory} {start : Nat} (h : b.Valid) (shows : Shows m b)
    (from_ : b.readIdx ≤ start) (inside : start ≤ b.writeIdx) :
    ∃ r, b.findCRLF m start = some r ∧
      (∀ p, r = some p ↔ start ≤ p ∧ b.LineEnd p ∧ ∀ q, start ≤ q → b.LineEnd q → p ≤ q) ∧
      (r = none ↔ ∀ p, start ≤ p → ¬ b.LineEnd p) := by
  obtain ⟨r,done,ends⟩ := loopFirstEnd h shows (b.writeIdx - start + 1) from_ inside (by omega)
  refine ⟨r,by rw [findCRLF, if_pos from_, done],?_,?_⟩
  · intro p
    cases ends with
    | found from_ ends first =>
      constructor
      · intro same
        cases same
        exact ⟨from_,ends,first⟩
      · rintro ⟨from_',ends',first'⟩
        exact congrArg some (Nat.le_antisymm (first p from_' ends') (first' _ from_ ends))
    | none_ nowhere =>
      constructor
      · intro same
        cases same
      · rintro ⟨start,found,_⟩
        exact absurd found (nowhere p start)
  · cases ends with
    | found from_ ends first =>
      constructor
      · intro same
        cases same
      · intro nowhere
        exact absurd ends (nowhere _ from_)
    | none_ nowhere => exact ⟨fun _ => nowhere,fun _ => rfl⟩

/- Readable: 'a', two CR, LF, CR; an LF is left behind the write index. -/
def carriageReturns : Buffer := ⟨[0,97,13,13,10,13,10],1,6⟩

theorem carriageReturnsFound :
    carriageReturns.findCRLF (fun p => if p < 6 then carriageReturns.buf[p]? else none) 1 = some (some 3) ∧
    carriageReturns.findCRLF (fun p => if p < 6 then carriageReturns.buf[p]? else none) 4 = some none := by
  have valid : carriageReturns.Valid := ⟨by decide,by decide⟩
  have shows : Shows (fun p => if p < 6 then carriageReturns.buf[p]? else none) carriageReturns := by
    intro p from_ inside
    simp only [carriageReturns] at from_ inside
    interval_cases p <;> rfl
  obtain ⟨r,found,first,_⟩ := @findsFirstCRLF _ _ 1 valid shows (by decide) (by decide)
  obtain ⟨r',sought,_,nowhere⟩ := @findsFirstCRLF _ _ 4 valid shows (by decide) (by decide)
  rw [found, sought]
  have place : r = some 3 := by
    refine (first 3).mpr ⟨by decide,⟨by decide,rfl,rfl⟩,fun q start ends => ?_⟩
    have stop : q < 5 := Nat.lt_of_succ_lt_succ (lineEndInside valid ends)
    obtain ⟨_,cr,lf⟩ := ends
    interval_cases q <;> first | omega | (revert cr lf; decide)
  have none_ : r' = none := by
    refine nowhere.mpr (fun q start ends => ?_)
    have stop : q < 5 := Nat.lt_of_succ_lt_succ (lineEndInside valid ends)
    obtain ⟨_,cr,lf⟩ := ends
    interval_cases q
    revert cr lf
    decide
  rw [place, none_]
  exact ⟨rfl,rfl⟩

end Buffer
end TcFrame
