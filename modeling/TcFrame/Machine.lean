import Mathlib.Data.List.Basic

/-! Labelled machines given by a partial step function, and their runs. Nothing here
names a program: `σ` is any type of states, `α` any type of actions. A step that
is not enabled has no successor. -/
namespace TcFrame.Machine

variable {σ α : Type*} (step : σ → α → Option σ)

def run : σ → List α → Option σ
  | s, [] => some s
  | s, a :: as => (step s a).bind (fun t => run t as)

/- `Throughout` is a condition on the steps of a run: each action together with the
state it is taken in. A state condition ignores its second argument. -/
def Throughout (good : σ → α → Prop) : σ → List α → Prop
  | _, [] => True
  | s, a :: as => good s a ∧ ∀ t, step s a = some t → Throughout good t as

def Reachable (init : σ → Prop) (t : σ) : Prop :=
  ∃ s as, init s ∧ run step s as = some t

variable {step}

theorem runCons {s t : σ} {a : α} {as : List α} :
    run step s (a :: as) = some t ↔ ∃ m, step s a = some m ∧ run step m as = some t := by
  simp only [run, Option.bind_eq_some_iff]

theorem runAppend {s m t : σ} {as bs : List α} (first : run step s as = some m) (later : run step m bs = some t) :
    run step s (as ++ bs) = some t := by
  induction as generalizing s with
  | nil => cases Option.some.inj first; exact later
  | cons a as ih =>
    obtain ⟨n,hn,rest⟩ := runCons.mp first
    exact runCons.mpr ⟨n,hn,ih rest⟩

theorem reachableStep {init : σ → Prop} {s t : σ} {a : α} (h : Reachable step init s) (taken : step s a = some t) :
    Reachable step init t := by
  obtain ⟨first,as,start,reached⟩ := h
  exact ⟨first,as ++ [a],start,runAppend reached (runCons.mpr ⟨t,taken,rfl⟩)⟩

/- The induction rule of guarded runs: what every guarded step keeps, the run keeps. -/
theorem invariantWhen {good : σ → α → Prop} {inv : σ → Prop}
    (keep : ∀ s a t, inv s → good s a → step s a = some t → inv t)
    {s t : σ} {as : List α} (start : inv s) (guarded : Throughout step good s as)
    (reached : run step s as = some t) : inv t := by
  induction as generalizing s with
  | nil => cases Option.some.inj reached; exact start
  | cons a as ih =>
    obtain ⟨m,hm,rest⟩ := runCons.mp reached
    exact ih (keep s a m start guarded.1 hm) (guarded.2 m hm) rest

theorem throughoutCons {good : σ → α → Prop} {s t : σ} {a : α} {as : List α} (taken : step s a = some t) :
    Throughout step good s (a :: as) ↔ good s a ∧ Throughout step good t as := by
  simp only [Throughout, taken, Option.some.injEq, forall_eq']

theorem throughoutSplit {good : σ → α → Prop} {s m : σ} {as bs : List α} (first : run step s as = some m) :
    Throughout step good s (as ++ bs) ↔ Throughout step good s as ∧ Throughout step good m bs := by
  induction as generalizing s with
  | nil =>
    cases Option.some.inj first
    exact ⟨fun h => ⟨trivial,h⟩,fun h => h.2⟩
  | cons a as ih =>
    obtain ⟨n,hn,rest⟩ := runCons.mp first
    rw [List.cons_append, throughoutCons hn, throughoutCons hn, ih rest, and_assoc]

/- A condition that every step of a run meets where it stands holds throughout it. -/
theorem throughoutEach {good : σ → α → Prop} {s t : σ} {as : List α} (reached : run step s as = some t)
    (each : ∀ bs a cs m n, as = bs ++ a :: cs → run step s bs = some m → step m a = some n → good m a) :
    Throughout step good s as := by
  induction as generalizing s with
  | nil => trivial
  | cons a as ih =>
    obtain ⟨n,hn,rest⟩ := runCons.mp reached
    refine (throughoutCons hn).mpr ⟨each [] a as s n rfl rfl hn,ih rest ?_⟩
    intro bs b cs m k same first taken
    exact each (a :: bs) b cs m k (by rw [same, List.cons_append]) (runCons.mpr ⟨n,hn,first⟩) taken

instance throughoutDecidable (good : σ → α → Prop) [∀ s a, Decidable (good s a)] :
    ∀ s as, Decidable (Throughout step good s as)
  | _, [] => .isTrue trivial
  | s, a :: as =>
    match taken : step s a with
    | none => decidable_of_iff (good s a) (by simp [Throughout, taken])
    | some t =>
      have := throughoutDecidable good t as
      decidable_of_iff (good s a ∧ Throughout step good t as) (throughoutCons taken).symm

theorem throughoutTrue {s : σ} {as : List α} : Throughout step (fun _ _ => True) s as := by
  induction as generalizing s with
  | nil => trivial
  | cons a as ih => exact ⟨trivial,fun _ _ => ih⟩

theorem invariant {inv : σ → Prop} (keep : ∀ s a t, inv s → step s a = some t → inv t)
    {s t : σ} {as : List α} (start : inv s) (reached : run step s as = some t) : inv t :=
  invariantWhen (fun s a t hs _ => keep s a t hs) start throughoutTrue reached

theorem throughoutImp {good fine : σ → α → Prop} (weaker : ∀ s a, good s a → fine s a) {s : σ} {as : List α}
    (h : Throughout step good s as) : Throughout step fine s as := by
  induction as generalizing s with
  | nil => trivial
  | cons a as ih => exact ⟨weaker s a h.1,fun t taken => ih (h.2 t taken)⟩

theorem throughoutAnd {good fine : σ → α → Prop} {s : σ} {as : List α} (h : Throughout step good s as)
    (h' : Throughout step fine s as) : Throughout step (fun s a => good s a ∧ fine s a) s as := by
  induction as generalizing s with
  | nil => trivial
  | cons a as ih => exact ⟨⟨h.1,h'.1⟩,fun t taken => ih (h.2 t taken) (h'.2 t taken)⟩

/- Two conditions that agree on the steps from an invariant agree on the runs. -/
theorem throughoutIff {good fine : σ → α → Prop} {inv : σ → Prop}
    (keep : ∀ s a t, inv s → good s a → step s a = some t → inv t)
    (same : ∀ s a t, inv s → step s a = some t → (good s a ↔ fine s a))
    {s t : σ} {as : List α} (start : inv s) (reached : run step s as = some t) :
    Throughout step good s as ↔ Throughout step fine s as := by
  induction as generalizing s with
  | nil => exact Iff.rfl
  | cons a as ih =>
    obtain ⟨m,hm,rest⟩ := runCons.mp reached
    rw [throughoutCons hm, throughoutCons hm, ← same s a m start hm]
    exact and_congr_right (fun ok => ih (keep s a m start ok hm) rest)

/- A run keeps to the good steps, unless one bad step led to where no step leads out. -/
theorem throughoutOr {good : σ → α → Prop} {inv stuck : σ → Prop}
    (keep : ∀ s a t, inv s → step s a = some t → inv t)
    (enters : ∀ s a t, inv s → ¬ good s a → step s a = some t → stuck t)
    (stays : ∀ s a t, stuck s → step s a = some t → stuck t)
    {s t : σ} {as : List α} (start : inv s) (reached : run step s as = some t) :
    Throughout step good s as ∨ stuck t := by
  induction as generalizing s with
  | nil => exact .inl trivial
  | cons a as ih =>
    obtain ⟨m,hm,rest⟩ := runCons.mp reached
    by_cases ok : good s a
    · rcases ih (keep s a m start hm) rest with kept | lost
      · exact .inl ((throughoutCons hm).mpr ⟨ok,kept⟩)
      · exact .inr lost
    · exact .inr (invariant stays (enters s a m start ok hm) rest)

theorem reachableInvariant {init inv : σ → Prop} (start : ∀ s, init s → inv s)
    (keep : ∀ s a t, inv s → step s a = some t → inv t) {t : σ}
    (reached : Reachable step init t) : inv t := by
  obtain ⟨s,as,hs,run⟩ := reached
  exact invariant keep (start s hs) run

/- A simulation in step: every step is one step of the other machine, with an action that
stands for it, and so the runs are as long as each other. -/
theorem lockstep {τ β : Type*} {other : τ → β → Option τ} {view : σ → τ} {good : σ → α → Prop} {inv : σ → Prop}
    {stands : α → β → Prop} (keep : ∀ s a t, inv s → good s a → step s a = some t → inv t)
    (each : ∀ s a t, inv s → good s a → step s a = some t → ∃ b, other (view s) b = some (view t) ∧ stands a b)
    {s t : σ} {as : List α} (start : inv s) (guarded : Throughout step good s as) (reached : run step s as = some t) :
    ∃ bs, run other (view s) bs = some (view t) ∧ List.Forall₂ stands as bs := by
  induction as generalizing s with
  | nil =>
    cases Option.some.inj reached
    exact ⟨[],rfl,.nil⟩
  | cons a as ih =>
    obtain ⟨m,hm,rest⟩ := runCons.mp reached
    obtain ⟨b,taken,here⟩ := each s a m start guarded.1 hm
    obtain ⟨bs,later,there⟩ := ih (keep s a m start guarded.1 hm) (guarded.2 m hm) rest
    exact ⟨b :: bs,runCons.mpr ⟨view m,taken,later⟩,.cons here there⟩

/- A history variable: it changes with every step and no step looks at it. -/
section History
variable {τ : Type*} (step) (note : σ → α → σ → τ → τ)

def recording : σ × τ → α → Option (σ × τ)
  | (s,k), a => (step s a).map (fun t => (t,note s a t k))

variable {step note}

theorem recordingCases {x y : σ × τ} {a : α} (taken : recording step note x a = some y) :
    step x.1 a = some y.1 ∧ y.2 = note x.1 a y.1 x.2 := by
  obtain ⟨t,ht,made⟩ := Option.map_eq_some_iff.mp taken
  subst made
  exact ⟨ht,rfl⟩

/- The induction rules with a history: an invariant of both. -/
theorem recordingWhen {good : σ → α → Prop} {inv : σ → τ → Prop}
    (keep : ∀ s a t k, inv s k → good s a → step s a = some t → inv t (note s a t k))
    {s t : σ} {k k' : τ} {as : List α} (start : inv s k)
    (guarded : Throughout (recording step note) (fun x a => good x.1 a) (s,k) as)
    (reached : run (recording step note) (s,k) as = some (t,k')) : inv t k' := by
  have keeps : ∀ (x : σ × τ) (a : α) (y : σ × τ), inv x.1 x.2 → good x.1 a → recording step note x a = some y →
      inv y.1 y.2 := by
    intro x a y h ok recorded
    obtain ⟨taken,noted⟩ := recordingCases recorded
    rw [noted]
    exact keep x.1 a y.1 x.2 h ok taken
  have first : inv (s,k).1 (s,k).2 := start
  exact invariantWhen keeps first guarded reached

theorem recordingInvariant {inv : σ → τ → Prop}
    (keep : ∀ s a t k, inv s k → step s a = some t → inv t (note s a t k)) {s t : σ} {k k' : τ} {as : List α}
    (start : inv s k) (reached : run (recording step note) (s,k) as = some (t,k')) : inv t k' := by
  have anyway : ∀ s a t k, inv s k → True → step s a = some t → inv t (note s a t k) :=
    fun s a t k h _ taken => keep s a t k h taken
  exact recordingWhen anyway start throughoutTrue reached

end History

end TcFrame.Machine
