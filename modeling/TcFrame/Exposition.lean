import Mathlib.Data.List.Infix
import Mathlib.Data.List.TakeDrop

/-! A text of lines, each a comment or a name with its value, and a reader of such a text. A
line is one that has been ended, so a text cut off anywhere is read as far as its lines go.
Nothing here names a program. -/
namespace TcFrame.Exposition

abbrev Text := List Char

inductive Line where
  | comment (text : Text)
  | sample (name value : Text)
  deriving DecidableEq, Repr

def Line.text : Line → Text
  | .comment text => '#' :: text
  | .sample name value => name ++ ' ' :: value

def render (ls : List Line) : Text := ls.flatMap (fun l => l.text ++ ['\n'])

/- The lines of a text behind the characters that the current one has already. -/
def linesFrom : Text → Text → List Text
  | _, [] => []
  | cur, c :: rest => if c = '\n' then cur :: linesFrom [] rest else linesFrom (cur ++ [c]) rest

def readLine (line : Text) : Option (Text × Text) :=
  if line.head? = some '#' then none
  else
    match line.span (fun c => c ≠ ' ') with
    | (name,_ :: value) => some (name,value)
    | (_,[]) => none

def scrape (text : Text) : List (Text × Text) := (linesFrom [] text).filterMap readLine

def samples (ls : List Line) : List (Text × Text) :=
  ls.filterMap (fun
    | .comment _ => none
    | .sample name value => some (name,value))

/- A line can be told from the next one, and a name from a comment and from its value. -/
inductive Line.Plain : Line → Prop where
  | comment {text} (flat : '\n' ∉ text) : Line.Plain (.comment text)
  | sample {name value} (open_ : name.head? ≠ some '#') (word : ' ' ∉ name) (some_ : name ≠ [])
      (flat : '\n' ∉ name) (flat' : '\n' ∉ value) : Line.Plain (.sample name value)

theorem linesFromLine {l rest : Text} (flat : '\n' ∉ l) (cur : Text) :
    linesFrom cur (l ++ '\n' :: rest) = (cur ++ l) :: linesFrom [] rest := by
  induction l generalizing cur with
  | nil => simp [linesFrom]
  | cons c l ih =>
    have here : c ≠ '\n' := fun same => flat (same ▸ List.mem_cons_self)
    rw [List.cons_append, linesFrom, if_neg here, ih (fun there => flat (List.mem_cons_of_mem _ there)), List.append_assoc]
    rfl

/- Text that comes later ends lines and takes none back. -/
theorem linesFromPrefix (cur text more : Text) : linesFrom cur text <+: linesFrom cur (text ++ more) := by
  induction text generalizing cur with
  | nil => exact List.nil_prefix
  | cons c text ih =>
    rw [List.cons_append, linesFrom, linesFrom]
    split
    · exact (List.prefix_cons_inj cur).mpr (ih [])
    · exact ih _

theorem plainFlat {l : Line} (plain : l.Plain) : '\n' ∉ l.text := by
  cases plain with
  | comment flat => simpa [Line.text] using flat
  | sample _ _ _ flat flat' => simp [Line.text, flat, flat']

theorem readPlain {l : Line} (plain : l.Plain) :
    readLine l.text = match l with | .comment _ => none | .sample name value => some (name,value) := by
  cases plain with
  | comment => rfl
  | @sample name value open_ word some_ =>
    have head : (name ++ ' ' :: value).head? ≠ some '#' := by
      cases name with
      | nil => exact absurd rfl some_
      | cons c cs => exact open_
    have letters : ∀ c ∈ name, decide (c ≠ ' ') = true := fun c member =>
      decide_eq_true (fun same => word (same ▸ member))
    have cut : (name ++ ' ' :: value).span (fun c => c ≠ ' ') = (name,' ' :: value) := by
      rw [List.span_eq_takeWhile_dropWhile, List.takeWhile_append_of_pos letters, List.dropWhile_append_of_pos letters]
      simp
    simp only [readLine, Line.text, if_neg head, cut]

/- What is rendered is read back. -/
theorem scrapeRender {ls : List Line} (plain : ∀ l ∈ ls, l.Plain) : scrape (render ls) = samples ls := by
  induction ls with
  | nil => rfl
  | cons l ls ih =>
    have here := plain l List.mem_cons_self
    have rest := ih (fun m member => plain m (List.mem_cons_of_mem _ member))
    have first : render (l :: ls) = l.text ++ '\n' :: render ls := by simp [render]
    rw [scrape, first, linesFromLine (plainFlat here), List.nil_append, List.filterMap_cons, readPlain here, ← scrape,
      rest]
    cases l <;> rfl

/- And of a text that is cut off the first samples are. -/
theorem scrapeCut {text : Text} {ls : List Line} (plain : ∀ l ∈ ls, l.Plain) (cut : text <+: render ls) :
    scrape text <+: samples ls := by
  obtain ⟨more,whole⟩ := cut
  rw [← scrapeRender plain, ← whole]
  exact (linesFromPrefix [] text more).filterMap readLine

end TcFrame.Exposition
