import TcFrame.Exposition
import TcFrame.MetricsExport
import TcFrame.TcpServerMetrics

/-! What a scraper of the exported file gets: the text of GetPrometheusMetrics read back, one
export after the other. -/
namespace TcFrame
open Machine

namespace MetricsExport

/- What the file may have held so far: the content there was at first, then the payloads. -/
def contents (first : Option Text) (w : World) : List Text := first.toList ++ w.exported

/- A scraper reads the file to its end and opens it again. These are the texts that each one
has got. -/
def noteScrape (w : World) (a : Action) (_ : World) (scrapes : Nat → List Text) : Nat → List Text :=
  match a with
  | .openFile r =>
    match w.readers r with
    | some x => if x.got = w.fs.data x.ino then Function.update scrapes r (scrapes r ++ [x.got]) else scrapes
    | none => scrapes
  | _ => scrapes

def Pc.payload : Pc → Option Text
  | .idle => none
  | .writing _ payload _ _ | .closed _ payload => some payload

/- The `i`-th content has the name. -/
def PathAt (first : Option Text) (w : World) (i : Nat) : Prop :=
  ∃ ino, w.fs.dir w.path = some ino ∧ (contents first w)[i]? = some (w.fs.data ino)

/- The texts are contents in their order, up to the `i`-th. -/
def InOrder (all : List Text) (texts : List Text) (i : Nat) : Prop :=
  ∃ js : List Nat, js.Pairwise (· ≤ ·) ∧ (∀ j ∈ js, j ≤ i) ∧ List.Forall₂ (fun t j => all[j]? = some t) texts js

inductive Scraping (first : Option Text) (w : World) (r : Nat) (texts : List Text) : Prop where
  | closed (none_ : w.readers r = none) (nothing : texts = [])
  | open_ (x : Reader) (j i : Nat) (here : w.readers r = some x) (has : (contents first w)[j]? = some (w.fs.data x.ino))
      (old : j ≤ i) (path : PathAt first w i) (inOrder : InOrder (contents first w) texts j)

/- The ways of a step. -/
inductive Turn (w : World) : Action → World → Prop where
  | refused {payload opens} : Turn w (.exportMetrics payload opens) w
  | exported {payload opens} : Turn w (.exportMetrics payload opens)
      { w with
        fs := (w.fs.openTruncated (tmpPath w)).1
        pc := .writing (w.fs.openTruncated (tmpPath w)).2 payload payload false
        exported := w.exported ++ [payload] }
  | wrote {ino payload rest n} (here : w.pc = .writing ino payload rest false) : Turn w (.write n)
      { w with fs := w.fs.write ino (rest.take n), pc := .writing ino payload (rest.drop n) false }
  | failed {ino payload rest} (here : w.pc = .writing ino payload rest false) : Turn w .writeFails
      { w with pc := .writing ino payload rest true }
  | closed {ino payload rest bad} (here : w.pc = .writing ino payload rest bad) : Turn w .close
      { w with pc := .closed ino payload }
  | renamed {ino payload} (here : w.pc = .closed ino payload) : Turn w (.rename true)
      { w with fs := w.fs.rename (tmpPath w) w.path, pc := .idle }
  | unnamed : Turn w (.rename false) { w with pc := .idle }
  | crashed : Turn w .crash { w with pc := .idle }
  | opened {r} : Turn w (.openFile r)
      { w with readers := Function.update w.readers r ((w.fs.dir w.path).map (fun ino => ⟨ino,[]⟩)) }
  | read {r n x} (here : w.readers r = some x) : Turn w (.read r n)
      { w with readers := Function.update w.readers r
                 (some { x with got := x.got ++ ((w.fs.data x.ino).drop x.got.length).take n }) }

theorem turnCases {w w' : World} {a : Action} (taken : step w a = some w') : Turn w a w' := by
  cases a with
  | exportMetrics payload opens =>
    obtain ⟨_,taken⟩ := Option.ite_none_left_eq_some.mp taken
    split at taken <;> cases Option.some.inj taken
    · exact .refused
    · exact .exported
  | write n =>
    simp only [step] at taken
    split at taken <;> cases taken
    exact .wrote (by assumption)
  | writeFails =>
    simp only [step] at taken
    split at taken <;> cases taken
    exact .failed (by assumption)
  | close =>
    simp only [step] at taken
    split at taken
    · cases (Option.ite_none_right_eq_some.mp taken).2
      exact .closed (by assumption)
    · cases taken
  | rename succeeds =>
    simp only [step] at taken
    split at taken <;> cases taken
    cases succeeds with
    | true => exact .renamed (by assumption)
    | false => exact .unnamed
  | crash =>
    cases Option.some.inj taken
    exact .crashed
  | openFile r =>
    cases Option.some.inj taken
    exact .opened
  | read r n =>
    obtain ⟨x,here,made⟩ := Option.map_eq_some_iff.mp taken
    subst made
    exact .read here

section Order
variable {first : Option Text} {w w' : World} {a : Action}

/- All writes complete. -/
abbrev Complete (first : Option Text) (w : World) : Prop := Sound first (fun t p => t = p) w

theorem inOrderMore {all more texts : List Text} {i j : Nat} (h : InOrder all texts i) (later : i ≤ j) :
    InOrder (all ++ more) texts j := by
  obtain ⟨js,sorted,below,each⟩ := h
  refine ⟨js,sorted,fun k member => Nat.le_trans (below k member) later,each.imp (fun t k found => ?_)⟩
  exact (List.getElem?_append_left (List.getElem?_eq_some_iff.mp found).1).trans found

theorem inOrderNext {all texts : List Text} {t : Text} {i : Nat} (h : InOrder all texts i) (here : all[i]? = some t) :
    InOrder all (texts ++ [t]) i := by
  obtain ⟨js,sorted,below,each⟩ := h
  refine ⟨js ++ [i],?_,?_,List.rel_append each (.cons here .nil)⟩
  · exact List.pairwise_append.mpr ⟨sorted,List.pairwise_singleton _ _,fun j member k last =>
      List.mem_singleton.mp last ▸ below j member⟩
  · intro j member
    rcases List.mem_append.mp member with old | last
    · exact below j old
    · exact Nat.le_of_eq (List.mem_singleton.mp last)

/- Nobody writes into a file that somebody can see. -/
theorem visibleKept (h : Complete first w) (turn : Turn w a w') {ino : Nat} (seen : Visible w ino) :
    w'.fs.data ino = w.fs.data ino := by
  obtain ⟨known,_,apart⟩ := h.visible ino seen
  cases turn with
  | exported => exact ((openedFresh h.tmp).2.2.2.2.2 ino known apart).2
  | @wrote file payload rest n here =>
    have pc := h.pc
    rw [here] at pc
    cases pc with
    | writing named =>
      have other : ino ≠ file := fun same => apart (by rw [same]; exact named)
      exact Function.update_of_ne other _ _
  | _ => rfl

theorem exportedGrows (turn : Turn w a w') : w.exported <+: w'.exported := by
  cases turn with
  | exported => exact List.prefix_append _ _
  | _ => exact List.prefix_rfl

theorem contentsKept (turn : Turn w a w') {j : Nat} {t : Text} (found : (contents first w)[j]? = some t) :
    (contents first w')[j]? = some t := by
  obtain ⟨more,grown⟩ := exportedGrows turn
  rw [contents, ← grown, ← List.append_assoc]
  exact (List.getElem?_append_left (List.getElem?_eq_some_iff.mp found).1).trans found

/- What is being exported is the last of the payloads. -/
def Latest (w : World) : Prop := ∀ payload, w.pc.payload = some payload → w.exported.getLast? = some payload

theorem latestStep (h : Latest w) (turn : Turn w a w') : Latest w' := by
  cases turn with
  | exported =>
    intro other same
    cases Option.some.inj same
    exact List.getLast?_concat
  | wrote here | failed here | closed here => exact fun other same => h other (by rw [here]; exact same)
  | renamed | unnamed | crashed => exact fun other same => nomatch same
  | refused | opened | read => exact h

/- A file that has the name is not replaced by an older content. -/
theorem pathStep (h : Complete first w) (latest : Latest w) (turn : Turn w a w') {i : Nat} (path : PathAt first w i) :
    ∃ i', i ≤ i' ∧ PathAt first w' i' := by
  obtain ⟨ino,named,found⟩ := path
  have same : w'.fs.dir w'.path = some ino → ∃ i', i ≤ i' ∧ PathAt first w' i' := fun still =>
    ⟨i,Nat.le_refl i,ino,still,by rw [visibleKept h turn (.inl named)]; exact contentsKept turn found⟩
  cases turn with
  | exported => exact same (((openedFresh h.tmp).2.1 w.path (tmpApart w).symm).trans named)
  | @renamed file payload here =>
    have pc := h.pc
    rw [here] at pc
    cases pc with
    | closed tmp _ complete =>
      have last := latest payload (by rw [here]; rfl)
      obtain ⟨before,split⟩ := List.getLast?_eq_some_iff.mp last
      have size : i ≤ (first.toList ++ before).length := by
        have below := (List.getElem?_eq_some_iff.mp found).1
        rw [contents, split, ← List.append_assoc, List.length_append, List.length_singleton] at below
        omega
      refine ⟨(first.toList ++ before).length,size,file,?_,?_⟩
      · simp only [FileSystem.rename, Function.update_of_ne (tmpApart w).symm, Function.update_self, tmp]
      · rw [contents, split, ← List.append_assoc]
        exact List.getElem?_concat_length.trans (congrArg some complete.symm)
  | _ => exact same named

/- Who keeps his file open keeps his place. -/
theorem scrapingStays (h : Complete first w) (latest : Latest w) (turn : Turn w a w') {r : Nat} {texts : List Text}
    (before : Scraping first w r texts) (same : (w'.readers r).map Reader.ino = (w.readers r).map Reader.ino) :
    Scraping first w' r texts := by
  cases before with
  | closed none_ nothing =>
    rw [none_] at same
    exact .closed (Option.map_eq_none_iff.mp same) nothing
  | open_ x j i here has old path inOrder =>
    rw [here] at same
    obtain ⟨x',here',file⟩ := Option.map_eq_some_iff.mp same
    obtain ⟨i',later,path'⟩ := pathStep h latest turn path
    obtain ⟨more,grown⟩ := exportedGrows turn
    have longer : contents first w' = contents first w ++ more := by rw [contents, contents, ← grown, List.append_assoc]
    refine .open_ x' j i' here' ?_ (Nat.le_trans old later) path' (longer ▸ inOrderMore inOrder (Nat.le_refl j))
    rw [file, visibleKept h turn (.inr ⟨r,x,here,rfl⟩)]
    exact contentsKept turn has

/- Who opens the file again gets what has the name now, which is no older. -/
theorem scrapingOpens (h : Complete first w) {r : Nat} {scrapes : Nat → List Text}
    (before : Scraping first w r (scrapes r)) :
    Scraping first { w with readers := Function.update w.readers r ((w.fs.dir w.path).map (fun ino => ⟨ino,[]⟩)) } r
      (noteScrape w (.openFile r) w scrapes r) := by
  cases before with
  | closed none_ nothing =>
    have noted : noteScrape w (.openFile r) w scrapes r = [] := by simp only [noteScrape, none_, nothing]
    rw [noted]
    cases named : w.fs.dir w.path with
    | none => exact .closed (Function.update_self _ _ _) rfl
    | some ino =>
      rcases (h.visible ino (.inl named)).2.1 with initial | ⟨payload,member,same⟩
      · refine .open_ ⟨ino,[]⟩ 0 0 (Function.update_self _ _ _) ?_ (Nat.le_refl 0) ⟨ino,named,?_⟩
          ⟨[],.nil,fun j none_ => absurd none_ List.not_mem_nil,.nil⟩ <;> simp [contents, initial]
      · have there : w.fs.data ino ∈ contents first w := List.mem_append_right _ (same ▸ member)
        obtain ⟨j,found⟩ := List.mem_iff_getElem?.mp there
        exact .open_ ⟨ino,[]⟩ j j (Function.update_self _ _ _) found (Nat.le_refl j) ⟨ino,named,found⟩
          ⟨[],.nil,fun j none_ => absurd none_ List.not_mem_nil,.nil⟩
  | open_ x j i here has old path inOrder =>
    have kept : InOrder (contents first w) (noteScrape w (.openFile r) w scrapes r) i := by
      have later : InOrder (contents first w ++ []) (noteScrape w (.openFile r) w scrapes r) i := by
        refine inOrderMore ?_ old
        simp only [noteScrape, here]
        split
        · rename_i all
          rw [Function.update_self, all]
          exact inOrderNext inOrder has
        · exact inOrder
      rwa [List.append_nil] at later
    obtain ⟨ino,named,found⟩ := path
    exact .open_ ⟨ino,[]⟩ i i (by simp only [named, Option.map_some, Function.update_self]) found (Nat.le_refl i)
      ⟨ino,named,found⟩ kept

theorem noteOther {r r' : Nat} {scrapes : Nat → List Text} (other : r ≠ r') :
    noteScrape w (.openFile r') w' scrapes r = scrapes r := by
  cases here : w.readers r' with
  | none => simp only [noteScrape, here]
  | some x =>
    simp only [noteScrape, here]
    split
    · exact Function.update_of_ne other _ _
    · rfl

theorem scrapingStep (h : Complete first w) (latest : Latest w) (turn : Turn w a w') {scrapes : Nat → List Text}
    (before : ∀ r, Scraping first w r (scrapes r)) (r : Nat) : Scraping first w' r (noteScrape w a w' scrapes r) := by
  have stays := scrapingStays h latest turn (before r)
  cases turn with
  | @opened r' =>
    by_cases self : r = r'
    · rw [self]
      exact scrapingOpens h (before r')
    · rw [noteOther self]
      exact stays (by simp only [Function.update_of_ne self])
  | @read r' n x here =>
    refine stays ?_
    simp only [Function.update_apply]
    split
    · rename_i self
      rw [self, here]
      rfl
    · rfl
  | _ => exact stays rfl

end Order
end MetricsExport
namespace TcpServer
open Exposition (Text Line render scrape samples)

def MetricType.text : MetricType → String
  | .counter => "counter"
  | .gauge => "gauge"

/- The HELP texts of the series of getPrometheusMetrics, in their order. -/
def helps : List String :=
  ["Total accepted connections","Total closed connections","Current active connections",
    "Whether graceful shutdown is in progress","High watermark trigger count",
    "Current pending write bytes on active connections","Total bytes read by active connections",
    "Total bytes written by active connections"]

def family (name help type : String) (value : Text) : List Line :=
  [.comment (" HELP ".toList ++ name.toList ++ ' ' :: help.toList),
    .comment (" TYPE ".toList ++ name.toList ++ ' ' :: type.toList),.sample name.toList value]

def uptimeName : String := "tcframe_uptime_seconds"

/- The text of the export. How a floating-point number is printed is left to `uptime`. -/
def metricsLines (ms : List Series) (uptime : Text) : List Line :=
  (List.zipWith (fun m help => family m.name help m.type.text (Nat.toDigits 10 m.value)) ms helps).flatten ++
    family uptimeName "Server uptime seconds" "gauge" uptime

def metricsText (ms : List Series) (uptime : Text) : Text := render (metricsLines ms uptime)

/- What a scraper should find. -/
def figures (ms : List Series) (uptime : Text) : List (Text × Text) :=
  ms.map (fun m => (m.name.toList,Nat.toDigits 10 m.value)) ++ [(uptimeName.toList,uptime)]

theorem digitsFlat (n : Nat) : '\n' ∉ Nat.toDigits 10 n := fun there =>
  absurd (Nat.isDigit_of_mem_toDigits (by decide) (by decide) there) (by decide)

theorem familyPlain {name help type : String} {value : Text} (flat : '\n' ∉ value)
    (ok : '\n' ∉ name.toList ∧ ' ' ∉ name.toList ∧ name.toList.head? ≠ some '#' ∧ name.toList ≠ [])
    (flat' : '\n' ∉ help.toList ∧ '\n' ∉ type.toList) : ∀ l ∈ family name help type value, l.Plain := by
  obtain ⟨name',word,open_,some_⟩ := ok
  intro l member
  simp only [family, List.mem_cons, List.not_mem_nil, or_false] at member
  rcases member with same | same | same <;> subst same
  · exact .comment (by simp [name', flat'.1])
  · exact .comment (by simp [name', flat'.2])
  · exact .sample open_ word some_ name' flat

theorem samplesLines (w : World) (n : Nat) (uptime : Text) :
    samples (metricsLines (getPrometheusMetrics w n) uptime) = figures (getPrometheusMetrics w n) uptime := rfl

theorem linesPlain (w : World) (n : Nat) {uptime : Text} (flat : '\n' ∉ uptime) :
    ∀ l ∈ metricsLines (getPrometheusMetrics w n) uptime, l.Plain := by
  intro l member
  simp only [metricsLines, getPrometheusMetrics, helps, List.zipWith_cons_cons, List.zipWith_nil_left, List.flatten_cons, List.flatten_nil,
    List.append_nil, List.mem_append, List.append_assoc] at member
  rcases member with here | here | here | here | here | here | here | here | here
  all_goals refine familyPlain ?_ (by decide +kernel) (by decide +kernel) l here
  all_goals first | exact digitsFlat _ | exact flat

/- The process with its file, and those who read it. `up` is false once the process has died. -/
structure Exporter where
  server : World × Nat
  files : MetricsExport.World
  up : Bool

inductive ExportAction where
  | server (a : Action)
  | exportMetrics (opens : Bool) (uptime : Text)
  | file (a : MetricsExport.Action)

def isExport : MetricsExport.Action → Bool
  | .exportMetrics _ _ => true
  | _ => false

def isCrash : MetricsExport.Action → Bool
  | .crash => true
  | _ => false

/- ExportPrometheusMetrics is a timer's callback in the main loop. What the main loop does in
the middle of it would be a step more than the program has; the reads of the counters are one
step. -/
def exportStep (x : Exporter) : ExportAction → Option Exporter
  | .server a => if x.up then (counted x.server a).map (fun v => { x with server := v }) else none
  | .exportMetrics opens uptime =>
    if x.up = true ∧ x.server.1.stack mainLoop = [] ∧ '\n' ∉ uptime then
      (MetricsExport.step x.files (.exportMetrics (metricsText (exported x.server) uptime) opens)).map
        (fun f => { x with files := f })
    else none
  | .file a =>
    if isExport a then none
    else (MetricsExport.step x.files a).map (fun f => { x with files := f, up := x.up && !isCrash a })

/- The server, and the uptime, at each export that opened its file; and what the scrapers got. -/
structure Journal where
  snapshots : List ((World × Nat) × Text)
  scrapes : Nat → List Text

def noteExport (x : Exporter) (a : ExportAction) (y : Exporter) (j : Journal) : Journal :=
  match a with
  | .server _ => j
  | .exportMetrics _ uptime =>
    if y.files.exported = x.files.exported then j else { j with snapshots := j.snapshots ++ [(x.server,uptime)] }
  | .file a => { j with scrapes := MetricsExport.noteScrape x.files a y.files j.scrapes }

def textOf (m : (World × Nat) × Text) : Text := metricsText (exported m.1) m.2

def figuresOf (m : (World × Nat) × Text) : List (Text × Text) := figures (exported m.1) m.2

/- The counters that the server keeps itself. -/
structure Grown (u v : World × Nat) : Prop where
  total : u.1.server.totalConnections ≤ v.1.server.totalConnections
  closed : u.1.server.closedConnections ≤ v.1.server.closedConnections
  triggered : u.2 ≤ v.2

theorem grownRefl (u : World × Nat) : Grown u u := ⟨Nat.le_refl _,Nat.le_refl _,Nat.le_refl _⟩

theorem grownCounted {u v w : World × Nat} {a : Action} (h : Grown u v) (taken : counted v a = some w) : Grown u w := by
  obtain ⟨moved,triggered⟩ := recordingCases taken
  have kept := countersKept (bookedStep moved)
  refine ⟨Nat.le_trans h.total kept.1,Nat.le_trans h.closed kept.2,?_⟩
  rw [triggered]
  exact Nat.le_trans h.triggered (Nat.le_add_right _ _)

theorem scrapeText {m : (World × Nat) × Text} (flat : '\n' ∉ m.2) : scrape (textOf m) = figuresOf m :=
  (Exposition.scrapeRender (linesPlain m.1.1 m.1.2 flat)).trans (samplesLines _ _ _)

theorem scrapePart {m : (World × Nat) × Text} (flat : '\n' ∉ m.2) {text : Text} (cut : text <+: textOf m) :
    scrape text <+: figuresOf m := by
  have part := Exposition.scrapeCut (linesPlain m.1.1 m.1.2 flat) cut
  rwa [samplesLines] at part

/- A process that starts without a file of an earlier one. -/
structure ExportInitial (x : Exporter) : Prop where
  files : MetricsExport.Initial x.files
  fresh : x.files.fs.dir x.files.path = none

/- The payloads are the texts of the snapshots, which are taken one after the other. -/
structure Exporting (allowed : Text → Text → Prop) (x : Exporter) (j : Journal) : Prop where
  sound : MetricsExport.Sound none allowed x.files
  texts : x.files.exported = j.snapshots.map textOf
  flat : ∀ m ∈ j.snapshots, '\n' ∉ m.2
  sorted : j.snapshots.Pairwise (fun m m' => Grown m.1 m'.1)
  past : ∀ m ∈ j.snapshots, Grown m.1 x.server

section Exports
variable {allowed : Text → Text → Prop} {x y : Exporter} {j : Journal}

theorem exportCases {f : MetricsExport.World} {payload : Text} {opens : Bool}
    (taken : MetricsExport.step x.files (.exportMetrics payload opens) = some f) :
    f = x.files ∨ f.exported = x.files.exported ++ [payload] := by
  generalize named : MetricsExport.Action.exportMetrics payload opens = a at taken
  cases MetricsExport.turnCases taken with
  | refused => exact .inl rfl
  | exported =>
    cases named
    exact .inr rfl
  | _ => cases named

theorem exportingStep (all : ∀ t, allowed t t) (h : Exporting allowed x j) {a : ExportAction}
    (bears : ∀ b, a = .file b → MetricsExport.Bears allowed b) (taken : exportStep x a = some y) :
    Exporting allowed y (noteExport x a y j) := by
  cases a with
  | server a =>
    obtain ⟨_,taken⟩ := Option.ite_none_right_eq_some.mp taken
    obtain ⟨v,moved,made⟩ := Option.map_eq_some_iff.mp taken
    subst made
    exact ⟨h.sound,h.texts,h.flat,h.sorted,fun m member => grownCounted (h.past m member) moved⟩
  | exportMetrics opens uptime =>
    obtain ⟨⟨_,_,line⟩,taken⟩ := Option.ite_none_right_eq_some.mp taken
    obtain ⟨f,moved,made⟩ := Option.map_eq_some_iff.mp taken
    subst made
    have whole : MetricsExport.Bears allowed (.exportMetrics (metricsText (exported x.server) uptime) opens) :=
      fun fails => nomatch fails
    have sound := MetricsExport.soundStep all h.sound whole moved
    rcases exportCases moved with same | grown
    · subst same
      simp only [noteExport, if_true]
      exact ⟨sound,h.texts,h.flat,h.sorted,h.past⟩
    · have other : f.exported ≠ x.files.exported := by
        intro same
        have sizes := congrArg List.length (grown.symm.trans same)
        simp at sizes
      simp only [noteExport, if_neg other]
      refine ⟨sound,?_,fun m member => ?_,?_,fun m member => ?_⟩
      · rw [grown, h.texts, List.map_append]
        rfl
      · rcases List.mem_append.mp member with old | last
        · exact h.flat m old
        · rw [List.mem_singleton.mp last]
          exact line
      · exact List.pairwise_append.mpr ⟨h.sorted,List.pairwise_singleton _ _,fun m member m' last => by
          rw [List.mem_singleton.mp last]
          exact h.past m member⟩
      · rcases List.mem_append.mp member with old | last
        · exact h.past m old
        · rw [List.mem_singleton.mp last]
          exact grownRefl _
  | file a =>
    obtain ⟨own,taken⟩ := Option.ite_none_left_eq_some.mp taken
    obtain ⟨f,moved,made⟩ := Option.map_eq_some_iff.mp taken
    subst made
    have kept : f.exported = x.files.exported := by
      cases MetricsExport.turnCases moved with
      | exported => exact absurd rfl own
      | _ => rfl
    exact ⟨MetricsExport.soundStep all h.sound (bears a rfl) moved,kept.trans h.texts,h.flat,h.sorted,h.past⟩

theorem exportingInitial (start : ExportInitial x) : Exporting allowed x ⟨[],fun _ => []⟩ := by
  have sound : MetricsExport.Sound _ allowed x.files := MetricsExport.soundInitial start.files
  rw [start.fresh] at sound
  refine ⟨sound,start.files.exported,fun m none_ => absurd none_ List.not_mem_nil,.nil,
    fun m none_ => absurd none_ List.not_mem_nil⟩

/- What any reader has got of any export is right as far as it goes. -/
theorem readerPart (h : Exporting (fun t p => t <+: p) x j) {r : Nat} {y : MetricsExport.Reader}
    (here : x.files.readers r = some y) : ∃ m ∈ j.snapshots, scrape y.got <+: figuresOf m := by
  rcases (h.sound.visible y.ino (.inr ⟨r,y,here,rfl⟩)).2.1 with old | ⟨payload,member,part⟩
  · cases old
  · rw [h.texts] at member
    obtain ⟨m,there,same⟩ := List.mem_map.mp member
    subst same
    exact ⟨m,there,scrapePart (h.flat m there) ((h.sound.got r y here).trans part)⟩

/- The scrapes of one scraper, one after the other. -/
structure Scraped (x : Exporter) (j : Journal) : Prop where
  exporting : Exporting (fun t p => t = p) x j
  latest : MetricsExport.Latest x.files
  scraping : ∀ r, MetricsExport.Scraping none x.files r (j.scrapes r)

theorem scrapedFiles (h : Scraped x j) {a : MetricsExport.Action} {f : MetricsExport.World}
    (moved : MetricsExport.step x.files a = some f) (r : Nat) :
    MetricsExport.Latest f ∧ MetricsExport.Scraping none f r (MetricsExport.noteScrape x.files a f j.scrapes r) := by
  have turn := MetricsExport.turnCases moved
  exact ⟨MetricsExport.latestStep h.latest turn,MetricsExport.scrapingStep h.exporting.sound h.latest turn h.scraping r⟩

theorem scrapedStep (h : Scraped x j) {a : ExportAction} (sane : a ≠ .file .writeFails) (taken : exportStep x a = some y) :
    Scraped y (noteExport x a y j) := by
  have bears : ∀ b, a = .file b → MetricsExport.Bears (fun t p => t = p) b := fun b same fails =>
    absurd (same.trans (congrArg _ fails)) sane
  have exporting := exportingStep (fun _ => rfl) h.exporting bears taken
  cases a with
  | server a =>
    obtain ⟨_,taken⟩ := Option.ite_none_right_eq_some.mp taken
    obtain ⟨v,moved,made⟩ := Option.map_eq_some_iff.mp taken
    subst made
    exact ⟨exporting,h.latest,h.scraping⟩
  | exportMetrics opens uptime =>
    obtain ⟨_,taken⟩ := Option.ite_none_right_eq_some.mp taken
    obtain ⟨f,moved,made⟩ := Option.map_eq_some_iff.mp taken
    subst made
    have files := scrapedFiles h moved
    refine ⟨exporting,(files 0).1,fun r => ?_⟩
    have scrapes : (noteExport x (.exportMetrics opens uptime) { x with files := f } j).scrapes = j.scrapes := by
      simp only [noteExport]
      split <;> rfl
    rw [scrapes]
    exact (files r).2
  | file a =>
    obtain ⟨_,taken⟩ := Option.ite_none_left_eq_some.mp taken
    obtain ⟨f,moved,made⟩ := Option.map_eq_some_iff.mp taken
    subst made
    have files := scrapedFiles h moved
    exact ⟨exporting,(files 0).1,fun r => (files r).2⟩

end Exports

def ownCounters : List String :=
  ["tcframe_connections_total","tcframe_connections_closed_total","tcframe_output_high_watermark_triggered_total"]

/- None of the server's own counters has a smaller value in the later scrape. -/
def Rises (t t' : Text) : Prop :=
  ∀ name ∈ ownCounters, ∀ v v', (name.toList,v) ∈ scrape t → (name.toList,v') ∈ scrape t' →
    Nat.ofDigitChars 10 v 0 ≤ Nat.ofDigitChars 10 v' 0

def ownValues (u : World × Nat) : List Nat :=
  [u.1.server.totalConnections,u.1.server.closedConnections,u.2]

theorem ownFigures (m : (World × Nat) × Text) {i : Nat} {name : String} {v : Text} (own : ownCounters[i]? = some name)
    (member : (name.toList,v) ∈ figuresOf m) : ∃ n, (ownValues m.1)[i]? = some n ∧ Nat.ofDigitChars 10 v 0 = n := by
  match i with
  | 0 | 1 | 2 =>
    cases own
    simp [figuresOf, figures, exported, getPrometheusMetrics, uptimeName] at member
    subst member
    exact ⟨_,rfl,Nat.ofDigitChars_ten_toDigits⟩
  | _ + 3 => cases own

theorem risesGrown {m m' : (World × Nat) × Text} (grown : Grown m.1 m'.1) {t t' : Text} (read : scrape t = figuresOf m)
    (read' : scrape t' = figuresOf m') : Rises t t' := by
  intro name own v v' here there
  obtain ⟨i,at_⟩ := List.mem_iff_getElem?.mp own
  obtain ⟨n,value,same⟩ := ownFigures m at_ (read ▸ here)
  obtain ⟨n',value',same'⟩ := ownFigures m' at_ (read' ▸ there)
  rw [same, same']
  match i with
  | 0 | 1 | 2 =>
    cases value
    cases value'
    first | exact grown.total | exact grown.closed | exact grown.triggered
  | _ + 3 => cases value

theorem inOrderMember {all texts : List Text} {js : List Nat} (each : List.Forall₂ (fun t j => all[j]? = some t) texts js) {t : Text}
    (member : t ∈ texts) : ∃ j ∈ js, all[j]? = some t := by
  induction each with
  | nil => cases member
  | cons here _ ih =>
    rcases List.mem_cons.mp member with first | later
    · exact ⟨_,List.mem_cons_self,first ▸ here⟩
    · obtain ⟨j,there,found⟩ := ih later
      exact ⟨j,List.mem_cons_of_mem _ there,found⟩

theorem inOrderPairs {all texts : List Text} {i : Nat} {P : Text → Text → Prop} (h : MetricsExport.InOrder all texts i)
    (ok : ∀ (j k : Nat) (t t' : Text), j ≤ k → all[j]? = some t → all[k]? = some t' → P t t') : texts.Pairwise P := by
  obtain ⟨js,sorted,-,each⟩ := h
  induction each with
  | nil => exact .nil
  | cons here rest ih =>
    obtain ⟨first,later⟩ := List.pairwise_cons.mp sorted
    refine List.pairwise_cons.mpr ⟨fun t' member => ?_,ih later⟩
    obtain ⟨k,there,found⟩ := inOrderMember rest member
    exact ok _ k _ t' (first k there) here found

/- What a scraper gets, in every run of the server with its exports and of any readers. What has
been read is right as far as it goes, even where a write failed: complete lines carry the
figures that the server had at one export. And as long as no write has failed, every complete
scrape has all of them, and of two scrapes of one scraper the later one is of no earlier
export: the counters that the server keeps itself never fall. -/
theorem scrapesTrue {s x : Exporter} {j : Journal} {as : List ExportAction} (start : ExportInitial s)
    (reached : run (recording exportStep noteExport) (s,⟨[],fun _ => []⟩) as = some (x,j)) :
    (∀ r y, x.files.readers r = some y → ∃ m ∈ j.snapshots, scrape y.got <+: figuresOf m) ∧
    ((∀ a ∈ as, a ≠ .file .writeFails) → ∀ r,
      (∀ t ∈ j.scrapes r, ∃ m ∈ j.snapshots, scrape t = figuresOf m) ∧ (j.scrapes r).Pairwise Rises) := by
  refine ⟨fun r y here => ?_,fun sane r => ?_⟩
  · have keep : ∀ x a y j, Exporting (fun t p => t <+: p) x j → exportStep x a = some y →
        Exporting (fun t p => t <+: p) y (noteExport x a y j) :=
      fun _ _ _ _ h taken => exportingStep List.prefix_refl h (fun _ _ _ _ _ ok => ok) taken
    have first : Exporting (fun t p => t <+: p) s ⟨[],fun _ => []⟩ := exportingInitial start
    exact readerPart (recordingInvariant keep first reached) here
  · have never : Throughout (recording exportStep noteExport) (fun _ a => a ≠ .file .writeFails) (s,⟨[],fun _ => []⟩) as :=
      throughoutEach reached (fun bs a cs m n same _ _ => sane a (by rw [same]; simp))
    have first : Scraped s ⟨[],fun _ => []⟩ := by
      refine ⟨exportingInitial start,fun payload same => ?_,fun r => .closed (start.files.readers r) rfl⟩
      rw [start.files.pc] at same
      cases same
    have keep : ∀ x a y j, Scraped x j → a ≠ .file .writeFails → exportStep x a = some y →
        Scraped y (noteExport x a y j) := fun _ _ _ _ h ok taken => scrapedStep h ok taken
    have h : Scraped x j := recordingWhen keep first never reached
    have all : MetricsExport.contents none x.files = j.snapshots.map textOf := h.exporting.texts
    have found : ∀ {k : Nat} {t : Text}, (MetricsExport.contents none x.files)[k]? = some t →
        ∃ m, j.snapshots[k]? = some m ∧ scrape t = figuresOf m := by
      intro k t at_
      rw [all, List.getElem?_map] at at_
      obtain ⟨m,there,same⟩ := Option.map_eq_some_iff.mp at_
      subst same
      exact ⟨m,there,scrapeText (h.exporting.flat m (List.mem_of_getElem? there))⟩
    cases h.scraping r with
    | closed none_ nothing =>
      rw [nothing]
      exact ⟨fun t none_ => absurd none_ List.not_mem_nil,.nil⟩
    | open_ y k i here has old path inOrder =>
      refine ⟨fun t member => ?_,inOrderPairs inOrder (fun k k' t t' below at_ at' => ?_)⟩
      · obtain ⟨js,_,_,each⟩ := inOrder
        obtain ⟨k,_,at_⟩ := inOrderMember each member
        obtain ⟨m,there,read⟩ := found at_
        exact ⟨m,List.mem_of_getElem? there,read⟩
      · obtain ⟨m,there,read⟩ := found at_
        obtain ⟨m',there',read'⟩ := found at'
        refine risesGrown ?_ read read'
        obtain ⟨size,same⟩ := List.getElem?_eq_some_iff.mp there
        obtain ⟨size',same'⟩ := List.getElem?_eq_some_iff.mp there'
        rcases Nat.lt_or_eq_of_le below with earlier | equal
        · rw [← same, ← same']
          exact List.pairwise_iff_getElem.mp h.exporting.sorted k k' size size' earlier
        · subst equal
          rw [← same, ← same']
          exact grownRefl _

/- A server that has not been started, with no file yet. -/
def unstarted : Exporter :=
  { server := (constructed 0 quiet 1 false,0)
    files :=
      { enabled := true
        path := ['m']
        fs := ⟨fun _ => none,fun _ => [],0⟩
        pc := .idle
        readers := fun _ => none
        exported := [] }
    up := true }

theorem unstartedInitial : ExportInitial unstarted :=
  ⟨⟨rfl,fun _ => rfl,rfl,(fun _ _ named => nomatch named),(fun _ named => nomatch named)⟩,rfl⟩

def exportFile : List ExportAction :=
  [.exportMetrics true ['0'],.file (.write 4096),.file .close,.file (.rename true)]

/- A scraper reads the export behind the first connection. -/
def oneScrape : List ExportAction :=
  [.server .start,.server .poll,.server (.accept 5 64),.server (.goOn 0)] ++ exportFile ++
    [.file (.openFile 0),.file (.read 0 4096),.file (.openFile 0)]

theorem scrapesTrueOnce : ∃ x j, run (recording exportStep noteExport) (unstarted,⟨[],fun _ => []⟩) oneScrape = some (x,j) ∧
    (j.scrapes 0).length = 1 ∧ ∀ t ∈ j.scrapes 0, ∃ m ∈ j.snapshots, scrape t = figuresOf m := by
  have one : (run (recording exportStep noteExport) (unstarted,⟨[],fun _ => []⟩) oneScrape).map (fun y => (y.2.scrapes 0).length) =
      some 1 := by decide +kernel
  obtain ⟨⟨x,j⟩,reached,length⟩ := Option.map_eq_some_iff.mp one
  have sane : ∀ a ∈ oneScrape, a ≠ .file .writeFails := by simp [oneScrape, exportFile]
  exact ⟨x,j,reached,length,((scrapesTrue unstartedInitial reached).2 sane 0).1⟩

end TcpServer
end TcFrame
