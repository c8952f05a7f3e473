import DeviceRegisters.Outline.Reading

/-!
# DeviceRegisters.Proofs.Outline.Runs

What the lines of a source say without any reading of them: which body lines there are, with
the documentation directly above them (`bodies`), and where documentation stands above a blank
line or the end of the text (`losses`).

Documentation lines make up one run although remarks stand between them.  A documentation line
is in the documentation of the line that ends its run (`docAbove_append_run`), and a loss is
the end of a run of which nothing can follow (`mem_losses_iff`).
-/

namespace DeviceRegisters.Outline

/-! ## lines -/

namespace Line

/-- How far a line is indented that is not passed over. -/
def indent? : Line → Option Nat
  | .doc indent _ | .body indent _ => some indent
  | .blank | .remark => none

/-- What a documentation line says. -/
def doc? : Line → Option String
  | .doc _ text => some text
  | _ => none

/-- A line that ends no run of documentation lines. -/
def isAside : Line → Bool
  | .doc .. | .remark => true
  | .blank | .body .. => false

end Line

/-- The lines of a source. -/
def linesOf (source : String) : List Line :=
  (Text.Lines.ofText source.toList).ended.map Line.ofText

/-- The documentation directly above a line; `before` lists the lines before it, the nearest
first. -/
def docAbove (before : List Line) : List String :=
  (before.takeWhile Line.isAside).reverse.filterMap Line.doc?

section
variable (before : List Line)

@[simp] theorem docAbove_nil : docAbove [] = [] := rfl

@[simp] theorem docAbove_blank : docAbove (.blank :: before) = [] := rfl

@[simp] theorem docAbove_body (indent : Nat) (text : String) :
    docAbove (.body indent text :: before) = [] := rfl

/-- What stands above a run stands above the line behind it too, in front of the run. -/
theorem docAbove_append_run {run : List Line} (h : run.all Line.isAside) :
    docAbove (run.reverse ++ before) = docAbove before ++ run.filterMap Line.doc? := by
  have haside : ∀ line ∈ run.reverse, line.isAside := by simpa using h
  rw [docAbove, List.takeWhile_append_of_pos haside, List.reverse_append, List.reverse_reverse,
    List.filterMap_append, docAbove]

@[simp] theorem docAbove_remark : docAbove (.remark :: before) = docAbove before := by
  have hrun : [Line.remark].all Line.isAside := rfl
  exact (docAbove_append_run before hrun).trans (List.append_nil _)

@[simp] theorem docAbove_doc (indent : Nat) (text : String) :
    docAbove (.doc indent text :: before) = docAbove before ++ [text] := by
  have hrun : [Line.doc indent text].all Line.isAside := rfl
  exact docAbove_append_run before hrun

end

/-- The lines above, as far as they belong to one run. -/
theorem exists_run_above (before : List Line) :
    ∃ older run : List Line, before = run.reverse ++ older ∧ run.all Line.isAside ∧
      docAbove before = run.filterMap Line.doc? := by
  refine ⟨before.dropWhile Line.isAside, (before.takeWhile Line.isAside).reverse, ?_, ?_, rfl⟩
  · rw [List.reverse_reverse, List.takeWhile_append_dropWhile]
  · rw [List.all_reverse]
    exact List.all_takeWhile

/-! ## going through lines -/

/-- What is found line by line, each with the lines before it, the nearest first. -/
def gather {α : Type} (f : List Line → Line → Option α) (before : List Line) : List Line → List α
  | [] => []
  | line :: lines => (f before line).toList ++ gather f (line :: before) lines

section
variable {α : Type} {f : List Line → Line → Option α}

/-- What is gathered is found at some line by what is above it. -/
theorem mem_gather_iff {before lines : List Line} {a : α} :
    a ∈ gather f before lines ↔ ∃ older line newer, lines = older ++ line :: newer ∧
      f (older.reverse ++ before) line = some a := by
  induction lines generalizing before with
  | nil => simp [gather]
  | cons line lines ih =>
      rw [gather, List.mem_append, Option.mem_toList, ih]
      constructor
      · rintro (hline | ⟨older, other, newer, rfl, hother⟩)
        · exact ⟨[], line, lines, rfl, hline⟩
        · exact ⟨line :: older, other, newer, rfl, by simpa using hother⟩
      · rintro ⟨_ | ⟨first, older⟩, other, newer, hlines, hother⟩
        · obtain ⟨rfl, rfl⟩ := List.cons.inj hlines
          exact .inl hother
        · obtain ⟨rfl, rfl⟩ := List.cons.inj hlines
          exact .inr ⟨older, other, newer, rfl, by simpa using hother⟩

/-- What carries the number of its line is found in the order of the numbers. -/
theorem pairwise_gather (number : α → Nat)
    (hnumber : ∀ before line a, f before line = some a → number a = before.length + 1)
    (before lines : List Line) :
    (gather f before lines).Pairwise fun earlier later => number earlier < number later := by
  induction lines generalizing before with
  | nil => exact .nil
  | cons line lines ih =>
      rw [gather, List.pairwise_append]
      refine ⟨by cases f before line <;> simp, ih _, fun earlier hearlier later hlater => ?_⟩
      obtain ⟨older, other, newer, -, hother⟩ := mem_gather_iff.mp hlater
      rw [hnumber before line earlier (Option.mem_toList.mp hearlier), hnumber _ other later hother]
      simp only [List.length_append, List.length_reverse, List.length_cons]
      omega

end

/-! ## body lines and losses -/

/-- A body line with its number and its documentation. -/
def bodyAt (before : List Line) : Line → Option Item
  | .body indent text => some ⟨indent, before.length + 1, text, docAbove before⟩
  | _ => none

/-- A blank line with documentation directly above it. -/
def lossAt (before : List Line) : Line → Option Warning
  | .blank => if docAbove before = [] then none else some ⟨.blankLine, before.length + 1⟩
  | _ => none

/-- The end of the text with documentation directly above it. -/
def lossAtEnd (before : List Line) : Option Warning :=
  if docAbove before = [] then none else some ⟨.endOfText, before.length⟩

/-- The body lines among lines. -/
def bodies (lines : List Line) : List Item := gather bodyAt [] lines

/-- The ends of the documentation that no body line follows. -/
def losses (lines : List Line) : List Warning :=
  gather lossAt [] lines ++ (lossAtEnd lines.reverse).toList

theorem pairwise_bodies (lines : List Line) :
    (bodies lines).Pairwise fun earlier later => earlier.number < later.number := by
  refine pairwise_gather Item.number (fun before line item hitem => ?_) [] lines
  cases line <;> simp only [bodyAt, reduceCtorEq, Option.some.injEq] at hitem
  rw [← hitem]

/-- A run of documentation lines ends where no body line stands; the warning is where. -/
inductive Lost : List Line → Warning → Prop where
  | blankLine (before run after : List Line) : run.all Line.isAside →
      run.filterMap Line.doc? ≠ [] →
      Lost (before ++ run ++ .blank :: after) ⟨.blankLine, (before ++ run).length + 1⟩
  | endOfText (before run : List Line) : run.all Line.isAside → run.filterMap Line.doc? ≠ [] →
      Lost (before ++ run) ⟨.endOfText, (before ++ run).length⟩

theorem lossAt_eq_some_iff {before : List Line} {line : Line} {w : Warning} :
    lossAt before line = some w ↔
      line = .blank ∧ docAbove before ≠ [] ∧ w = ⟨.blankLine, before.length + 1⟩ := by
  cases line <;> simp [lossAt, eq_comm (b := w)]

theorem lossAtEnd_eq_some_iff {before : List Line} {w : Warning} :
    lossAtEnd before = some w ↔ docAbove before ≠ [] ∧ w = ⟨.endOfText, before.length⟩ := by
  simp [lossAtEnd, eq_comm (b := w)]

/-- The losses are the ends of runs where no body line stands. -/
theorem mem_losses_iff {lines : List Line} {w : Warning} : w ∈ losses lines ↔ Lost lines w := by
  rw [losses, List.mem_append, mem_gather_iff, Option.mem_toList, lossAtEnd_eq_some_iff]
  constructor
  · rintro (⟨before, line, after, rfl, hloss⟩ | ⟨hdoc, rfl⟩)
    · obtain ⟨rfl, hdoc, rfl⟩ := lossAt_eq_some_iff.mp hloss
      obtain ⟨older, run, hbefore, hrun, habove⟩ := exists_run_above before.reverse
      have hsplit : before = older.reverse ++ run := by
        rw [← List.reverse_inj, hbefore, List.reverse_append, List.reverse_reverse]
      rw [List.append_nil] at hdoc ⊢
      rw [List.length_reverse, hsplit]
      exact .blankLine older.reverse run after hrun (habove ▸ hdoc)
    · obtain ⟨older, run, hlines, hrun, habove⟩ := exists_run_above lines.reverse
      have hsplit : lines = older.reverse ++ run := by
        rw [← List.reverse_inj, hlines, List.reverse_append, List.reverse_reverse]
      rw [List.length_reverse, hsplit]
      exact .endOfText older.reverse run hrun (habove ▸ hdoc)
  · rintro (⟨before, run, after, hrun, hdoc⟩ | ⟨before, run, hrun, hdoc⟩)
    · refine .inl ⟨before ++ run, .blank, after, rfl,
        lossAt_eq_some_iff.mpr ⟨rfl, ?_, by simp [Nat.add_comm]⟩⟩
      simp [docAbove_append_run _ hrun, hdoc]
    · refine .inr ⟨?_, by simp [Nat.add_comm]⟩
      simp [docAbove_append_run _ hrun, hdoc]

/-- No loss is told twice. -/
theorem nodup_losses (lines : List Line) : (losses lines).Nodup := by
  have hgathered : (gather lossAt [] lines).Pairwise fun earlier later =>
      earlier.number < later.number := by
    refine pairwise_gather Warning.number (fun before line w hw => ?_) [] lines
    rw [(lossAt_eq_some_iff.mp hw).2.2]
  rw [losses, List.nodup_append]
  refine ⟨hgathered.imp fun hlt heq => ?_, by cases lossAtEnd lines.reverse <;> simp,
    fun w hw other hother heq => ?_⟩
  · rw [heq] at hlt
    exact Nat.lt_irrefl _ hlt
  · obtain ⟨_, _, _, -, hloss⟩ := mem_gather_iff.mp hw
    rw [(lossAt_eq_some_iff.mp hloss).2.2,
      (lossAtEnd_eq_some_iff.mp (Option.mem_toList.mp hother)).2] at heq
    simp at heq

/-- Where a documentation line is told of: at the end of its run, by the body line that stands
there, or by the loss. -/
theorem doc_mem_or_lost {before run after : List Line} {indent : Nat} {text : String}
    (hrun : run.all Line.isAside) (hafter : ∀ line ∈ after.head?, line.isAside = false) :
    (∃ depth line, after.head? = some (.body depth line) ∧
        ⟨depth, before.length + run.length + 2, line,
            docAbove before.reverse ++ text :: run.filterMap Line.doc?⟩ ∈
          bodies (before ++ .doc indent text :: (run ++ after))) ∨
      (after.head? = some .blank ∧ Lost (before ++ .doc indent text :: (run ++ after))
        ⟨.blankLine, before.length + run.length + 2⟩) ∨
      (after = [] ∧ Lost (before ++ .doc indent text :: (run ++ after))
        ⟨.endOfText, before.length + run.length + 1⟩) := by
  have hwhole : (Line.doc indent text :: run).all Line.isAside := by simpa [Line.isAside] using hrun
  have hdocs : (Line.doc indent text :: run).filterMap Line.doc? = text :: run.filterMap Line.doc? :=
    rfl
  match after, hafter with
  | [], _ =>
      right; right
      have hlost := Lost.endOfText before _ hwhole (by simp [hdocs])
      refine ⟨rfl, ?_⟩
      simpa [Nat.add_assoc] using hlost
  | .blank :: after, _ =>
      right; left
      have hlost := Lost.blankLine before _ after hwhole (by simp [hdocs])
      refine ⟨rfl, ?_⟩
      simpa [Nat.add_assoc] using hlost
  | .body depth line :: after, _ =>
      left
      refine ⟨depth, line, rfl, mem_gather_iff.mpr
        ⟨before ++ .doc indent text :: run, .body depth line, after, by simp, ?_⟩⟩
      have hnumber : (before ++ .doc indent text :: run).reverse.length + 1 =
          before.length + run.length + 2 := by
        rw [List.length_reverse, List.length_append, List.length_cons]
        omega
      rw [List.append_nil, bodyAt, hnumber, List.reverse_append, docAbove_append_run _ hwhole,
        hdocs]
  | .doc _ _ :: _, h => simp [Line.isAside] at h
  | .remark :: _, h => simp [Line.isAside] at h

end DeviceRegisters.Outline
