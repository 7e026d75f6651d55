import FormatEdits.Proofs.CommandLine.Collecting
import FormatEdits.Proofs.Formatter

namespace FormatEdits.CommandLine

open Text.Utf8 (encode)

/-- What the two streams hold. -/
structure Streams where
  stdout : Text := []
  stderr : Text := []
  deriving DecidableEq, Repr

/-- Steps that write to the streams. A failure ends them, and what is written by then stays. -/
abbrev Steps := ExceptT Failure (StateM Streams)

namespace Steps

def print (t : Text) : Steps Unit := modify fun s => { s with stdout := s.stdout ++ t }

def tell (t : Text) : Steps Unit := modify fun s => { s with stderr := s.stderr ++ t }

/-- A step that only finds something out, or fails. -/
def find {α : Type} (x : Except Failure α) : Steps α := ExceptT.mk (pure x)

/-- How steps end, and what the streams hold then. -/
def outcome {α : Type} (x : Steps α) (s : Streams) : Except Failure α × Streams := x.run.run s

section Outcomes

variable {α β : Type} (s : Streams)

theorem outcome_find (x : Except Failure α) : (find x).outcome s = (x,s) := rfl

theorem outcome_bind (x : Steps α) (next : α → Steps β) :
    (x >>= next).outcome s = match x.outcome s with
      | (.ok a,s) => (next a).outcome s
      | (.error f,s) => (.error f,s) := by
  cases h : x.outcome s with
  | mk o after =>
    have hrun : x s = (o,after) := h
    simp only [outcome,ExceptT.run,bind,ExceptT.bind,ExceptT.mk,StateT.bind,StateT.run,hrun]
    cases o <;> rfl

theorem outcome_tryCatch (x : Steps α) (handle : Failure → Steps α) :
    (tryCatch x handle).outcome s = match x.outcome s with
      | (.ok a,s) => (.ok a,s)
      | (.error f,s) => (handle f).outcome s := by
  cases h : x.outcome s with
  | mk o after =>
    have hrun : x s = (o,after) := h
    simp only [outcome,ExceptT.run,tryCatch,tryCatchThe,MonadExceptOf.tryCatch,ExceptT.tryCatch,
      ExceptT.mk,bind,StateT.bind,StateT.run,hrun]
    cases o <;> rfl

end Outcomes
end Steps

namespace Invocation

/-- Collects the edits, and tells at once what there is to say about them. -/
def collecting (host : Host) (settings : Settings) (i : Invocation) : Steps (List Edit) := do
  let (edits,advisory) ← Steps.find (i.collect host settings)
  match advisory with
  | none => return edits
  | some advisory => do
    Steps.tell (line advisory)
    return edits

def printing (host : Host) (i : Invocation) (edits : List Edit) : Steps Nat := do
  let result ← Steps.find (i.resultText host edits)
  Steps.print result
  return 0

/-- A formatter's failure is told; any other goes through. -/
def caught (f : Failure) : Steps Nat :=
  match f.toolStderr? with
  | none => throw f
  | some _ => do
    Steps.tell (line f.message)
    return 1

def steps (host : Host) (settings : Settings) (i : Invocation) : Steps Nat :=
  tryCatch (i.collecting host settings >>= i.printing host) caught

end Invocation

/-- The program as it writes, one step after the other. -/
def steps (host : Host) (settings : Settings) (words : List Text) : Steps Nat :=
  match Invocation.read words with
  | .error (.help g) => do
    Steps.print g.help
    return 0
  | .error (.misuse g m) => do
    Steps.tell (g.usage ++ line (g.program ++ ": error: ".toList ++ m.message))
    return 2
  | .ok i => i.steps host settings

section Runs

variable (host : Host) (settings : Settings)

/-- The printout of a run that ends so, with the streams as they are then. -/
def Printout.ofOutcome (o : Except Failure Nat × Streams) : Printout :=
  { stdout := o.2.stdout, stderr := o.2.stderr, status := o.1 }

theorem Invocation.outcome_caught (advisory : Text) (f : Failure) :
    Printout.ofOutcome ((caught f).outcome { stderr := advisory }) = failed advisory f := by
  unfold caught failed
  cases f.toolStderr? <;> rfl

theorem Invocation.outcome_collecting (i : Invocation) : (i.collecting host settings).outcome {} =
    match i.collect host settings with
      | .error f => (.error f,{})
      | .ok (edits,advisory) => (.ok edits,{ stderr := (advisory.map line).getD [] }) := by
  rw [collecting,Steps.outcome_bind,Steps.outcome_find]
  cases i.collect host settings with
  | error f => rfl
  | ok collected =>
    obtain ⟨edits,advisory⟩ := collected
    cases advisory <;> rfl

theorem Invocation.outcome_printing (i : Invocation) (edits : List Edit) (advisory : Text) :
    (i.printing host edits).outcome { stderr := advisory } =
      match i.resultText host edits with
        | .error f => (.error f,{ stderr := advisory })
        | .ok t => (.ok 0,{ stdout := t, stderr := advisory }) := by
  rw [printing,Steps.outcome_bind,Steps.outcome_find]
  cases i.resultText host edits <;> rfl

theorem Invocation.outcome_steps (i : Invocation) :
    Printout.ofOutcome ((i.steps host settings).outcome {}) = i.run host settings := by
  rw [steps,Steps.outcome_tryCatch,Steps.outcome_bind,outcome_collecting,run]
  cases i.collect host settings with
  | error f => exact outcome_caught [] f
  | ok collected =>
    obtain ⟨edits,advisory⟩ := collected
    dsimp only
    rw [outcome_printing]
    cases i.resultText host edits with
    | error f => exact outcome_caught _ f
    | ok t => rfl

/-- What a run prints is what its steps have written when they end. -/
theorem outcome_steps (words : List Text) :
    Printout.ofOutcome ((steps host settings words).outcome {}) = run host settings words := by
  unfold steps run
  cases Invocation.read words with
  | error stop => cases stop <;> rfl
  | ok i => exact i.outcome_steps host settings

end Runs

/-- What a run prints that comes to its end: the help that was asked for, the edits as data, or the
document with the edits applied. -/
inductive Completes (host : Host) (settings : Settings) (words : List Text) : Text → Prop
  | help {g : Grammar} (hread : Invocation.read words = .error (.help g)) :
      Completes host settings words g.help
  | edits {i : Invocation} {edits : List Edit} {advisory : Option Text}
      (hread : Invocation.read words = .ok i) (hcommand : i.command = .edits)
      (hcollect : i.collect host settings = .ok (edits,advisory))
      (hwritable : (Json.array (edits.map Edit.toJson)).writable = true) :
      Completes host settings words
        (line (Json.write (.indented 2) (.array (edits.map Edit.toJson))))
  | preview {i : Invocation} {edits : List Edit} {advisory : Option Text} {document text : Text}
      (hread : Invocation.read words = .ok i) (hcommand : i.command = .preview)
      (hcollect : i.collect host settings = .ok (edits,advisory))
      (hdocument : Document.read host i.path = .ok document)
      (happly : Edit.apply document edits = .ok text) : Completes host settings words text

/-- What stops a run on the way, and how it ends then. -/
inductive Stops (host : Host) (settings : Settings) (words : List Text) :
    Except Failure Nat → Prop
  | misuse {g : Grammar} {m : Misuse} (hread : Invocation.read words = .error (.misuse g m)) :
      Stops host settings words (.ok 2)
  | formatter {i : Invocation} {f : Failure} {stderr : Text}
      (hread : Invocation.read words = .ok i) (hcollect : i.collect host settings = .error f)
      (hf : f.toolStderr? = some stderr) : Stops host settings words (.ok 1)
  | uncollected {i : Invocation} {f : Failure} (hread : Invocation.read words = .ok i)
      (hcollect : i.collect host settings = .error f) (hf : f.toolStderr? = none) :
      Stops host settings words (.error f)
  | unwritable {i : Invocation} {edits : List Edit} {advisory : Option Text}
      (hread : Invocation.read words = .ok i) (hcommand : i.command = .edits)
      (hcollect : i.collect host settings = .ok (edits,advisory))
      (hwritable : (Json.array (edits.map Edit.toJson)).writable = false) :
      Stops host settings words (.error .unwritableNumber)
  | unreadable {i : Invocation} {edits : List Edit} {advisory : Option Text}
      {fault : Document.Fault} (hread : Invocation.read words = .ok i)
      (hcommand : i.command = .preview) (hcollect : i.collect host settings = .ok (edits,advisory))
      (hdocument : Document.read host i.path = .error fault) :
      Stops host settings words (.error (.document fault))
  | refused {i : Invocation} {edits : List Edit} {advisory : Option Text} {document : Text}
      {fault : Edit.Fault} (hread : Invocation.read words = .ok i) (hcommand : i.command = .preview)
      (hcollect : i.collect host settings = .ok (edits,advisory))
      (hdocument : Document.read host i.path = .ok document)
      (happly : Edit.apply document edits = .error fault) :
      Stops host settings words (.error (.edit fault))

section Ends

variable {host : Host} {settings : Settings} {words : List Text} {i : Invocation}
  {edits : List Edit} {advisory : Option Text}

theorem run_of_result (hread : Invocation.read words = .ok i)
    (hcollect : i.collect host settings = .ok (edits,advisory)) {t : Text}
    (hresult : i.resultText host edits = .ok t) : run host settings words =
      { stdout := t, stderr := (advisory.map line).getD [], status := .ok 0 } := by
  simp only [run,hread,Invocation.run,hcollect,hresult]

theorem run_of_no_result (hread : Invocation.read words = .ok i)
    (hcollect : i.collect host settings = .ok (edits,advisory)) {f : Failure}
    (hresult : i.resultText host edits = .error f) (hf : f.toolStderr? = none) :
    run host settings words = { stderr := (advisory.map line).getD [], status := .error f } := by
  simp only [run,hread,Invocation.run,hcollect,hresult,Invocation.failed,hf]

theorem resultText_edits (hcommand : i.command = .edits) : i.resultText host edits =
    if (Json.array (edits.map Edit.toJson)).writable then
      .ok (line (Json.write (.indented 2) (.array (edits.map Edit.toJson))))
    else .error .unwritableNumber := by
  rw [Invocation.resultText,hcommand]
  rfl

theorem resultText_preview (hcommand : i.command = .preview) : i.resultText host edits =
    match Document.read host i.path with
      | .error fault => .error (.document fault)
      | .ok document => (Edit.apply document edits).mapError .edit := by
  rw [Invocation.resultText,hcommand]
  cases Document.read host i.path <;> rfl

theorem run_of_completes {text : Text} (h : Completes host settings words text) :
    (run host settings words).status = .ok 0 ∧ (run host settings words).stdout = text := by
  cases h with
  | help hread =>
    rw [run,hread]
    exact ⟨rfl,rfl⟩
  | @edits i es _ hread hcommand hcollect hwritable =>
    have hresult : i.resultText host es = .ok _ :=
      (resultText_edits hcommand).trans (if_pos hwritable)
    rw [run_of_result hread hcollect hresult]
    exact ⟨rfl,rfl⟩
  | @preview i es _ _ _ hread hcommand hcollect hdocument happly =>
    have hresult : i.resultText host es = .ok text := by
      simp only [resultText_preview hcommand,hdocument,happly]
      rfl
    rw [run_of_result hread hcollect hresult]
    exact ⟨rfl,rfl⟩

theorem run_of_stops {status : Except Failure Nat} (h : Stops host settings words status) :
    (run host settings words).status = status ∧ status ≠ .ok 0 ∧
      (run host settings words).stdout = [] := by
  cases h with
  | misuse hread =>
    rw [run,hread]
    exact ⟨rfl,nofun,rfl⟩
  | formatter hread hcollect hf =>
    simp only [run,hread,Invocation.run,hcollect,Invocation.failed,hf]
    exact ⟨trivial,nofun,trivial⟩
  | uncollected hread hcollect hf =>
    simp only [run,hread,Invocation.run,hcollect,Invocation.failed,hf]
    exact ⟨trivial,nofun,trivial⟩
  | @unwritable i es _ hread hcommand hcollect hwritable =>
    have hresult : i.resultText host es = .error .unwritableNumber := by
      rw [resultText_edits hcommand,hwritable]
      rfl
    rw [run_of_no_result hread hcollect hresult rfl]
    exact ⟨rfl,nofun,rfl⟩
  | @unreadable i es _ fault hread hcommand hcollect hdocument =>
    have hresult : i.resultText host es = .error (.document fault) := by
      simp only [resultText_preview hcommand,hdocument]
    rw [run_of_no_result hread hcollect hresult rfl]
    exact ⟨rfl,nofun,rfl⟩
  | @refused i es _ _ fault hread hcommand hcollect hdocument happly =>
    have hresult : i.resultText host es = .error (.edit fault) := by
      simp only [resultText_preview hcommand,hdocument,happly]
      rfl
    rw [run_of_no_result hread hcollect hresult rfl]
    exact ⟨rfl,nofun,rfl⟩

theorem completes_or_stops (host : Host) (settings : Settings) (words : List Text) :
    (∃ text, Completes host settings words text) ∨ ∃ status, Stops host settings words status := by
  cases hread : Invocation.read words with
  | error stop =>
    cases stop with
    | help g => exact .inl ⟨_,.help hread⟩
    | misuse g m => exact .inr ⟨_,.misuse hread⟩
  | ok i =>
    cases hcollect : i.collect host settings with
    | error f =>
      cases hf : f.toolStderr? with
      | some stderr => exact .inr ⟨_,.formatter hread hcollect hf⟩
      | none => exact .inr ⟨_,.uncollected hread hcollect hf⟩
    | ok collected =>
      obtain ⟨edits,advisory⟩ := collected
      cases hcommand : i.command with
      | edits =>
        cases hwritable : (Json.array (edits.map Edit.toJson)).writable with
        | true => exact .inl ⟨_,.edits hread hcommand hcollect hwritable⟩
        | false => exact .inr ⟨_,.unwritable hread hcommand hcollect hwritable⟩
      | preview =>
        cases hdocument : Document.read host i.path with
        | error fault => exact .inr ⟨_,.unreadable hread hcommand hcollect hdocument⟩
        | ok document =>
          cases happly : Edit.apply document edits with
          | error fault => exact .inr ⟨_,.refused hread hcommand hcollect hdocument happly⟩
          | ok text => exact .inl ⟨_,.preview hread hcommand hcollect hdocument happly⟩

theorem completes_of_success (h : (run host settings words).status = .ok 0) :
    Completes host settings words (run host settings words).stdout := by
  rcases completes_or_stops host settings words with ⟨text,hcompletes⟩ | ⟨status,hstops⟩
  · rwa [(run_of_completes hcompletes).2]
  · obtain ⟨hends,hne,-⟩ := run_of_stops hstops
    exact absurd (hends.symm.trans h) hne

theorem stops_of_failure (h : (run host settings words).status ≠ .ok 0) :
    Stops host settings words (run host settings words).status := by
  rcases completes_or_stops host settings words with ⟨text,hcompletes⟩ | ⟨status,hstops⟩
  · exact absurd (run_of_completes hcompletes).1 h
  · rwa [(run_of_stops hstops).1]

end Ends

/-- A run either comes to its end, and then it has printed the whole of its result; or something
stops it, be it misuse, a failure of the formatter, or any other failure, also one that shows only
when there are edits already, and then it has printed nothing and does not end with success. This is
said of the streams as the steps of the program have written them. -/
theorem prints_whole_result_or_nothing (host : Host) (settings : Settings) (words : List Text) :
    let p := run host settings words
    (p.status ≠ .ok 0 → p.stdout = []) ∧
      (∀ text, (p.status = .ok 0 ∧ p.stdout = text) ↔ Completes host settings words text) ∧
      (∀ status, (p.status = status ∧ status ≠ .ok 0) ↔ Stops host settings words status) ∧
      Printout.ofOutcome ((steps host settings words).outcome {}) = p := by
  intro p
  refine ⟨?_,?_,?_,outcome_steps host settings words⟩
  · intro hne
    exact (run_of_stops (stops_of_failure hne)).2.2
  · intro text
    constructor
    · rintro ⟨hstatus,rfl⟩
      exact completes_of_success hstatus
    · exact run_of_completes
  · intro status
    constructor
    · rintro ⟨rfl,hne⟩
      exact stops_of_failure hne
    · intro h
      exact ⟨(run_of_stops h).1,(run_of_stops h).2.1⟩

/-- The second edit of a report goes back behind the first. Both are known, and so is the document;
still nothing is printed. -/
theorem prints_whole_result_or_nothing_of_overlap :
    let report := "Diff of a.rs:\nDiff at line 2\n-b⏎\n+B⏎\nDiff at line 1\n+A⏎".toList
    let host := Host.running {} [(["a.rs".toList],.file (encode "a\nb\n".toList) false),
      (["saved".toList],.file (encode report) false)]
    let words := ["preview".toList,"a.rs".toList,"--report".toList,"/saved".toList]
    let fault : Edit.Fault := .outOfOrder ⟨0,0,0,some 0,['A']⟩
    Stops host {} words (.error (.edit fault)) ∧
      (run host {} words).status = .error (.edit fault) ∧ (run host {} words).stdout = [] := by
  intro report host words fault
  have hclean : Escape.Clean report := by decide
  have hpaired : Text.Paired report := by decide
  have hedits : Report.interpretColoured host ({} : Settings).resolveLinks "a.rs".toList report =
      .ok [⟨1,1,0,none,['B']⟩,⟨0,0,0,some 0,['A']⟩] := by
    rw [Report.interpretColoured,Escape.strip_of_clean hclean]
    rfl
  let i : Invocation :=
    { command := .preview, path := "a.rs".toList, report := some "/saved".toList }
  have hread : Invocation.read words = .ok i := rfl
  have hcollect : i.collect host {} = .ok (_,none) :=
    Invocation.collect_of_report hpaired hedits rfl rfl rfl rfl
  have hdocument : Document.read host "a.rs".toList = .ok "a\nb\n".toList := by
    have hbytes : Document.readBytes host "a.rs".toList = .ok (encode "a\nb\n".toList) := rfl
    have htext : Document.textOf (encode "a\nb\n".toList) = .ok "a\nb\n".toList := by
      rw [Document.textOf,Text.Utf8.decode_encode]
      rfl
    rw [Document.read,hbytes]
    exact htext
  have happly : Edit.apply "a\nb\n".toList [⟨1,1,0,none,['B']⟩,⟨0,0,0,some 0,['A']⟩] =
      .error fault := rfl
  have hstops : Stops host {} words (.error (.edit fault)) :=
    .refused hread rfl hcollect hdocument happly
  obtain ⟨hnothing,-,hends,-⟩ := prints_whole_result_or_nothing host {} words
  obtain ⟨hstatus,hne⟩ := (hends _).mpr hstops
  exact ⟨hstops,hstatus,hnothing (hstatus ▸ hne)⟩

end FormatEdits.CommandLine
