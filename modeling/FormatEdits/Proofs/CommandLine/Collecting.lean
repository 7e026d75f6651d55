import FormatEdits.CommandLine.Program
import FormatEdits.Proofs.Edit.Order
import FormatEdits.Proofs.Json.RoundTrip
import FormatEdits.Proofs.Report.Blocks
import FormatEdits.Proofs.Report.LineEndings
import FormatEdits.Proofs.Session.Overtaking
import FormatEdits.Proofs.Text.Utf8

namespace FormatEdits

namespace Json

theorem writableInt_of_lt_ten {n : Int} (h : n.natAbs < 10) : writableInt n = true := by
  have hpow {k : Nat} (hk : k ≠ 0) : n.natAbs < Nat.pow 10 k :=
    Nat.lt_of_lt_of_le h (Nat.le_self_pow hk 10)
  exact decide_eq_true (hpow (by decide))

theorem writableItems_eq_true {items : List Json} (h : ∀ v ∈ items, v.writable = true) :
    writableItems items = true := by
  induction items with
  | nil => rfl
  | cons v items ih =>
    obtain ⟨hv,hitems⟩ := List.forall_mem_cons.mp h
    rw [writableItems,hv,ih hitems]
    rfl

theorem writableMembers_eq_true {members : List (Text × Json)}
    (h : ∀ m ∈ members, m.2.writable = true) : writableMembers members = true := by
  induction members with
  | nil => rfl
  | cons m members ih =>
    obtain ⟨hm,hmembers⟩ := List.forall_mem_cons.mp h
    rw [writableMembers,hm,ih hmembers]
    rfl

theorem Regular.writable {room : Nat} {v : Json} (h : Regular room v) : v.writable = true := by
  induction h with
  | null => rfl
  | bool => rfl
  | int _ hn => exact hn
  | string => rfl
  | array _ ih => exact writableItems_eq_true ih
  | object _ _ ih => exact writableMembers_eq_true ih

end Json

namespace Edit

/-- Edits as they come about: a report holds them for its target, or one of them replaces a document
by its formatted text. -/
inductive Produced : List Edit → Prop
  | interpreted {host : Host} {resolveLinks : Bool} {target report : Text} {edits : List Edit}
      (h : Report.interpret host resolveLinks target report = .ok edits) : Produced edits
  | wholeDocument (before after : Text) : Produced [wholeDocument before after]

theorem produced_nil : Produced [] := by
  have hempty : Report.interpret {} false ([] : Text) [] = .ok [] := rfl
  exact .interpreted hempty

/-- The numbers of the edit have no more digits than can be read. -/
structure Readable (e : Edit) : Prop where
  startLine : Json.writableInt e.startLine = true
  endLine : Json.writableInt e.endLine = true
  startCharacter : Json.writableInt e.startCharacter = true
  endCharacter : ∀ n ∈ e.endCharacter, Json.writableInt n = true

/-- Only the lines of such edits can be long: each of them starts at the start of a line, and ends
there or at the end of a line's content. -/
theorem Produced.readable {edits : List Edit} (h : Produced edits)
    (hlines : ∀ e ∈ edits,
      Json.writableInt e.startLine = true ∧ Json.writableInt e.endLine = true) :
    ∀ e ∈ edits, e.Readable := by
  have hzero : Json.writableInt ((0 : Nat) : Int) = true := Json.writableInt_of_lt_ten (by decide)
  intro e he
  obtain ⟨hstart,hend⟩ := hlines e he
  cases h with
  | interpreted h =>
    obtain ⟨hs,-,rfl⟩ := Report.interpret_eq_ok.mp h
    obtain ⟨hunk,-,shift,rfl⟩ := Hunk.mem_ofHunksFrom he
    refine ⟨hstart,hend,hzero,?_⟩
    intro n hn
    simp only [Hunk.toEdit] at hn
    split at hn
    · cases hn
      exact hzero
    · cases hn
  | wholeDocument before after =>
    obtain rfl := List.mem_singleton.mp he
    refine ⟨hstart,hend,hzero,?_⟩
    intro n hn
    cases hn

theorem regular_toJson {e : Edit} (h : e.Readable) (room : Nat) :
    Json.Regular (room + 1) e.toJson := by
  have hend : Json.Regular room ((e.endCharacter.map fun n : Nat => Json.int n).getD .null) := by
    cases hcharacter : e.endCharacter with
    | none => exact .null room
    | some n => exact .int room (h.endCharacter n hcharacter)
  have hnames : fields.Nodup := by decide
  refine .object hnames ?_
  simp only [List.forall_mem_cons]
  exact ⟨.int room h.startLine,.int room h.endLine,.int room h.startCharacter,hend,
    .string room e.replacement,by simp⟩

theorem regular_items {edits : List Edit} (h : ∀ e ∈ edits, e.Readable) (room : Nat) :
    Json.Regular (room + 2) (.array (edits.map toJson)) := by
  apply Json.Regular.array
  intro v hv
  obtain ⟨e,he,rfl⟩ := List.mem_map.mp hv
  exact regular_toJson (h e he) room

theorem natural_ofNat (n : Nat) : Schema.natural (.int n) = .valid n := by
  have hnonneg : ¬ (n : Int) < 0 := by omega
  simp only [Schema.natural,Schema.integer,Schema.Checked.filter,if_neg hnonneg,Int.toNat_natCast]

theorem optional_natural (n : Option Nat) :
    Schema.optional Schema.natural ((n.map fun n : Nat => Json.int n).getD .null) = .valid n := by
  cases n with
  | none => rfl
  | some n =>
    have hread : Schema.optional Schema.natural (.int n) = (Schema.natural (.int n)).map some := rfl
    rw [Option.map_some,Option.getD_some,hread,natural_ofNat]
    rfl

/-- The data of an edit is that edit again, whatever its numbers and its text. -/
theorem read_toJson (e : Edit) : Edit.read e.toJson = .valid e := by
  have hstart : (Schema.natural (.int e.startCharacter)).under (.member "start_character".toList) =
      .valid e.startCharacter := by
    rw [natural_ofNat]
    rfl
  have hend : (Schema.optional Schema.natural
      ((e.endCharacter.map fun n : Nat => Json.int n).getD .null)).under
        (.member "end_character".toList) = .valid e.endCharacter := by
    rw [optional_natural]
    rfl
  -- Every field finds its member, and no member is left over.
  have hread : Edit.read e.toJson = Edit.mk <$> .valid e.startLine <*> .valid e.endLine <*>
      (Schema.natural (.int e.startCharacter)).under (.member "start_character".toList) <*>
      (Schema.optional Schema.natural
        ((e.endCharacter.map fun n : Nat => Json.int n).getD .null)).under
          (.member "end_character".toList) <*> .valid e.replacement := rfl
  rw [hread,hstart,hend]
  rfl

end Edit

open Text (Paired)
open Text.Utf8 (encode)

section Failures

variable {ε ε' α β : Type}

theorem exists_of_bind_eq_ok {x : Except ε α} {next : α → Except ε β} {b : β}
    (h : x >>= next = .ok b) : ∃ a, x = .ok a ∧ next a = .ok b := by
  cases x with
  | error e => cases h
  | ok a => exact ⟨a,rfl,h⟩

theorem eq_ok_of_mapError {x : Except ε α} {f : ε → ε'} {a : α} (h : x.mapError f = .ok a) :
    x = .ok a := by
  cases x with
  | error e => cases h
  | ok b =>
    cases h
    rfl

end Failures

section Outputs

variable {host : Host} {settings : Settings} {path output : Text} {edits : List Edit}

theorem Session.editsFromOutput_diff
    (h : Report.interpretColoured host settings.resolveLinks path output = .ok edits) :
    editsFromOutput host settings path output .diff = .ok edits := by
  rw [editsFromOutput,h]
  rfl

theorem Session.produced_of_editsFromOutput {mode : OutputMode}
    (h : editsFromOutput host settings path output mode = .ok edits) : Edit.Produced edits := by
  cases mode with
  | diff => exact .interpreted (eq_ok_of_mapError h)
  | display =>
    obtain ⟨document,-,hresult⟩ := exists_of_bind_eq_ok h
    by_cases hsame : Escape.strip output = document
    · obtain rfl := Except.ok.inj ((congrArg Except.ok (if_pos hsame)).symm.trans hresult)
      exact Edit.produced_nil
    · obtain rfl := Except.ok.inj ((congrArg Except.ok (if_neg hsame)).symm.trans hresult)
      exact .wholeDocument _ _

theorem Session.produced_of_finish {g : Generations} {runId : Text} {call : Call}
    {o : Except Formatter.Fault Text} {r : FormatResult}
    (h : finish host settings g runId call o = .ok r) : Edit.Produced r.edits := by
  rcases finish_eq_ok.mp h with ⟨_,-,rfl⟩ | ⟨_,found,-,hfound,rfl⟩
  · exact Edit.produced_nil
  · dsimp only
    split
    · exact produced_of_editsFromOutput hfound
    · exact Edit.produced_nil

theorem Document.readBytes_nil (host : Host) (bytes : Text.Utf8.Bytes) :
    Document.readBytes host [] ≠ .ok bytes := by
  have hlocate : host.files.locate host.directory Path.here =
      if host.files.entry? host.directory ≠ some .directory then .error .notDirectory
      else .ok host.directory := rfl
  have hfault : ∃ fault, host.files.bytesAt host.directory Path.here = .error fault := by
    by_cases h : host.files.entry? host.directory = some .directory
    · exact ⟨.isDirectory,by simp [FileTree.bytesAt,FileTree.lookUp,hlocate,h,bind,Except.bind]⟩
    · exact ⟨.notDirectory,by simp [FileTree.bytesAt,FileTree.lookUp,hlocate,h,bind,Except.bind]⟩
  have hread : Document.readBytes host [] = (host.files.bytesAt host.directory Path.here).mapError
      fun fault => .file fault Path.here := rfl
  obtain ⟨fault,hfault⟩ := hfault
  rw [hread,hfault]
  nofun

end Outputs

namespace CommandLine.Invocation

variable {host : Host} {settings : Settings} {i : Invocation} {edits : List Edit}

theorem collect_of_report {path report : Text} (hreport : Paired report)
    (hedits : Report.interpretColoured host settings.resolveLinks path report = .ok edits)
    {file : Text} (hpath : i.path = path) (hfile : i.report = some file)
    (hmode : i.modeValue settings = .string OutputMode.diff.name)
    (hbytes : Document.readBytes host file = .ok (encode report)) :
    i.collect host settings = .ok (edits,none) := by
  have hne : file ≠ [] := by
    rintro rfl
    exact Document.readBytes_nil host _ hbytes
  have hoptional : i.report.filter (· ≠ []) = some file := by simp [hfile,hne]
  have htext : Document.readReport host file = .ok report.unifyNewlines := by
    rw [Document.readReport,hbytes]
    have hdecoded := Text.Utf8.decodeLenient_encode report
    exact congrArg (fun t => Except.ok (Text.unifyNewlines t)) hdecoded
  have hunified : Report.interpretColoured host settings.resolveLinks path report.unifyNewlines =
      .ok edits := (Report.interpretColoured_unifyNewlines hreport host _ path).trans hedits
  have hknown : OutputMode.ofValue (.string OutputMode.diff.name) = .ok .diff := rfl
  rw [Invocation.collect,hmode,hknown,hoptional,hpath]
  simp only [htext,bind,Except.bind,Except.mapError,Session.editsFromOutput_diff hunified]
  rfl

/-- Whatever is collected comes from a report or from a formatted document. -/
theorem produced_of_collect {advisory : Option Text}
    (h : i.collect host settings = .ok (edits,advisory)) : Edit.Produced edits := by
  obtain ⟨mode,-,h⟩ := exists_of_bind_eq_ok h
  cases hreport : i.report.filter (· ≠ []) with
  | some file =>
    rw [hreport] at h
    obtain ⟨output,-,h⟩ := exists_of_bind_eq_ok h
    obtain ⟨found,hfound,h⟩ := exists_of_bind_eq_ok h
    cases h
    exact Session.produced_of_editsFromOutput hfound
  | none =>
    rw [hreport] at h
    obtain ⟨result,hresult,h⟩ := exists_of_bind_eq_ok h
    cases h
    unfold Session.format at hresult
    split at hresult
    · cases hresult
    · exact Session.produced_of_finish hresult

theorem editsText_of_produced (hproduced : Edit.Produced edits)
    (hlines : ∀ e ∈ edits,
      Json.writableInt e.startLine = true ∧ Json.writableInt e.endLine = true) :
    editsText edits = .ok (line (Json.write (.indented 2) (.array (edits.map Edit.toJson)))) := by
  rw [editsText]
  exact if_pos (Edit.regular_items (hproduced.readable hlines) 0).writable

end CommandLine.Invocation
end FormatEdits
