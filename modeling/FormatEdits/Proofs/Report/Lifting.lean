import FormatEdits.Proofs.Path.Lifting

namespace FormatEdits

variable {α : Type} [DecidableEq α] [Letter α]

namespace Escape

@[simp] theorem isIntroducer_ofChar (c : Char) :
    isIntroducer (ofChar c : α) = isIntroducer c := by
  simp [isIntroducer]

omit [DecidableEq α]

@[simp] theorem isLead_ofChar (c : Char) : isLead (ofChar c : α) = isLead c := by simp [isLead]

@[simp] theorem isDigit_ofChar (c : Char) : isDigit (ofChar c : α) = isDigit c := by simp [isDigit]

@[simp] theorem isTerminator_ofChar (c : Char) :
    isTerminator (ofChar c : α) = isTerminator c := by
  simp [isTerminator]

variable [DecidableEq α]

theorem afterParameters?_lift (room : Nat) (t : Text) :
    afterParameters? room (Text.lift t : Text α) = (afterParameters? room t).map Text.lift := by
  induction t generalizing room with
  | nil => rfl
  | cons c r ih =>
    simp only [Text.lift_cons,afterParameters?_cons,ih,isDigit_ofChar,Text.ofChar_inj,
      Text.ofChar_char,isTerminator_ofChar,Option.map_or,apply_ite (Option.map _),
      Option.map_some,Option.map_none]

theorem afterLeads?_lift (t : Text) :
    afterLeads? (Text.lift t : Text α) = (afterLeads? t).map Text.lift := by
  induction t with
  | nil => rfl
  | cons c r ih =>
    simp only [Text.lift_cons,afterLeads?_cons,ih,afterParameters?_lift,isLead_ofChar,
      isDigit_ofChar,isTerminator_ofChar,Option.map_or,apply_ite (Option.map _),
      Option.map_some,Option.map_none]

theorem rest?_lift (t : Text) : rest? (Text.lift t : Text α) = (rest? t).map Text.lift := by
  cases t with
  | nil => rfl
  | cons c r =>
    simp only [Text.lift_cons,rest?,isIntroducer_ofChar,afterLeads?_lift,
      apply_ite (Option.map _),Option.map_none]

theorem sweep_lift (t : Text) : sweep (Text.lift t : Text α) = Text.lift (sweep t) := by
  fun_induction sweep t with
  | case1 t rest h _ ih =>
    have hrest : rest? (Text.lift t : Text α) = some (Text.lift rest) := by rw [rest?_lift,h]; rfl
    rw [sweep_of_rest? hrest,ih]
  | case2 => rw [sweep]; rfl
  | case3 c r h ih =>
    have hrest : rest? (ofChar c :: Text.lift r : Text α) = none := by
      rw [← Text.lift_cons,rest?_lift,h]
      rfl
    rw [Text.lift_cons,sweep_cons hrest,ih,Text.lift_cons]

theorem strip_lift (t : Text) : strip (Text.lift t : Text α) = Text.lift (strip t) := by
  fun_induction strip t with
  | case1 t h => rw [strip,dif_pos (by rw [sweep_lift,h])]
  | case2 t h _ ih => rw [← strip_sweep,sweep_lift,ih]

end Escape

/-- A hunk of characters among hunks of any letters. -/
def Hunk.lift (h : Hunk) : Hunk α := ⟨h.startLine,h.removedLines,h.newLines.map Text.lift⟩

def Edit.lift (e : Edit) : Edit α :=
  ⟨e.startLine,e.endLine,e.startCharacter,e.endCharacter,Text.lift e.replacement⟩

omit [DecidableEq α] in
theorem mapM_chars?_lift (edits : List Edit) :
    (edits.map Edit.lift : List (Edit α)).mapM Edit.chars? = some edits := by
  induction edits with
  | nil => rfl
  | cons e edits ih =>
    have he : (e.lift : Edit α).chars? = some e := by
      rw [Edit.chars?,Edit.lift,Text.chars?_lift]
      rfl
    rw [List.map_cons,List.mapM_cons,he,ih]
    rfl

namespace Report

def LineKind.lift : LineKind → LineKind α
  | .fileHeader path => .fileHeader (Text.lift path)
  | .hunkStart line => .hunkStart line
  | .added text => .added (Text.lift text)
  | .removed => .removed
  | .context text => .context (Text.lift text)
  | .other => .other

def State.lift (s : State) : State α :=
  ⟨s.currentFile.map Text.lift,s.inTarget,s.openHunk.map Hunk.lift,s.sealedHunks.map Hunk.lift⟩

theorem body_lift (line : Text) : body (Text.lift line : Text α) = Text.lift (body line) := by
  have h : (Text.lift line : Text α).getLast? = some (ofChar returnSymbol) ↔
      line.getLast? = some (ofChar returnSymbol) := Text.getLast?_lift
  simp only [body,h,← Text.lift_dropLast,← Text.lift_tail,apply_ite Text.lift,
    Text.lift_append]
  rfl

theorem headerPath_lift (afterMark : Text) :
    headerPath (Text.lift afterMark : Text α) = Text.lift (headerPath afterMark) := by
  have h : (Text.lift afterMark : Text α).head? = some (ofChar ' ') ↔
      afterMark.head? = some (ofChar ' ') := Text.head?_lift
  simp only [headerPath,h,← Text.lift_tail,← apply_ite Text.lift,Text.dropFinal_lift]
  rfl

omit [DecidableEq α] in
theorem hunkStartOf_lift (afterMark : Text) :
    hunkStartOf (Text.lift afterMark : Text α) = (hunkStartOf afterMark).map LineKind.lift := by
  have hdigit (c : Char) : Text.digitValue? (ofChar c : α) = Text.digitValue? c := by
    simp [Text.digitValue?]
  have hisDigit (c : Char) : Text.isDecimalDigit (ofChar c : α) = Text.isDecimalDigit c := by
    rw [Text.isDecimalDigit,Text.isDecimalDigit,hdigit]
  have hvalue (ds : Text) : Text.decimalValue (Text.lift ds : Text α) = Text.decimalValue ds := by
    rw [Text.decimalValue,Text.lift,List.foldl_map]
    simp only [hdigit]
    rfl
  have hdigits : (Text.trimStart (Text.lift afterMark : Text α)).takeWhile Text.isDecimalDigit =
      Text.lift ((Text.trimStart afterMark).takeWhile Text.isDecimalDigit) := by
    rw [Text.trimStart_lift,Text.takeWhile_lift hisDigit]
  simp only [hunkStartOf,hdigits,Text.lift_eq_nil,Text.length_lift,hvalue]
  split
  · rfl
  · split <;> rfl

theorem classify_lift (line : Text) :
    classify (Text.lift line : Text α) = (classify line).map LineKind.lift := by
  have hhead (c : Char) (t : Text) : (Text.lift t : Text α).head? = some (ofChar c) ↔
      t.head? = some (ofChar c) := Text.head?_lift
  rw [classify,classify,Text.dropFinal_lift,fileHeaderMark,hunkStartMark,Text.after?_lift,
    Text.after?_lift]
  generalize Text.dropFinal '\r' line = line
  simp only [fileHeaderMark,hunkStartMark,Text.lift_char]
  cases line.after? "Diff of".toList with
  | some rest =>
    exact congrArg (fun path => Except.ok (LineKind.fileHeader path)) (headerPath_lift rest)
  | none =>
    cases line.after? "Diff at line".toList with
    | some rest => exact hunkStartOf_lift rest
    | none =>
      simp only [Option.map_none,hhead,body_lift,apply_ite (Except.map LineKind.lift)]
      rfl

omit [DecidableEq α] in
theorem hunks_lift (s : State) : (s.lift : State α).hunks = s.hunks.map Hunk.lift := by
  obtain ⟨file,inTarget,hunk,sealed⟩ := s
  cases hunk <;> simp [State.lift,State.hunks]

omit [DecidableEq α] in
theorem advance_lift {names : Naming} {names' : Naming α}
    (hnames : ∀ header, names' (Text.lift header) = names header) (s : State) (line : LineKind) :
    s.lift.advance names' line.lift = (s.advance names line).map State.lift := by
  have hinHunk {f : Hunk → Hunk} {f' : Hunk α → Hunk α} (hf : ∀ h, f' h.lift = (f h).lift) :
      s.lift.inHunk f' = (s.inHunk f).lift := by
    obtain ⟨file,inTarget,hunk,sealed⟩ := s
    cases inTarget with
    | false => rfl
    | true => cases hunk <;> simp [State.lift,State.inHunk,hf]
  have hadd (text : Text) (h : Hunk) :
      (h.lift : Hunk α).addLine (Text.lift text) = (h.addLine text).lift := by
    simp [Hunk.addLine,Hunk.lift]
  cases line with
  | fileHeader path =>
    rw [LineKind.lift,State.advance,State.advance,hnames,hunks_lift]
    cases names path <;> rfl
  | hunkStart n =>
    rw [LineKind.lift,State.advance,State.advance,hunks_lift]
    obtain ⟨file,inTarget,hunk,sealed⟩ := s
    cases inTarget <;> rfl
  | added text => exact congrArg Except.ok (hinHunk (hadd text))
  | removed => exact congrArg Except.ok (hinHunk fun h => rfl)
  | context text => exact congrArg Except.ok (hinHunk fun h => hadd text h.removeLine)
  | other => rfl

theorem step_lift {names : Naming} {names' : Naming α}
    (hnames : ∀ header, names' (Text.lift header) = names header) (s : State) (line : Text) :
    step names' s.lift (Text.lift line) = (step names s line).map State.lift := by
  rw [step,step,classify_lift]
  cases classify line with
  | error fault => rfl
  | ok kind => exact advance_lift hnames s kind

theorem collect_lift {names : Naming} {names' : Naming α}
    (hnames : ∀ header, names' (Text.lift header) = names header) (report : Text) :
    collect names' (Text.lift report) = (collect names report).map (·.map Hunk.lift) := by
  have hrun (s : State) (ls : List Text) : (ls.map Text.lift).foldlM (step names') s.lift =
      (ls.foldlM (step names) s).map State.lift := by
    induction ls generalizing s with
    | nil => rfl
    | cons line ls ih =>
      rw [List.map_cons,List.foldlM_cons,List.foldlM_cons,step_lift hnames]
      cases step names s line with
      | error fault => rfl
      | ok s => exact ih s
  have hlines : lines (Text.lift report : Text α) = (lines report).map Text.lift :=
    Text.fields_lift '\n' report
  have hstart : ({} : State α) = ({} : State).lift := rfl
  rw [collect,collect,hlines,hstart,hrun]
  cases (lines report).foldlM (step names) {} with
  | error fault => rfl
  | ok s => exact congrArg Except.ok (hunks_lift s)

theorem ofHunks_lift (hs : List Hunk) :
    Edit.ofHunks (hs.map Hunk.lift : List (Hunk α)) = (Edit.ofHunks hs).map Edit.lift := by
  have hedit (shift : Int) (h : Hunk) : (h.lift : Hunk α).toEdit shift = (h.toEdit shift).lift := by
    have hlast : (h.newLines.map Text.lift : List (Text α)).getLast?.getD [] =
        Text.lift (h.newLines.getLast?.getD []) := by
      rw [List.getLast?_map]
      cases h.newLines.getLast? <;> rfl
    have hflatten (ls : List Text) : (ls.map Text.lift : List (Text α)).flatten =
        Text.lift ls.flatten := List.map_flatten.symm
    have hreplacement : (h.lift : Hunk α).replacement = Text.lift h.replacement := by
      simp only [Hunk.replacement,Hunk.lift,hlast,← List.map_dropLast,hflatten,
        Text.dropFinal_lift,Text.lift_append]
      rfl
    simp only [Hunk.toEdit,Edit.lift,hreplacement]
    rfl
  have hedits (shift : Int) : Edit.ofHunksFrom shift (hs.map Hunk.lift : List (Hunk α)) =
      (Edit.ofHunksFrom shift hs).map Edit.lift := by
    induction hs generalizing shift with
    | nil => rfl
    | cons h hs ih =>
      have hdrift : (h.lift : Hunk α).drift = h.drift := by simp [Hunk.drift,Hunk.lift]
      rw [List.map_cons,Edit.ofHunksFrom,Edit.ofHunksFrom,hedit,hdrift,ih,List.map_cons]
  exact hedits 0

/-- A report of characters is interpreted to the same edits whatever else texts may hold. -/
theorem interpretColoured_lift (host : Host) (resolveLinks : Bool) (target report : Text) :
    interpretColoured host resolveLinks (Text.lift target : Text α) (Text.lift report) =
      (interpretColoured host resolveLinks target report).map (·.map Edit.lift) := by
  rw [interpretColoured,interpretColoured,interpret,interpret,Escape.strip_lift,
    collect_lift (Path.names_lift host resolveLinks target)]
  cases collect (Path.names host resolveLinks target) (Escape.strip report) with
  | error fault => rfl
  | ok hunks => exact congrArg Except.ok (ofHunks_lift hunks)

end Report
end FormatEdits
