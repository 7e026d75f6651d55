import FormatEdits.Report

namespace FormatEdits.Report

section Segments

variable {α β : Type} {opens? : α → Option β}

/-- Whether a line goes on with the segment in front of it. -/
def goesOn (opens? : α → Option β) (a : α) : Bool := (opens? a).isNone

/-- Each line that opens a segment, with the lines up to the next one that does. Lines in front of
the first are in no segment. -/
def segments (opens? : α → Option β) : List α → List (β × List α)
  | [] => []
  | a :: as =>
    match opens? a with
    | none => segments opens? as
    | some b => (b,as.takeWhile (goesOn opens?)) :: segments opens? as

theorem segments_cons_of_none {a : α} (h : opens? a = none) (as : List α) :
    segments opens? (a :: as) = segments opens? as := by
  simp [segments,h]

theorem takeWhile_goesOn {a : α} (h : opens? a = none) (as : List α) :
    (a :: as).takeWhile (goesOn opens?) = a :: as.takeWhile (goesOn opens?) := by
  simp [goesOn,h]

theorem segments_eq_nil {as : List α} (h : ∀ a ∈ as, opens? a = none) :
    segments opens? as = [] := by
  induction as with
  | nil => rfl
  | cons a as ih =>
    rw [segments_cons_of_none (h a List.mem_cons_self),
      ih fun b hb => h b (List.mem_cons_of_mem _ hb)]

/-- What opens a segment closes the one in front of it, whatever that one holds. -/
theorem takeWhile_goesOn_append {bs : List α} (h : ∀ b ∈ bs.head?, goesOn opens? b = false)
    (as : List α) :
    (as ++ bs).takeWhile (goesOn opens?) = as.takeWhile (goesOn opens?) := by
  have hbs : bs.takeWhile (goesOn opens?) = [] := by
    cases bs with
    | nil => rfl
    | cons b bs => simp [h b rfl]
  rw [List.takeWhile_append,hbs]
  split
  · next hlength =>
    rw [List.append_nil]
    exact ((List.takeWhile_prefix _).eq_of_length hlength).symm
  · rfl

theorem segments_append {bs : List α} (h : ∀ b ∈ bs.head?, goesOn opens? b = false)
    (as : List α) : segments opens? (as ++ bs) = segments opens? as ++ segments opens? bs := by
  induction as with
  | nil => rfl
  | cons a as ih =>
    cases ha : opens? a with
    | none => rw [List.cons_append,segments_cons_of_none ha,segments_cons_of_none ha,ih]
    | some b => simp only [List.cons_append,segments,ha,ih,takeWhile_goesOn_append h]

end Segments

variable {α : Type}

namespace LineKind

def headerPath? : LineKind α → Option (Text α)
  | .fileHeader path => some path
  | _ => none

def startLine? : LineKind α → Option Int
  | .hunkStart n => some n
  | _ => none

/-- The line shows one of the old document. -/
def isOld : LineKind α → Bool
  | .removed => true
  | .context _ => true
  | _ => false

/-- The line of the new document that is shown. -/
def newText? : LineKind α → Option (Text α)
  | .added text => some text
  | .context text => some text
  | _ => none

end LineKind

open LineKind

/-- The hunk that starts at a line and has the lines behind it. -/
def hunkOf (piece : Int × List (LineKind α)) : Hunk α :=
  { startLine := piece.1
    removedLines := piece.2.countP isOld
    newLines := piece.2.filterMap newText? }

/-- The hunks of one file's block. -/
def blockHunks (block : List (LineKind α)) : List (Hunk α) := (segments startLine? block).map hunkOf

/-- The header's path names the target. -/
def namesTarget (names : Naming α) (path : Text α) : Bool :=
  match names path with
  | .ok answer => answer
  | .error _ => false

/-- The hunks of all blocks whose header names the target, in the order of the report. -/
def declaredHunks (names : Naming α) (kinds : List (LineKind α)) : List (Hunk α) :=
  ((segments headerPath? kinds).filter fun block => namesTarget names block.1).flatMap
    fun block => blockHunks block.2

theorem declaredHunks_cons_of_none {kind : LineKind α} (h : headerPath? kind = none)
    (names : Naming α) (kinds : List (LineKind α)) :
    declaredHunks names (kind :: kinds) = declaredHunks names kinds := by
  rw [declaredHunks,segments_cons_of_none h,declaredHunks]

theorem declaredHunks_header (names : Naming α) (path : Text α) (kinds : List (LineKind α)) :
    declaredHunks names (.fileHeader path :: kinds) =
      (if namesTarget names path then blockHunks (kinds.takeWhile (goesOn headerPath?)) else []) ++
        declaredHunks names kinds := by
  have hcut : segments headerPath? (.fileHeader path :: kinds) =
      (path,kinds.takeWhile (goesOn headerPath?)) :: segments headerPath? kinds := rfl
  rw [declaredHunks,hcut,List.filter_cons]
  split
  · rfl
  · rfl

/-- Blocks add up: a header starts anew, whatever stands in front of it. -/
theorem declaredHunks_append (names : Naming α) (as : List (LineKind α)) {bs : List (LineKind α)}
    (h : ∀ kind ∈ bs.head?, goesOn headerPath? kind = false) :
    declaredHunks names (as ++ bs) = declaredHunks names as ++ declaredHunks names bs := by
  rw [declaredHunks,segments_append h,List.filter_append,List.flatMap_append]
  rfl

theorem blockHunks_cons_of_none {kind : LineKind α} (h : startLine? kind = none)
    (block : List (LineKind α)) : blockHunks (kind :: block) = blockHunks block := by
  rw [blockHunks,segments_cons_of_none h,blockHunks]

/-- A hunk with further lines of its body. -/
def extended (h : Hunk α) (body : List (LineKind α)) : Hunk α :=
  { h with
    removedLines := h.removedLines + body.countP isOld
    newLines := h.newLines ++ body.filterMap newText? }

@[simp] theorem extended_nil (h : Hunk α) : extended h [] = h := by
  simp [extended]

theorem extended_append (h : Hunk α) (as bs : List (LineKind α)) :
    extended h (as ++ bs) = extended (extended h as) bs := by
  simp [extended,Int.add_assoc]

theorem extended_added (h : Hunk α) (text : Text α) :
    extended h [.added text] = h.addLine text := by
  simp [extended,Hunk.addLine,isOld,newText?]

theorem extended_removed (h : Hunk α) : extended h [.removed] = h.removeLine := by
  simp [extended,Hunk.removeLine,isOld,newText?]

theorem extended_context (h : Hunk α) (text : Text α) :
    extended h [.context text] = h.keepLine text := by
  simp [extended,Hunk.keepLine,Hunk.addLine,Hunk.removeLine,isOld,newText?]

theorem extended_other (h : Hunk α) : extended h [.other] = id h := by
  have hnew : [.other].filterMap (newText? (α := α)) = [] := rfl
  simp [extended,isOld,hnew]

theorem blockHunks_hunkStart (n : Int) (block : List (LineKind α)) :
    blockHunks (.hunkStart n :: block) =
      extended ⟨n,0,[]⟩ (block.takeWhile (goesOn startLine?)) :: blockHunks block := by
  have hcut : segments startLine? (.hunkStart n :: block) =
      (n,block.takeWhile (goesOn startLine?)) :: segments startLine? block := rfl
  rw [blockHunks,hcut,List.map_cons]
  simp [hunkOf,extended,blockHunks]

namespace State

/-- What a line does to a state. The start of a hunk and a body line count for the target alone, and
a body line changes no other hunk than the open one. -/
inductive Moves (names : Naming α) (s : State α) : LineKind α → State α → Prop
  | header {path : Text α} {answer : Bool} (h : names path = .ok answer) :
      Moves names s (.fileHeader path) ⟨some path,answer,none,s.hunks⟩
  | opening {n : Int} (hs : s.inTarget = true) :
      Moves names s (.hunkStart n) { s with openHunk := some ⟨n,0,[]⟩, sealedHunks := s.hunks }
  | body {kind : LineKind α} (hheader : headerPath? kind = none) (hstart : startLine? kind = none)
      (hs : s.inTarget = true) :
      Moves names s kind { s with openHunk := s.openHunk.map fun h => extended h [kind] }
  | passedOver {kind : LineKind α} (hheader : headerPath? kind = none) (hs : s.inTarget = false) :
      Moves names s kind s

theorem moves_inHunk {kind : LineKind α} {f : Hunk α → Hunk α} (hheader : headerPath? kind = none)
    (hstart : startLine? kind = none) (hf : ∀ h, f h = extended h [kind]) (names : Naming α)
    (s : State α) : Moves names s kind (s.inHunk f) := by
  obtain rfl : f = fun h => extended h [kind] := funext hf
  unfold inHunk
  split
  · next hs => exact .body hheader hstart hs
  · next hs => exact .passedOver hheader (Bool.eq_false_iff.mpr hs)

theorem inHunk_id (s : State α) : s.inHunk id = s := by
  simp [inHunk]

theorem moves_of_advance {names : Naming α} {s s' : State α} {kind : LineKind α}
    (h : s.advance names kind = .ok s') : Moves names s kind s' := by
  cases kind with
  | fileHeader path =>
    cases hn : names path with
    | error fault => simp [advance,hn,Except.map] at h
    | ok answer =>
      obtain rfl : ⟨some path,answer,none,s.hunks⟩ = s' := by simpa [advance,hn,Except.map] using h
      exact .header hn
  | hunkStart n =>
    obtain rfl := Except.ok.inj h
    split
    · next hs => exact .opening hs
    · next hs => exact .passedOver rfl (Bool.eq_false_iff.mpr hs)
  | added text =>
    obtain rfl := Except.ok.inj h
    exact moves_inHunk rfl rfl (fun _ => (extended_added _ text).symm) names s
  | removed =>
    obtain rfl := Except.ok.inj h
    exact moves_inHunk rfl rfl (fun _ => (extended_removed _).symm) names s
  | context text =>
    obtain rfl := Except.ok.inj h
    exact moves_inHunk rfl rfl (fun _ => (extended_context _ text).symm) names s
  | other =>
    obtain rfl := Except.ok.inj h
    have hother := moves_inHunk rfl rfl (fun _ => (extended_other _).symm) names s
    rwa [inHunk_id] at hother

/-- What the rest of a block adds to the hunks: the open hunk goes on up to the next hunk start.
Outside the target nothing is added. -/
def ofBlock (s : State α) (block : List (LineKind α)) : List (Hunk α) :=
  if s.inTarget then
    (s.openHunk.map fun h => extended h (block.takeWhile (goesOn startLine?))).toList ++
      blockHunks block
  else s.openHunk.toList

/-- The hunks that there will be when the given lines have been read too. -/
def outcome (names : Naming α) (s : State α) (kinds : List (LineKind α)) : List (Hunk α) :=
  s.sealedHunks ++ s.ofBlock (kinds.takeWhile (goesOn headerPath?)) ++ declaredHunks names kinds

theorem outcome_nil (names : Naming α) (s : State α) : s.outcome names [] = s.hunks := by
  by_cases hs : s.inTarget = true <;> cases ho : s.openHunk <;>
    simp [outcome,ofBlock,hunks,declaredHunks,segments,blockHunks,hs,ho]

theorem outcome_empty (names : Naming α) : outcome names {} = declaredHunks names := by
  funext kinds
  simp [outcome,ofBlock]

/-- Reading a line leaves the outcome as it was. -/
theorem Moves.outcome_eq {names : Naming α} {s s' : State α} {kind : LineKind α}
    (h : Moves names s kind s') (kinds : List (LineKind α)) :
    s.outcome names (kind :: kinds) = s'.outcome names kinds := by
  cases h with
  | @header path answer hn =>
    have hclosed : s.sealedHunks ++ s.ofBlock [] = s.hunks := by
      simpa [outcome,declaredHunks,segments] using s.outcome_nil names
    have hblock : (LineKind.fileHeader path :: kinds).takeWhile (goesOn headerPath?) = [] := rfl
    rw [outcome,hblock,hclosed,declaredHunks_header]
    simp [outcome,ofBlock,namesTarget,hn]
  | @opening n hs =>
    have hbody (block : List (LineKind α)) :
        (.hunkStart n :: block).takeWhile (goesOn startLine?) = [] := rfl
    rw [outcome,outcome,takeWhile_goesOn rfl,declaredHunks_cons_of_none rfl]
    simp [ofBlock,hunks,hs,blockHunks_hunkStart,hbody]
  | body hheader hstart hs =>
    rw [outcome,outcome,takeWhile_goesOn hheader,declaredHunks_cons_of_none hheader]
    cases ho : s.openHunk with
    | none => simp [ofBlock,hs,ho,blockHunks_cons_of_none hstart]
    | some h =>
      simp [ofBlock,hs,ho,blockHunks_cons_of_none hstart,takeWhile_goesOn hstart,
        ← extended_append]
  | passedOver hheader hs =>
    rw [outcome,outcome,takeWhile_goesOn hheader,declaredHunks_cons_of_none hheader]
    simp [ofBlock,hs]

end State

variable [DecidableEq α] [Letter α]

/-- What a line announces, if nothing stops its reading: a header's path is looked up as well. -/
def readLine (names : Naming α) (line : Text α) : Except Fault (LineKind α) := do
  let kind ← classify line
  match kind with
  | .fileHeader path => (names path).map fun _ => kind
  | _ => return kind

theorem readLine_header {line path : Text α} (h : classify line = .ok (.fileHeader path))
    (names : Naming α) : readLine names line = (names path).map fun _ => .fileHeader path := by
  rw [readLine,h]
  rfl

theorem readLine_of_classify {names : Naming α} {line : Text α} {kind : LineKind α}
    (hc : classify line = .ok kind)
    (hnames : ∀ path, kind = .fileHeader path → ∃ answer, names path = .ok answer) :
    readLine names line = .ok kind := by
  rw [readLine,hc]
  cases kind with
  | fileHeader path =>
    obtain ⟨answer,ha⟩ := hnames path rfl
    simp [ha,bind,Except.bind,Except.map]
  | _ => rfl

theorem step_eq (names : Naming α) (s : State α) (line : Text α) :
    step names s line = readLine names line >>= s.advance names := by
  rw [step,readLine]
  cases classify line with
  | error fault => rfl
  | ok kind =>
    cases kind with
    | fileHeader path =>
      cases hn : names path <;> simp [State.advance,hn,bind,Except.bind,Except.map]
    | _ => rfl

theorem advance_of_readLine {names : Naming α} {line : Text α} {kind : LineKind α}
    (h : readLine names line = .ok kind) (s : State α) : ∃ s', s.advance names kind = .ok s' := by
  rw [readLine] at h
  cases hc : classify line with
  | error fault =>
    rw [hc] at h
    cases h
  | ok announced =>
    rw [hc] at h
    cases announced with
    | fileHeader path =>
      cases hn : names path with
      | error fault => simp [hn,bind,Except.bind,Except.map] at h
      | ok answer =>
        obtain rfl : .fileHeader path = kind := by
          simpa [hn,bind,Except.bind,Except.map] using h
        exact ⟨⟨some path,answer,none,s.hunks⟩,by rw [State.advance,hn]; rfl⟩
    | _ =>
      cases h
      exact ⟨_,rfl⟩

theorem foldlM_step (names : Naming α) (s : State α) (ls : List (Text α)) :
    (ls.foldlM (step names) s).map State.hunks =
      (ls.mapM (readLine names)).map (s.outcome names) := by
  induction ls generalizing s with
  | nil => exact congrArg Except.ok (s.outcome_nil names).symm
  | cons l ls ih =>
    rw [List.foldlM_cons,List.mapM_cons,step_eq]
    cases hl : readLine names l with
    | error fault => rfl
    | ok kind =>
      obtain ⟨s',hs⟩ := advance_of_readLine hl s
      change (s.advance names kind >>= fun s' => ls.foldlM (step names) s').map State.hunks =
        (ls.mapM (readLine names) >>= fun kinds => pure (kind :: kinds)).map (s.outcome names)
      rw [hs]
      refine (ih s').trans ?_
      cases ls.mapM (readLine names) with
      | error fault => rfl
      | ok kinds => exact congrArg Except.ok ((State.moves_of_advance hs).outcome_eq kinds).symm

/-- A report is read line by line, and then cut. -/
theorem collect_eq (names : Naming α) (report : Text α) :
    collect names report = ((lines report).mapM (readLine names)).map (declaredHunks names) := by
  rw [collect,foldlM_step,State.outcome_empty]

theorem mapM_readLine {names : Naming α} {ls : List (Text α)} {kinds : List (LineKind α)}
    (hkinds : ls.mapM classify = .ok kinds)
    (hnames : ∀ path, .fileHeader path ∈ kinds → ∃ answer, names path = .ok answer) :
    ls.mapM (readLine names) = .ok kinds := by
  induction ls generalizing kinds with
  | nil => exact hkinds
  | cons l ls ih =>
    rw [List.mapM_cons] at hkinds
    cases hl : classify l with
    | error fault =>
      rw [hl] at hkinds
      cases hkinds
    | ok kind =>
      cases hls : ls.mapM classify with
      | error fault => simp [hl,hls,bind,Except.bind] at hkinds
      | ok rest =>
        obtain rfl : kind :: rest = kinds := by
          simpa [hl,hls,bind,Except.bind,pure,Except.pure] using hkinds
        have hkind := readLine_of_classify hl fun path hp => hnames path (hp ▸ List.mem_cons_self)
        rw [List.mapM_cons,hkind,ih hls fun path hp => hnames path (List.mem_cons_of_mem _ hp)]
        rfl

/-- The scan of a report whose lines can all be read finds the hunks of its segments. -/
theorem collect_eq_declaredHunks {names : Naming} {report : Text} {kinds : List LineKind}
    (hkinds : (lines report).mapM classify = .ok kinds)
    (hnames : ∀ path, .fileHeader path ∈ kinds → ∃ answer, names path = .ok answer) :
    collect names report = .ok (declaredHunks names kinds) := by
  rw [collect_eq,mapM_readLine hkinds hnames]
  rfl

/-- A file that is reported twice around another one, with lines in front of the first header and of
the first hunk, and a hunk without lines. -/
theorem collect_eq_declaredHunks_of_interrupted_file :
    let names := Path.names {} true "a.rs".toList
    let report := Text.joined '\n' (["+0⏎","Diff of a.rs:","-1⏎","Diff at line 3","-2⏎"," 3⏎",
      "Diff at line 9","","Diff of b.rs:","Diff at line 1","+4⏎","Diff of a.rs:","Diff at line 7",
      "+5"].map String.toList)
    let kinds : List LineKind := [.added "0\n".toList,.fileHeader "a.rs".toList,.removed,
      .hunkStart 3,.removed,.context "3\n".toList,.hunkStart 9,.other,.fileHeader "b.rs".toList,
      .hunkStart 1,.added "4\n".toList,.fileHeader "a.rs".toList,.hunkStart 7,.added "5".toList]
    ((lines report).mapM classify = .ok kinds ∧
        ∀ path, .fileHeader path ∈ kinds → ∃ answer, names path = .ok answer) ∧
      collect names report = .ok [⟨3,2,["3\n".toList]⟩,⟨9,0,[]⟩,⟨7,0,["5".toList]⟩] := by
  intro names report kinds
  have hkinds : (lines report).mapM classify = .ok kinds := by rfl
  have hnames : ∀ path, .fileHeader path ∈ kinds → ∃ answer, names path = .ok answer := by
    intro path hp
    simp only [kinds,List.mem_cons,reduceCtorEq,LineKind.fileHeader.injEq,List.not_mem_nil,false_or,
      or_false] at hp
    rcases hp with rfl | rfl | rfl
    · exact ⟨true,rfl⟩
    · exact ⟨false,rfl⟩
    · exact ⟨true,rfl⟩
  exact ⟨⟨hkinds,hnames⟩,collect_eq_declaredHunks hkinds hnames⟩

end FormatEdits.Report
