import FormatEdits.Proofs.Path.NullFree
import FormatEdits.Proofs.Replacement
import FormatEdits.Proofs.Report.Written

namespace FormatEdits

namespace Report

/-- Body lines that show old lines, new lines, and lines that are both. -/
inductive Shows : List Text → List Text → List Text → Prop
  | nil : Shows [] [] []
  | removed {old new lines : List Text} {l shown : Text} (h : Written (bodyLine '-' l) shown)
      (tail : Shows old new lines) : Shows (l :: old) new (shown :: lines)
  | added {old new lines : List Text} {l shown : Text} (h : Written (bodyLine '+' l) shown)
      (tail : Shows old new lines) : Shows old (l :: new) (shown :: lines)
  | context {old new lines : List Text} {l shown : Text} (h : Written (bodyLine ' ' l) shown)
      (tail : Shows old new lines) : Shows (l :: old) (l :: new) (shown :: lines)
  | other {old new lines : List Text} {shown : Text} (h : classify shown = .ok .other)
      (tail : Shows old new lines) : Shows old new (shown :: lines)

/-- Lines of a report that tell the replacements of a target, of whose new lines so many are
passed. The flag says whether the last header was one for the target; the blocks of other files
hold any lines that can be read. -/
inductive Tells (names : Naming) (target : Text) :
    Bool → Nat → List Replacement → List Text → Prop
  | done (inTarget : Bool) (passed : Nat) : Tells names target inTarget passed [] []
  | other {inTarget : Bool} {passed : Nat} {rs : List Replacement} {lines : List Text}
      {shown : Text} (h : classify shown = .ok .other)
      (tail : Tells names target inTarget passed rs lines) :
      Tells names target inTarget passed rs (shown :: lines)
  | header {inTarget : Bool} {passed : Nat} {rs : List Replacement} {lines : List Text}
      {shown : Text} (h : Written (headerLine target) shown)
      (tail : Tells names target true passed rs lines) :
      Tells names target inTarget passed rs (shown :: lines)
  | otherHeader {inTarget : Bool} {passed : Nat} {rs : List Replacement} {lines : List Text}
      {shown path : Text} (h : classify shown = .ok (.fileHeader path)) (hnull : Path.null ∉ path)
      (hother : names path ≠ .ok true) (tail : Tells names target false passed rs lines) :
      Tells names target inTarget passed rs (shown :: lines)
  | passedOver {passed : Nat} {rs : List Replacement} {lines : List Text} {shown : Text}
      {kind : LineKind} (h : classify shown = .ok kind) (hkind : ∀ path, kind ≠ .fileHeader path)
      (tail : Tells names target false passed rs lines) :
      Tells names target false passed rs (shown :: lines)
  | hunk {passed : Nat} {r : Replacement} {rs : List Replacement} {body lines : List Text}
      {shown : Text} (h : Written (hunkLine (passed + r.kept.length + 1)) shown)
      (hdigits : (Text.ofNat (passed + r.kept.length + 1)).length ≤ Text.digitLimit)
      (hbody : Shows r.old r.new body)
      (tail : Tells names target true (passed + r.kept.length + r.new.length) rs lines) :
      Tells names target true passed (r :: rs) (shown :: body ++ lines)

theorem step_of_classify {names : Naming} {s : State} {shown : Text} {kind : LineKind}
    (h : classify shown = .ok kind) : step names s shown = s.advance names kind := by
  rw [step,h]
  rfl

theorem State.advance_of_not_inTarget {names : Naming} {s : State} {kind : LineKind}
    (hs : s.inTarget = false) (hkind : ∀ path, kind ≠ .fileHeader path) :
    s.advance names kind = .ok s := by
  cases kind with
  | fileHeader path => exact absurd rfl (hkind path)
  | _ => simp [State.advance,State.inHunk,hs]

theorem foldlM_cons_of_step {names : Naming} {s s' : State} {shown : Text} {lines : List Text}
    (h : step names s shown = .ok s') :
    (shown :: lines).foldlM (step names) s = lines.foldlM (step names) s' := by
  rw [List.foldlM_cons,h]
  rfl

theorem step_headerLine {names : Naming} {target shown : Text} {answer : Bool} (s : State)
    (h : classify shown = .ok (.fileHeader target)) (ha : names target = .ok answer) :
    step names s shown = .ok ⟨some target,answer,none,s.hunks⟩ := by
  rw [step_of_classify h,State.advance,ha]
  rfl

theorem step_hunkLine (names : Naming) {s : State} {n : Nat} {shown : Text}
    (h : Written (hunkLine n) shown) (hn : (Text.ofNat n).length ≤ Text.digitLimit)
    (hs : s.inTarget = true) :
    step names s shown = .ok { s with openHunk := some ⟨n,0,[]⟩, sealedHunks := s.hunks } := by
  rw [step_of_classify (classify_hunkLine h hn),State.advance,if_pos hs]

theorem foldlM_cons_of_inHunk {names : Naming} {s : State} {shown : Text} {lines : List Text}
    {kind : LineKind} {f : Hunk → Hunk} {h : Hunk} (hc : classify shown = .ok kind)
    (ha : s.advance names kind = .ok (s.inHunk f)) (hs : s.inTarget = true)
    (ho : s.openHunk = some h) :
    (shown :: lines).foldlM (step names) s =
      lines.foldlM (step names) { s with openHunk := some (f h) } := by
  rw [State.inHunk,if_pos hs,ho] at ha
  exact foldlM_cons_of_step ((step_of_classify hc).trans ha)

/-- The open hunk takes the body lines in: old ones are counted, new ones gathered. -/
theorem foldlM_shows (names : Naming) {old new lines : List Text} (h : Shows old new lines)
    {s : State} {n removed : Int} {gathered : List Text} (hs : s.inTarget = true)
    (ho : s.openHunk = some ⟨n,removed,gathered⟩) :
    lines.foldlM (step names) s = .ok { s with
      openHunk := some ⟨n,removed + old.length,gathered ++ new.map (· ++ ['\n'])⟩ } := by
  induction h generalizing s removed gathered with
  | nil =>
    obtain ⟨_,_,_,_⟩ := s
    cases ho
    simp [pure,Except.pure]
  | @removed old new lines l shown h _ ih =>
    rw [foldlM_cons_of_inHunk (classify_removed h) rfl hs ho]
    refine (ih (s := { s with openHunk := some ⟨n,removed + 1,gathered⟩ }) hs rfl).trans ?_
    simp [Int.add_assoc,Int.add_comm 1]
  | @added old new lines l shown h _ ih =>
    rw [foldlM_cons_of_inHunk (classify_added h) rfl hs ho]
    refine (ih (s := { s with openHunk := some ⟨n,removed,gathered ++ [l ++ ['\n']]⟩ }) hs
      rfl).trans ?_
    simp
  | @context old new lines l shown h _ ih =>
    rw [foldlM_cons_of_inHunk (classify_context h) rfl hs ho]
    refine (ih (s := { s with openHunk := some ⟨n,removed + 1,gathered ++ [l ++ ['\n']]⟩ }) hs
      rfl).trans ?_
    simp [Int.add_assoc,Int.add_comm 1]
  | other h _ ih =>
    rw [foldlM_cons_of_step (step_of_classify h)]
    exact ih hs ho

/-- A report that tells replacements adds their hunks to those read before. -/
theorem foldlM_tells {names : Naming} {target : Text} {inTarget : Bool} {passed : Nat}
    {rs : List Replacement} {lines : List Text} (h : Tells names target inTarget passed rs lines)
    (htarget : names target = .ok true)
    (hnames : ∀ path, Path.null ∉ path → ∃ answer, names path = .ok answer)
    {s : State} (hs : s.inTarget = inTarget) :
    ∃ s', lines.foldlM (step names) s = .ok s' ∧
      s'.hunks = s.hunks ++ Replacement.hunks passed rs := by
  induction h generalizing s with
  | done => exact ⟨s,rfl,by simp [Replacement.hunks]⟩
  | other h _ ih =>
    rw [foldlM_cons_of_step (step_of_classify h)]
    exact ih hs
  | @header _ _ _ _ shown h _ ih =>
    have hstep := step_headerLine s (classify_headerLine h) htarget
    obtain ⟨s',hf,hh⟩ := ih (s := ⟨some target,true,none,s.hunks⟩) rfl
    exact ⟨s',(foldlM_cons_of_step hstep).trans hf,by simpa [State.hunks] using hh⟩
  | @otherHeader _ _ _ _ shown path h hnull hother _ ih =>
    obtain ⟨answer,ha⟩ := hnames path hnull
    obtain rfl : answer = false := by
      cases answer with
      | false => rfl
      | true => exact absurd ha hother
    have hstep := step_headerLine s h ha
    obtain ⟨s',hf,hh⟩ := ih (s := ⟨some path,false,none,s.hunks⟩) rfl
    exact ⟨s',(foldlM_cons_of_step hstep).trans hf,by simpa [State.hunks] using hh⟩
  | passedOver h hkind _ ih =>
    have hstep : step names s _ = .ok s :=
      (step_of_classify h).trans (State.advance_of_not_inTarget hs hkind)
    rw [foldlM_cons_of_step hstep]
    exact ih hs
  | @hunk passed r rs body lines shown h hdigits hbody _ ih =>
    -- the new hunk is open while its body is read, and still is when what follows starts
    have hstep := step_hunkLine names h hdigits hs
    have hshows := foldlM_shows names hbody (s := { s with
        openHunk := some ⟨(passed + r.kept.length + 1 : Nat),0,[]⟩, sealedHunks := s.hunks }) hs rfl
    obtain ⟨s',hf,hh⟩ := ih (s := { s with
      openHunk := some ⟨(passed + r.kept.length + 1 : Nat),0 + r.old.length,
        [] ++ r.new.map (· ++ ['\n'])⟩, sealedHunks := s.hunks }) hs
    refine ⟨s',?_,?_⟩
    · rw [List.cons_append,foldlM_cons_of_step hstep,List.foldlM_append,hshows]
      exact hf
    · rw [hh]
      simp [State.hunks,Replacement.hunks]

end Report

open Text (joined)

/-- A document of lines, with or without a line feed behind the last. -/
def documentOf (ls : List Text) (ended : Bool) : Text :=
  joined '\n' ls ++ if ended then ['\n'] else []

theorem interpret_of_tells {host : Host} {resolveLinks : Bool} {target report : Text}
    {rs : List Replacement} (hhost : host.NullFree) (htarget : Path.null ∉ target)
    (h : Report.Tells (Path.names host resolveLinks target) target false 0 rs
      (Report.lines report)) :
    Report.interpret host resolveLinks target report =
      .ok (Edit.ofHunks (Replacement.hunks 0 rs)) := by
  obtain ⟨s,hs,hh⟩ := Report.foldlM_tells h (Path.names_target host resolveLinks target)
    (fun path hp => Path.names_of_nullFree hhost resolveLinks htarget hp) (s := {}) rfl
  rw [Report.interpret,Report.collect,hs]
  change Except.ok (Edit.ofHunks s.hunks) = _
  rw [hh]
  rfl

/-- The formatted document comes out, however many hunks there are and whatever other files the
report is about. -/
theorem interpret_reproduces {host : Host} {resolveLinks : Bool} {target report : Text}
    {rs : List Replacement} {rest : List Text} (ended : Bool) (hhost : host.NullFree)
    (htarget : Path.null ∉ target) (hplain : ∀ l ∈ Replacement.oldLines rs rest, Text.Plain l)
    (h : Report.Tells (Path.names host resolveLinks target) target false 0 rs
      (Report.lines report)) :
    ∃ es, Report.interpret host resolveLinks target report = .ok es ∧
      Edit.apply (documentOf (Replacement.oldLines rs rest) ended) es =
        .ok (documentOf (Replacement.newLines rs rest) ended) := by
  refine ⟨_,interpret_of_tells hhost htarget h,?_⟩
  exact Replacement.apply_hunks (by cases ended <;> simp) hplain

/-- Two adjacent hunks of different sizes, with a blank line, carriage returns and a block of
another file. -/
theorem interpret_reproduces_across_blocks :
    let target := "a.rs".toList
    let rs : List Replacement :=
      [⟨["one".toList],["two".toList,[]],["2".toList],by simp,by simp⟩,
        ⟨[],["three".toList],["3".toList,[],"4".toList],by simp,by simp⟩]
    let lines := ["Diff of a.rs:\r","Diff at line 2","-two⏎","-⏎\r","+2⏎","Diff of b.rs:","+x⏎","",
      "Diff of a.rs:","Diff at line 3","+3⏎","-three⏎","+⏎","+4⏎"].map String.toList
    let report := joined '\n' lines
    (({} : Host).NullFree ∧ Path.null ∉ target ∧
        (∀ l ∈ Replacement.oldLines rs ["five".toList], Text.Plain l) ∧
        Report.Tells (Path.names {} true target) target false 0 rs (Report.lines report)) ∧
      ∃ es, Report.interpret {} true target report = .ok es ∧
        Edit.apply "one\ntwo\n\nthree\nfive\n".toList es =
          .ok "one\n2\n3\n\n4\nfive\n".toList := by
  intro target rs lines report
  have htarget : Path.null ∉ target := by decide
  have hplain : ∀ l ∈ Replacement.oldLines rs ["five".toList], Text.Plain l := by decide
  have hother : Path.names {} true target "b.rs".toList ≠ .ok true := by
    rw [show Path.names {} true target "b.rs".toList = .ok false from rfl]
    simp
  have hfirst : Report.Shows ["two".toList,[]] ["2".toList]
      (["-two⏎","-⏎\r","+2⏎"].map String.toList) :=
    .removed (.inl rfl) <| .removed (.inr rfl) <| .added (.inl rfl) .nil
  have hsecond : Report.Shows ["three".toList] ["3".toList,[],"4".toList]
      (["+3⏎","-three⏎","+⏎","+4⏎"].map String.toList) :=
    .added (.inl rfl) <| .removed (.inl rfl) <| .added (.inl rfl) <| .added (.inl rfl) .nil
  have hforeign : "+x⏎".toList = Report.bodyLine '+' ['x'] := rfl
  have hstart : "Diff at line 2".toList = Report.hunkLine 2 := rfl
  have hthird : "Diff at line 3".toList = Report.hunkLine 3 := rfl
  have hlast : Report.Tells (Path.names {} true target) target true 2 [rs[1]]
      (["Diff at line 3","+3⏎","-three⏎","+⏎","+4⏎"].map String.toList) :=
    .hunk (r := rs[1]) (.inl hthird) (by decide) hsecond (.done true 5)
  have hblock : Report.Tells (Path.names {} true target) target true 2 [rs[1]]
      (["Diff of b.rs:","+x⏎","","Diff of a.rs:","Diff at line 3","+3⏎","-three⏎","+⏎",
        "+4⏎"].map String.toList) :=
    .otherHeader (Report.classify_headerLine (.inl rfl)) (by decide) hother <|
      .passedOver (Report.classify_added (.inl hforeign)) (by simp) <| .other rfl <|
      .header (.inl rfl) hlast
  have htells : Report.Tells (Path.names {} true target) target false 0 rs
      (Report.lines report) := by
    rw [Report.lines_char,Text.fields_joined (by decide) (by decide)]
    exact .header (.inr rfl) (.hunk (r := rs[0]) (.inl hstart) (by decide) hfirst hblock)
  exact ⟨⟨Host.nullFree_empty,htarget,hplain,htells⟩,
    interpret_reproduces true Host.nullFree_empty htarget hplain htells⟩

end FormatEdits
