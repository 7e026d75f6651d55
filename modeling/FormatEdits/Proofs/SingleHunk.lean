import FormatEdits.Proofs.Report.Reproduction

namespace FormatEdits

open Text (joined terminated Plain)

/-- A report on one hunk of one file. -/
def hunkReport (target : Text) (n : Nat) (body : List Text) (ended : Bool) : Text :=
  documentOf (Report.headerLine target :: Report.hunkLine n :: body) ended

theorem documentOf_ended {ls : List Text} (h : ls ≠ []) :
    documentOf ls true = joined '\n' (ls ++ [[]]) := by
  rw [Text.joined_append h]
  rfl

theorem lines_documentOf {ls : List Text} (hne : ls ≠ []) (h : ∀ l ∈ ls, '\n' ∉ l) (ended : Bool) :
    Report.lines (documentOf ls ended) = ls ++ if ended then [[]] else [] := by
  cases ended with
  | false =>
    rw [documentOf,Report.lines_char]
    simpa using Text.fields_joined hne h
  | true =>
    rw [documentOf_ended hne,Report.lines_char,Text.fields_joined (by simp)]
    · rfl
    · intro l hl
      rcases List.mem_append.mp hl with hl | hl
      · exact h l hl
      · simp_all

namespace Report

theorem not_mem_headerLine {target : Text} (h : '\n' ∉ target) : '\n' ∉ headerLine target := by
  have hmark : '\n' ∉ fileHeaderMark := by decide
  simp [headerLine,h,hmark]

theorem not_mem_hunkLine (n : Nat) : '\n' ∉ hunkLine n := by
  have hmark : '\n' ∉ hunkStartMark := by decide
  have hdigits : '\n' ∉ Text.ofNat n := fun h => absurd (Text.isDigit_of_mem_ofNat h) (by decide)
  simp [hunkLine,hmark,hdigits]

theorem not_mem_bodyLine {marker : Char} {line : Text} (hm : marker ≠ '\n') (h : '\n' ∉ line) :
    '\n' ∉ bodyLine marker line := by
  have hsymbol : '\n' ≠ returnSymbol := by decide
  simp [bodyLine,h,hm.symm,hsymbol]

theorem not_mem_bodyLines {marker : Char} {ls : List Text} (hm : marker ≠ '\n')
    (h : ∀ l ∈ ls, '\n' ∉ l) : ∀ l ∈ ls.map (bodyLine marker), '\n' ∉ l := by
  intro l hl
  obtain ⟨m,hmem,rfl⟩ := List.mem_map.mp hl
  exact not_mem_bodyLine hm (h m hmem)

theorem lines_hunkReport {target : Text} {n : Nat} {body : List Text} (htarget : '\n' ∉ target)
    (hbody : ∀ l ∈ body, '\n' ∉ l) (ended : Bool) :
    lines (hunkReport target n body ended) =
      headerLine target :: hunkLine n :: (body ++ if ended then [[]] else []) := by
  rw [hunkReport,lines_documentOf (by simp)]
  · rfl
  · intro l hl
    rcases List.mem_cons.mp hl with rfl | hl
    · exact not_mem_headerLine htarget
    rcases List.mem_cons.mp hl with rfl | hl
    · exact not_mem_hunkLine n
    · exact hbody l hl

theorem Shows.append_other {old new body : List Text} (h : Shows old new body) {shown : Text}
    (ho : classify shown = .ok .other) : Shows old new (body ++ [shown]) := by
  induction h with
  | nil => exact .other ho .nil
  | removed h _ ih => exact .removed h ih
  | added h _ ih => exact .added h ih
  | context h _ ih => exact .context h ih
  | other h _ ih => exact .other h ih

theorem Shows.append_ended {old new body : List Text} (h : Shows old new body) (ended : Bool) :
    Shows old new (body ++ if ended then [[]] else []) := by
  cases ended with
  | false => simpa using h
  | true => exact h.append_other rfl

theorem shows_added (new : List Text) : Shows [] new (new.map (bodyLine '+')) := by
  induction new with
  | nil => exact .nil
  | cons l new ih => exact .added (.inl rfl) ih

theorem interpret_hunkReport (host : Host) (resolveLinks : Bool) {target : Text} {n : Nat}
    {old new body : List Text} (htarget : '\n' ∉ target) (hbody : Shows old new body)
    (hfree : ∀ l ∈ body, '\n' ∉ l) (ended : Bool) :
    interpret host resolveLinks target (hunkReport target n body ended) =
      if Text.digitLimit < (Text.ofNat n).length then .error (.overlongNumber (Text.ofNat n).length)
      else .ok [Hunk.toEdit 0 ⟨n,old.length,new.map (· ++ ['\n'])⟩] := by
  have hheader : step (Path.names host resolveLinks target) {} (headerLine target) =
      .ok ⟨some target,true,none,[]⟩ :=
    step_headerLine {} (classify_headerLine (.inl rfl)) (Path.names_target host resolveLinks target)
  rw [interpret,collect,lines_hunkReport htarget hfree,foldlM_cons_of_step hheader]
  by_cases hn : Text.digitLimit < (Text.ofNat n).length
  · rw [List.foldlM_cons,step,classify_hunkLine_eq (.inl rfl),if_pos hn,if_pos hn]
    rfl
  · have hhunk := step_hunkLine (Path.names host resolveLinks target)
      (s := ⟨some target,true,none,[]⟩) (.inl rfl) (Nat.not_lt.mp hn) rfl
    rw [foldlM_cons_of_step hhunk,foldlM_shows _ (hbody.append_ended ended) rfl rfl,
      if_neg hn]
    simp [State.hunks,Except.map,Edit.ofHunks,Edit.ofHunksFrom]

end Report

/-- The report that inserts lines and does nothing else. -/
def insertionReport (target : Text) (k : Nat) (new : List Text) (ended : Bool) : Text :=
  hunkReport target (k + 1) (new.map (Report.bodyLine '+')) ended

theorem interpret_insertionReport (host : Host) (resolveLinks : Bool) {target : Text}
    {new : List Text} (k : Nat) (ended : Bool) (htarget : '\n' ∉ target) (hne : new ≠ [])
    (hnew : ∀ l ∈ new, '\n' ∉ l) :
    Report.interpret host resolveLinks target (insertionReport target k new ended) =
      if Text.digitLimit < (Text.ofNat (k + 1)).length then
        .error (.overlongNumber (Text.ofNat (k + 1)).length)
      else .ok [⟨k,k,0,some 0,joined '\n' new⟩] := by
  have hbody : ∀ l ∈ new.map (Report.bodyLine '+'), '\n' ∉ l :=
    Report.not_mem_bodyLines (by decide) hnew
  have hedit : Hunk.toEdit 0 ⟨(k + 1 : Nat),([] : List Text).length,new.map (· ++ ['\n'])⟩ =
      ⟨k,k,0,some 0,joined '\n' new⟩ := by
    rw [Hunk.toEdit,Hunk.replacement_of_lines hne rfl]
    simp
  rw [insertionReport,Report.interpret_hunkReport host resolveLinks htarget
    (Report.shows_added new) hbody ended,hedit]

/-- Where a point in front of a line is replaced, the rest of the text stays. -/
theorem Edit.apply_at_lineStart {before : List Text} (hbefore : ∀ l ∈ before, Plain l)
    (after : List Text) (replacement : Text) :
    Edit.apply (terminated (before ++ after))
        [⟨before.length,before.length,0,some 0,replacement⟩] =
      .ok (terminated before ++ replacement ++ terminated after) := by
  have hoffset : Edit.offset (terminated (before ++ after)) before.length (some 0) =
      .ok (terminated before).length := by
    rw [Edit.offset_of_nonneg _ (Int.natCast_nonneg _),Edit.position_zero,Int.toNat_natCast,
      Text.terminated_append,Edit.lineStart_terminated hbefore]
  have ht : terminated (before ++ after) = terminated before ++ [] ++ terminated after := by simp
  exact Edit.apply_singleton ht hoffset hoffset

theorem unended_ne_terminated {before new after : List Text} (hne : new ≠ []) :
    terminated before ++ joined '\n' new ++ terminated after ≠
      terminated (before ++ new ++ after) := by
  intro h
  have hlength := congrArg List.length h
  rw [Text.terminated_append,Text.terminated_append,← Text.joined_terminated hne] at hlength
  simp at hlength

/-- The edits of a report that inserts lines put them in without ending the last of them, at every
place of every document. -/
theorem insertion_runs_into_next_line (host : Host) (resolveLinks : Bool) {target : Text}
    {ls new : List Text} {k : Nat} (ended : Bool) (htarget : '\n' ∉ target)
    (hplain : ∀ l ∈ ls, Plain l) (hk : k ≤ ls.length) (hne : new ≠ [])
    (hnew : ∀ l ∈ new, '\n' ∉ l) :
    let interpreted :=
      Report.interpret host resolveLinks target (insertionReport target k new ended)
    ((Text.ofNat (k + 1)).length ≤ Text.digitLimit → ∃ es, interpreted = .ok es ∧
        Edit.apply (terminated ls) es =
          .ok (terminated (ls.take k) ++ joined '\n' new ++ terminated (ls.drop k))) ∧
      ∀ es, interpreted = .ok es →
        Edit.apply (terminated ls) es ≠ .ok (terminated (ls.take k ++ new ++ ls.drop k)) := by
  intro interpreted
  have hinterpreted : interpreted = _ :=
    interpret_insertionReport host resolveLinks k ended htarget hne hnew
  have htake : ∀ l ∈ ls.take k, Plain l := fun l hl => hplain l (List.mem_of_mem_take hl)
  have happly := Edit.apply_at_lineStart htake (ls.drop k) (joined '\n' new)
  rw [List.take_append_drop,List.length_take,Nat.min_eq_left hk] at happly
  refine ⟨?_,?_⟩
  · intro hdigits
    rw [if_neg (Nat.not_lt.mpr hdigits)] at hinterpreted
    exact ⟨_,hinterpreted,happly⟩
  · intro es hes hintended
    rw [hinterpreted] at hes
    split at hes
    · cases hes
    · cases hes
      exact unended_ne_terminated hne (Except.ok.inj (happly.symm.trans hintended))

/-- A line inserted between two, and one behind the last. -/
theorem insertion_runs_into_next_line_of_two :
    let target := "a.rs".toList
    let ls : List Text := [['a'],['b']]
    ('\n' ∉ target ∧ (∀ l ∈ ls, Plain l) ∧
        ∀ k ≤ 2, (Text.ofNat (k + 1)).length ≤ Text.digitLimit) ∧
      (∃ es, Report.interpret {} true target (insertionReport target 1 [['x']] false) = .ok es ∧
        Edit.apply (terminated ls) es = .ok "a\nxb\n".toList) ∧
      ∃ es, Report.interpret {} true target (insertionReport target 2 [['x']] true) = .ok es ∧
        Edit.apply (terminated ls) es = .ok "a\nb\nx".toList := by
  intro target ls
  have htarget : '\n' ∉ target := by decide
  have hplain : ∀ l ∈ ls, Plain l := by decide
  have hdigits : ∀ k ≤ 2, (Text.ofNat (k + 1)).length ≤ Text.digitLimit := by decide
  have hne : ([['x']] : List Text) ≠ [] := by decide
  have hnew : ∀ l ∈ ([['x']] : List Text), '\n' ∉ l := by decide
  have hmiddle := insertion_runs_into_next_line {} true false htarget hplain (k := 1) (by decide)
    hne hnew
  have hend := insertion_runs_into_next_line {} true true htarget hplain (k := 2) (by decide)
    hne hnew
  exact ⟨⟨htarget,hplain,hdigits⟩,hmiddle.1 (hdigits 1 (by decide)),hend.1 (hdigits 2 (by decide))⟩

/-- The second line of the document is not kept: the inserted line takes it over. -/
theorem not_inserts_whole_lines :
    ¬ ∀ (target : Text) (ls new : List Text) (k : Nat), '\n' ∉ target → (∀ l ∈ ls, Plain l) →
      k ≤ ls.length → new ≠ [] → (∀ l ∈ new, '\n' ∉ l) →
      ∃ es, Report.interpret {} true target (insertionReport target k new false) = .ok es ∧
        Edit.apply (terminated ls) es = .ok (terminated (ls.take k ++ new ++ ls.drop k)) := by
  intro h
  have hplain : ∀ l ∈ ([['a'],['b']] : List Text), Plain l := by decide
  obtain ⟨es,hes,happly⟩ := h "a.rs".toList [['a'],['b']] [['x']] 1 (by decide) hplain (by decide)
    (by decide) (by decide)
  have hread : Report.interpret {} true "a.rs".toList
      (insertionReport "a.rs".toList 1 [['x']] false) = .ok [⟨1,1,0,some 0,['x']⟩] := by rfl
  cases hread.symm.trans hes
  revert happly
  decide

namespace Report

theorem shows_removed (old : List Text) : Shows old [] (old.map (bodyLine '-')) := by
  induction old with
  | nil => exact .nil
  | cons l old ih => exact .removed (.inl rfl) ih

end Report

/-- The report that deletes lines and does nothing else. -/
def deletionReport (target : Text) (k : Nat) (old : List Text) (ended : Bool) : Text :=
  hunkReport target (k + 1) (old.map (Report.bodyLine '-')) ended

theorem interpret_deletionReport (host : Host) (resolveLinks : Bool) {target : Text}
    {old : List Text} (k : Nat) (ended : Bool) (htarget : '\n' ∉ target) (hne : old ≠ [])
    (hold : ∀ l ∈ old, '\n' ∉ l) :
    Report.interpret host resolveLinks target (deletionReport target k old ended) =
      if Text.digitLimit < (Text.ofNat (k + 1)).length then
        .error (.overlongNumber (Text.ofNat (k + 1)).length)
      else .ok [⟨k,k + old.length - 1,0,none,[]⟩] := by
  have hbody : ∀ l ∈ old.map (Report.bodyLine '-'), '\n' ∉ l :=
    Report.not_mem_bodyLines (by decide) hold
  have hedit : Hunk.toEdit 0 ⟨(k + 1 : Nat),old.length,([] : List Text).map (· ++ ['\n'])⟩ =
      ⟨k,k + old.length - 1,0,none,[]⟩ := by
    simp [Hunk.toEdit,Hunk.replacement,Text.dropFinal,hne]
  rw [deletionReport,Report.interpret_hunkReport host resolveLinks htarget
    (Report.shows_removed old) hbody ended,hedit]

/-- Where the content of a stretch of lines is replaced, the line feed behind its last line
stays. -/
theorem Edit.apply_to_stretch {before stretch : List Text} (hne : stretch ≠ [])
    (hbefore : ∀ l ∈ before, Plain l) (hstretch : ∀ l ∈ stretch, Plain l) (after : List Text)
    (replacement : Text) :
    Edit.apply (terminated (before ++ stretch ++ after))
        [⟨before.length,before.length + stretch.length - 1,0,none,replacement⟩] =
      .ok (terminated before ++ replacement ++ '\n' :: terminated after) := by
  have ht : terminated (before ++ stretch ++ after) =
      terminated before ++ joined '\n' stretch ++ '\n' :: terminated after := by
    rw [Text.terminated_append,Text.terminated_append,← Text.joined_terminated hne]
    simp
  obtain ⟨hstart,hstop⟩ := Replacement.offset_stretch hne hbefore hstretch (.inr rfl) ht
  exact Edit.apply_singleton ht hstart hstop

/-- The edits of a report that deletes lines leave an empty line in their place, whichever lines of
whichever document they are. -/
theorem deletion_leaves_empty_line (host : Host) (resolveLinks : Bool) {target : Text}
    {ls : List Text} {k m : Nat} (ended : Bool) (htarget : '\n' ∉ target)
    (hplain : ∀ l ∈ ls, Plain l) (hm : 0 < m) (hk : k + m ≤ ls.length) :
    let interpreted := Report.interpret host resolveLinks target
      (deletionReport target k ((ls.drop k).take m) ended)
    ((Text.ofNat (k + 1)).length ≤ Text.digitLimit → ∃ es, interpreted = .ok es ∧
        Edit.apply (terminated ls) es =
          .ok (terminated (ls.take k ++ [[]] ++ ls.drop (k + m)))) ∧
      ∀ es, interpreted = .ok es →
        Edit.apply (terminated ls) es ≠ .ok (terminated (ls.take k ++ ls.drop (k + m))) := by
  intro interpreted
  have hlength : ((ls.drop k).take m).length = m := by
    simp
    omega
  have hne : (ls.drop k).take m ≠ [] := by
    intro h
    rw [h] at hlength
    exact absurd hlength (Nat.ne_of_lt hm)
  have hparts : ls.take k ++ (ls.drop k).take m ++ ls.drop (k + m) = ls := by
    rw [List.append_assoc,← List.drop_drop,List.take_append_drop,List.take_append_drop]
  have hbefore : ∀ l ∈ ls.take k, Plain l := fun l hl => hplain l (List.mem_of_mem_take hl)
  have hold : ∀ l ∈ (ls.drop k).take m, Plain l := fun l hl =>
    hplain l (List.mem_of_mem_drop (List.mem_of_mem_take hl))
  have hinterpreted : interpreted = _ := interpret_deletionReport host resolveLinks k ended htarget
    hne fun l hl hc => absurd (hold l hl '\n' hc) (by decide)
  have happly := Edit.apply_to_stretch hne hbefore hold (ls.drop (k + m)) []
  rw [hparts,List.length_take,Nat.min_eq_left (by omega)] at happly
  have hleft : terminated (ls.take k) ++ [] ++ '\n' :: terminated (ls.drop (k + m)) =
      terminated (ls.take k ++ [[]] ++ ls.drop (k + m)) := by
    simp
  rw [hleft] at happly
  refine ⟨?_,?_⟩
  · intro hdigits
    rw [if_neg (Nat.not_lt.mpr hdigits)] at hinterpreted
    exact ⟨_,hinterpreted,happly⟩
  · intro es hes hintended
    rw [hinterpreted] at hes
    split at hes
    · cases hes
    · cases hes
      have hsame := congrArg List.length (Except.ok.inj (happly.symm.trans hintended))
      simp at hsame

/-- The first of two lines is deleted, and then both. -/
theorem deletion_leaves_empty_line_of_two :
    let target := "a.rs".toList
    let ls : List Text := [['a'],['b']]
    ('\n' ∉ target ∧ (∀ l ∈ ls, Plain l) ∧ (0 < 1 ∧ 0 + 1 ≤ ls.length) ∧
        (0 < 2 ∧ 0 + 2 ≤ ls.length) ∧ (Text.ofNat (0 + 1)).length ≤ Text.digitLimit) ∧
      (∃ es, Report.interpret {} true target (deletionReport target 0 [['a']] false) = .ok es ∧
        Edit.apply (terminated ls) es = .ok "\nb\n".toList) ∧
      ∃ es, Report.interpret {} true target (deletionReport target 0 ls true) = .ok es ∧
        Edit.apply (terminated ls) es = .ok "\n".toList := by
  intro target ls
  have htarget : '\n' ∉ target := by decide
  have hplain : ∀ l ∈ ls, Plain l := by decide
  have hone : 0 < 1 ∧ 0 + 1 ≤ ls.length := by decide
  have htwo : 0 < 2 ∧ 0 + 2 ≤ ls.length := by decide
  have hdigits : (Text.ofNat (0 + 1)).length ≤ Text.digitLimit := by decide
  have hfirst := deletion_leaves_empty_line {} true false htarget hplain hone.1 hone.2
  have hboth := deletion_leaves_empty_line {} true true htarget hplain htwo.1 htwo.2
  exact ⟨⟨htarget,hplain,hone,htwo,hdigits⟩,hfirst.1 hdigits,hboth.1 hdigits⟩

/-- The deleted first line of a document is still there, without its content. -/
theorem not_deletes_whole_lines :
    ¬ ∀ (target : Text) (ls : List Text) (k m : Nat), '\n' ∉ target → (∀ l ∈ ls, Plain l) →
      0 < m → k + m ≤ ls.length →
      ∃ es, Report.interpret {} true target
          (deletionReport target k ((ls.drop k).take m) false) = .ok es ∧
        Edit.apply (terminated ls) es = .ok (terminated (ls.take k ++ ls.drop (k + m))) := by
  intro h
  have hplain : ∀ l ∈ ([['a'],['b']] : List Text), Plain l := by decide
  obtain ⟨es,hes,happly⟩ := h "a.rs".toList [['a'],['b']] 0 1 (by decide) hplain (by decide)
    (by decide)
  have hread : Report.interpret {} true "a.rs".toList
      (deletionReport "a.rs".toList 0 [['a']] false) = .ok [⟨0,0,0,none,[]⟩] := by rfl
  cases hread.symm.trans hes
  revert happly
  decide

end FormatEdits
