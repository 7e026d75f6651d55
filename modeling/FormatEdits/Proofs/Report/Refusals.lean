import FormatEdits.Proofs.Escape.Fixpoint
import FormatEdits.Proofs.Path.LinkFree
import FormatEdits.Proofs.Report.Segments
import FormatEdits.Proofs.Report.Written
import Mathlib.Data.List.TakeWhile

namespace FormatEdits.Report

open FormatEdits.Path (Unlookable Writable null)
open Text (dropFinal)

/-- Readings one after the other are refused for the first one that is. -/
theorem mapM_eq_error_iff {α β ε : Type} {f : α → Except ε β} {as : List α} {e : ε} :
    as.mapM f = .error e ↔ ∃ before a after, as = before ++ a :: after ∧
      (∀ b ∈ before, ∀ e', f b ≠ .error e') ∧ f a = .error e := by
  induction as with
  | nil => simp [pure,Except.pure]
  | cons a as ih =>
    rw [List.mapM_cons]
    cases ha : f a with
    | error e' =>
      constructor
      · intro h
        obtain rfl : e' = e := Except.error.inj h
        exact ⟨[],a,as,rfl,by simp,ha⟩
      · rintro ⟨before,b,after,hsplit,hbefore,hb⟩
        cases before with
        | nil =>
          obtain ⟨rfl,rfl⟩ := List.cons.inj hsplit
          obtain rfl : e' = e := Except.error.inj (ha.symm.trans hb)
          rfl
        | cons c before =>
          obtain ⟨rfl,-⟩ := List.cons.inj hsplit
          exact absurd ha (hbefore a List.mem_cons_self e')
    | ok b =>
      have htail : (as.mapM f >>= fun bs => pure (b :: bs)) = .error e ↔ as.mapM f = .error e := by
        cases as.mapM f <;> simp [bind,Except.bind,pure,Except.pure]
      refine (htail.trans ih).trans ⟨?_,?_⟩
      · rintro ⟨before,c,after,rfl,hbefore,hc⟩
        exact ⟨a :: before,c,after,rfl,List.forall_mem_cons.mpr ⟨by simp [ha],hbefore⟩,hc⟩
      · rintro ⟨before,c,after,hsplit,hbefore,hc⟩
        cases before with
        | nil =>
          obtain ⟨rfl,-⟩ := List.cons.inj hsplit
          cases ha.symm.trans hc
        | cons d before =>
          obtain ⟨rfl,rfl⟩ := List.cons.inj hsplit
          exact ⟨before,c,after,rfl,fun d hd => hbefore d (List.mem_cons_of_mem _ hd),hc⟩

variable {α : Type} [DecidableEq α] [Letter α]

/-- The line announces a hunk by a run of so many digits, of any scripts, and these are more than
can be read. A carriage return at its end does not count. -/
inductive Overlong (line : Text α) : Nat → Prop
  | intro {blanks digits rest : Text α}
      (shape : dropFinal (ofChar '\r') line = hunkStartMark ++ (blanks ++ (digits ++ rest)))
      (blank : ∀ c ∈ blanks, Text.isBlank c = true)
      (digit : ∀ c ∈ digits, Text.isDecimalDigit c = true)
      (ends : ∀ c ∈ rest.head?, Text.isDecimalDigit c = false)
      (long : Text.digitLimit < digits.length) : Overlong line digits.length

/-- What keeps a line from being read: the number of a hunk, or the path of a header, which is
looked up to see whether it names the target. -/
inductive Stops (names : Naming α) (line : Text α) : Fault → Prop
  | number {n : Nat} (h : Overlong line n) : Stops names line (.overlongNumber n)
  | header {path : Text α} {fault : Fault} (h : classify line = .ok (.fileHeader path))
      (hn : names path = .error fault) : Stops names line fault

section Lines

theorem classify_cases (line : Text α) :
    (∃ after, dropFinal (ofChar '\r') line = fileHeaderMark ++ after ∧
        classify line = .ok (.fileHeader (headerPath after))) ∨
      (∃ after, dropFinal (ofChar '\r') line = hunkStartMark ++ after ∧
        classify line = hunkStartOf after) ∨
      ∃ kind, classify line = .ok kind ∧ kind.headerPath? = none := by
  unfold classify
  dsimp only
  split
  · next after hafter => exact .inl ⟨after,after?_eq_some_iff.mp hafter,rfl⟩
  · next after _ hafter => exact .inr (.inl ⟨after,after?_eq_some_iff.mp hafter,rfl⟩)
  · refine .inr (.inr ?_)
    split
    · exact ⟨_,rfl,rfl⟩
    · split
      · exact ⟨_,rfl,rfl⟩
      · split
        · exact ⟨_,rfl,rfl⟩
        · exact ⟨_,rfl,rfl⟩

omit [DecidableEq α] in
theorem hunkStartOf_cases (after : Text α) :
    ∃ digits, digits = (Text.trimStart after).takeWhile Text.isDecimalDigit ∧
      ((∃ kind, hunkStartOf after = .ok kind ∧ kind.headerPath? = none) ∨
        (Text.digitLimit < digits.length ∧
          hunkStartOf after = .error (.overlongNumber digits.length))) := by
  refine ⟨_,rfl,?_⟩
  unfold hunkStartOf
  dsimp only
  split
  · exact .inl ⟨_,rfl,rfl⟩
  · split
    · next hlong => exact .inr ⟨hlong,rfl⟩
    · exact .inl ⟨_,rfl,rfl⟩

omit [DecidableEq α] in
theorem split_digits (t : Text α) : ∃ blanks rest,
    t = blanks ++ ((Text.trimStart t).takeWhile Text.isDecimalDigit ++ rest) ∧
      (∀ c ∈ blanks, Text.isBlank c = true) ∧ ∀ c ∈ rest.head?, Text.isDecimalDigit c = false := by
  refine ⟨t.takeWhile Text.isBlank,(Text.trimStart t).dropWhile Text.isDecimalDigit,?_,?_,?_⟩
  · rw [List.takeWhile_append_dropWhile,Text.trimStart,List.takeWhile_append_dropWhile]
  · exact fun c hc => List.mem_takeWhile_imp hc
  · intro c hc
    have hstops := List.head?_dropWhile_not Text.isDecimalDigit (Text.trimStart t)
    rw [Option.mem_def.mp hc] at hstops
    exact hstops

/-- A line is refused for its digits, and for nothing else. -/
theorem classify_eq_error_iff {line : Text α} {fault : Fault} :
    classify line = .error fault ↔ ∃ n, Overlong line n ∧ fault = .overlongNumber n := by
  constructor
  · intro h
    rcases classify_cases line with ⟨after,-,hkind⟩ | ⟨after,hshape,hkind⟩ | ⟨kind,hkind,-⟩
    · cases hkind.symm.trans h
    · obtain ⟨digits,hdigits,⟨kind,hok,-⟩ | ⟨hlong,herror⟩⟩ := hunkStartOf_cases after
      · cases (hkind.trans hok).symm.trans h
      · obtain rfl := Except.error.inj ((hkind.trans herror).symm.trans h)
        obtain ⟨blanks,rest,hsplit,hblank,hends⟩ := split_digits after
        rw [← hdigits] at hsplit
        rw [hsplit] at hshape
        have hdigit : ∀ c ∈ digits, Text.isDecimalDigit c = true :=
          fun c hc => List.mem_takeWhile_imp (hdigits ▸ hc)
        exact ⟨_,.intro hshape hblank hdigit hends hlong,rfl⟩
    · cases hkind.symm.trans h
  · rintro ⟨n,hline,rfl⟩
    cases hline with
    | @intro blanks digits rest shape blank digit ends long =>
      have hne : digits ≠ [] := by
        rintro rfl
        simp at long
      simp only [classify,shape,after?_fileHeaderMark,after?_append]
      rw [hunkStartOf_digits blank digit ends hne,if_pos long]

theorem mem_of_mem_headerPath {after : Text α} {c : α} (h : c ∈ headerPath after) : c ∈ after := by
  unfold headerPath at h
  have h := Text.mem_of_mem_dropFinal h
  split at h
  · exact List.mem_of_mem_tail h
  · exact h

theorem mem_of_classify_header {line path : Text α} (h : classify line = .ok (.fileHeader path))
    {c : α} (hc : c ∈ path) : c ∈ line := by
  rcases classify_cases line with ⟨after,hshape,hkind⟩ | ⟨after,-,hkind⟩ | ⟨kind,hkind,hnone⟩
  · obtain rfl : headerPath after = path := by simpa using hkind.symm.trans h
    have hline : c ∈ dropFinal (ofChar '\r') line :=
      hshape ▸ List.mem_append_right _ (mem_of_mem_headerPath hc)
    exact Text.mem_of_mem_dropFinal hline
  · obtain ⟨_,-,⟨kind,hok,hnone⟩ | ⟨-,herror⟩⟩ := hunkStartOf_cases after
    · obtain rfl := Except.ok.inj ((hkind.trans hok).symm.trans h)
      cases hnone
    · cases (hkind.trans herror).symm.trans h
  · obtain rfl := Except.ok.inj (hkind.symm.trans h)
    cases hnone

theorem Stops.readLine {names : Naming α} {line : Text α} {fault : Fault}
    (h : Stops names line fault) : readLine names line = .error fault := by
  cases h with
  | number h =>
    rw [Report.readLine,classify_eq_error_iff.mpr ⟨_,h,rfl⟩]
    rfl
  | header hc hn =>
    rw [readLine_header hc,hn]
    rfl

theorem readLine_eq_error_iff {names : Naming α} {line : Text α} {fault : Fault} :
    readLine names line = .error fault ↔ Stops names line fault := by
  refine ⟨fun h => ?_,Stops.readLine⟩
  cases hc : classify line with
  | error found =>
    have hread : readLine names line = .error found := by rw [readLine,hc]; rfl
    obtain ⟨n,hn,rfl⟩ := classify_eq_error_iff.mp hc
    obtain rfl := Except.error.inj (hread.symm.trans h)
    exact .number hn
  | ok kind =>
    cases kind with
    | fileHeader path =>
      rw [readLine_header hc] at h
      cases hn : names path with
      | ok answer => simp [hn,Except.map] at h
      | error found =>
        rw [hn] at h
        exact Except.error.inj h ▸ .header hc hn
    | _ =>
      rw [readLine_of_classify hc (by simp)] at h
      cases h

theorem exists_stops_iff {names : Naming α} {line : Text α} : (∃ fault, Stops names line fault) ↔
    (∃ n, Overlong line n) ∨
      ∃ path fault, classify line = .ok (.fileHeader path) ∧ names path = .error fault := by
  constructor
  · rintro ⟨fault,⟨hn⟩ | ⟨hc,hn⟩⟩
    · exact .inl ⟨_,hn⟩
    · exact .inr ⟨_,_,hc,hn⟩
  · rintro (⟨n,hn⟩ | ⟨path,fault,hc,hn⟩)
    · exact ⟨_,.number hn⟩
    · exact ⟨_,.header hc hn⟩

end Lines

section Reports

/-- A line of the report cannot be read for this reason, and all in front of it can be. -/
def FirstStop (names : Naming α) (report : Text α) (fault : Fault) : Prop :=
  ∃ before line after, lines report = before ++ line :: after ∧
    (∀ l ∈ before, ∀ other, ¬ Stops names l other) ∧ Stops names line fault

theorem collect_eq_error_iff {names : Naming α} {report : Text α} {fault : Fault} :
    collect names report = .error fault ↔ FirstStop names report fault := by
  have hcollect : collect names report = .error fault ↔
      (lines report).mapM (readLine names) = .error fault := by
    rw [collect_eq]
    cases (lines report).mapM (readLine names) <;> simp [Except.map]
  rw [hcollect,mapM_eq_error_iff]
  simp only [FirstStop,readLine_eq_error_iff,ne_eq]

/-- Of several lines that cannot be read one is the first. -/
theorem exists_firstStop_iff {names : Naming α} {report : Text α} :
    (∃ fault, FirstStop names report fault) ↔
      ∃ line ∈ lines report, ∃ fault, Stops names line fault := by
  constructor
  · rintro ⟨fault,before,line,after,hsplit,-,hline⟩
    exact ⟨line,by rw [hsplit]; simp,fault,hline⟩
  · rintro ⟨line,hl,fault,hline⟩
    classical
    cases hf : (lines report).find? fun l => ∃ other, Stops names l other with
    | none =>
      have hnone : ∀ other, ¬ Stops names line other := by
        simpa using List.find?_eq_none.mp hf line hl
      exact absurd hline (hnone fault)
    | some first =>
      obtain ⟨hfirst,before,after,hsplit,hbefore⟩ := List.find?_eq_some_iff_append.mp hf
      obtain ⟨other,hother⟩ := of_decide_eq_true hfirst
      exact ⟨other,before,first,after,hsplit,fun l hl => by simpa using hbefore l hl,hother⟩

end Reports

section Interpreting

variable {host : Host} (hh : host.NullFree) (resolveLinks : Bool)
  {target report line path : Text α}

theorem interpret_eq_error_iff {fault : Fault} :
    interpret host resolveLinks target report = .error fault ↔
      FirstStop (Path.names host resolveLinks target) report fault := by
  rw [← collect_eq_error_iff,interpret]
  cases collect (Path.names host resolveLinks target) report <;> simp [Except.map]

theorem exists_interpret_eq_error_iff :
    (∃ fault, interpret host resolveLinks target report = .error fault) ↔
      (∃ line ∈ lines report, ∃ n, Overlong line n) ∨
        ∃ line ∈ lines report, ∃ path fault, classify line = .ok (.fileHeader path) ∧
          Path.names host resolveLinks target path = .error fault := by
  simp only [interpret_eq_error_iff,exists_firstStop_iff,exists_stops_iff]
  constructor
  · rintro ⟨line,hl,hline | hline⟩
    · exact .inl ⟨line,hl,hline⟩
    · exact .inr ⟨line,hl,hline⟩
  · rintro (⟨line,hl,hline⟩ | ⟨line,hl,hline⟩)
    · exact ⟨line,hl,.inl hline⟩
    · exact ⟨line,hl,.inr hline⟩

theorem mem_of_header (hl : line ∈ lines report) (hc : classify line = .ok (.fileHeader path))
    {c : α} (hm : c ∈ path) : c ∈ report :=
  Text.mem_of_mem_fields hl (mem_of_classify_header hc hm)

include hh

theorem names_of_header (ht : ofChar null ∉ target) (hr : ofChar null ∉ report)
    (hl : line ∈ lines report) (hc : classify line = .ok (.fileHeader path)) {fault : Fault}
    (h : Path.names host resolveLinks target path = .error fault) :
    (∃ run, fault = .path (.unwritable run)) ∧ Path.Incomparable resolveLinks target path :=
  Path.names_eq_error hh ht (fun hm => hr (mem_of_header hl hc hm)) h

theorem interpret_cases (ht : ofChar null ∉ target) (hr : ofChar null ∉ report) :
    (∃ es, interpret host resolveLinks target report = .ok es) ∨
      (∃ n, interpret host resolveLinks target report = .error (.overlongNumber n)) ∨
      ∃ run, interpret host resolveLinks target report = .error (.path (.unwritable run)) := by
  cases hcases : interpret host resolveLinks target report with
  | ok es => exact .inl ⟨es,rfl⟩
  | error fault =>
    obtain ⟨before,line,after,hsplit,-,hline⟩ := (interpret_eq_error_iff resolveLinks).mp hcases
    have hl : line ∈ lines report := by
      rw [hsplit]
      simp
    cases hline with
    | number => exact .inr (.inl ⟨_,rfl⟩)
    | header hc hn =>
      obtain ⟨⟨run,rfl⟩,-⟩ := names_of_header hh resolveLinks ht hr hl hc hn
      exact .inr (.inr ⟨run,rfl⟩)

theorem exists_interpret_eq_error_iff_overlong (ht : ofChar null ∉ target)
    (hr : ofChar null ∉ report) (htarget : Writable target) (hreport : Writable report) :
    (∃ fault, interpret host resolveLinks target report = .error fault) ↔
      ∃ line ∈ lines report, ∃ n, Overlong line n := by
  rw [exists_interpret_eq_error_iff]
  refine ⟨fun h => h.resolve_right ?_,.inl⟩
  rintro ⟨line,hl,path,fault,hc,hn⟩
  have hpath : Writable path := fun c hm => hreport c (mem_of_header hl hc hm)
  exact Path.not_incomparable_of_writable htarget hpath
    (names_of_header hh resolveLinks ht hr hl hc hn).2

/-- Interpreting a report gives edits or is refused, and it is refused exactly if some line of what
is read announces a hunk by too many digits, be it in front of any header, in the block of another
file, or anywhere else; or if the path of some header has to be looked up and cannot be. The first
such line is the one that is complained about. Only letters that no name is written with keep a path
from being looked up, in the header or in the target, and where there are no links they always do.
So a report and a target without such letters are refused for their numbers alone. -/
theorem interpret_refused_iff {target report : Text CodePoint} (sanitize : Bool)
    (ht : ofChar null ∉ target) (hr : ofChar null ∉ report) :
    let names := Path.names host resolveLinks target
    let text := if sanitize then Escape.strip report else report
    let result := if sanitize then interpretColoured host resolveLinks target report
      else interpret host resolveLinks target report
    ((∃ es, result = .ok es) ∨ (∃ n, result = .error (.overlongNumber n)) ∨
        ∃ run, result = .error (.path (.unwritable run))) ∧
      ((∃ fault, result = .error fault) ↔
        (∃ line ∈ lines text, ∃ n, Overlong line n) ∨
          ∃ line ∈ lines text, ∃ path fault, classify line = .ok (.fileHeader path) ∧
            names path = .error fault) ∧
      (∀ fault, result = .error fault ↔ FirstStop names text fault) ∧
      (∀ line ∈ lines text, ∀ path, classify line = .ok (.fileHeader path) →
        ((∃ fault, names path = .error fault) → Path.Incomparable resolveLinks target path) ∧
        (host.files.LinkFree → Path.Incomparable resolveLinks target path →
          ∃ fault, names path = .error fault)) ∧
      (Writable target → Writable text →
        ((∃ fault, result = .error fault) ↔ ∃ line ∈ lines text, ∃ n, Overlong line n)) := by
  intro names text result
  have htext : ofChar null ∉ text := by
    cases sanitize with
    | false => exact hr
    | true => exact fun hmem => hr ((Escape.strip_sublist report).mem hmem)
  have hresult : result = interpret host resolveLinks target text := by
    cases sanitize <;> rfl
  rw [hresult]
  refine ⟨interpret_cases hh resolveLinks ht htext,exists_interpret_eq_error_iff resolveLinks,
    fun fault => interpret_eq_error_iff resolveLinks,?_,
    exists_interpret_eq_error_iff_overlong hh resolveLinks ht htext⟩
  intro line hl path hc
  refine ⟨?_,fun hfiles => Path.names_of_incomparable hfiles hh ht ?_⟩
  · rintro ⟨fault,hn⟩
    exact (names_of_header hh resolveLinks ht htext hl hc hn).2
  · exact fun hm => htext (mem_of_header hl hc hm)

end Interpreting

/-- A number of so many digits of another script, in the block of another file, and behind it a
header that cannot be looked up. -/
theorem interpret_refused_iff_of_foreignBlock :
    let target : Text CodePoint := Text.lift "a.rs".toList
    let digits : Text CodePoint := List.replicate 4301 (ofChar '٣')
    let line := hunkStartMark ++ ([ofChar '\t'] ++ (digits ++ [ofChar ';']))
    let lone : CodePoint := .surrogate ⟨0xD800,by decide⟩
    let unlookable := Text.lift "Diff of ".toList ++ [lone]
    let report :=
      Text.lift "Diff of b.rs:".toList ++ ofChar '\n' :: (line ++ ofChar '\n' :: unlookable)
    (({} : Host).NullFree ∧ ofChar null ∉ target ∧ ofChar null ∉ report) ∧
      interpret {} true target report = .error (.overlongNumber 4301) := by
  intro target digits line lone unlookable report
  have hlength : digits.length = 4301 := List.length_replicate
  have hthree : ∀ c ∈ digits, c = ofChar '٣' := fun _ hc => List.eq_of_mem_replicate hc
  -- from here on only these facts about the digits are used, never the digits themselves
  clear_value digits
  have hother {c : CodePoint} (hc : c ≠ ofChar '٣') : c ∉ digits := fun h => hc (hthree c h)
  have hline {c : CodePoint} (hc : c ≠ ofChar '٣')
      (hmark : c ∉ hunkStartMark ++ [ofChar '\t',ofChar ';']) : c ∉ line := by
    simpa [line,hother hc] using hmark
  have hlong : Overlong line 4301 := by
    have hreturn : ofChar '\r' ∉ line := hline (by decide) (by decide)
    have hdigit : ∀ c ∈ digits, Text.isDecimalDigit c = true := by
      intro c hc
      rw [hthree c hc]
      decide
    have hlimit : Text.digitLimit < digits.length := by
      rw [hlength]
      decide
    exact hlength ▸ .intro (Text.dropFinal_of_not_mem hreturn) (by simp; decide) hdigit
      (by simp; decide) hlimit
  have hfirst : FirstStop (Path.names {} true target) report (.overlongNumber 4301) := by
    refine ⟨[Text.lift "Diff of b.rs:".toList],line,[unlookable],?_,?_,.number hlong⟩
    · rw [lines,Text.fields_append (by decide),
        Text.fields_append (hline (by decide) (by decide)),Text.fields_of_not_mem (by decide)]
      rfl
    · intro l hl fault hstop
      rw [List.mem_singleton.mp hl] at hstop
      have hread := readLine_eq_error_iff.mpr hstop
      cases hread
  have hnull : ofChar null ∉ report := by
    have hnullLine : ofChar null ∉ line := hline (by decide) (by decide)
    simp [report,hnullLine]
    decide
  have htarget : ofChar null ∉ target := by decide
  have hrefused := (interpret_refused_iff Host.nullFree_empty true false htarget hnull).2.2.1
  exact ⟨⟨Host.nullFree_empty,htarget,hnull⟩,(hrefused _).mpr hfirst⟩

/-- A report may be refused though none of its lines announces a hunk by too many digits: a header
whose path is a surrogate that stands for no byte is enough. -/
theorem not_interpret_refused_iff_overlong :
    ¬ ∀ (host : Host) (target report : Text CodePoint), host.NullFree → ofChar null ∉ target →
      ofChar null ∉ report →
      ((∃ fault, interpret host true target report = .error fault) ↔
        ∃ line ∈ lines report, ∃ n, Overlong line n) := by
  intro hall
  let target : Text CodePoint := Text.lift "a.rs".toList
  let lone : CodePoint := .surrogate ⟨0xD800,by decide⟩
  let report := Text.lift "Diff of ".toList ++ [lone,ofChar ':']
  have hrefused : interpret {} true target report =
      .error (.path (.unwritable ⟨0,1,⟨0xD800,by decide⟩⟩)) := by decide +kernel
  have hreport : lines report = [report] := Text.fields_of_not_mem (by decide)
  have hheader : classify report = .ok (.fileHeader [lone]) := by rfl
  obtain ⟨line,hl,n,hline⟩ :=
    (hall {} target report Host.nullFree_empty (by decide) (by decide)).mp ⟨_,hrefused⟩
  rw [hreport] at hl
  rw [List.mem_singleton.mp hl] at hline
  cases hheader.symm.trans (classify_eq_error_iff.mpr ⟨n,hline,rfl⟩)

end FormatEdits.Report
