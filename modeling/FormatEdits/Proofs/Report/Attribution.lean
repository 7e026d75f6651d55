import FormatEdits.Proofs.Path.NullFree
import FormatEdits.Proofs.Report.Written

namespace FormatEdits

namespace Path

variable {host : Host} {resolveLinks : Bool} {a b path target form : Text}

/-- The path names the file that has the form; an empty path names none. -/
structure StandsFor (host : Host) (resolveLinks : Bool) (path form : Text) : Prop where
  ne_nil : path ≠ []
  normalForm_eq : normalForm host resolveLinks path = .ok form

theorem standsFor_of_nullFree (hh : host.NullFree) (resolveLinks : Bool) (hne : path ≠ [])
    (hnull : null ∉ path) : ∃ form, StandsFor host resolveLinks path form := by
  obtain ⟨form,hform⟩ := normalForm_of_nullFree hh resolveLinks hnull
  exact ⟨form,hne,hform⟩

theorem StandsFor.same (ha : StandsFor host resolveLinks a form)
    (hb : StandsFor host resolveLinks b form) : Path.same host resolveLinks a b = .ok true := by
  rw [Path.same,if_neg (by simp [ha.ne_nil,hb.ne_nil]),ha.normalForm_eq,hb.normalForm_eq]
  exact congrArg Except.ok (decide_eq_true rfl)

theorem StandsFor.names (ha : StandsFor host resolveLinks a form)
    (hb : StandsFor host resolveLinks b form) : names host resolveLinks a b = .ok true := by
  unfold Path.names
  split
  · rfl
  · rw [hb.same ha]
    rfl

/-- Which header names a target is decided by the target's form, whether the texts are equal or
not. -/
theorem names_target_congr (ha : StandsFor host resolveLinks a form)
    (hb : StandsFor host resolveLinks b form) :
    names host resolveLinks a = names host resolveLinks b := by
  funext header
  by_cases hheader : header = a ∨ header = b
  · have hform : StandsFor host resolveLinks header form := by
      rcases hheader with rfl | rfl
      · exact ha
      · exact hb
    rw [ha.names hform,hb.names hform]
  · obtain ⟨hna,hnb⟩ := not_or.mp hheader
    have hsame : same host resolveLinks header a = same host resolveLinks header b := by
      unfold same
      simp only [ha.ne_nil,hb.ne_nil,ha.normalForm_eq,hb.normalForm_eq]
    rw [names,names,if_neg hna,if_neg hnb,hsame]

theorem names_header_congr (ha : StandsFor host resolveLinks a form)
    (hb : StandsFor host resolveLinks b form) (target : Text) :
    names host resolveLinks target a = names host resolveLinks target b := by
  by_cases htarget : a = target ∨ b = target
  · have hform : StandsFor host resolveLinks target form := by
      rcases htarget with rfl | rfl
      · exact ha
      · exact hb
    rw [hform.names ha,hform.names hb]
  · obtain ⟨hna,hnb⟩ := not_or.mp htarget
    have hsame : same host resolveLinks a target = same host resolveLinks b target := by
      unfold same
      simp only [ha.ne_nil,hb.ne_nil,ha.normalForm_eq,hb.normalForm_eq]
    rw [names,names,if_neg hna,if_neg hnb,hsame]

end Path

namespace Report

open FormatEdits.Path (StandsFor)

namespace State

/-- The state without the path of its last header, which no line looks at. -/
def anonymous (s : State) : State := { s with currentFile := none }

variable {names : Naming} {s t : State}

theorem advance_congr (h : s.anonymous = t.anonymous) (kind : LineKind) :
    (s.advance names kind).map anonymous = (t.advance names kind).map anonymous := by
  have hleftOut (u : State) :
      (u.advance names kind).map anonymous = (u.anonymous.advance names kind).map anonymous := by
    cases kind with
    | fileHeader path => cases hn : names path <;> simp [advance,hn,Except.map,anonymous,hunks]
    | hunkStart n =>
      by_cases hu : u.inTarget = true <;> simp [advance,hu,Except.map,anonymous,hunks]
    | other => rfl
    | _ => by_cases hu : u.inTarget = true <;> simp [advance,inHunk,hu,Except.map,anonymous]
  rw [hleftOut s,hleftOut t,h]

theorem advance_fileHeader_congr {a b : Text} (h : names a = names b) (s : State) :
    (s.advance names (.fileHeader a)).map anonymous =
      (s.advance names (.fileHeader b)).map anonymous := by
  cases hb : names b <;> simp [advance,h,hb,Except.map,anonymous]

end State

open State (anonymous)

variable {host : Host} {resolveLinks : Bool} {line other report : Text}

/-- A line that stays, or a header whose path gives way to another one with the same form. -/
inductive Readdressed (host : Host) (resolveLinks : Bool) : Text → Text → Prop
  | kept (line : Text) : Readdressed host resolveLinks line line
  | header {line other a b form : Text} (h : classify line = .ok (.fileHeader a))
      (hother : classify other = .ok (.fileHeader b)) (ha : StandsFor host resolveLinks a form)
      (hb : StandsFor host resolveLinks b form) : Readdressed host resolveLinks line other

theorem readdressed_headerLine {a b form : Text} (h : classify line = .ok (.fileHeader a))
    (hother : Written (headerLine b) other) (ha : StandsFor host resolveLinks a form)
    (hb : StandsFor host resolveLinks b form) : Readdressed host resolveLinks line other :=
  .header h (classify_headerLine hother) ha hb

theorem step_readdressed (h : Readdressed host resolveLinks line other) (target : Text)
    {s t : State} (hs : s.anonymous = t.anonymous) :
    (step (Path.names host resolveLinks target) s line).map anonymous =
      (step (Path.names host resolveLinks target) t other).map anonymous := by
  cases h with
  | kept =>
    rw [step,step]
    cases classify line with
    | error fault => rfl
    | ok kind => exact State.advance_congr hs kind
  | header h hother ha hb =>
    rw [step,step,h,hother]
    have hnames := Path.names_header_congr ha hb target
    exact (State.advance_congr hs _).trans (State.advance_fileHeader_congr hnames t)

theorem bind_map_congr {α β ε : Type} {x y : Except ε α} {f g : α → Except ε α} {p : α → β}
    (h : x.map p = y.map p) (hfg : ∀ s t, p s = p t → (f s).map p = (g t).map p) :
    (x >>= f).map p = (y >>= g).map p := by
  cases x with
  | error fault =>
    cases y with
    | error other => exact h
    | ok t => cases h
  | ok s =>
    cases y with
    | error other => cases h
    | ok t => exact hfg s t (Except.ok.inj h)

theorem foldlM_readdressed {ls ms : List Text}
    (h : List.Forall₂ (Readdressed host resolveLinks) ls ms) (target : Text) {s t : State}
    (hs : s.anonymous = t.anonymous) :
    (ls.foldlM (step (Path.names host resolveLinks target)) s).map anonymous =
      (ms.foldlM (step (Path.names host resolveLinks target)) t).map anonymous := by
  induction h generalizing s t with
  | nil => exact congrArg Except.ok hs
  | cons hline _ ih =>
    rw [List.foldlM_cons,List.foldlM_cons]
    exact bind_map_congr (step_readdressed hline target hs) fun _ _ hst => ih hst

/-- The hunks that are gathered do not show which paths the headers had. -/
theorem collect_readdressed
    (h : List.Forall₂ (Readdressed host resolveLinks) (lines report) (lines other))
    (target : Text) : collect (Path.names host resolveLinks target) report =
      collect (Path.names host resolveLinks target) other := by
  have hfold := foldlM_readdressed h target (s := {}) rfl
  have hhunks (outcome : Except Fault State) :
      outcome.map State.hunks = (outcome.map anonymous).map State.hunks := by
    cases outcome <;> rfl
  rw [collect,collect,hhunks,hfold,← hhunks]

/-- The forms of paths alone decide which edits a target gets. Each path that is not empty and has
no null character stands for some form; targets with one form get the same of every report; and a
report says the same to every target when headers, as many as one likes, get other paths with the
same form. -/
theorem interpret_decided_by_form (host : Host) (resolveLinks : Bool) :
    (host.NullFree → ∀ path, path ≠ [] → Path.null ∉ path →
        ∃ form, StandsFor host resolveLinks path form) ∧
      (∀ a b form, StandsFor host resolveLinks a form → StandsFor host resolveLinks b form →
        ∀ report, interpret host resolveLinks a report = interpret host resolveLinks b report) ∧
      ∀ report other,
        List.Forall₂ (Readdressed host resolveLinks) (lines report) (lines other) →
        ∀ target, interpret host resolveLinks target report =
          interpret host resolveLinks target other := by
  refine ⟨?_,?_,?_⟩
  · intro hh path hne hnull
    exact Path.standsFor_of_nullFree hh resolveLinks hne hnull
  · intro a b form ha hb report
    rw [interpret,interpret,Path.names_target_congr ha hb]
  · intro report other h target
    rw [interpret,interpret,collect_readdressed h target]

/-- A link and the file that it leads to, as targets and in headers, one of which stands alone with
a carriage return behind it. -/
theorem interpret_decided_by_form_of_link :
    let host : Host :=
      { files := ⟨[(["w".toList],.directory),(["w".toList,"a.rs".toList],.file [] false),
          (["w".toList,"l.rs".toList],.link "./a.rs".toList)]⟩
        directory := ["w".toList] }
    let form := "/w/a.rs".toList
    let report := "Diff of l.rs:\nDiff at line 2\n+x⏎".toList
    let other := "Diff of  ../w//a.rs :\r\nDiff at line 2\n+x⏎".toList
    (StandsFor host true "l.rs".toList form ∧ StandsFor host true form form ∧
        StandsFor host true " ../w//a.rs ".toList form ∧
        List.Forall₂ (Readdressed host true) (lines report) (lines other)) ∧
      interpret host true "l.rs".toList report = interpret host true form report ∧
      interpret host true form report = interpret host true form other ∧
      interpret host true form other = .ok [⟨1,1,0,some 0,"x".toList⟩] := by
  intro host form report other
  have hlink : StandsFor host true "l.rs".toList form := ⟨by decide,by decide +kernel⟩
  have hform : StandsFor host true form form := ⟨by decide,by decide +kernel⟩
  have hblanks : StandsFor host true " ../w//a.rs ".toList form := ⟨by decide,by decide +kernel⟩
  have hheader : classify "Diff of l.rs:".toList = .ok (.fileHeader "l.rs".toList) := by
    decide +kernel
  have hlines : List.Forall₂ (Readdressed host true) (lines report) (lines other) := by
    have hreport : lines report =
        ["Diff of l.rs:".toList,"Diff at line 2".toList,"+x⏎".toList] := by decide
    have hother : lines other =
        ["Diff of  ../w//a.rs :\r".toList,"Diff at line 2".toList,"+x⏎".toList] := by decide
    rw [hreport,hother]
    refine .cons ?_ (.cons (.kept _) (.cons (.kept _) .nil))
    exact readdressed_headerLine hheader (.inr rfl) hlink hblanks
  obtain ⟨-,htargets,hheaders⟩ := interpret_decided_by_form host true
  exact ⟨⟨hlink,hform,hblanks,hlines⟩,htargets _ _ _ hlink hform report,
    hheaders _ _ hlines form,by decide +kernel⟩

end Report
end FormatEdits
