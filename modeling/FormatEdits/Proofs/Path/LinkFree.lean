import FormatEdits.Proofs.Path.NullFree

namespace FormatEdits

open FormatEdits.Path (null)

/-- No place holds a link. -/
def FileTree.LinkFree (files : FileTree) : Prop :=
  ∀ place target, files.linkTarget? place ≠ some target

theorem FileTree.linkFree_of_forall {files : FileTree}
    (h : ∀ e ∈ files.entries, ∀ target, e.2 ≠ .link target) : files.LinkFree := by
  intro place target hlink
  obtain ⟨e,he,htarget⟩ := exists_of_linkTarget? hlink
  exact h e he target htarget

namespace Path

open Text (joined)
open Walked (follow)

variable {α : Type} [DecidableEq α] [Letter α] {host : Host} {path : Text α}

section Walks

variable {enter : Walked α → Text α → Met α → Except (Halt α) (Walked α × Met α)}
  {names : List (Text α)}

omit [DecidableEq α] in
theorem linkTarget?_of_linkFree (hfiles : host.files.LinkFree) (w : Walked α) :
    w.linkTarget? host = none := by
  cases h : w.linkTarget? host with
  | none => rfl
  | some target =>
    obtain ⟨found,hfound,-⟩ := Option.map_eq_some_iff.mp h
    obtain ⟨place,-,hlink⟩ := Option.bind_eq_some_iff.mp hfound
    exact absurd hlink (hfiles place found)

theorem walk_of_linkFree (hfiles : host.files.LinkFree)
    (hn : ∀ name ∈ names, ∀ position, nameFault? position name = none) (w : Walked α)
    (met : Met α) : walk host enter w met names = .ok (names.foldl follow w,met) := by
  induction names generalizing w with
  | nil => rfl
  | cons name names ih =>
    obtain ⟨hname,hnames⟩ := List.forall_mem_cons.mp hn
    rw [List.foldl_cons,follow]
    unfold walk
    split
    · exact ih hnames w
    · split
      · exact ih hnames w.parent
      · simp only [hname,linkTarget?_of_linkFree hfiles]
        exact ih hnames (w.child name)

theorem walk_of_not_writable
    (enter : Walked α → Text α → Met α → Except (Halt α) (Walked α × Met α))
    (hfiles : host.files.LinkFree) (hnull : ∀ name ∈ names, ofChar null ∉ name) (h : ∃ name ∈ names, ¬ Writable name)
    (w : Walked α) (met : Met α) :
    ∃ run, walk host enter w met names = .error (.refused (.unwritable run)) := by
  induction names generalizing w with
  | nil => simp at h
  | cons name names ih =>
    obtain ⟨hname,hnames⟩ := List.forall_mem_cons.mp hnull
    by_cases hwritten : Writable name
    · have hrest : ∃ name ∈ names, ¬ Writable name := by simpa [hwritten] using h
      have hnone (position : Nat) : nameFault? position name = none :=
        nameFault?_eq_none_iff.mpr ⟨hwritten,hname⟩
      unfold walk
      split
      · exact ih hnames hrest w
      · split
        · exact ih hnames hrest w.parent
        · simp only [hnone,linkTarget?_of_linkFree hfiles]
          exact ih hnames hrest (w.child name)
    · -- such a name is looked up, as it is neither empty nor made of dots
      have hskip : ¬ (name = [] ∨ name = here) := by
        rintro (rfl | rfl) <;> simp [here] at hwritten
      have hup : name ≠ up := by
        rintro rfl
        simp [up] at hwritten
      obtain ⟨run,hrun⟩ :=
        exists_nameFault? hname hwritten ((w.child name).text.length - name.length)
      refine ⟨run,?_⟩
      unfold walk
      rw [if_neg hskip,if_neg hup]
      simp only [hrun]

theorem resolved_of_linkFree (hfiles : host.files.LinkFree) (hwritten : Writable path)
    (hnull : ofChar null ∉ path) : resolved host path =
      .ok (absolute host.directory ((path.fields slash).foldl follow (start path {})).text) := by
  rw [resolved,walk_of_linkFree hfiles fun name hname => nameFault?_fields hwritten hnull hname]

theorem resolved_of_not_writable (hfiles : host.files.LinkFree) (h : ¬ Writable path)
    (hnull : ofChar null ∉ path) : ∃ run, resolved host path = .error (.unwritable run) := by
  have hname : ∃ name ∈ path.fields slash, ¬ Writable name := by
    simpa using mt writable_iff_fields.mpr h
  obtain ⟨run,hrun⟩ := walk_of_not_writable (walkLinks host (linkDepth host)) hfiles
    (null_not_mem_fields hnull) hname (start path {}) []
  exact ⟨run,by rw [resolved,hrun]⟩

end Walks

section Lookups

theorem normalForm_of_unlookable (hfiles : host.files.LinkFree) (hh : host.NullFree)
    (hnull : ofChar null ∉ path) {resolveLinks : Bool} (h : Unlookable resolveLinks path) :
    ∃ fault, normalForm host resolveLinks path = .error fault := by
  by_cases huser : NamesUnwritableUser path.trim
  · obtain ⟨run,hrun⟩ := normalForm_of_namesUnwritableUser host huser hnull
    exact ⟨_,hrun resolveLinks⟩
  · obtain ⟨rfl,hnot⟩ := h.resolve_left huser
    have htrim : ofChar null ∉ path.trim := fun hm => hnull (mem_of_mem_trim hm)
    obtain ⟨expanded,he,hexpanded,hwritten⟩ := expandHome_eq_ok hh huser htrim
    rcases normalForm_of_expandHome he true with ⟨hblank,-,-⟩ | ⟨-,hform⟩
    · simp [hblank] at hnot
    · obtain ⟨run,hrun⟩ := resolved_of_not_writable hfiles (mt hwritten.mp hnot) hexpanded
      exact ⟨_,hform.trans hrun⟩

/-- Without links nothing ends a walk before the names that cannot be looked up. -/
theorem names_of_incomparable {target header : Text α} (hfiles : host.files.LinkFree)
    (hh : host.NullFree) (ht : ofChar null ∉ target) (hp : ofChar null ∉ header)
    {resolveLinks : Bool} (h : Incomparable resolveLinks target header) :
    ∃ fault, names host resolveLinks target header = .error fault := by
  obtain ⟨hne,hheader,htarget,hunlookable⟩ := h
  rw [names,if_neg hne,same,if_neg (by simp [hheader,htarget])]
  cases hform : normalForm host resolveLinks header with
  | error fault => exact ⟨.path fault,rfl⟩
  | ok form =>
    rcases hunlookable with hunlookable | hunlookable
    · obtain ⟨fault,hfault⟩ := normalForm_of_unlookable hfiles hh hp hunlookable
      cases hform.symm.trans hfault
    · obtain ⟨fault,hfault⟩ := normalForm_of_unlookable hfiles hh ht hunlookable
      exact ⟨.path fault,by rw [hfault]; rfl⟩

end Lookups

omit [DecidableEq α] in
theorem text_of_not_rooted {w : Walked α} (h : w.rooted = false) :
    w.text = joined slash w.steps := by
  simp [Walked.text,Walked.steps,h]

omit [DecidableEq α] in
theorem mem_steps {w : Walked α} (h : w.Settled) {name : Text α} (hname : name ∈ w.steps) :
    name ≠ [] ∧ slash ∉ name := by
  rcases List.mem_append.mp hname with hup | hdown
  · rw [List.eq_of_mem_replicate hup]
    simp [up,slash]
  · exact ⟨(h.names name hdown).ne_nil,(h.names name hdown).no_slash⟩

/-- A relative path and what is left of it when it has been walked have one absolute form. -/
theorem absolute_walked_of_relative (directory : Place) (h : isAbsolute path = false) :
    absolute directory ((path.fields slash).foldl follow {}).text = absolute directory path := by
  have hnames := slash_not_mem_fields path
  obtain ⟨hsettled,hrooted⟩ := Walked.settled_foldl Walked.settled_empty hnames
  have hsteps := Walked.foldl_steps hnames
  generalize (path.fields slash).foldl follow {} = w at hsettled hrooted hsteps
  have htext : isAbsolute w.text = false := by
    rw [text_of_not_rooted hrooted]
    exact decide_eq_false (head?_joined fun name hname => mem_steps hsettled hname)
  have hbase : (ofPlace directory : Text α) ≠ [] := by simp [ofPlace]
  have hwalk : namesFromRoot (join (ofPlace directory) w.text) =
      namesFromRoot (join (ofPlace directory) path) := by
    rw [namesFromRoot,namesFromRoot,foldl_fields_join hbase htext,foldl_fields_join hbase h,
      text_of_not_rooted hrooted,foldl_fields_joined fun name hname => (mem_steps hsettled hname).2,
      hsteps]
  have hroot : isAbsolute (ofPlace directory : Text α) = true := isAbsolute_ofPlace directory
  rw [absolute_eq,absolute_eq,normal_eq (isAbsolute_join hroot _),
    normal_eq (isAbsolute_join hroot _),rootOf_join hroot htext,rootOf_join hroot h,hwalk]

theorem absolute_walked_of_rooted (directory : Place) (path : Text α) :
    absolute directory ((path.fields slash).foldl follow .root).text =
      slash :: joined slash (namesFromRoot path) := by
  obtain ⟨hsettled,hrooted⟩ :=
    Walked.settled_foldl Walked.settled_root (slash_not_mem_fields path)
  have htext : ((path.fields slash).foldl follow .root).text =
      [slash] ++ joined slash (namesFromRoot path) := by
    rw [Walked.text,hsettled.ups hrooted,hrooted]
    rfl
  have habsolute := IsRoot.isAbsolute_append (.inl rfl) (joined slash (namesFromRoot path))
  rw [htext,absolute,if_pos habsolute]
  exact normal_of_proper (.inl rfl) (proper_of_mem_namesFromRoot path)

/-- The path begins with two slashes and no third one. -/
def BeginsWithTwoSlashes (path : Text α) : Prop :=
  ∃ r : Text α, path = slash :: slash :: r ∧ r.head? ≠ some slash

theorem rootOf_of_absolute (h : isAbsolute path = true) :
    (BeginsWithTwoSlashes path ∧ rootOf path = [slash,slash]) ∨
      (¬ BeginsWithTwoSlashes path ∧ rootOf path = [slash]) := by
  obtain ⟨r,rfl⟩ := List.head?_eq_some_iff.mp (of_decide_eq_true h)
  rw [rootOf,if_neg (by simp)]
  split
  · next htwo =>
    obtain ⟨s,rfl⟩ := List.head?_eq_some_iff.mp (List.head?_eq_getElem? ▸ htwo.1)
    exact .inl ⟨⟨s,rfl,by simpa [List.head?_eq_getElem?] using htwo.2⟩,rfl⟩
  · next hother =>
    refine .inr ⟨?_,rfl⟩
    rintro ⟨s,hs,hthird⟩
    obtain rfl := (List.cons.inj hs).2
    exact hother ⟨rfl,by simpa [List.head?_eq_getElem?] using hthird⟩

theorem absolute_walked_eq_iff (directory : Place) (path : Text α) :
    absolute directory ((path.fields slash).foldl follow (start path {})).text =
        absolute directory path ↔ ¬ BeginsWithTwoSlashes path := by
  by_cases h : isAbsolute path = true
  · rw [start,if_pos h,absolute_walked_of_rooted,absolute,if_pos h,normal_eq h]
    rcases rootOf_of_absolute h with ⟨htwo,hroot⟩ | ⟨hone,hroot⟩
    · simp [hroot,htwo]
    · simp [hroot,hone]
  · have hrelative : isAbsolute path = false := Bool.eq_false_iff.mpr h
    have hone : ¬ BeginsWithTwoSlashes path := by
      rintro ⟨r,rfl,-⟩
      exact h (isAbsolute_slash _)
    rw [start,if_neg h]
    simp [absolute_walked_of_relative directory hrelative,hone]

/-- Where there are no links, a path has the form that is taken from its text, and the form in which
links are replaced is the same; but not for a path that begins, blanks removed and home put in, with
two slashes and no third one, and not for one with letters that no file's name is written with: its
names are looked up to replace links, and that fails. A user's name is looked up for either form,
and fails for both alike. -/
theorem normalForm_resolved_eq_iff {path : Text CodePoint} (hfiles : host.files.LinkFree)
    (hh : host.NullFree) (hnull : ofChar null ∉ path) :
    (NamesUnwritableUser path.trim →
        ∃ run, ∀ resolveLinks, normalForm host resolveLinks path = .error (.unwritable run)) ∧
      (¬ NamesUnwritableUser path.trim → ∃ expanded textForm,
        expandHome host path.trim = .ok expanded ∧ normalForm host false path = .ok textForm ∧
        (Writable expanded → ∃ resolvedForm, normalForm host true path = .ok resolvedForm ∧
          (resolvedForm = textForm ↔ ¬ BeginsWithTwoSlashes expanded)) ∧
        (¬ Writable expanded → ∃ run, normalForm host true path = .error (.unwritable run))) := by
  refine ⟨fun huser => normalForm_of_namesUnwritableUser host huser hnull,fun huser => ?_⟩
  have htrim : ofChar null ∉ path.trim := fun hm => hnull (mem_of_mem_trim hm)
  obtain ⟨expanded,he,hexpanded,-⟩ := expandHome_eq_ok hh huser htrim
  have hform := normalForm_of_expandHome he
  by_cases hblank : path.trim = []
  · obtain ⟨-,rfl,-⟩ := (hform true).resolve_right fun h => h.1 hblank
    have hempty (resolveLinks : Bool) : normalForm host resolveLinks path = .ok [] :=
      ((hform resolveLinks).resolve_right fun h => h.1 hblank).2.2
    exact ⟨[],[],he,hempty false,fun _ => ⟨[],hempty true,by simp [BeginsWithTwoSlashes]⟩,
      fun hnot => absurd writable_nil hnot⟩
  · have hform (resolveLinks : Bool) := ((hform resolveLinks).resolve_left fun h => hblank h.1).2
    refine ⟨expanded,absolute host.directory expanded,he,hform false,?_,?_⟩
    · intro hwritten
      have hresolved := resolved_of_linkFree hfiles hwritten hexpanded
      exact ⟨_,(hform true).trans hresolved,absolute_walked_eq_iff host.directory expanded⟩
    · intro hnot
      obtain ⟨run,hrun⟩ := resolved_of_not_writable hfiles hnot hexpanded
      exact ⟨run,(hform true).trans hrun⟩

/-- A path below the user's home, with empty names and dots, names that are taken back up to the
root and beyond it, names of files that do not exist, and a byte that is part of no text. -/
theorem normalForm_resolved_eq_iff_of_missing :
    let host : Host :=
      { files := ⟨[(["w".toList],.directory),(["w".toList,"a".toList],.file [] false)]⟩
        directory := ["w".toList], environment := [("HOME".toList,"/w//".toList)] }
    let byte : CodePoint := .surrogate ⟨0xDCE9,by decide⟩
    let path := Text.lift " ~//a/./b/../../../..//c".toList ++ byte :: Text.lift "/ ".toList
    let expanded := Text.lift "/w//a/./b/../../../..//c".toList ++ byte :: Text.lift "/".toList
    (host.files.LinkFree ∧ host.NullFree ∧ ofChar null ∉ path ∧ ¬ NamesUnwritableUser path.trim ∧
        expandHome host path.trim = .ok expanded ∧ Writable expanded ∧
        ¬ BeginsWithTwoSlashes expanded) ∧
      ∃ form, normalForm host true path = .ok form ∧ normalForm host false path = .ok form := by
  intro host byte path expanded
  have hfiles : host.files.LinkFree := FileTree.linkFree_of_forall (by simp [host])
  have hhost : host.NullFree := by
    refine Host.nullFree_of_forall (by simp [host]) ?_ (by simp [host])
    intro v hv
    rw [List.mem_singleton.mp hv]
    decide
  have hnull : ofChar null ∉ path := by decide
  have huser : ¬ NamesUnwritableUser path.trim := by decide
  have he : expandHome host path.trim = .ok expanded := by decide +kernel
  have hwritten : Writable expanded := by decide
  have hone : ¬ BeginsWithTwoSlashes expanded := by
    rintro ⟨r,hr,-⟩
    exact absurd (List.cons.inj (List.cons.inj hr).2).1 (by decide)
  obtain ⟨-,hforms⟩ := normalForm_resolved_eq_iff hfiles hhost hnull
  obtain ⟨_,textForm,hexpand,htext,hagree,-⟩ := hforms huser
  obtain rfl : expanded = _ := Except.ok.inj (he.symm.trans hexpand)
  obtain ⟨resolvedForm,hresolved,hiff⟩ := hagree hwritten
  obtain rfl := hiff.mpr hone
  exact ⟨⟨hfiles,hhost,hnull,huser,he,hwritten,hone⟩,resolvedForm,hresolved,htext⟩

/-- Without links, and without two slashes in front, the forms of a path may still differ: a
surrogate that stands for no byte is the name of no file. -/
theorem not_normalForm_resolved_eq :
    ¬ ∀ (host : Host) (path expanded : Text CodePoint), host.files.LinkFree → host.NullFree →
      ofChar null ∉ path → expandHome host path.trim = .ok expanded →
      ¬ BeginsWithTwoSlashes expanded →
      normalForm host true path = normalForm host false path := by
  intro hall
  let host : Host := { directory := ["w".toList], environment := [("HOME".toList,"/h".toList)] }
  let lone : CodePoint := .surrogate ⟨0xD800,by decide⟩
  have hhost : host.NullFree := by
    refine Host.nullFree_of_forall (by simp [host]) ?_ (by simp [host])
    intro v hv
    rw [List.mem_singleton.mp hv]
    decide
  have hone : ¬ BeginsWithTwoSlashes [lone] := by
    rintro ⟨r,hr,-⟩
    exact absurd (List.cons.inj hr).1 (by decide)
  have hresolved : normalForm host true [lone] = .error (.unwritable ⟨0,1,⟨0xD800,by decide⟩⟩) := by
    decide +kernel
  have htext : normalForm host false [lone] = .ok (Text.lift "/w/".toList ++ [lone]) := by
    decide +kernel
  have hagree := hall host [lone] [lone] (FileTree.linkFree_of_forall (by simp [host])) hhost
    (by decide) rfl hone
  rw [hresolved,htext] at hagree
  cases hagree

end Path
end FormatEdits
