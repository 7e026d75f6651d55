import FormatEdits.Proofs.Path.NullFree
import Mathlib.Data.List.DropRight

namespace FormatEdits.Path

open Text (isBlank)

variable {host : Host} {path form : Text}

def EndsInBlank (path : Text) : Prop := ∃ c ∈ path.getLast?, isBlank c = true

section Trimming

variable (h : isAbsolute path = true)

include h

theorem trim_of_isAbsolute : path.trim = path.rdropWhile isBlank := by
  obtain ⟨r,rfl⟩ := List.head?_eq_some_iff.mp (of_decide_eq_true h)
  have hstart : Text.trimStart (slash :: r) = slash :: r := List.dropWhile_cons_of_neg (by decide)
  rw [Text.trim,hstart]
  rfl

theorem isAbsolute_trim : isAbsolute path.trim = true := by
  rw [trim_of_isAbsolute h]
  obtain ⟨r,rfl⟩ := List.head?_eq_some_iff.mp (of_decide_eq_true h)
  have hne : List.rdropWhile isBlank (slash :: r) ≠ [] := by
    intro hnil
    exact absurd (List.rdropWhile_eq_nil_iff.mp hnil slash List.mem_cons_self) (by decide)
  obtain ⟨c,kept,hkept⟩ := List.exists_cons_of_ne_nil hne
  have hfront := List.rdropWhile_prefix isBlank (slash :: r)
  rw [hkept] at hfront ⊢
  obtain rfl : c = slash := (List.cons_prefix_cons.mp hfront).1
  rfl

theorem trim_eq_self (hend : ¬ EndsInBlank path) : path.trim = path := by
  rw [trim_of_isAbsolute h]
  rcases List.eq_nil_or_concat path with rfl | ⟨front,last,rfl⟩
  · rfl
  · rw [List.concat_eq_append] at hend ⊢
    have hlast : ¬ isBlank last = true := fun hblank => hend ⟨last,List.getLast?_concat,hblank⟩
    exact List.rdropWhile_concat_neg _ _ _ hlast

theorem length_trim_lt (hend : EndsInBlank path) : path.trim.length < path.length := by
  rw [trim_of_isAbsolute h]
  obtain ⟨c,hc,hblank⟩ := hend
  obtain ⟨front,rfl⟩ := List.getLast?_eq_some_iff.mp hc
  rw [List.rdropWhile_concat_pos _ _ _ hblank,List.length_append,List.length_singleton]
  exact Nat.lt_succ_of_le (List.rdropWhile_prefix isBlank front).length_le

/-- The form of an absolute path is the normal form of what is left without blanks; no home
directory and no current one takes part. -/
theorem normalForm_of_isAbsolute : normalForm host false path = .ok (normal path.trim) := by
  obtain ⟨r,hr⟩ := List.head?_eq_some_iff.mp (of_decide_eq_true (isAbsolute_trim h))
  rw [normalForm,hr]
  rfl

end Trimming

/-- The path asks for the home of a user whose name has a null character in it. -/
def NamesNullUser (path : Text) : Prop :=
  ∃ after, path.trim = '~' :: after ∧ null ∈ after.takeWhile (· ≠ '/')

theorem normalForm_of_namesNullUser (h : NamesNullUser path) :
    normalForm host false path = .error .embeddedNull := by
  obtain ⟨after,htrim,hnull⟩ := h
  have hfault : nameFault? 0 (after.takeWhile (· ≠ slash)) = some .embeddedNull :=
    nameFault?_char.trans (if_pos hnull)
  have he : expandHome host ('~' :: after) = .error .embeddedNull := by
    rw [expandHome,if_pos (by simp)]
    simp only [List.tail_cons,hfault]
  rw [normalForm,htrim]
  dsimp only
  rw [he]
  rfl

theorem exists_normalForm (h : ¬ NamesNullUser path) :
    ∃ form, normalForm host false path = .ok form := by
  have he : ∃ expanded, expandHome host path.trim = .ok expanded := by
    unfold expandHome
    split
    · next htilde =>
      obtain ⟨after,htrim⟩ := List.head?_eq_some_iff.mp htilde
      have hname : nameFault? 0 (after.takeWhile (· ≠ slash)) = none :=
        nameFault?_char.trans (if_neg fun hnull => h ⟨after,htrim,hnull⟩)
      simp only [htrim,List.tail_cons,hname]
      exact ⟨_,rfl⟩
    · exact ⟨_,rfl⟩
  obtain ⟨expanded,he⟩ := he
  unfold normalForm
  split
  · exact ⟨_,rfl⟩
  · rw [he]
    exact ⟨_,rfl⟩

theorem normalForm_cases (h : normalForm host false path = .ok form) :
    form = [] ∨ ∃ full, isAbsolute full = true ∧ form = normal full := by
  unfold normalForm at h
  split at h
  · exact .inl (Except.ok.inj h).symm
  · cases he : expandHome host path.trim with
    | error fault => simp [he,bind,Except.bind] at h
    | ok expanded =>
      obtain rfl : absolute host.directory expanded = form := by
        simpa [he,bind,Except.bind,pure,Except.pure] using h
      exact .inr ⟨_,isAbsolute_join (isAbsolute_ofPlace _) expanded,absolute_eq _ _⟩

theorem same_of_forms {again : Text} (h : normalForm host false path = .ok form)
    (hform : normalForm host false form = .ok again) (hne : form ≠ []) :
    same host false path form = .ok (decide (form = again)) := by
  have hpath : path ≠ [] := by
    rintro rfl
    exact hne (Except.ok.inj h).symm
  rw [same,if_neg (by simp [hpath,hne]),h,hform]
  rfl

theorem fixed_of_not_endsInBlank (h : normalForm host false path = .ok form)
    (hend : ¬ EndsInBlank form) :
    normalForm host false form = .ok form ∧
      (form ≠ [] → same host false path form = .ok true) := by
  rcases normalForm_cases h with rfl | ⟨full,hfull,rfl⟩
  · exact ⟨rfl,(absurd rfl ·)⟩
  · have habsolute := isAbsolute_normal hfull
    have hagain : normalForm host false (normal full) = .ok (normal full) := by
      rw [normalForm_of_isAbsolute habsolute,trim_eq_self habsolute hend,normal_normal hfull]
    refine ⟨hagain,?_⟩
    intro hne
    rw [same_of_forms h hagain hne,decide_eq_true rfl]

/-- A form that ends in a blank loses it, and more if a slash or a dot stands before the blank. -/
theorem shorter_of_endsInBlank (h : normalForm host false path = .ok form)
    (hend : EndsInBlank form) :
    ∃ shorter, normalForm host false form = .ok shorter ∧ shorter.length < form.length ∧
      same host false path form = .ok false := by
  rcases normalForm_cases h with rfl | ⟨full,hfull,rfl⟩
  · obtain ⟨c,hc,-⟩ := hend
    cases hc
  · have habsolute := isAbsolute_normal hfull
    have hagain : normalForm host false (normal full) = .ok (normal (normal full).trim) :=
      normalForm_of_isAbsolute habsolute
    have hshorter : (normal (normal full).trim).length < (normal full).length :=
      Nat.lt_of_le_of_lt (length_normal_le (isAbsolute_trim habsolute))
        (length_trim_lt habsolute hend)
    refine ⟨_,hagain,hshorter,?_⟩
    have hne : normal full ≠ [] := by
      intro hnil
      simp [hnil,EndsInBlank] at hend
    have hother : normal full ≠ normal (normal full).trim :=
      ne_of_apply_ne List.length (Nat.ne_of_gt hshorter)
    rw [same_of_forms h hagain hne,decide_eq_false hother]

/-- Every path has a form that is taken from its text alone, unless it asks for a home that cannot
be looked up. A form that does not end in a blank is its own form, and names the file that the path
names. One that ends in a blank has a shorter form, and names another file: the blank stands for
itself in a file's name, but goes where it ends a path. -/
theorem normalForm_fixed_unless_blank (host : Host) (path : Text) :
    (NamesNullUser path → normalForm host false path = .error .embeddedNull) ∧
      (¬ NamesNullUser path → ∃ form, normalForm host false path = .ok form) ∧
      ∀ form, normalForm host false path = .ok form →
        (¬ EndsInBlank form → normalForm host false form = .ok form ∧
          (form ≠ [] → same host false path form = .ok true)) ∧
        (EndsInBlank form → ∃ shorter, normalForm host false form = .ok shorter ∧
          shorter.length < form.length ∧ same host false path form = .ok false) := by
  refine ⟨normalForm_of_namesNullUser,exists_normalForm,?_⟩
  intro form hform
  exact ⟨fixed_of_not_endsInBlank hform,shorter_of_endsInBlank hform⟩

/-- A path with blanks around it, and one whose last name ends in a blank that a slash and a dot
stand behind. -/
theorem normalForm_fixed_unless_blank_of_notes :
    let host : Host :=
      { directory := ["w".toList], environment := [("HOME".toList,"/h".toList)] }
    let form := "/w/notes".toList
    let blankForm := "/h/notes ".toList
    (normalForm host false "  a//../notes/. ".toList = .ok form ∧
        normalForm host false "~/./notes /.".toList = .ok blankForm) ∧
      (normalForm host false form = .ok form ∧
        same host false "  a//../notes/. ".toList form = .ok true) ∧
      ∃ shorter, normalForm host false blankForm = .ok shorter ∧
        shorter.length < blankForm.length ∧
        same host false "~/./notes /.".toList blankForm = .ok false := by
  intro host form blankForm
  have hform : normalForm host false "  a//../notes/. ".toList = .ok form := by rfl
  have hblankForm : normalForm host false "~/./notes /.".toList = .ok blankForm := by rfl
  have hend : ¬ EndsInBlank form := by
    rintro ⟨c,hc,hblank⟩
    obtain rfl : 's' = c := Option.some.inj hc
    exact absurd hblank (by decide)
  obtain ⟨-,-,hforms⟩ := normalForm_fixed_unless_blank host "  a//../notes/. ".toList
  obtain ⟨hfixed,hsame⟩ := (hforms form hform).1 hend
  obtain ⟨-,-,hblankForms⟩ := normalForm_fixed_unless_blank host "~/./notes /.".toList
  have hchanged := (hblankForms blankForm hblankForm).2 ⟨' ',rfl,rfl⟩
  exact ⟨⟨hform,hblankForm⟩,⟨hfixed,hsame (by decide)⟩,hchanged⟩

/-- Not every form is its own form, and not every path is the same as its form. -/
theorem not_normalForm_fixed :
    ¬ ∀ (host : Host) (path form : Text), normalForm host false path = .ok form →
      normalForm host false form = .ok form ∧
        (form ≠ [] → same host false path form = .ok true) := by
  intro hall
  have hform : normalForm {} false "/w/a /".toList = .ok "/w/a ".toList := by rfl
  have hagain : normalForm {} false "/w/a ".toList = .ok "/w/a".toList := by rfl
  have hfixed := (hall {} _ _ hform).1
  rw [hagain] at hfixed
  exact absurd (Except.ok.inj hfixed) (by decide)

end FormatEdits.Path
