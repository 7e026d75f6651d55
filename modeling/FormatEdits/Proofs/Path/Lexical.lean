import FormatEdits.Path
import FormatEdits.Proofs.Text.Fields
import Mathlib.Data.List.Induction

namespace FormatEdits.Path

open Text (joined)

variable {α : Type} [DecidableEq α] [Letter α]

/-- A name that leads down to a child. -/
structure Proper (name : Text α) : Prop where
  ne_nil : name ≠ []
  ne_here : name ≠ here
  ne_up : name ≠ up
  no_slash : slash ∉ name

namespace Walked

/-- Walks one more name as if no link were about. -/
def follow (w : Walked α) (name : Text α) : Walked α :=
  if name = [] ∨ name = here then w
  else if name = up then w.parent
  else w.child name

/-- The names from where a walk began: those that lead up, then those that lead down. -/
def steps (w : Walked α) : List (Text α) := List.replicate w.ups up ++ w.names

/-- What every walk keeps: it goes down by proper names, and nowhere up from the root. -/
structure Settled (w : Walked α) : Prop where
  names : ∀ name ∈ w.names, Proper name
  ups : w.rooted = true → w.ups = 0

omit [DecidableEq α] in
theorem settled_root : (root : Walked α).Settled := ⟨by simp [root],fun _ => rfl⟩

omit [DecidableEq α] in
theorem settled_empty : Settled ({} : Walked α) := ⟨by simp,by simp⟩

variable {w v : Walked α} {name : Text α} {names : List (Text α)}

theorem follow_skip (h : name = [] ∨ name = here) : w.follow name = w := by
  rw [follow,if_pos h]

theorem follow_up : w.follow up = w.parent := by
  rw [follow,if_neg (by simp),if_pos rfl]

theorem follow_proper (h : Proper name) : w.follow name = w.child name := by
  rw [follow,if_neg (by simp [h.ne_nil,h.ne_here]),if_neg h.ne_up]

theorem name_cases (h : slash ∉ name) : (name = [] ∨ name = here) ∨ name = up ∨ Proper name := by
  by_cases hskip : name = [] ∨ name = here
  · exact .inl hskip
  · by_cases hup : name = up
    · exact .inr (.inl hup)
    · obtain ⟨hnil,hhere⟩ := not_or.mp hskip
      exact .inr (.inr ⟨hnil,hhere,hup,h⟩)

omit [DecidableEq α] [Letter α] in
theorem parent_of_names_ne_nil (h : w.names ≠ []) :
    w.parent = { w with names := w.names.dropLast } := by
  rw [parent,if_pos h]

omit [DecidableEq α] [Letter α] in
@[simp] theorem parent_child (w : Walked α) (name : Text α) : (w.child name).parent = w := by
  rw [parent_of_names_ne_nil (by simp [child])]
  simp [child]

theorem rooted_follow : (w.follow name).rooted = w.rooted := by
  unfold follow parent child
  split
  · rfl
  · split
    · split
      · rfl
      · split <;> rfl
    · rfl

theorem settled_follow (h : w.Settled) (hname : slash ∉ name) : (w.follow name).Settled := by
  rcases name_cases hname with hskip | rfl | hproper
  · rwa [follow_skip hskip]
  · rw [follow_up]
    by_cases hnames : w.names = []
    · rw [parent,if_neg (by simp [hnames])]
      split
      · exact h
      · next hroot => exact ⟨h.names,fun hrooted => absurd hrooted hroot⟩
    · rw [parent_of_names_ne_nil hnames]
      exact ⟨fun n hn => h.names n (List.dropLast_subset _ hn),h.ups⟩
  · rw [follow_proper hproper]
    refine ⟨?_,h.ups⟩
    intro n hn
    rcases List.mem_append.mp hn with hn | hn
    · exact h.names n hn
    · rwa [List.mem_singleton.mp hn]

theorem settled_foldl (h : w.Settled) (hnames : ∀ name ∈ names, slash ∉ name) :
    (names.foldl follow w).Settled ∧ (names.foldl follow w).rooted = w.rooted := by
  induction names generalizing w with
  | nil => exact ⟨h,rfl⟩
  | cons name names ih =>
    obtain ⟨hname,hnames⟩ := List.forall_mem_cons.mp hnames
    obtain ⟨hsettled,hrooted⟩ := ih (settled_follow h hname) hnames
    exact ⟨hsettled,hrooted.trans rooted_follow⟩

theorem foldl_follow_proper (h : ∀ name ∈ names, Proper name) (w : Walked α) :
    names.foldl follow w = { w with names := w.names ++ names } := by
  induction names generalizing w with
  | nil => simp
  | cons name names ih =>
    obtain ⟨hname,hnames⟩ := List.forall_mem_cons.mp h
    rw [List.foldl_cons,follow_proper hname,ih hnames]
    simp [child]

/-- From anywhere, the steps of a walk that goes on lead where its former steps and the next name
lead. -/
theorem foldl_steps_follow (h : w.Settled) (hw : w.rooted = false) (hname : slash ∉ name)
    (v : Walked α) :
    (w.follow name).steps.foldl follow v = (w.steps.foldl follow v).follow name := by
  rcases name_cases hname with hskip | rfl | hproper
  · rw [follow_skip hskip,follow_skip hskip]
  · rw [follow_up]
    rcases List.eq_nil_or_concat w.names with hnames | ⟨front,last,hnames⟩
    · have hsteps : w.parent.steps = w.steps ++ [up] := by
        rw [parent,if_neg (by simp [hnames]),if_neg (by simp [hw])]
        simp [steps,hnames,List.replicate_succ']
      rw [hsteps,List.foldl_append]
      rfl
    · -- the last name down is taken back
      have hlast : Proper last := h.names last (by simp [hnames])
      have hsteps : w.steps = w.parent.steps ++ [last] := by
        rw [parent_of_names_ne_nil (by simp [hnames])]
        simp [steps,hnames]
      rw [hsteps,List.foldl_append,List.foldl_cons,List.foldl_nil,follow_proper hlast,follow_up,
        parent_child]
  · have hsteps : (w.follow name).steps = w.steps ++ [name] := by
      rw [follow_proper hproper]
      simp [steps,child]
    rw [hsteps,List.foldl_append]
    rfl

/-- Names may be walked from anywhere, or be walked first and then only the steps that are left. -/
theorem foldl_steps (hnames : ∀ name ∈ names, slash ∉ name) (v : Walked α) :
    (names.foldl follow {}).steps.foldl follow v = names.foldl follow v := by
  induction names using List.reverseRecOn with
  | nil => rfl
  | append_singleton names name ih =>
    rw [List.forall_mem_append,List.forall_mem_singleton] at hnames
    obtain ⟨hsettled,hrooted⟩ := settled_foldl settled_empty hnames.1
    rw [List.foldl_append,List.foldl_append,← ih hnames.1]
    exact foldl_steps_follow hsettled hrooted hnames.2 v

/-- Below the root, a stack of names holds the names of a walk, the last on top. -/
theorem pushName_reverse (h : w.Settled) (hw : w.rooted = true) (hname : slash ∉ name) :
    pushName true w.names.reverse name = (w.follow name).names.reverse := by
  rcases name_cases hname with hskip | rfl | hproper
  · rw [follow_skip hskip,pushName.eq_def,if_pos hskip]
  · rw [follow_up,pushName.eq_def,if_neg (by simp),if_pos rfl]
    rcases List.eq_nil_or_concat w.names with hnames | ⟨front,last,hnames⟩
    · have hparent : w.parent = w := by rw [parent,if_neg (by simp [hnames]),if_pos hw]
      rw [hparent]
      simp [hnames]
    · have hlast : last ≠ up := (h.names last (by simp [hnames])).ne_up
      rw [parent_of_names_ne_nil (by simp [hnames])]
      simp [hnames,hlast]
  · rw [follow_proper hproper,pushName.eq_def,if_neg (by simp [hproper.ne_nil,hproper.ne_here]),
      if_neg hproper.ne_up]
    simp [child]

theorem foldl_pushName (h : w.Settled) (hw : w.rooted = true)
    (hnames : ∀ name ∈ names, slash ∉ name) :
    names.foldl (pushName true) w.names.reverse = (names.foldl follow w).names.reverse := by
  induction names generalizing w with
  | nil => rfl
  | cons name names ih =>
    obtain ⟨hname,hnames⟩ := List.forall_mem_cons.mp hnames
    rw [List.foldl_cons,List.foldl_cons,pushName_reverse h hw hname,
      ih (settled_follow h hname) (rooted_follow.trans hw) hnames]

theorem names_foldl_sublist (names : List (Text α)) (w : Walked α) :
    (names.foldl follow w).names.Sublist (w.names ++ names) := by
  induction names generalizing w with
  | nil => simp
  | cons name names ih =>
    have hstep : (w.follow name).names.Sublist (w.names ++ [name]) := by
      unfold follow parent child
      split
      · exact List.sublist_append_left _ _
      · split
        · split
          · exact (List.dropLast_sublist _).trans (List.sublist_append_left _ _)
          · split <;> exact List.sublist_append_left _ _
        · exact List.Sublist.refl _
    have happend := (ih (w.follow name)).trans (hstep.append_right names)
    rwa [List.append_assoc,List.singleton_append] at happend

end Walked

open Walked (follow)

section Names

variable {path r : Text α} {names : List (Text α)}

/-- The names that a path leads to, walked from the root. -/
def namesFromRoot (path : Text α) : List (Text α) := ((path.fields slash).foldl follow .root).names

theorem slash_not_mem_fields (path : Text α) : ∀ name ∈ path.fields slash, slash ∉ name :=
  fun _ => Text.not_mem_of_mem_fields

theorem proper_of_mem_namesFromRoot (path : Text α) : ∀ name ∈ namesFromRoot path, Proper name :=
  (Walked.settled_foldl Walked.settled_root (slash_not_mem_fields path)).1.names

theorem normalNames_fields (path : Text α) :
    normalNames true (path.fields slash) = namesFromRoot path := by
  have hpush := Walked.foldl_pushName Walked.settled_root rfl (slash_not_mem_fields path)
  rw [normalNames,← List.reverse_reverse (namesFromRoot path)]
  exact congrArg List.reverse hpush

/-- Names without a slash come back from the text that joins them; if there are none, an empty name
does, which leads nowhere. -/
theorem foldl_fields_joined (h : ∀ name ∈ names, slash ∉ name) (w : Walked α) :
    ((joined slash names).fields slash).foldl follow w = names.foldl follow w := by
  by_cases hnames : names = []
  · subst hnames
    exact Walked.follow_skip (.inl rfl)
  · rw [Text.fields_joined hnames h]

theorem foldl_fields_slash (r : Text α) (w : Walked α) :
    (Text.fields slash (slash :: r)).foldl follow w = (r.fields slash).foldl follow w := by
  have hfields : Text.fields slash (slash :: r) = [] :: r.fields slash := by simp [Text.fields]
  rw [hfields,List.foldl_cons,Walked.follow_skip (.inl rfl)]

omit [DecidableEq α] in
theorem head?_joined (h : ∀ name ∈ names, name ≠ [] ∧ slash ∉ name) :
    (joined slash names).head? ≠ some slash := by
  cases names with
  | nil => simp [joined]
  | cons name names =>
    obtain ⟨hnil,hslash⟩ := h name List.mem_cons_self
    obtain ⟨c,cs,hc⟩ := List.exists_cons_of_ne_nil hnil
    have hhead : (joined slash (name :: names)).head? = some c := by
      cases names <;> simp [joined,hc]
    intro hfirst
    obtain rfl : c = slash := Option.some.inj (hhead.symm.trans hfirst)
    exact hslash (hc ▸ List.mem_cons_self)

end Names

section Roots

variable {path root : Text α}

/-- What an absolute normal form can start with. -/
def IsRoot (root : Text α) : Prop := root = [slash] ∨ root = [slash,slash]

theorem exists_behind_root (h : isAbsolute path = true) :
    IsRoot (rootOf path) ∧ ∃ r, path = rootOf path ++ r := by
  obtain ⟨r,rfl⟩ := List.head?_eq_some_iff.mp (of_decide_eq_true h)
  rw [rootOf,if_neg (by simp)]
  split
  · next htwo =>
    obtain ⟨s,rfl⟩ := List.head?_eq_some_iff.mp (List.head?_eq_getElem? ▸ htwo.1)
    exact ⟨.inr rfl,s,rfl⟩
  · exact ⟨.inl rfl,r,rfl⟩

omit [DecidableEq α] in
theorem IsRoot.ne_nil (h : IsRoot root) : root ≠ [] := by
  rcases h with rfl | rfl <;> simp

theorem IsRoot.isAbsolute_append (h : IsRoot root) (r : Text α) :
    isAbsolute (root ++ r) = true := by
  rcases h with rfl | rfl <;> exact isAbsolute_slash _

theorem IsRoot.rootOf_append (h : IsRoot root) {r : Text α} (hr : r.head? ≠ some slash) :
    rootOf (root ++ r) = root := by
  cases r with
  | nil => rcases h with rfl | rfl <;> simp [rootOf]
  | cons c r =>
    have hc : c ≠ slash := by simpa using hr
    rcases h with rfl | rfl <;> simp [rootOf,hc]

theorem IsRoot.foldl_fields (h : IsRoot root) (r : Text α) (w : Walked α) :
    ((root ++ r).fields slash).foldl follow w = (r.fields slash).foldl follow w := by
  rcases h with rfl | rfl
  · exact foldl_fields_slash r w
  · exact (foldl_fields_slash (slash :: r) w).trans (foldl_fields_slash r w)

theorem normal_eq (h : isAbsolute path = true) :
    normal path = rootOf path ++ joined slash (namesFromRoot path) := by
  have hroot := (exists_behind_root h).1.ne_nil
  have hnames :
      normalNames (decide (rootOf path ≠ [])) (path.fields slash) = namesFromRoot path := by
    rw [decide_eq_true hroot,normalNames_fields]
  unfold normal
  dsimp only
  rw [hnames]
  split
  · next hnil => exact absurd (List.append_eq_nil_iff.mp hnil).1 hroot
  · rfl

theorem normal_of_proper (h : IsRoot root) {names : List (Text α)}
    (hnames : ∀ name ∈ names, Proper name) :
    normal (root ++ joined slash names) = root ++ joined slash names := by
  have hwalk : namesFromRoot (root ++ joined slash names) = names := by
    rw [namesFromRoot,h.foldl_fields,foldl_fields_joined fun n hn => (hnames n hn).no_slash,
      Walked.foldl_follow_proper hnames]
    rfl
  have hhead : (joined slash names).head? ≠ some slash :=
    head?_joined fun n hn => ⟨(hnames n hn).ne_nil,(hnames n hn).no_slash⟩
  rw [normal_eq (h.isAbsolute_append _),h.rootOf_append hhead,hwalk]

theorem isAbsolute_normal (h : isAbsolute path = true) : isAbsolute (normal path) = true := by
  rw [normal_eq h]
  exact (exists_behind_root h).1.isAbsolute_append _

theorem normal_normal (h : isAbsolute path = true) : normal (normal path) = normal path := by
  rw [normal_eq h]
  exact normal_of_proper (exists_behind_root h).1 (proper_of_mem_namesFromRoot path)

omit [DecidableEq α] in
theorem length_joined_le {names others : List (Text α)} (h : names.Sublist others) :
    (joined slash names).length ≤ (joined slash others).length := by
  induction h with
  | slnil => exact Nat.le_refl _
  | @cons names others other _ ih =>
    have hmore : (joined slash others).length ≤ (joined slash (other :: others)).length := by
      cases others <;> simp [joined]
      omega
    exact Nat.le_trans ih hmore
  | @cons_cons names others name h ih =>
    cases names with
    | nil => cases others <;> simp [joined]
    | cons next names =>
      have hothers : others ≠ [] := fun hnil => by simp [hnil] at h
      rw [Text.joined_cons _ _ (by simp),Text.joined_cons _ _ hothers]
      simpa using ih

theorem length_normal_le (h : isAbsolute path = true) : (normal path).length ≤ path.length := by
  obtain ⟨hroot,r,hpath⟩ := exists_behind_root h
  have hnames : (namesFromRoot path).Sublist (r.fields slash) := by
    have hwalk : namesFromRoot path = ((r.fields slash).foldl follow .root).names := by
      rw [namesFromRoot,hpath,hroot.foldl_fields]
    rw [hwalk]
    exact Walked.names_foldl_sublist (r.fields slash) .root
  have hlength := length_joined_le hnames
  rw [Text.joined_fields] at hlength
  have hsplit := congrArg List.length hpath
  rw [List.length_append] at hsplit
  rw [normal_eq h,List.length_append]
  omega

end Roots

section Joins

variable {base path : Text α}

theorem isAbsolute_ofPlace (place : Place) : isAbsolute (ofPlace place : Text α) = true :=
  isAbsolute_slash _

theorem isAbsolute_join (h : isAbsolute base = true) (path : Text α) :
    isAbsolute (join base path) = true := by
  unfold join
  split
  · assumption
  · obtain ⟨r,rfl⟩ := List.head?_eq_some_iff.mp (of_decide_eq_true h)
    split <;> exact isAbsolute_slash _

theorem absolute_eq (directory : Place) (path : Text α) :
    absolute directory path = normal (join (ofPlace directory) path) := by
  unfold absolute join
  split <;> rfl

theorem rootOf_join (hbase : isAbsolute base = true) (hpath : isAbsolute path = false) :
    rootOf (join base path) = rootOf base := by
  obtain ⟨b,rfl⟩ := List.head?_eq_some_iff.mp (of_decide_eq_true hbase)
  have hslash : path.head? ≠ some slash := of_decide_eq_false hpath
  rw [join,if_neg (by simp [hpath])]
  rcases b with _ | ⟨c,_ | ⟨d,b⟩⟩
  · rw [if_pos (by simp),IsRoot.rootOf_append (.inl rfl) hslash]
    simp [rootOf]
  · by_cases hc : c = slash
    · subst hc
      have hroot : rootOf ([slash,slash] ++ path) = [slash,slash] :=
        IsRoot.rootOf_append (.inr rfl) hslash
      rw [if_pos (by simp),hroot]
      simp [rootOf]
    · rw [if_neg (by simp [hc])]
      simp [rootOf,hc]
  · have hroot (r : Text α) : rootOf (slash :: c :: d :: r) = rootOf (slash :: c :: d :: b) := by
      simp [rootOf]
    split
    · exact hroot _
    · exact hroot _

theorem foldl_fields_join (hbase : base ≠ []) (hpath : isAbsolute path = false) (w : Walked α) :
    ((join base path).fields slash).foldl follow w =
      (path.fields slash).foldl follow ((base.fields slash).foldl follow w) := by
  rw [join,if_neg (by simp [hpath])]
  split
  · next hend =>
    obtain ⟨front,rfl⟩ := List.getLast?_eq_some_iff.mp (hend.resolve_left hbase)
    rw [List.append_assoc,List.singleton_append,Text.fields_append_cons,Text.fields_append_cons,
      List.foldl_append,List.foldl_append]
    rfl
  · rw [Text.fields_append_cons,List.foldl_append]

end Joins

end FormatEdits.Path
