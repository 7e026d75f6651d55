import FormatEdits.Proofs.Path.Lexical
import FormatEdits.Report

namespace FormatEdits

open FormatEdits.Path (null)

/-- What a machine promises: no link leads to a path with a null character, and no variable or home
directory holds one. -/
structure Host.NullFree (host : Host) : Prop where
  links : ∀ place target, host.files.linkTarget? place = some target → null ∉ target
  environment : ∀ name value, host.valueOf? name = some value → null ∉ value
  homes : ∀ user home, host.homes.lookup user = some home → null ∉ home

namespace Path

variable {α : Type} [Letter α]

section Letters

/-- Every letter of the text can stand in a file's name. -/
def Writable (t : Text α) : Prop := ∀ c ∈ t, isUnwritable c = false

instance (t : Text α) : Decidable (Writable t) :=
  inferInstanceAs (Decidable (∀ c ∈ t, isUnwritable c = false))

@[simp] theorem isUnwritable_ofChar (c : Char) : isUnwritable (ofChar c : α) = false := by
  simp [isUnwritable]

@[simp] theorem writable_append {s t : Text α} : Writable (s ++ t) ↔ Writable s ∧ Writable t :=
  List.forall_mem_append

@[simp] theorem writable_cons {c : α} {t : Text α} :
    Writable (c :: t) ↔ isUnwritable c = false ∧ Writable t :=
  List.forall_mem_cons

@[simp] theorem writable_nil : Writable ([] : Text α) := List.forall_mem_nil _

theorem writable_lift (t : Text) : Writable (Text.lift t : Text α) := by
  simp [Writable,Text.lift]

theorem writable_char (t : Text) : Writable t := fun _ _ => rfl

theorem unwritableFrom_eq_none_iff {position : Nat} {t : Text α} :
    unwritableFrom position t = none ↔ Writable t := by
  induction t generalizing position with
  | nil => simp [unwritableFrom]
  | cons c t ih =>
    unfold unwritableFrom
    rw [writable_cons]
    cases hs : surrogate? c with
    | none => simp [isUnwritable,hs,ih]
    | some s => cases hb : byteOf? s <;> simp [isUnwritable,hs,hb,ih]

theorem null_not_mem_lift {t : Text} (h : null ∉ t) : ofChar null ∉ (Text.lift t : Text α) := by
  simpa [Text.lift] using h

omit [Letter α] in
theorem mem_of_mem_dropFinalWhile {p : α → Bool} {c : α} {t : Text α}
    (h : c ∈ Text.dropFinalWhile p t) : c ∈ t := by
  have hr := List.mem_reverse.mp h
  exact List.mem_reverse.mp ((List.dropWhile_sublist p).mem hr)

theorem mem_of_mem_trim {c : α} {t : Text α} (h : c ∈ t.trim) : c ∈ t :=
  (List.dropWhile_sublist _).mem (mem_of_mem_dropFinalWhile h)

end Letters

variable [DecidableEq α] {host : Host} {path : Text α}

section Names

theorem nameFault?_eq_none_iff {position : Nat} {name : Text α} :
    nameFault? position name = none ↔ Writable name ∧ ofChar null ∉ name := by
  unfold nameFault?
  cases hu : unwritableFrom position name with
  | none => simp [unwritableFrom_eq_none_iff.mp hu]
  | some run =>
    have hnot : ¬ Writable name := fun h => by simp [unwritableFrom_eq_none_iff.mpr h] at hu
    simp [hnot]

theorem exists_of_nameFault? {position : Nat} {name : Text α} {fault : Fault}
    (hnull : ofChar null ∉ name) (h : nameFault? position name = some fault) :
    ∃ run, fault = .unwritable run := by
  unfold nameFault? at h
  split at h
  · next run _ => exact ⟨run,(Option.some.inj h).symm⟩
  · rw [if_neg hnull] at h
    cases h

theorem exists_nameFault? {name : Text α} (hnull : ofChar null ∉ name) (h : ¬ Writable name)
    (position : Nat) : ∃ run, nameFault? position name = some (.unwritable run) := by
  cases hf : nameFault? position name with
  | none => exact absurd (nameFault?_eq_none_iff.mp hf).1 h
  | some fault =>
    obtain ⟨run,rfl⟩ := exists_of_nameFault? hnull hf
    exact ⟨run,rfl⟩

theorem writable_iff_fields : Writable path ↔ ∀ name ∈ path.fields slash, Writable name := by
  constructor
  · exact fun h name hn c hc => h c (Text.mem_of_mem_fields hn hc)
  · intro h c hc
    by_cases hslash : c = slash
    · rw [hslash]
      exact isUnwritable_ofChar '/'
    · rw [← Text.joined_fields slash path,Text.mem_joined hslash] at hc
      obtain ⟨name,hn,hc⟩ := hc
      exact h name hn c hc

theorem null_not_mem_fields (h : ofChar null ∉ path) :
    ∀ name ∈ path.fields slash, ofChar null ∉ name :=
  fun _ hn hm => h (Text.mem_of_mem_fields hn hm)

theorem nameFault?_fields (hwritten : Writable path) (hnull : ofChar null ∉ path) {name : Text α}
    (hname : name ∈ path.fields slash) (position : Nat) : nameFault? position name = none :=
  nameFault?_eq_none_iff.mpr
    ⟨writable_iff_fields.mp hwritten name hname,null_not_mem_fields hnull name hname⟩

end Names

section Homes

/-- The path asks for the home of a user whose name cannot be written. -/
def NamesUnwritableUser (path : Text α) : Prop :=
  path.head? = some (ofChar '~') ∧ ¬ Writable (path.tail.takeWhile (· ≠ slash))

instance (path : Text α) : Decidable (NamesUnwritableUser path) :=
  inferInstanceAs (Decidable (_ ∧ _))

theorem mem_underHome {home : Text} {rest : Text α} {c : α}
    (h : c ∈ underHome (Text.lift home) rest) :
    c = slash ∨ (∃ d ∈ home, c = ofChar d) ∨ c ∈ rest := by
  unfold underHome at h
  split at h
  · exact .inl (List.mem_singleton.mp h)
  · rcases List.mem_append.mp h with h | h
    · obtain ⟨d,hd,rfl⟩ := List.mem_map.mp (mem_of_mem_dropFinalWhile h)
      exact .inr (.inl ⟨d,hd,rfl⟩)
    · exact .inr (.inr h)

theorem mem_underHome_of_mem {home rest : Text α} {c : α} (h : c ∈ rest) :
    c ∈ underHome home rest := by
  unfold underHome
  split
  · next hnil => simp [(List.append_eq_nil_iff.mp hnil).2] at h
  · exact List.mem_append_right _ h

theorem null_not_mem_underHome {home : Text} {rest : Text α} (hhome : null ∉ home)
    (hrest : ofChar null ∉ rest) : ofChar null ∉ underHome (Text.lift home) rest := by
  intro hm
  rcases mem_underHome hm with hslash | ⟨c,hc,hnull⟩ | hm
  · exact absurd (Text.ofChar_inj.mp hslash) (by decide)
  · exact hhome (Text.ofChar_inj.mp hnull ▸ hc)
  · exact hrest hm

theorem writable_underHome {home : Text} {rest : Text α} :
    Writable (underHome (Text.lift home) rest) ↔ Writable rest := by
  refine ⟨fun h c hc => h c (mem_underHome_of_mem hc),fun h c hc => ?_⟩
  rcases mem_underHome hc with rfl | ⟨d,-,rfl⟩ | hc
  · exact isUnwritable_ofChar '/'
  · exact isUnwritable_ofChar d
  · exact h c hc

theorem expandHome_eq_error (h : NamesUnwritableUser path) (hnull : ofChar null ∉ path) :
    ∃ run, expandHome host path = .error (.unwritable run) := by
  have huser : ofChar null ∉ path.tail.takeWhile (· ≠ slash) := fun hm =>
    hnull (List.mem_of_mem_tail ((List.takeWhile_sublist _).mem hm))
  obtain ⟨run,hrun⟩ := exists_nameFault? huser h.2 0
  refine ⟨run,?_⟩
  unfold expandHome
  rw [if_pos h.1]
  simp only [hrun]

/-- Behind a user's name the letters of a path stay, be they written or not. -/
theorem expandHome_eq_ok (hh : host.NullFree) (h : ¬ NamesUnwritableUser path)
    (hnull : ofChar null ∉ path) : ∃ expanded, expandHome host path = .ok expanded ∧
      ofChar null ∉ expanded ∧ (Writable expanded ↔ Writable path) := by
  unfold expandHome
  split
  · next htilde =>
    have hwritten : Writable (path.tail.takeWhile (· ≠ slash)) :=
      Classical.not_not.mp fun hnot => h ⟨htilde,hnot⟩
    have hsplit : path =
        ofChar '~' :: (path.tail.takeWhile (· ≠ slash) ++ path.tail.dropWhile (· ≠ slash)) := by
      obtain ⟨r,rfl⟩ := List.head?_eq_some_iff.mp htilde
      rw [List.tail_cons,List.takeWhile_append_dropWhile]
    generalize path.tail.takeWhile (· ≠ slash) = user at hwritten hsplit ⊢
    generalize path.tail.dropWhile (· ≠ slash) = rest at hsplit ⊢
    have huser : ofChar null ∉ user := fun hm => hnull (by rw [hsplit]; simp [hm])
    have hrest : ofChar null ∉ rest := fun hm => hnull (by rw [hsplit]; simp [hm])
    have hname : nameFault? 0 user = none := nameFault?_eq_none_iff.mpr ⟨hwritten,huser⟩
    simp only [hname]
    refine ⟨_,rfl,?_⟩
    split
    · next home he =>
      have hhome : null ∉ home := by
        split at he
        · exact hh.environment _ _ he
        · obtain ⟨name,-,hlookup⟩ := Option.bind_eq_some_iff.mp he
          exact hh.homes _ _ hlookup
      refine ⟨null_not_mem_underHome hhome hrest,?_⟩
      rw [writable_underHome,hsplit]
      simp [hwritten]
    · exact ⟨hnull,Iff.rfl⟩
  · exact ⟨path,rfl,hnull,Iff.rfl⟩

end Homes

section Walks

theorem Halt.before_eq_refused {halt : Halt α} {rest : List (Text α)} {fault : Fault}
    (h : halt.before rest = .refused fault) : halt = .refused fault := by
  cases halt with
  | cycle path => cases h
  | refused fault => exact h

/-- A walk is refused for one of its names, if what links lead to is not. -/
theorem walk_refused {enter : Walked α → Text α → Met α → Except (Halt α) (Walked α × Met α)}
    {names : List (Text α)} {fault : Fault}
    (henter : ∀ w place target met, host.files.linkTarget? place = some target →
      enter w (Text.lift target) met ≠ .error (.refused fault))
    (hn : ∀ name ∈ names, ∀ position, nameFault? position name ≠ some fault) (w : Walked α)
    (met : Met α) : walk host enter w met names ≠ .error (.refused fault) := by
  induction names generalizing w met with
  | nil => simp [walk]
  | cons name rest ih =>
    have hname := hn name List.mem_cons_self
    have ih := ih fun m hm => hn m (List.mem_cons_of_mem _ hm)
    unfold walk
    split
    · exact ih w met
    · split
      · exact ih w.parent met
      · dsimp only
        split
        · next found hfound =>
          intro he
          cases he
          exact hname _ hfound
        · split
          · exact ih _ met
          · next target ht =>
            obtain ⟨found,hfound,rfl⟩ := Option.map_eq_some_iff.mp ht
            obtain ⟨place,-,hlink⟩ := Option.bind_eq_some_iff.mp hfound
            split
            · exact ih _ met
            · simp [Halt.before]
            · split
              · exact ih _ _
              · next halt he =>
                intro hbefore
                rw [Halt.before_eq_refused (Except.error.inj hbefore)] at he
                exact henter _ _ _ _ hlink he

/-- The targets of links can be looked up, so a path is refused for its own names alone. -/
theorem walkLinks_refused (hh : host.NullFree) {fault : Fault} (depth : Nat) {target : Text α}
    (hn : ∀ name ∈ target.fields slash, ∀ position, nameFault? position name ≠ some fault)
    (w : Walked α) (met : Met α) :
    walkLinks host depth w target met ≠ .error (.refused fault) := by
  induction depth generalizing w target met with
  | zero => simp [walkLinks]
  | succ depth ih =>
    refine walk_refused (fun w place target met hlink => ih ?_ w met) hn _ _
    intro name hname position
    rw [nameFault?_fields (writable_lift target) (null_not_mem_lift (hh.links _ _ hlink)) hname]
    simp

theorem resolved_eq_error (hh : host.NullFree) (hnull : ofChar null ∉ path) {fault : Fault}
    (h : resolved host path = .error fault) :
    (∃ run, fault = .unwritable run) ∧ ¬ Writable path := by
  have hrefused : ∃ name ∈ path.fields slash,
      ∃ position, nameFault? position name = some fault := by
    by_contra hno
    have hwalk : walkLinks host (linkDepth host + 1) {} path [] ≠ .error (.refused fault) :=
      walkLinks_refused hh _ (fun name hname position hf => hno ⟨name,hname,position,hf⟩) {} []
    unfold resolved at h
    split at h
    · cases h
    · cases h
    · next found hfound =>
      cases h
      exact hwalk hfound
  obtain ⟨name,hname,position,hf⟩ := hrefused
  refine ⟨exists_of_nameFault? (null_not_mem_fields hnull name hname) hf,?_⟩
  intro hwritten
  cases (nameFault?_fields hwritten hnull hname position).symm.trans hf

end Walks
section Forms

/-- The path holds letters where a name would have to be written with them: of a user, or, if links
are to be replaced, of any file on the way. -/
def Unlookable (resolveLinks : Bool) (path : Text α) : Prop :=
  NamesUnwritableUser path.trim ∨ (resolveLinks = true ∧ ¬ Writable path.trim)

theorem normalForm_of_namesUnwritableUser (host : Host) (h : NamesUnwritableUser path.trim)
    (hnull : ofChar null ∉ path) :
    ∃ run, ∀ resolveLinks, normalForm host resolveLinks path = .error (.unwritable run) := by
  have htrim : ofChar null ∉ path.trim := fun hm => hnull (mem_of_mem_trim hm)
  obtain ⟨run,he⟩ : ∃ run, expandHome host path.trim = .error (.unwritable run) :=
    expandHome_eq_error h htrim
  refine ⟨run,fun resolveLinks => ?_⟩
  unfold normalForm
  split
  · next hblank => simp [hblank,NamesUnwritableUser] at h
  · rw [he]
    rfl

/-- A path that has no user's name to be looked up has the form of what is left behind its home. -/
theorem normalForm_of_expandHome {expanded : Text α} (he : expandHome host path.trim = .ok expanded)
    (resolveLinks : Bool) :
    (path.trim = [] ∧ expanded = [] ∧ normalForm host resolveLinks path = .ok []) ∨
      (path.trim ≠ [] ∧ normalForm host resolveLinks path =
        if resolveLinks then resolved host expanded
        else .ok (absolute host.directory expanded)) := by
  unfold normalForm
  split
  · next hblank =>
    rw [hblank] at he
    exact .inl ⟨hblank,(Except.ok.inj he).symm,rfl⟩
  · next hne =>
    rw [he]
    exact .inr ⟨hne,rfl⟩

/-- A path has a form, unless letters that cannot be written keep it from being looked up. -/
theorem normalForm_eq_error (hh : host.NullFree) (hnull : ofChar null ∉ path) {resolveLinks : Bool}
    {fault : Fault} (h : normalForm host resolveLinks path = .error fault) :
    (∃ run, fault = .unwritable run) ∧ Unlookable resolveLinks path := by
  by_cases huser : NamesUnwritableUser path.trim
  · obtain ⟨run,hrun⟩ := normalForm_of_namesUnwritableUser host huser hnull
    exact ⟨⟨run,Except.error.inj (h.symm.trans (hrun resolveLinks))⟩,.inl huser⟩
  · have htrim : ofChar null ∉ path.trim := fun hm => hnull (mem_of_mem_trim hm)
    obtain ⟨expanded,he,hexpanded,hwritten⟩ := expandHome_eq_ok hh huser htrim
    rcases normalForm_of_expandHome he resolveLinks with ⟨-,-,hform⟩ | ⟨-,hform⟩
    · cases hform.symm.trans h
    · rw [hform] at h
      cases resolveLinks with
      | false => cases h
      | true =>
        obtain ⟨hrun,hnot⟩ := resolved_eq_error hh hexpanded h
        exact ⟨hrun,.inr ⟨rfl,mt hwritten.mpr hnot⟩⟩

/-- The header's path has to be looked up to be told from the target, and one of the two cannot
be. -/
def Incomparable (resolveLinks : Bool) (target header : Text α) : Prop :=
  header ≠ target ∧ header ≠ [] ∧ target ≠ [] ∧
    (Unlookable resolveLinks header ∨ Unlookable resolveLinks target)

theorem names_eq_error {target header : Text α} (hh : host.NullFree) {resolveLinks : Bool}
    (ht : ofChar null ∉ target) (hp : ofChar null ∉ header) {fault : Report.Fault}
    (h : names host resolveLinks target header = .error fault) :
    (∃ run, fault = .path (.unwritable run)) ∧ Incomparable resolveLinks target header := by
  unfold names same at h
  split at h
  · cases h
  · next hne =>
    split at h
    · cases h
    · next hboth =>
      obtain ⟨hheader,htarget⟩ := not_or.mp hboth
      cases hform : normalForm host resolveLinks header with
      | error found =>
        rw [hform] at h
        cases h
        obtain ⟨⟨run,rfl⟩,hunlookable⟩ := normalForm_eq_error hh hp hform
        exact ⟨⟨run,rfl⟩,hne,hheader,htarget,.inl hunlookable⟩
      | ok form =>
        cases hother : normalForm host resolveLinks target with
        | error found =>
          rw [hform,hother] at h
          cases h
          obtain ⟨⟨run,rfl⟩,hunlookable⟩ := normalForm_eq_error hh ht hother
          exact ⟨⟨run,rfl⟩,hne,hheader,htarget,.inr hunlookable⟩
        | ok other =>
          rw [hform,hother] at h
          cases h

theorem names_target (host : Host) (resolveLinks : Bool) (target : Text α) :
    names host resolveLinks target target = .ok true := by
  rw [names,if_pos rfl]

theorem not_unlookable_of_writable {resolveLinks : Bool} (h : Writable path) :
    ¬ Unlookable resolveLinks path := by
  have htrim : Writable path.trim := fun c hc => h c (mem_of_mem_trim hc)
  rintro (⟨-,hnot⟩ | ⟨-,hnot⟩)
  · exact hnot fun c hc => htrim c (List.mem_of_mem_tail ((List.takeWhile_sublist _).mem hc))
  · exact hnot htrim

theorem not_incomparable_of_writable {resolveLinks : Bool} {target header : Text α}
    (ht : Writable target) (hp : Writable header) : ¬ Incomparable resolveLinks target header := by
  rintro ⟨-,-,-,hunlookable | hunlookable⟩
  · exact not_unlookable_of_writable hp hunlookable
  · exact not_unlookable_of_writable ht hunlookable

end Forms

section Characters

theorem nameFault?_char {position : Nat} {name : Text} :
    nameFault? position name = if null ∈ name then some .embeddedNull else none := by
  rw [nameFault?,unwritableFrom_eq_none_iff.mpr (writable_char name)]
  rfl

theorem normalForm_of_nullFree {path : Text} (hh : host.NullFree) (resolveLinks : Bool)
    (hp : null ∉ path) : ∃ form, normalForm host resolveLinks path = .ok form := by
  cases h : normalForm host resolveLinks path with
  | ok form => exact ⟨form,rfl⟩
  | error fault =>
    exact absurd (normalForm_eq_error hh hp h).2 (not_unlookable_of_writable (writable_char path))

theorem names_of_nullFree {target header : Text} (hh : host.NullFree) (resolveLinks : Bool)
    (ht : null ∉ target) (hp : null ∉ header) :
    ∃ answer, names host resolveLinks target header = .ok answer := by
  cases h : names host resolveLinks target header with
  | ok answer => exact ⟨answer,rfl⟩
  | error fault =>
    exact absurd (names_eq_error hh ht hp h).2
      (not_incomparable_of_writable (writable_char target) (writable_char header))

end Characters

end Path

theorem FileTree.exists_of_linkTarget? {files : FileTree} {place : Place} {target : Text}
    (h : files.linkTarget? place = some target) : ∃ e ∈ files.entries, e.2 = .link target := by
  unfold linkTarget? entry? at h
  split at h
  · next found he =>
    obtain rfl : found = target := Option.some.inj h
    split at he
    · cases he
    · obtain ⟨e,hfind,htarget⟩ := Option.map_eq_some_iff.mp he
      exact ⟨e,List.mem_of_find?_eq_some hfind,htarget⟩
  · cases h

theorem Host.nullFree_of_forall {host : Host}
    (hlinks : ∀ e ∈ host.files.entries, ∀ target, e.2 = .link target → null ∉ target)
    (henvironment : ∀ v ∈ host.environment, null ∉ v.2) (hhomes : ∀ h ∈ host.homes, null ∉ h.2) :
    host.NullFree := by
  have mem_of_lookup {name value : Text} {listed : List (Text × Text)}
      (h : listed.lookup name = some value) : (name,value) ∈ listed := by
    obtain ⟨before,after,rfl,-⟩ := List.lookup_eq_some_iff.mp h
    simp
  refine ⟨?_,?_,?_⟩
  · intro place target h
    obtain ⟨e,he,htarget⟩ := FileTree.exists_of_linkTarget? h
    exact hlinks e he target htarget
  · intro name value h
    exact henvironment _ (mem_of_lookup h)
  · intro user home h
    exact hhomes _ (mem_of_lookup h)

theorem Host.nullFree_empty : ({} : Host).NullFree :=
  nullFree_of_forall (by simp) (by simp) (by simp)

end FormatEdits
