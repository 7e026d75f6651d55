import FormatEdits.Report
import Mathlib.Data.List.Basic

namespace FormatEdits

variable {α : Type} [Letter α]

namespace Text

theorem ofChar_injective : Function.Injective (ofChar : Char → α) := fun _ _ h => ofChar_inj.mp h

@[simp] theorem lift_nil : (lift [] : Text α) = [] := rfl

@[simp] theorem lift_cons (c : Char) (t : Text) : (lift (c :: t) : Text α) = ofChar c :: lift t :=
  rfl

@[simp] theorem lift_append (s t : Text) : (lift (s ++ t) : Text α) = lift s ++ lift t :=
  List.map_append

@[simp] theorem length_lift (t : Text) : (lift t : Text α).length = t.length := List.length_map _

theorem lift_injective : Function.Injective (lift : Text → Text α) :=
  List.map_injective_iff.mpr ofChar_injective

@[simp] theorem lift_inj {s t : Text} : (lift s : Text α) = lift t ↔ s = t :=
  lift_injective.eq_iff

@[simp] theorem lift_eq_nil {t : Text} : (lift t : Text α) = [] ↔ t = [] := List.map_eq_nil_iff

@[simp] theorem head?_lift {t : Text} {c : Char} :
    (lift t : Text α).head? = some (ofChar c) ↔ t.head? = some c := by
  cases t <;> simp

@[simp] theorem getLast?_lift {t : Text} {c : Char} :
    (lift t : Text α).getLast? = some (ofChar c) ↔ t.getLast? = some c := by
  rw [lift,List.getLast?_map]
  cases t.getLast? <;> simp

@[simp] theorem ofChar_mem_lift {t : Text} {c : Char} : (ofChar c : α) ∈ lift t ↔ c ∈ t :=
  List.mem_map_of_injective ofChar_injective

theorem lift_tail (t : Text) : (lift t.tail : Text α) = (lift t).tail := List.map_tail

theorem lift_dropLast (t : Text) : (lift t.dropLast : Text α) = (lift t).dropLast :=
  List.map_dropLast

section Tests

variable {p : α → Bool} {q : Char → Bool} (h : ∀ c, p (ofChar c) = q c)

include h

theorem takeWhile_lift (t : Text) : (lift t).takeWhile p = lift (t.takeWhile q) := by
  have hp : p ∘ ofChar = q := funext h
  rw [lift,List.takeWhile_map,hp]
  rfl

theorem dropWhile_lift (t : Text) : (lift t).dropWhile p = lift (t.dropWhile q) := by
  have hp : p ∘ ofChar = q := funext h
  rw [lift,List.dropWhile_map,hp]
  rfl

theorem dropFinalWhile_lift (t : Text) : dropFinalWhile p (lift t) = lift (dropFinalWhile q t) := by
  have hreverse : (lift t : Text α).reverse = lift t.reverse := List.map_reverse.symm
  rw [dropFinalWhile,hreverse,dropWhile_lift h]
  exact List.map_reverse.symm

end Tests

theorem isBlank_ofChar (c : Char) : isBlank (ofChar c : α) = isBlank c := by simp [isBlank]

theorem trimStart_lift (t : Text) : trimStart (lift t : Text α) = lift (trimStart t) :=
  dropWhile_lift isBlank_ofChar t

theorem trim_lift (t : Text) : (lift t : Text α).trim = lift t.trim := by
  rw [trim,trimStart_lift,dropFinalWhile_lift isBlank_ofChar]
  rfl

theorem joined_lift (sep : Char) (fs : List Text) :
    joined (ofChar sep) (fs.map lift : List (Text α)) = lift (joined sep fs) := by
  fun_induction joined sep fs with
  | case1 => rfl
  | case2 f => rfl
  | case3 f g fs ih =>
    simp only [List.map_cons,joined] at ih ⊢
    rw [ih]
    simp

variable [DecidableEq α]

theorem dropFinal_lift (mark : Char) (t : Text) :
    dropFinal (ofChar mark) (lift t : Text α) = lift (dropFinal mark t) := by
  simp only [dropFinal,getLast?_lift]
  split
  · exact (lift_dropLast t).symm
  · rfl

theorem fields_lift (sep : Char) (t : Text) :
    fields (ofChar sep) (lift t : Text α) = (fields sep t).map lift := by
  induction t with
  | nil => rfl
  | cons c t ih =>
    simp only [lift_cons,fields,ofChar_inj,ih]
    split
    · rfl
    · cases fields sep t <;> rfl

@[simp] theorem ofChar_beq (c d : Char) : ((ofChar c : α) == ofChar d) = (c == d) := by
  rw [Bool.eq_iff_iff,beq_iff_eq,beq_iff_eq,ofChar_inj]

theorem after?_lift (t opening : Text) :
    (lift t : Text α).after? (lift opening) = (t.after? opening).map lift := by
  have h : (lift opening : Text α).isPrefixOf (lift t) = opening.isPrefixOf t := by
    induction opening generalizing t with
    | nil => rfl
    | cons c opening ih =>
      cases t with
      | nil => rfl
      | cons d t => simp [List.isPrefixOf,ih]
  simp only [after?,h,length_lift]
  split
  · simp [lift]
  · rfl

end Text

variable [DecidableEq α]

namespace Path

section Names

omit [DecidableEq α]

theorem lift_here : (Text.lift here : Text α) = here := rfl

theorem lift_up : (Text.lift up : Text α) = up := rfl

@[simp] theorem lift_eq_here {t : Text} : (Text.lift t : Text α) = here ↔ t = here := by
  rw [← lift_here,Text.lift_inj]

@[simp] theorem lift_eq_up {t : Text} : (Text.lift t : Text α) = up ↔ t = up := by
  rw [← lift_up,Text.lift_inj]

end Names

theorem isAbsolute_lift (path : Text) : isAbsolute (Text.lift path : Text α) = isAbsolute path :=
  decide_eq_decide.mpr Text.head?_lift

theorem join_lift (base path : Text) :
    join (Text.lift base) (Text.lift path : Text α) = Text.lift (join base path) := by
  have hlast : (Text.lift base : Text α).getLast? = some slash ↔ base.getLast? = some slash :=
    Text.getLast?_lift
  simp only [join,isAbsolute_lift,Text.lift_eq_nil,hlast,apply_ite Text.lift,Text.lift_append,
    Text.lift_cons]
  rfl

theorem rootOf_lift (path : Text) : rootOf (Text.lift path : Text α) = Text.lift (rootOf path) := by
  have h (n : Nat) : (Text.lift path : Text α)[n]? = some slash ↔ path[n]? = some slash := by
    rw [Text.lift,List.getElem?_map]
    cases path[n]? <;> simp [slash]
  simp only [rootOf,ne_eq,h,apply_ite Text.lift]
  rfl

theorem pushName_lift (rooted : Bool) (stack : List Text) (name : Text) :
    pushName rooted (stack.map Text.lift) (Text.lift name : Text α) =
      (pushName rooted stack name).map Text.lift := by
  simp only [pushName,Text.lift_eq_nil,lift_eq_here,lift_eq_up,apply_ite (List.map Text.lift)]
  cases stack with
  | nil => cases rooted <;> rfl
  | cons top below => simp only [List.map_cons,lift_eq_up,apply_ite (List.map Text.lift),lift_up]

theorem normalNames_lift (rooted : Bool) (names : List Text) :
    normalNames rooted (names.map Text.lift : List (Text α)) =
      (normalNames rooted names).map Text.lift := by
  have h (stack : List Text) :
      (names.map Text.lift : List (Text α)).foldl (pushName rooted) (stack.map Text.lift) =
        (names.foldl (pushName rooted) stack).map Text.lift := by
    induction names generalizing stack with
    | nil => rfl
    | cons name names ih => rw [List.map_cons,List.foldl_cons,pushName_lift,ih,List.foldl_cons]
  rw [normalNames,normalNames,List.map_reverse,← h []]
  rfl

theorem normal_lift (path : Text) : normal (Text.lift path : Text α) = Text.lift (normal path) := by
  have hroot : decide (rootOf (Text.lift path : Text α) ≠ []) = decide (rootOf path ≠ []) := by
    rw [rootOf_lift]
    exact decide_eq_decide.mpr (not_congr Text.lift_eq_nil)
  have hform : rootOf (Text.lift path : Text α) ++ Text.joined slash
      (normalNames (rootOf (Text.lift path : Text α) ≠ []) ((Text.lift path).fields slash)) =
        Text.lift (rootOf path ++
          Text.joined slash (normalNames (rootOf path ≠ []) (path.fields slash))) := by
    rw [hroot,slash,Text.fields_lift,normalNames_lift,Text.joined_lift,rootOf_lift,
      Text.lift_append]
    rfl
  rw [normal,normal,hform]
  cases rootOf path ++ Text.joined slash (normalNames (rootOf path ≠ []) (path.fields slash)) with
  | nil => rfl
  | cons c form => rfl

omit [DecidableEq α] in
theorem ofPlace_lift (place : Place) : (ofPlace place : Text α) = Text.lift (ofPlace place) := by
  have h : (place.map Text.lift : List Text) = place :=
    (List.map_congr_left fun name _ => Text.lift_char name).trans (List.map_id place)
  rw [ofPlace,ofPlace,h,Text.lift_cons,← Text.joined_lift]
  rfl

theorem absolute_lift (directory : Place) (path : Text) :
    absolute directory (Text.lift path : Text α) = Text.lift (absolute directory path) := by
  rw [absolute,absolute,isAbsolute_lift,ofPlace_lift,join_lift,← normal_lift,apply_ite Text.lift]

section Lookups

omit [DecidableEq α]

theorem unwritableFrom_lift (position : Nat) (name : Text) :
    unwritableFrom position (Text.lift name : Text α) = none := by
  induction name generalizing position with
  | nil => rfl
  | cons c r ih =>
    rw [Text.lift_cons,unwritableFrom,Letter.surrogate?_ofChar]
    exact ih (position + 1)

theorem known?_lift (name : Text) : known? (Text.lift name : Text α) = some name := by
  rw [known?,Text.chars?_lift]

theorem underHome_lift [DecidableEq α] (home rest : Text) :
    underHome (Text.lift home) (Text.lift rest : Text α) = Text.lift (underHome home rest) := by
  have h (c : Char) : ((ofChar c : α) == slash) = (c == slash) := Text.ofChar_beq c '/'
  rw [underHome,underHome,Text.dropFinalWhile_lift h,← Text.lift_append]
  cases Text.dropFinalWhile (· == slash) home ++ rest <;> rfl

end Lookups

theorem nameFault?_lift (position : Nat) (name : Text) :
    nameFault? position (Text.lift name : Text α) = nameFault? position name := by
  have hname : (name : Text) = Text.lift name := (Text.lift_char name).symm
  conv_rhs => rw [hname]
  simp only [nameFault?,unwritableFrom_lift,Text.ofChar_mem_lift]

@[simp] theorem known?_char (name : Text) : known? name = some name := by
  have h := known?_lift (α := Char) name
  rwa [Text.lift_char] at h

theorem expandHome_lift (host : Host) (path : Text) :
    expandHome host (Text.lift path : Text α) = (expandHome host path).map Text.lift := by
  have htilde : (Text.lift path : Text α).head? = some (ofChar '~') ↔
      path.head? = some (ofChar '~') := Text.head?_lift
  have hslash (c : Char) : decide ((ofChar c : α) ≠ slash) = decide (c ≠ slash) :=
    decide_eq_decide.mpr (not_congr Text.ofChar_inj)
  have huser := Text.takeWhile_lift (p := fun c => decide (c ≠ slash))
    (q := fun c => decide (c ≠ slash)) hslash path.tail
  have hrest := Text.dropWhile_lift (p := fun c => decide (c ≠ slash))
    (q := fun c => decide (c ≠ slash)) hslash path.tail
  rw [expandHome,expandHome]
  simp only [htilde,← Text.lift_tail,huser,hrest,nameFault?_lift,Text.lift_eq_nil,
    known?_lift,known?_char]
  generalize path.tail.takeWhile (fun c => decide (c ≠ slash)) = user
  generalize path.tail.dropWhile (fun c => decide (c ≠ slash)) = rest
  split
  · cases nameFault? 0 user with
    | some fault => rfl
    | none =>
      simp only [Except.map]
      generalize (if user = [] then host.valueOf? "HOME".toList
        else (some user).bind fun user => host.homes.lookup user) = home
      cases home with
      | some home =>
        have hhome : (Text.lift home : Text) = home := Text.lift_char home
        exact congrArg Except.ok (by simp only [hhome,underHome_lift])
      | none => rfl
  · rfl

/-- A walked path of characters among walked paths of any letters. -/
def Walked.lift (w : Walked) : Walked α := ⟨w.rooted,w.ups,w.names.map Text.lift⟩

namespace Walked

omit [DecidableEq α]

theorem lift_injective : Function.Injective (Walked.lift : Walked → Walked α) := by
  rintro ⟨rooted,ups,names⟩ ⟨rooted',ups',names'⟩ h
  obtain ⟨hrooted,hups,hnames⟩ := Walked.mk.inj h
  exact Walked.mk.injEq .. ▸ ⟨hrooted,hups,List.map_injective_iff.mpr Text.lift_injective hnames⟩

theorem text_lift (w : Walked) : (w.lift : Walked α).text = Text.lift w.text := by
  have hnames : (List.replicate w.ups up ++ w.names.map Text.lift : List (Text α)) =
      (List.replicate w.ups up ++ w.names).map Text.lift := by
    rw [List.map_append,List.map_replicate,lift_up]
  rw [text,text,Text.lift_append,apply_ite Text.lift]
  simp only [lift,hnames,slash,Text.joined_lift]
  rfl

theorem child_lift (w : Walked) (name : Text) :
    (w.lift : Walked α).child (Text.lift name) = (w.child name).lift := by
  simp [child,lift]

theorem parent_lift (w : Walked) : (w.lift : Walked α).parent = w.parent.lift := by
  obtain ⟨rooted,ups,names⟩ := w
  cases names with
  | nil => cases rooted <;> rfl
  | cons name names => simp [parent,lift,List.map_dropLast]

theorem linkTarget?_lift (host : Host) (w : Walked) :
    (w.lift : Walked α).linkTarget? host = (w.linkTarget? host).map Text.lift := by
  have hnames : (w.names.map Text.lift : List (Text α)).mapM known? = w.names.mapM known? := by
    induction w.names with
    | nil => rfl
    | cons name names ih =>
      rw [List.map_cons,List.mapM_cons,List.mapM_cons,known?_lift,known?_char,ih]
  have hplace : (w.lift : Walked α).place? host.directory = w.place? host.directory :=
    congrArg (Option.map _) hnames
  rw [linkTarget?,linkTarget?,hplace]
  cases (w.place? host.directory).bind host.files.linkTarget? with
  | none => rfl
  | some target => simp

end Walked

def Met.lift (met : Met) : Met α := met.map fun m => (m.1.lift,m.2.map Walked.lift)

def Halt.lift : Halt → Halt α
  | .cycle path => .cycle (Text.lift path)
  | .refused fault => .refused fault

/-- The outcome of a walk over characters, among those over any letters. -/
def liftOutcome : Except Halt (Walked × Met) → Except (Halt α) (Walked α × Met α)
  | .ok (w,met) => .ok (w.lift,Met.lift met)
  | .error halt => .error halt.lift

theorem Halt.before_lift (rest : List Text) (halt : Halt) :
    (halt.lift : Halt α).before (rest.map Text.lift) = (halt.before rest).lift := by
  cases halt with
  | refused => rfl
  | cycle path =>
    rw [lift,before,slash,Text.joined_lift,join_lift]
    rfl

theorem Met.lookup_lift (met : Met) (w : Walked) :
    (Met.lift met : Met α).lookup w.lift = (met.lookup w).map (·.map Walked.lift) := by
  induction met with
  | nil => rfl
  | cons m met ih =>
    obtain ⟨key,goal⟩ := m
    have h : ((w.lift : Walked α) == key.lift) = (w == key) := by
      rw [Bool.eq_iff_iff,beq_iff_eq,beq_iff_eq,Walked.lift_injective.eq_iff]
    have hlift : (Met.lift ((key,goal) :: met) : Met α) =
        (key.lift,goal.map Walked.lift) :: Met.lift met := rfl
    rw [hlift,List.lookup_cons,List.lookup_cons,h,ih]
    cases w == key <;> rfl

theorem walk_lift (host : Host)
    {enter : Walked → Text → Met → Except Halt (Walked × Met)}
    {enter' : Walked α → Text α → Met α → Except (Halt α) (Walked α × Met α)}
    (henter : ∀ w target met,
      enter' w.lift (Text.lift target) (Met.lift met) = liftOutcome (enter w target met))
    (w : Walked) (met : Met) (names : List Text) :
    walk host enter' w.lift (Met.lift met) (names.map Text.lift) =
      liftOutcome (walk host enter w met names) := by
  induction names generalizing w met with
  | nil => rfl
  | cons name rest ih =>
    simp only [List.map_cons,walk,Text.lift_eq_nil,lift_eq_here,lift_eq_up,Walked.parent_lift,
      Walked.child_lift,Walked.text_lift,Text.length_lift,nameFault?_lift,
      Walked.linkTarget?_lift,Met.lookup_lift]
    split
    · exact ih w met
    · split
      · exact ih w.parent met
      · cases nameFault? ((w.child name).text.length - name.length) name with
        | some fault => rfl
        | none =>
          cases (w.child name).linkTarget? host with
          | none => exact ih (w.child name) met
          | some target =>
            rcases met.lookup (w.child name) with _ | _ | goal
            · have hmet : ((w.child name).lift,none) :: Met.lift met =
                  (Met.lift ((w.child name,none) :: met) : Met α) := rfl
              simp only [Option.map_none,Option.map_some,hmet,henter]
              rcases enter w target ((w.child name,none) :: met) with halt | ⟨goal,met'⟩
              · exact congrArg Except.error (Halt.before_lift rest halt)
              · exact ih goal ((w.child name,some goal) :: met')
            · exact congrArg Except.error (Halt.before_lift rest (.cycle (w.child name).text))
            · exact ih goal met

theorem start_lift (path : Text) (w : Walked) :
    start (Text.lift path : Text α) w.lift = (start path w).lift := by
  rw [start,start,isAbsolute_lift,apply_ite Walked.lift]
  rfl

theorem walkLinks_lift (host : Host) (depth : Nat) (w : Walked) (target : Text) (met : Met) :
    walkLinks host depth (w.lift : Walked α) (Text.lift target) (Met.lift met) =
      liftOutcome (walkLinks host depth w target met) := by
  induction depth generalizing w target met with
  | zero =>
    rw [walkLinks,walkLinks,Walked.text_lift,join_lift]
    rfl
  | succ depth ih =>
    rw [walkLinks,walkLinks,start_lift,slash,Text.fields_lift]
    exact walk_lift host ih _ _ _

theorem resolved_lift (host : Host) (path : Text) :
    resolved host (Text.lift path : Text α) = (resolved host path).map Text.lift := by
  have h := walk_lift host (walkLinks_lift (α := α) host (linkDepth host))
    (start path {}) [] (path.fields slash)
  have hstart : start (Text.lift path : Text α) {} = (start path {}).lift := start_lift path {}
  have hfields : (Text.lift path : Text α).fields slash = (path.fields slash).map Text.lift :=
    Text.fields_lift '/' path
  have hnil : ([] : Met α) = Met.lift [] := rfl
  rw [resolved,resolved,hstart,hfields,hnil,h]
  rcases walk host (walkLinks host (linkDepth host)) (start path {}) [] (path.fields slash) with
    halt | ⟨w,met⟩
  · cases halt with
    | cycle path => exact congrArg Except.ok (absolute_lift host.directory path)
    | refused fault => rfl
  · simp only [liftOutcome,Walked.text_lift,absolute_lift]
    rfl

theorem normalForm_lift (host : Host) (resolveLinks : Bool) (path : Text) :
    normalForm host resolveLinks (Text.lift path : Text α) =
      (normalForm host resolveLinks path).map Text.lift := by
  rw [normalForm,normalForm,Text.trim_lift]
  cases path.trim with
  | nil => rfl
  | cons c path =>
    have h := expandHome_lift (α := α) host (c :: path)
    rw [Text.lift_cons] at h ⊢
    simp only [h]
    cases expandHome host (c :: path) with
    | error fault => rfl
    | ok path =>
      cases resolveLinks with
      | true => exact resolved_lift host path
      | false => exact congrArg Except.ok (absolute_lift host.directory path)

theorem same_lift (host : Host) (resolveLinks : Bool) (a b : Text) :
    same host resolveLinks (Text.lift a : Text α) (Text.lift b) = same host resolveLinks a b := by
  simp only [same,Text.lift_eq_nil,normalForm_lift]
  split
  · rfl
  · cases normalForm host resolveLinks a with
    | error fault => rfl
    | ok a =>
      cases normalForm host resolveLinks b with
      | error fault => rfl
      | ok b => exact congrArg Except.ok (decide_eq_decide.mpr Text.lift_inj)

theorem names_lift (host : Host) (resolveLinks : Bool) (target header : Text) :
    names host resolveLinks (Text.lift target : Text α) (Text.lift header) =
      names host resolveLinks target header := by
  simp only [names,Text.lift_inj,same_lift]

end Path

end FormatEdits
