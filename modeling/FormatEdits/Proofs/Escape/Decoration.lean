import FormatEdits.Proofs.Escape.Fixpoint
import FormatEdits.Proofs.Text.Fields
import FormatEdits.Report

namespace FormatEdits.Escape

/-- No character of the text introduces an escape sequence. -/
def Clean (t : Text) : Prop := ∀ c ∈ t, isIntroducer c = false

instance Clean.decidable (t : Text) : Decidable (Clean t) :=
  List.decidableBAll (fun c => isIntroducer c = false) t

theorem Clean.tail {c : Char} {t : Text} (h : Clean (c :: t)) : Clean t :=
  fun d hd => h d (List.mem_cons_of_mem _ hd)

theorem rest?_of_clean {t : Text} (h : Clean t) : rest? t = none := by
  cases t with
  | nil => rfl
  | cons c r => simp [rest?,h c List.mem_cons_self]

theorem sweep_of_clean {t : Text} (h : Clean t) : sweep t = t := by
  fun_induction sweep t with
  | case1 t rest hr _ _ =>
    rw [rest?_of_clean h] at hr
    cases hr
  | case2 => rfl
  | case3 c r _ ih => rw [ih h.tail]

theorem strip_of_clean {t : Text} (h : Clean t) : strip t = t := by
  rw [strip,dif_pos (sweep_of_clean h)]

/-- A text, and the same text with sequences put in anywhere, none of which ends in a digit. -/
inductive Decorated : Text → Text → Prop
  | nil : Decorated [] []
  | char (c : Char) {plain decorated : Text} (tail : Decorated plain decorated) :
      Decorated (c :: plain) (c :: decorated)
  | sequence (s : Sequence) {plain decorated : Text} (hd : isDigit s.terminator = false)
      (tail : Decorated plain decorated) : Decorated plain (s.text ++ decorated)

theorem Decorated.append_left (front : Text) {plain decorated : Text}
    (h : Decorated plain decorated) : Decorated (front ++ plain) (front ++ decorated) := by
  induction front with
  | nil => exact h
  | cons c front ih => exact .char c ih

theorem Clean.rest?_cons {c : Char} {t : Text} (h : Clean (c :: t)) (r : Text) :
    rest? (c :: r) = none := by
  simp [rest?,h c List.mem_cons_self]

/-- One sweep takes out every sequence that was put in, and passes over every other character. -/
theorem sweep_of_decorated {plain decorated : Text} (h : Decorated plain decorated)
    (hclean : Clean plain) : sweep decorated = plain := by
  induction h with
  | nil => exact sweep_of_clean hclean
  | char c _ ih => rw [sweep_cons (hclean.rest?_cons _),ih hclean.tail]
  | sequence s hd _ ih => rw [sweep_of_rest? (s.rest?_text_append hd _),ih hclean]

/-- Sequences that are put into a text without introducers leave it as it was, and with it what a
report is interpreted as. -/
theorem strip_and_interpret_of_decorated {plain decorated : Text} (h : Decorated plain decorated)
    (hclean : Clean plain) :
    strip decorated = plain ∧ ∀ (host : Host) (resolveLinks : Bool) (target : Text),
      Report.interpretColoured host resolveLinks target decorated =
        Report.interpret host resolveLinks target plain := by
  have hstrip : strip decorated = plain := by
    rw [← strip_sweep,sweep_of_decorated h hclean,strip_of_clean hclean]
  refine ⟨hstrip,?_⟩
  intro host resolveLinks target
  rw [Report.interpretColoured,hstrip]

/-- Two sequences back to back between the digits of a number, of which one has an empty group, and
another in front of a text that looks like the end of one. -/
theorem strip_and_interpret_of_decorated_number :
    let plain := "Diff of a:\nDiff at line 12\n+;3m".toList
    let bold := ['\x1b','[','1','m']
    let reset := ['\x9b','0',';',';','1','2','K']
    let decorated := "Diff of a:\nDiff at line 1".toList ++ (bold ++ (reset ++
      ("2\n+".toList ++ (bold ++ ";3m".toList))))
    (Decorated plain decorated ∧ Clean plain) ∧ strip decorated = plain ∧
      Report.interpretColoured {} false "a".toList decorated =
        .ok [⟨11,11,0,some 0,";3m".toList⟩] := by
  intro plain bold reset decorated
  have hone : Parameters (['1'] ++ []) := .some (by decide) (by decide) .nil
  have hgroups : Parameters (['0'] ++ (';' :: ([] ++ (';' :: (['1','2'] ++ []))))) :=
    .some (by decide) (by decide) (.cons (by decide) (.cons (by decide) .nil))
  let boldParts : Sequence :=
    ⟨'\x1b',['['],['1'],'m',rfl,List.forall_mem_singleton.mpr rfl,hone,rfl⟩
  let resetParts : Sequence := ⟨'\x9b',[],['0',';',';','1','2'],'K',rfl,nofun,hgroups,rfl⟩
  have hend : Decorated ";3m".toList ";3m".toList := .append_left ";3m".toList .nil
  have hline : Decorated "2\n+;3m".toList ("2\n+".toList ++ (bold ++ ";3m".toList)) :=
    .append_left "2\n+".toList (.sequence boldParts rfl hend)
  have hdecorated : Decorated plain decorated :=
    .append_left "Diff of a:\nDiff at line 1".toList
      (.sequence boldParts rfl (.sequence resetParts rfl hline))
  have hclean : Clean plain := by decide
  obtain ⟨hstrip,hinterpret⟩ := strip_and_interpret_of_decorated hdecorated hclean
  exact ⟨⟨hdecorated,hclean⟩,hstrip,hinterpret {} false "a".toList⟩

/-- No escape sequence has the character in it. -/
def Outside (c : Char) : Prop := ∀ s : Sequence, c ∉ s.text

section Alphabet

theorem not_mem_of_digitGroup {c : Char} (hc : Foreign c) {g : Text} (hg : DigitGroup g) :
    c ∉ g := by
  intro hmem
  have hdigit := hg.digits c hmem
  rw [hc.not_isDigit] at hdigit
  cases hdigit

theorem not_mem_of_digitGroups {c : Char} (hc : Foreign c) {gs : Text} (hgs : DigitGroups gs) :
    c ∉ gs := by
  induction hgs with
  | nil => simp
  | cons hg _ ih => simp [hc.ne_semicolon,not_mem_of_digitGroup hc hg,ih]

theorem not_mem_of_parameters {c : Char} (hc : Foreign c) {ps : Text} (hps : Parameters ps) :
    c ∉ ps := by
  cases hps with
  | none => simp
  | some hg _ hgs => simp [not_mem_of_digitGroup hc hg,not_mem_of_digitGroups hc hgs]

theorem Foreign.outside {c : Char} (hc : Foreign c) : Outside c := by
  intro s hmem
  have hne {d : Char} {p : Char → Bool} (hp : p c = false) (hd : p d = true) : c ≠ d := by
    rintro rfl
    rw [hp] at hd
    cases hd
  have hleads : c ∉ s.leads := fun h => hne hc.lead (s.lead c h) rfl
  have hparameters := not_mem_of_parameters hc s.numeric
  simp only [Sequence.text,List.mem_cons,List.mem_append,List.not_mem_nil,or_false] at hmem
  rcases hmem with h | h | h | h
  · exact hne hc.introducer s.introduces h
  · exact hleads h
  · exact hparameters h
  · exact hne hc.terminator s.terminates h

theorem Outside.foreign {c : Char} (hc : Outside c) : Foreign c := by
  have hintroduces : isIntroducer '\x1b' = true := by decide
  have hterminates : isTerminator 'm' = true := by decide
  refine ⟨?_,?_,?_⟩
  · refine Bool.eq_false_iff.mpr fun h => ?_
    exact hc ⟨c,[],[],'m',h,by simp,.none,hterminates⟩ (by simp [Sequence.text])
  · refine Bool.eq_false_iff.mpr fun h => ?_
    exact hc ⟨'\x1b',[c],[],'m',hintroduces,by simpa using h,.none,hterminates⟩
      (by simp [Sequence.text])
  · refine Bool.eq_false_iff.mpr fun h => ?_
    exact hc ⟨'\x1b',[],[],c,hintroduces,by simp,.none,h⟩ (by simp [Sequence.text])

theorem outside_iff_foreign {c : Char} : Outside c ↔ Foreign c := ⟨Outside.foreign,Foreign.outside⟩

instance Foreign.decidable (c : Char) : Decidable (Foreign c) :=
  decidable_of_iff (isIntroducer c = false ∧ isLead c = false ∧ isTerminator c = false)
    ⟨fun h => ⟨h.1,h.2.1,h.2.2⟩,fun h => ⟨h.introducer,h.lead,h.terminator⟩⟩

instance Outside.decidable (c : Char) : Decidable (Outside c) :=
  decidable_of_iff (Foreign c) outside_iff_foreign.symm

end Alphabet

section Separators

variable {c : Char} (hc : Foreign c)

include hc

theorem strip_joined (fs : List Text) :
    strip (Text.joined c fs) = Text.joined c (fs.map strip) := by
  fun_induction Text.joined c fs with
  | case1 => exact strip_of_clean (by simp [Clean])
  | case2 f => rfl
  | case3 f g fs ih => rw [strip_append_cons hc,ih]; rfl

theorem fields_strip (t : Text) :
    Text.fields c (strip t) = (Text.fields c t).map strip := by
  have hnone : ∀ f ∈ (Text.fields c t).map strip, c ∉ f := by
    intro f hf hmem
    obtain ⟨g,hg,rfl⟩ := List.mem_map.mp hf
    exact Text.not_mem_of_mem_fields hg ((strip_sublist g).mem hmem)
  have hjoined := strip_joined hc (Text.fields c t)
  rw [Text.joined_fields] at hjoined
  rw [hjoined,Text.fields_joined (by simp [Text.fields_ne_nil]) hnone]

end Separators

section Order

/-- The characters of a text that no sequence takes with it. -/
def outsiders (t : Text) : Text := t.filter fun c => Outside c

theorem outsiders_sequence (s : Sequence) : outsiders s.text = [] :=
  List.filter_eq_nil_iff.mpr fun _ hc h => of_decide_eq_true h s hc

theorem outsiders_sweep (t : Text) : outsiders (sweep t) = outsiders t := by
  fun_induction sweep t with
  | case1 t rest hr _ ih =>
    obtain ⟨s,rfl⟩ := exists_of_rest? hr
    have hs : s.text.filter (fun c => Outside c) = [] := outsiders_sequence s
    rw [ih,outsiders,outsiders,List.filter_append,hs,List.nil_append]
  | case2 => rfl
  | case3 c r _ ih =>
    rw [outsiders,outsiders,List.filter_cons,List.filter_cons]
    split
    · exact congrArg (c :: ·) ih
    · exact ih

theorem outsiders_strip (t : Text) : outsiders (strip t) = outsiders t := by
  fun_induction strip t with
  | case1 => rfl
  | case2 t _ _ ih => rw [ih,outsiders_sweep]

end Order

/-- A character that stands in no sequence keeps the texts on its two sides apart: each of them is
stripped as if the other were not there, however many sweeps either takes. So a report is stripped
line by line, and of all such characters none is lost, added or moved. -/
theorem strip_keeps_outsiders :
    (∀ c ∈ ['\n','\r',' ','+','-','⏎'], Outside c) ∧
      (∀ c, Outside c → ∀ u v, strip (u ++ c :: v) = strip u ++ c :: strip v) ∧
      (∀ report : Text, Report.lines (strip report) = (Report.lines report).map strip) ∧
      ∀ t, outsiders (strip t) = outsiders t := by
  refine ⟨?_,fun c hc => strip_append_cons hc.foreign,fields_strip foreign_lineFeed,
    outsiders_strip⟩
  intro c hc
  simp only [List.mem_cons,List.not_mem_nil,or_false] at hc
  rcases hc with rfl | rfl | rfl | rfl | rfl | rfl <;> decide

/-- The text in front takes two sweeps, the one behind takes one. -/
theorem strip_keeps_outsiders_of_returnSymbol :
    Outside '⏎' ∧ strip ("+\x1b\x1b[1mm".toList ++ '⏎' :: "\x1b[0mx".toList) = ['+','⏎','x'] := by
  have hc : Outside '⏎' := by decide
  have hfront : strip "+\x1b\x1b[1mm".toList = ['+'] := by cbv
  have hbehind : strip "\x1b[0mx".toList = ['x'] := by cbv
  obtain ⟨-,hdivides,-,-⟩ := strip_keeps_outsiders
  refine ⟨hc,?_⟩
  rw [hdivides '⏎' hc,hfront,hbehind]
  rfl

end FormatEdits.Escape
