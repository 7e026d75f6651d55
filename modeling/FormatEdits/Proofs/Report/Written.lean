import FormatEdits.Proofs.Text.Fields
import FormatEdits.Report

namespace FormatEdits.Report

section Marks

variable {α : Type} [DecidableEq α]

theorem after?_eq_some_iff {t opening rest : Text α} :
    t.after? opening = some rest ↔ t = opening ++ rest := by
  constructor
  · intro h
    simp only [Text.after?,Option.ite_none_right_eq_some,Option.some.injEq] at h
    obtain ⟨hopening,rfl⟩ := h
    obtain ⟨rest,rfl⟩ := List.isPrefixOf_iff_prefix.mp hopening
    rw [List.drop_left]
  · rintro rfl
    simp [Text.after?]

theorem after?_append (opening rest : Text α) : (opening ++ rest).after? opening = some rest :=
  after?_eq_some_iff.mpr rfl

variable [Letter α]

theorem after?_fileHeaderMark (t : Text α) : (hunkStartMark ++ t).after? fileHeaderMark = none := by
  simp [Text.after?,hunkStartMark,fileHeaderMark,Text.lift]

omit [DecidableEq α] in
/-- What a run of digits announces, behind any blanks and in front of anything but another digit. -/
theorem hunkStartOf_digits {blanks ds after : Text α} (hb : ∀ c ∈ blanks, Text.isBlank c = true)
    (hd : ∀ c ∈ ds, Text.isDecimalDigit c = true)
    (ha : ∀ c ∈ after.head?, Text.isDecimalDigit c = false) (hne : ds ≠ []) :
    hunkStartOf (blanks ++ (ds ++ after)) =
      if Text.digitLimit < ds.length then .error (.overlongNumber ds.length)
      else .ok (.hunkStart (Text.decimalValue ds)) := by
  unfold hunkStartOf
  simp only [Text.trimStart_digits hb hd hne,Text.takeWhile_digits hd ha]
  rw [if_neg hne]

end Marks

/-- A line as it stands in a report: a carriage return may follow it. -/
def Written (line shown : Text) : Prop := shown = line ∨ shown = line ++ ['\r']

/-- Announces what a report says about a file. -/
def headerLine (path : Text) : Text := fileHeaderMark ++ ' ' :: path ++ [':']

/-- Announces a changed stretch that starts at a line. -/
def hunkLine (n : Nat) : Text := hunkStartMark ++ ' ' :: Text.ofNat n

/-- Shows a line that ends in a line feed, behind a marker. -/
def bodyLine (marker : Char) (line : Text) : Text := marker :: line ++ [returnSymbol]

theorem Written.dropFinal {line shown : Text} (h : Written line shown)
    (hl : line.getLast? ≠ some '\r') : Text.dropFinal '\r' shown = line := by
  rcases h with rfl | rfl
  · rw [Text.dropFinal,if_neg hl]
  · exact Text.dropFinal_concat '\r' line

theorem headerPath_written (path : Text) : headerPath (' ' :: path ++ [':']) = path :=
  Text.dropFinal_concat ':' path

theorem classify_headerLine {path shown : Text} (h : Written (headerLine path) shown) :
    classify shown = .ok (.fileHeader path) := by
  have hlast : (headerLine path).getLast? = some ':' := List.getLast?_concat
  have hd := h.dropFinal (by simp [hlast])
  have ha : (headerLine path).after? fileHeaderMark = some (' ' :: path ++ [':']) := by
    rw [headerLine,List.append_assoc,after?_append]
  simp only [classify,Text.ofChar_char,hd,ha,headerPath_written]

theorem hunkStartOf_ofNat {blanks after : Text} (hb : ∀ c ∈ blanks, Text.isBlank c = true) {n : Nat}
    (ha : ∀ c ∈ after.head?, Text.isDecimalDigit c = false) :
    hunkStartOf (blanks ++ (Text.ofNat n ++ after)) =
      if Text.digitLimit < (Text.ofNat n).length then .error (.overlongNumber (Text.ofNat n).length)
      else .ok (.hunkStart n) := by
  have hd := Text.isDecimalDigit_of_mem_ofNat (n := n)
  rw [hunkStartOf_digits hb hd ha (Text.ofNat_ne_nil n),Text.decimalValue_ofNat]

/-- What stands behind a number may lose a carriage return at its end, and still does not go on with
digits. -/
theorem dropFinal_numbered {blanks after shown : Text} {n : Nat}
    (ha : ∀ c ∈ after.head?, Text.isDecimalDigit c = false)
    (h : Written (hunkStartMark ++ (blanks ++ (Text.ofNat n ++ after))) shown) :
    ∃ rest, Text.dropFinal '\r' shown = hunkStartMark ++ (blanks ++ (Text.ofNat n ++ rest)) ∧
      ∀ c ∈ rest.head?, Text.isDecimalDigit c = false := by
  rcases h with rfl | rfl
  · have hdigit : (Text.ofNat n).getLast? ≠ some '\r' := fun hlast =>
      absurd (Text.isDigit_of_mem_ofNat (List.mem_of_getLast? hlast)) (by decide)
    have hne := Text.ofNat_ne_nil n
    refine ⟨Text.dropFinal '\r' after,?_,fun c hc => ha c (Text.mem_head?_of_dropFinal hc)⟩
    rw [Text.dropFinal_append (by simp [hne]),Text.dropFinal_append (by simp [hne]),
      Text.dropFinal_append fun _ => hdigit]
  · exact ⟨after,Text.dropFinal_concat '\r' _,ha⟩

theorem classify_numbered {blanks after shown : Text} {n : Nat}
    (hb : ∀ c ∈ blanks, Text.isBlank c = true)
    (ha : ∀ c ∈ after.head?, Text.isDecimalDigit c = false)
    (h : Written (hunkStartMark ++ (blanks ++ (Text.ofNat n ++ after))) shown) :
    classify shown =
      if Text.digitLimit < (Text.ofNat n).length then .error (.overlongNumber (Text.ofNat n).length)
      else .ok (.hunkStart n) := by
  obtain ⟨rest,hd,hrest⟩ := dropFinal_numbered ha h
  simp only [classify,Text.ofChar_char,hd,after?_fileHeaderMark,after?_append]
  exact hunkStartOf_ofNat hb hrest

theorem classify_hunkLine_eq {n : Nat} {shown : Text} (h : Written (hunkLine n) shown) :
    classify shown =
      if Text.digitLimit < (Text.ofNat n).length then .error (.overlongNumber (Text.ofNat n).length)
      else .ok (.hunkStart n) := by
  have hline : hunkLine n = hunkStartMark ++ ([' '] ++ (Text.ofNat n ++ [])) := by simp [hunkLine]
  exact classify_numbered (List.forall_mem_singleton.mpr rfl) (by simp) (hline ▸ h)

theorem classify_hunkLine {n : Nat} {shown : Text} (h : Written (hunkLine n) shown)
    (hn : (Text.ofNat n).length ≤ Text.digitLimit) : classify shown = .ok (.hunkStart n) := by
  rw [classify_hunkLine_eq h,if_neg (Nat.not_lt.mpr hn)]

/-- How a text is shown behind a marker: the return symbol stands for a line feed at its end. What
ends in that symbol itself, or in a carriage return, cannot be shown without a line feed. -/
inductive ShownAs : Text → Text → Prop
  | ended (line : Text) : ShownAs (line ++ ['\n']) (line ++ [returnSymbol])
  | unended {line : Text} (symbol : line.getLast? ≠ some returnSymbol)
      (carriageReturn : line.getLast? ≠ some '\r') : ShownAs line line

section Bodies

variable {text line shown : Text} {marker : Char}

theorem getLast?_cons_ne {c : Char} (hm : marker ≠ c) (h : line.getLast? ≠ some c) :
    (marker :: line).getLast? ≠ some c := by
  cases line with
  | nil => simpa using hm
  | cons d line => rwa [List.getLast?_cons_cons]

theorem ShownAs.getLast?_ne (h : ShownAs text line) : line.getLast? ≠ some '\r' := by
  cases h with
  | ended line =>
    rw [List.getLast?_concat]
    decide
  | unended _ carriageReturn => exact carriageReturn

theorem ShownAs.body_cons (h : ShownAs text line) (hm : marker ≠ returnSymbol) :
    body (marker :: line) = text := by
  cases h with
  | ended line =>
    have hlast : (marker :: (line ++ [returnSymbol])).getLast? = some returnSymbol :=
      List.getLast?_concat (l := marker :: line)
    rw [body,Text.ofChar_char,Text.ofChar_char,if_pos hlast,← List.cons_append,
      List.dropLast_concat,List.tail_cons]
  | unended symbol _ =>
    rw [body,Text.ofChar_char,if_neg (getLast?_cons_ne hm symbol),List.tail_cons]

theorem ShownAs.dropFinal_cons (h : ShownAs text line) (hm : marker ≠ '\r')
    (hw : Written (marker :: line) shown) : Text.dropFinal '\r' shown = marker :: line :=
  hw.dropFinal (getLast?_cons_ne hm h.getLast?_ne)

theorem classify_plus (h : ShownAs text line) (hw : Written ('+' :: line) shown) :
    classify shown = .ok (.added text) := by
  have hbody : body ('+' :: line) = text := h.body_cons (by decide)
  simp only [classify,Text.ofChar_char,h.dropFinal_cons (by decide) hw,← hbody]
  rfl

theorem classify_space (h : ShownAs text line) (hw : Written (' ' :: line) shown) :
    classify shown = .ok (.context text) := by
  have hbody : body (' ' :: line) = text := h.body_cons (by decide)
  simp only [classify,Text.ofChar_char,h.dropFinal_cons (by decide) hw,← hbody]
  rfl

theorem classify_minus (hw : Written ('-' :: line) shown) : classify shown = .ok .removed := by
  obtain ⟨rest,hd⟩ : ∃ rest, Text.dropFinal '\r' shown = '-' :: rest := by
    rcases hw with rfl | rfl
    · exact ⟨_,Text.dropFinal_cons (by decide) line⟩
    · exact ⟨line,Text.dropFinal_concat '\r' ('-' :: line)⟩
  simp only [classify,Text.ofChar_char,hd]
  rfl

theorem classify_added (h : Written (bodyLine '+' line) shown) :
    classify shown = .ok (.added (line ++ ['\n'])) :=
  classify_plus (.ended line) h

theorem classify_removed (h : Written (bodyLine '-' line) shown) : classify shown = .ok .removed :=
  classify_minus h

theorem classify_context (h : Written (bodyLine ' ' line) shown) :
    classify shown = .ok (.context (line ++ ['\n'])) :=
  classify_space (.ended line) h

end Bodies

/-- The lines that show what a report can say. -/
inductive Renders : LineKind → Text → Prop
  | fileHeader (path : Text) : Renders (.fileHeader path) (headerLine path)
  | hunkStart {n : Nat} {blanks after : Text} (blank : ∀ c ∈ blanks, Text.isBlank c = true)
      (digits : (Text.ofNat n).length ≤ Text.digitLimit)
      (ends : ∀ c ∈ after.head?, Text.isDecimalDigit c = false) :
      Renders (.hunkStart n) (hunkStartMark ++ (blanks ++ (Text.ofNat n ++ after)))
  | added {text line : Text} (h : ShownAs text line) : Renders (.added text) ('+' :: line)
  | removed (line : Text) : Renders .removed ('-' :: line)
  | context {text line : Text} (h : ShownAs text line) : Renders (.context text) (' ' :: line)

/-- A line is classified as what it shows, whatever the text in it looks like, and a carriage return
behind it makes no difference. -/
theorem classify_undoes_rendering {kind : LineKind} {line shown : Text} (h : Renders kind line)
    (hw : Written line shown) : classify shown = .ok kind := by
  cases h with
  | fileHeader path => exact classify_headerLine hw
  | hunkStart blank digits ends =>
    rw [classify_numbered blank ends hw,if_neg (Nat.not_lt.mpr digits)]
  | added h => exact classify_plus h hw
  | removed line => exact classify_minus hw
  | context h => exact classify_space h hw

/-- A path that begins with a blank and ends in colons; a number between other blanks and a carriage
return; an empty new line; and a text that looks like a header, and ends in the return symbol and a
carriage return in front of its line feed. -/
theorem classify_undoes_rendering_of_imitations :
    let path := " at line 3::".toList
    let numbered := hunkStartMark ++ (['\t','\u3000'] ++ (Text.ofNat 40 ++ ",2\r".toList))
    let text := "Diff of a.rs:⏎\r".toList
    let shown := ' ' :: (text ++ ['⏎'])
    (Renders (.fileHeader path) (headerLine path) ∧ Renders (.hunkStart 40) numbered ∧
        Renders (.added []) ['+'] ∧ Renders (.context (text ++ ['\n'])) shown) ∧
      classify (headerLine path ++ ['\r']) = .ok (.fileHeader path) ∧
      classify numbered = .ok (.hunkStart 40) ∧
      classify (numbered ++ ['\r']) = .ok (.hunkStart 40) ∧
      classify ['+','\r'] = .ok (.added []) ∧
      classify (shown ++ ['\r']) = .ok (.context (text ++ ['\n'])) := by
  intro path numbered text shown
  have hpath : Renders (.fileHeader path) (headerLine path) := .fileHeader path
  have hblank : ∀ c ∈ ['\t','\u3000'], Text.isBlank c = true :=
    List.forall_mem_cons.mpr ⟨rfl,List.forall_mem_singleton.mpr rfl⟩
  have hnumbered : Renders (.hunkStart 40) numbered :=
    .hunkStart hblank (by decide) (by simp; decide)
  have hempty : Renders (.added []) ['+'] := .added (.unended nofun nofun)
  have hshown : Renders (.context (text ++ ['\n'])) shown := .context (.ended text)
  exact ⟨⟨hpath,hnumbered,hempty,hshown⟩,classify_undoes_rendering hpath (.inr rfl),
    classify_undoes_rendering hnumbered (.inl rfl),classify_undoes_rendering hnumbered (.inr rfl),
    classify_undoes_rendering hempty (.inr rfl),classify_undoes_rendering hshown (.inr rfl)⟩

end FormatEdits.Report
