import FormatEdits.Text.Basic
import Mathlib.Data.List.Basic
import Mathlib.Data.Nat.Basic

namespace FormatEdits.Text

section Separators

variable {α : Type} [DecidableEq α]

/-- Every line with a line feed behind it. -/
def terminated (ls : List Text) : Text := ls.flatMap (· ++ ['\n'])

@[simp] theorem terminated_nil : terminated [] = [] := rfl

@[simp] theorem terminated_cons (l : Text) (ls : List Text) :
    terminated (l :: ls) = l ++ '\n' :: terminated ls := by
  simp [terminated]

@[simp] theorem terminated_append (as bs : List Text) :
    terminated (as ++ bs) = terminated as ++ terminated bs := by
  simp [terminated]

omit [DecidableEq α] in
theorem joined_cons (sep : α) (f : Text α) {fs : List (Text α)} (h : fs ≠ []) :
    joined sep (f :: fs) = f ++ sep :: joined sep fs := by
  cases fs with
  | nil => exact absurd rfl h
  | cons g gs => rfl

theorem joined_append_ne_nil (as : List Text) {bs : List Text} (h : bs ≠ []) :
    joined '\n' (as ++ bs) = terminated as ++ joined '\n' bs := by
  induction as with
  | nil => rfl
  | cons a as ih =>
    rw [List.cons_append,joined_cons _ _ (by simp [h]),ih]
    simp

theorem joined_terminated {ls : List Text} (h : ls ≠ []) :
    joined '\n' ls ++ ['\n'] = terminated ls := by
  induction ls with
  | nil => exact absurd rfl h
  | cons l ls ih =>
    cases ls with
    | nil => simp [joined]
    | cons m ms =>
      rw [joined_cons _ _ (by simp),List.append_assoc,List.cons_append,ih (by simp)]
      simp

/-- Lines that go on behind others, if there are any. -/
def continued (lead : Text) : List Text → Text
  | [] => []
  | l :: ls => lead ++ joined '\n' (l :: ls)

theorem continued_of_ne_nil (lead : Text) {ls : List Text} (h : ls ≠ []) :
    continued lead ls = lead ++ joined '\n' ls := by
  cases ls with
  | nil => exact absurd rfl h
  | cons l ls => rfl

theorem continued_nil_lead (ls : List Text) : continued [] ls = joined '\n' ls := by
  cases ls <;> rfl

theorem head?_continued (ls : List Text) :
    continued ['\n'] ls = [] ∨ (continued ['\n'] ls).head? = some '\n' := by
  cases ls with
  | nil => exact .inl rfl
  | cons l ls => exact .inr rfl

theorem joined_append {as : List Text} (h : as ≠ []) (bs : List Text) :
    joined '\n' (as ++ bs) = joined '\n' as ++ continued ['\n'] bs := by
  cases bs with
  | nil => simp [continued]
  | cons b bs =>
    rw [joined_append_ne_nil as (by simp),← joined_terminated h,List.append_assoc]
    rfl

theorem continued_append (lead : Text) (as : List Text) {bs : List Text} (h : bs ≠ [])
    (cs : List Text) : continued lead (as ++ bs ++ cs) =
      lead ++ terminated as ++ joined '\n' bs ++ continued ['\n'] cs := by
  rw [continued_of_ne_nil lead (by simp [h]),List.append_assoc,
    joined_append_ne_nil as (by simp [h]),joined_append h]
  simp

theorem fields_of_not_mem {sep : α} {t : Text α} (h : sep ∉ t) : fields sep t = [t] := by
  induction t with
  | nil => rfl
  | cons c r ih =>
    obtain ⟨hc,hr⟩ : sep ≠ c ∧ sep ∉ r := by simpa using h
    simp [fields,hc.symm,ih hr]

/-- A separator cuts a text in two, whatever stands on its sides. -/
theorem fields_append_cons (sep : α) (t r : Text α) :
    fields sep (t ++ sep :: r) = fields sep t ++ fields sep r := by
  induction t with
  | nil => simp [fields]
  | cons c t ih =>
    rw [List.cons_append,fields,ih,fields]
    split
    · rfl
    · cases ht : fields sep t with
      | nil => exact absurd ht (fields_ne_nil sep t)
      | cons f fs => rfl

theorem fields_append {sep : α} {f : Text α} (h : sep ∉ f) (r : Text α) :
    fields sep (f ++ sep :: r) = f :: fields sep r := by
  rw [fields_append_cons,fields_of_not_mem h]
  rfl

theorem fields_cons {sep c : α} (h : c ≠ sep) (t : Text α) :
    ∃ f fs, fields sep t = f :: fs ∧ fields sep (c :: t) = (c :: f) :: fs := by
  obtain ⟨f,fs,hf⟩ := List.exists_cons_of_ne_nil (fields_ne_nil sep t)
  exact ⟨f,fs,hf,by rw [fields,if_neg h,hf]⟩

theorem fields_joined {sep : α} {fs : List (Text α)} (h : fs ≠ []) (hs : ∀ f ∈ fs, sep ∉ f) :
    fields sep (joined sep fs) = fs := by
  induction fs with
  | nil => exact absurd rfl h
  | cons f fs ih =>
    have hf : sep ∉ f := hs f List.mem_cons_self
    cases fs with
    | nil => exact fields_of_not_mem hf
    | cons g gs =>
      rw [joined_cons _ _ (by simp),fields_append hf,
        ih (by simp) (fun x hx => hs x (List.mem_cons_of_mem _ hx))]

theorem not_mem_of_mem_fields {sep : α} {f t : Text α} (hf : f ∈ fields sep t) : sep ∉ f := by
  induction t generalizing f with
  | nil => simp_all [fields]
  | cons c r ih =>
    by_cases hc : c = sep
    · rw [fields,if_pos hc] at hf
      rcases List.mem_cons.mp hf with rfl | hf
      · simp
      · exact ih hf
    · obtain ⟨g,gs,hg,hcg⟩ := fields_cons hc r
      rw [hg] at ih
      rw [hcg] at hf
      rcases List.mem_cons.mp hf with rfl | hf
      · simpa [Ne.symm hc] using ih List.mem_cons_self
      · exact ih (List.mem_cons_of_mem _ hf)

theorem mem_of_mem_fields {sep c : α} {f t : Text α} (hf : f ∈ fields sep t) (hc : c ∈ f) :
    c ∈ t := by
  induction t generalizing f with
  | nil => simp_all [fields]
  | cons d r ih =>
    simp only [fields] at hf
    split at hf
    · rcases List.mem_cons.mp hf with rfl | hf
      · simp at hc
      · exact List.mem_cons_of_mem _ (ih hf hc)
    · cases hr : fields sep r with
      | nil => exact absurd hr (fields_ne_nil sep r)
      | cons g gs =>
        rw [hr] at hf ih
        rcases List.mem_cons.mp hf with rfl | hf
        · rcases List.mem_cons.mp hc with rfl | hc
          · exact List.mem_cons_self
          · exact List.mem_cons_of_mem _ (ih List.mem_cons_self hc)
        · exact List.mem_cons_of_mem _ (ih (List.mem_cons_of_mem _ hf) hc)

omit [DecidableEq α] in
theorem mem_joined {sep c : α} (h : c ≠ sep) {fs : List (Text α)} :
    c ∈ joined sep fs ↔ ∃ f ∈ fs, c ∈ f := by
  fun_induction joined sep fs with
  | case1 => simp
  | case2 f => simp
  | case3 f g fs ih => simp [ih,h]

theorem mem_of_mem_dropFinal {mark c : α} {t : Text α} (h : c ∈ dropFinal mark t) : c ∈ t := by
  unfold dropFinal at h
  split at h
  · exact List.dropLast_subset t h
  · exact h

theorem dropFinal_concat (mark : α) (t : Text α) : dropFinal mark (t ++ [mark]) = t := by
  simp [dropFinal]

theorem dropFinal_append {mark : α} {s t : Text α} (h : t = [] → s.getLast? ≠ some mark) :
    dropFinal mark (s ++ t) = s ++ dropFinal mark t := by
  cases t with
  | nil => simp [dropFinal,h rfl]
  | cons c t =>
    simp only [dropFinal,List.getLast?_append_cons,List.dropLast_append_cons]
    split <;> rfl

theorem dropFinal_cons {mark c : α} (h : c ≠ mark) (t : Text α) :
    dropFinal mark (c :: t) = c :: dropFinal mark t :=
  dropFinal_append (s := [c]) (by simp [h])

theorem exists_of_getLast?_dropFinal {mark : α} {t : Text α}
    (h : (dropFinal mark t).getLast? = some mark) : ∃ m, t = m ++ [mark,mark] := by
  by_cases ht : t.getLast? = some mark
  · obtain ⟨s,rfl⟩ := List.getLast?_eq_some_iff.mp ht
    rw [dropFinal_concat] at h
    obtain ⟨m,rfl⟩ := List.getLast?_eq_some_iff.mp h
    exact ⟨m,by simp⟩
  · rw [dropFinal,if_neg ht] at h
    exact absurd h ht

theorem mem_head?_of_dropFinal {mark c : α} {t : Text α} (h : c ∈ (dropFinal mark t).head?) :
    c ∈ t.head? := by
  unfold dropFinal at h
  split at h
  · rw [List.head?_dropLast] at h
    split at h
    · exact h
    · cases h
  · exact h

theorem dropFinal_of_not_mem {mark : α} {t : Text α} (h : mark ∉ t) : dropFinal mark t = t := by
  rw [dropFinal,if_neg fun hlast => h (List.mem_of_getLast? hlast)]

end Separators

theorem digitValue?_of_isDigit {c : Char} (h : c.isDigit = true) :
    digitValue? c = some (c.toNat - '0'.toNat) := by
  have hc : 48 ≤ c.toNat ∧ c.toNat ≤ 57 := by
    simp [Char.isDigit] at h
    exact h
  have hz : decimalZeros.find? (fun z => z ≤ c.toNat && c.toNat < z + 10) = some 0x30 := by
    rw [decimalZeros,List.find?_cons_of_pos]
    simp
    omega
  simp only [digitValue?,shown_char,hz]
  rfl

theorem isDecimalDigit_of_isDigit {c : Char} (h : c.isDigit = true) : isDecimalDigit c = true := by
  rw [isDecimalDigit,digitValue?_of_isDigit h]
  rfl

/-- No script has a digit that is a blank. -/
theorem decimalZeros_not_blank : (decimalZeros.all fun z =>
    (List.range 10).all fun d => !isBlank (Char.ofNat (z + d))) = true := by decide +kernel

section Runs

variable {α : Type} [Letter α]

theorem not_isBlank_of_isDecimalDigit {c : α} (h : isDecimalDigit c = true) :
    isBlank c = false := by
  obtain ⟨_,hvalue⟩ := Option.isSome_iff_exists.mp h
  obtain ⟨z,hz,-⟩ := Option.map_eq_some_iff.mp hvalue
  have hrange := List.find?_some hz
  simp only [Bool.and_eq_true,decide_eq_true_eq] at hrange
  have hscript := List.all_eq_true.mp decimalZeros_not_blank z (List.mem_of_find?_eq_some hz)
  have hdigit :=
    List.all_eq_true.mp hscript ((shown c).toNat - z) (List.mem_range.mpr (by omega))
  rw [Nat.add_sub_cancel' hrange.1,Char.ofNat_toNat] at hdigit
  exact Bool.not_eq_true' (isBlank (shown c)) ▸ hdigit

theorem takeWhile_digits {ds after : Text α} (hd : ∀ c ∈ ds, isDecimalDigit c = true)
    (h : ∀ c ∈ after.head?, isDecimalDigit c = false) :
    (ds ++ after).takeWhile isDecimalDigit = ds := by
  rw [List.takeWhile_append_of_pos hd]
  cases after with
  | nil => simp
  | cons c r => simp [h c rfl]

theorem trimStart_digits {blanks ds : Text α} (hb : ∀ c ∈ blanks, isBlank c = true)
    (hd : ∀ c ∈ ds, isDecimalDigit c = true) (hne : ds ≠ []) (after : Text α) :
    trimStart (blanks ++ (ds ++ after)) = ds ++ after := by
  obtain ⟨c,ds,rfl⟩ := List.exists_cons_of_ne_nil hne
  rw [trimStart,List.dropWhile_append_of_pos hb]
  simp [not_isBlank_of_isDecimalDigit (hd c List.mem_cons_self)]

end Runs

theorem isDigit_of_mem_ofNat {c : Char} {n : Nat} (h : c ∈ ofNat n) : c.isDigit = true :=
  Nat.isDigit_of_mem_toDigits (by decide) (by decide) h

theorem ofNat_ne_nil (n : Nat) : ofNat n ≠ [] := Nat.toDigits_ne_nil

/-- Reading digits of the first script goes on from the number read before them. -/
theorem foldl_digitValue? {ds : Text} (h : ∀ c ∈ ds, c.isDigit = true) (n : Nat) :
    ds.foldl (fun n c => 10 * n + (digitValue? c).getD 0) n = Nat.ofDigitChars 10 ds n := by
  induction ds generalizing n with
  | nil => rfl
  | cons c ds ih =>
    rw [List.foldl_cons,digitValue?_of_isDigit (h c List.mem_cons_self),
      ih fun d hd => h d (List.mem_cons_of_mem _ hd)]
    rfl

theorem decimalValue_ofNat (n : Nat) : decimalValue (ofNat n) = n := by
  rw [decimalValue,foldl_digitValue? fun c hc => isDigit_of_mem_ofNat hc]
  exact Nat.ofDigitChars_ten_toDigits

theorem isDecimalDigit_of_mem_ofNat {n : Nat} : ∀ c ∈ ofNat n, isDecimalDigit c = true :=
  fun _ h => isDecimalDigit_of_isDigit (isDigit_of_mem_ofNat h)

end FormatEdits.Text
