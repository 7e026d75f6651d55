import FormatEdits.Proofs.Escape.Grammar
import Mathlib.Data.List.Basic

namespace FormatEdits.Escape

inductive Pattern
  | char (p : Char → Bool)
  | both (first second : Pattern)
  | between (least most : Nat) (p : Pattern)
  | many (p : Pattern)

namespace Pattern

/-- So many steps one after the other. -/
def exactly (step : Text → List Text) : Nat → Text → List Text
  | 0, t => [t]
  | n + 1, t => (step t).flatMap (exactly step n)

/-- At most so many steps; to go on comes before to stop. -/
def upTo (step : Text → List Text) : Nat → Text → List Text
  | 0, t => [t]
  | n + 1, t => (step t).flatMap (upTo step n) ++ [t]

/-- Any number of steps. One that takes nothing is not made. -/
def repeated (step : Text → List Text) (t : Text) : List Text :=
  ((step t).flatMap fun rest => if rest.length < t.length then repeated step rest else []) ++ [t]
  termination_by t.length

/-- What is left of a text behind each way to match it, in the order in which they are tried. -/
def ways : Pattern → Text → List Text
  | .char _, [] => []
  | .char p, c :: r => if p c then [r] else []
  | .both p q, t => (p.ways t).flatMap q.ways
  | .between least most p, t => (exactly p.ways least t).flatMap (upTo p.ways (most - least))
  | .many p, t => repeated p.ways t

/-- What is left behind the match at a position of a text. Nothing in front of it is looked at. -/
def restAt? (p : Pattern) (text : Text) (position : Nat) : Option Text :=
  (p.ways (text.drop position)).head?

def optional (p : Pattern) : Pattern := .between 0 1 p

def digit : Pattern := .char isDigit

def furtherGroup : Pattern := .both (.char (· == ';')) (.between 0 4 digit)

def parameters : Pattern := .both (.between 1 4 digit) (.many furtherGroup)

def terminator : Pattern := .char isTerminator

/-- An escape sequence: introducer, leads, parameters or none, terminator. -/
def escapeSequence : Pattern :=
  .both (.char isIntroducer) (.both (.many (.char isLead)) (.both (optional parameters) terminator))

section Ways

variable {step : Text → List Text}

theorem length_of_mem_upTo (h : ∀ t, ∀ r ∈ step t, r.length ≤ t.length) {n : Nat} {t r : Text}
    (hr : r ∈ upTo step n t) : r.length ≤ t.length := by
  induction n generalizing t with
  | zero => exact Nat.le_of_eq (congrArg _ (List.mem_singleton.mp hr))
  | succ n ih =>
    rcases List.mem_append.mp hr with hr | hr
    · obtain ⟨s,hs,hr⟩ := List.mem_flatMap.mp hr
      exact Nat.le_trans (ih hr) (h t s hs)
    · exact Nat.le_of_eq (congrArg _ (List.mem_singleton.mp hr))

theorem upTo_eq_singleton {t : Text} (h : step t = []) (n : Nat) : upTo step n t = [t] := by
  cases n with
  | zero => rfl
  | succ n =>
    rw [upTo,h]
    rfl

theorem repeated_eq {t : Text} (h : ∀ r ∈ step t, r.length < t.length) :
    repeated step t = (step t).flatMap (repeated step) ++ [t] := by
  rw [repeated]
  congr 1
  apply List.flatMap_congr
  intro r hr
  exact if_pos (h r hr)

theorem length_of_mem_char {p : Char → Bool} {t r : Text} (hr : r ∈ (char p).ways t) :
    r.length < t.length := by
  cases t with
  | nil => cases hr
  | cons c t =>
    rw [ways] at hr
    split at hr
    · rw [List.mem_singleton.mp hr]
      exact Nat.lt_succ_self _
    · cases hr

theorem furtherGroup_ways (t : Text) :
    furtherGroup.ways t = ((char (· == ';')).ways t).flatMap (upTo digit.ways 4) := by
  simp [furtherGroup,ways,exactly]

theorem length_of_mem_furtherGroup {t r : Text} (hr : r ∈ furtherGroup.ways t) :
    r.length < t.length := by
  rw [furtherGroup_ways] at hr
  obtain ⟨s,hs,hr⟩ := List.mem_flatMap.mp hr
  have hdigits : r.length ≤ s.length :=
    length_of_mem_upTo (fun t r hr => Nat.le_of_lt (length_of_mem_char hr)) hr
  exact Nat.lt_of_le_of_lt hdigits (length_of_mem_char hs)

end Ways

section Preference

/-- The ways that lead from further groups to the end. -/
def waysFromGroups (t : Text) : List Text := (repeated furtherGroup.ways t).flatMap terminator.ways

theorem waysFromGroups_eq (t : Text) : waysFromGroups t =
    ((char (· == ';')).ways t).flatMap (fun r => (upTo digit.ways 4 r).flatMap waysFromGroups) ++
      terminator.ways t := by
  rw [waysFromGroups,repeated_eq fun r hr => length_of_mem_furtherGroup hr,List.flatMap_append,
    List.flatMap_assoc,furtherGroup_ways,List.flatMap_assoc,List.flatMap_singleton]
  rfl

theorem waysFromGroups_nil : waysFromGroups [] = [] := by
  rw [waysFromGroups_eq]
  rfl

theorem head?_terminator (c : Char) (r : Text) :
    (terminator.ways (c :: r)).head? = if isTerminator c then some r else none := by
  rw [terminator,ways]
  split <;> rfl

/-- Inside the parameters the first way is the one that is recognised. -/
theorem head?_digits (room : Nat) (t : Text) :
    ((upTo digit.ways room t).flatMap waysFromGroups).head? = afterParameters? room t := by
  induction t generalizing room with
  | nil =>
    rw [upTo_eq_singleton rfl,List.flatMap_singleton,waysFromGroups_nil]
    rfl
  | cons c r ih =>
    have hstop : (waysFromGroups (c :: r)).head? =
        (if c = ';' then afterParameters? 4 r else none).or
          (if isTerminator c then some r else none) := by
      rw [waysFromGroups_eq,List.head?_append,head?_terminator,ways]
      by_cases hc : c = ';'
      · rw [if_pos (by simpa using hc),List.flatMap_singleton,ih,if_pos hc]
      · rw [if_neg (by simpa using hc),List.flatMap_nil,if_neg hc]
        rfl
    rw [afterParameters?_cons,Text.ofChar_char]
    by_cases htaken : isDigit c = true ∧ 0 < room
    · obtain ⟨less,rfl⟩ := Nat.exists_eq_succ_of_ne_zero (Nat.ne_of_gt htaken.2)
      have hne : c ≠ ';' := ne_semicolon_of_isTerminator (isTerminator_of_isDigit htaken.1)
      have hone : digit.ways (c :: r) = [r] := if_pos htaken.1
      rw [upTo,hone,List.flatMap_singleton,List.flatMap_append,List.flatMap_singleton,
        List.head?_append,ih,hstop,if_neg hne,if_pos htaken]
      rfl
    · have hstay : upTo digit.ways room (c :: r) = [c :: r] := by
        cases room with
        | zero => rfl
        | succ room =>
          apply upTo_eq_singleton
          exact if_neg fun hdigit => htaken ⟨hdigit,Nat.succ_pos room⟩
      rw [hstay,List.flatMap_singleton,hstop,if_neg htaken]

/-- The ways that lead on from the leads to the end. -/
def waysFromLeads (t : Text) : List Text := ((optional parameters).ways t).flatMap terminator.ways

theorem waysFromLeads_eq (t : Text) : waysFromLeads t =
    (digit.ways t).flatMap (fun r => (upTo digit.ways 3 r).flatMap waysFromGroups) ++
      terminator.ways t := by
  have hparameters : parameters.ways t =
      ((digit.ways t).flatMap (upTo digit.ways 3)).flatMap (repeated furtherGroup.ways) := by
    simp [parameters,ways,exactly]
  have hoptional : (optional parameters).ways t = parameters.ways t ++ [t] := by
    simp [optional,ways,exactly,upTo]
  rw [waysFromLeads,hoptional,hparameters,List.flatMap_append,List.flatMap_singleton,
    List.flatMap_assoc,List.flatMap_assoc]
  rfl

theorem waysFromLeads_nil : waysFromLeads [] = [] := by
  rw [waysFromLeads_eq]
  rfl

theorem head?_waysFromLeads (c : Char) (r : Text) : (waysFromLeads (c :: r)).head? =
    (if isDigit c then afterParameters? 3 r else none).or
      (if isTerminator c then some r else none) := by
  have hfirst : digit.ways (c :: r) = if isDigit c then [r] else [] := rfl
  rw [waysFromLeads_eq,List.head?_append,head?_terminator,hfirst]
  by_cases hdigit : isDigit c = true
  · rw [if_pos hdigit,List.flatMap_singleton,head?_digits,if_pos hdigit]
  · rw [if_neg hdigit,List.flatMap_nil,if_neg hdigit]
    rfl

theorem head?_leads (t : Text) :
    ((repeated (char isLead).ways t).flatMap waysFromLeads).head? = afterLeads? t := by
  induction t with
  | nil =>
    have hnone : (char isLead).ways [] = [] := rfl
    rw [repeated_eq fun r hr => length_of_mem_char hr,hnone,List.flatMap_nil,List.nil_append,
      List.flatMap_singleton,waysFromLeads_nil]
    rfl
  | cons c r ih =>
    rw [repeated_eq fun r hr => length_of_mem_char hr,List.flatMap_append,List.flatMap_singleton,
      List.head?_append,head?_waysFromLeads,afterLeads?_cons,ways]
    by_cases hlead : isLead c = true
    · -- A lead character is neither a digit nor a terminator.
      have hterminator : isTerminator c = false := by
        cases h : isTerminator c with
        | false => rfl
        | true => cases hlead.symm.trans (not_isLead_of_isTerminator h)
      have hdigit : ¬ isDigit c = true := by
        intro h
        cases (isTerminator_of_isDigit h).symm.trans hterminator
      rw [if_pos hlead,List.flatMap_singleton,ih,if_neg hdigit,if_pos hlead]
      rfl
    · rw [if_neg hlead,List.flatMap_nil,List.flatMap_nil,if_neg hlead]
      rfl

end Preference

theorem restAt?_escapeSequence (text : Text) (position : Nat) :
    escapeSequence.restAt? text position = rest? (text.drop position) := by
  rw [restAt?]
  cases text.drop position with
  | nil => rfl
  | cons c r =>
    rw [rest?,escapeSequence,ways,ways]
    split
    · rw [List.flatMap_singleton,← head?_leads]
      rfl
    · rfl

end Pattern

/-- Wherever the pattern of escape sequences is tried in a text, backtracking settles on the longest
sequence that starts there; it finds none only where none starts. This is what is recognised when
sequences are taken out. -/
theorem escapeSequence_matches_longest (text : Text) (position : Nat) :
    let t := text.drop position
    ((∃ rest, Pattern.escapeSequence.restAt? text position = some rest) ↔
        ∃ s : Sequence, s.text <+: t) ∧
      (∀ rest, Pattern.escapeSequence.restAt? text position = some rest ↔
        (∃ s : Sequence, t = s.text ++ rest) ∧
          ∀ s : Sequence, s.text <+: t → s.text.length + rest.length ≤ t.length) ∧
      Pattern.escapeSequence.restAt? text position = rest? t := by
  intro t
  rw [Pattern.restAt?_escapeSequence]
  refine ⟨?_,fun rest => rest?_eq_some_iff,rfl⟩
  rw [← Option.isSome_iff_exists,← Option.ne_none_iff_isSome,ne_eq,rest?_eq_none_iff]
  exact Classical.not_forall_not

/-- The fifth digit in a row, and a digit in front of a semicolon that leads nowhere, are given back
as terminators. -/
example : Pattern.escapeSequence.restAt? ['x','\x1b','[','1','2','3','4','5','6'] 1 = some ['6'] ∧
    Pattern.escapeSequence.restAt? ['\x1b','1',';','x'] 0 = some [';','x'] := by cbv

end FormatEdits.Escape
