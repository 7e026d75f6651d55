import FormatEdits.Text.Basic

namespace FormatEdits.Escape

variable {α : Type} [DecidableEq α] [Letter α]

/-- Escape, or the single character that stands for escape and bracket. -/
def isIntroducer (c : α) : Bool := c = ofChar (Char.ofNat 0x1B) || c = ofChar (Char.ofNat 0x9B)

def isLead (c : α) : Bool := shown c ∈ ['[','(',')','#',';','?']

def isDigit (c : α) : Bool := '0' ≤ shown c && shown c ≤ '9'

/-- Digits end a sequence too, where nothing longer does. -/
def isTerminator (letter : α) : Bool :=
  let c := shown letter
  isDigit c || ('A' ≤ c && c ≤ 'O') || c == 'R' || c == 'Z' || c == 'c' || ('f' ≤ c && c ≤ 'n') ||
    c == 'q' || c == 'r' || c == 'y' || c == '=' || c == '>' || c == '<'

/-- Inside the parameters, with room for `room` more digits of the current one: what follows the
longest end of the sequence. -/
def afterParameters? : Nat → Text α → Option (Text α)
  | _, [] => none
  | room, c :: r =>
    let more :=
      if isDigit c ∧ 0 < room then afterParameters? (room - 1) r
      else if c = ofChar ';' then afterParameters? 4 r
      else none
    more <|> if isTerminator c then some r else none

/-- After the introducer: lead characters first, then parameters or the terminator. -/
def afterLeads? : Text α → Option (Text α)
  | [] => none
  | c :: r =>
    let more :=
      if isLead c then afterLeads? r
      else if isDigit c then afterParameters? 3 r
      else none
    more <|> if isTerminator c then some r else none

/-- What follows the longest escape sequence at the start of a text. -/
def rest? : Text α → Option (Text α)
  | [] => none
  | c :: r => if isIntroducer c then afterLeads? r else none

theorem afterParameters?_cons (room : Nat) (c : α) (r : Text α) :
    afterParameters? room (c :: r) =
      (if isDigit c ∧ 0 < room then afterParameters? (room - 1) r
        else if c = ofChar ';' then afterParameters? 4 r else none).or
          (if isTerminator c then some r else none) := by
  simp only [afterParameters?,Option.orElse_eq_orElse,Option.orElse_eq_or]

theorem afterLeads?_cons (c : α) (r : Text α) :
    afterLeads? (c :: r) =
      (if isLead c then afterLeads? r else if isDigit c then afterParameters? 3 r else none).or
        (if isTerminator c then some r else none) := by
  simp only [afterLeads?,Option.orElse_eq_orElse,Option.orElse_eq_or]

/-- All that a character can do inside the parameters: it is a digit that there is room for, it
starts the next group, or it ends the sequence. -/
theorem cases_of_afterParameters? {room : Nat} {c : α} {r rest : Text α}
    (h : afterParameters? room (c :: r) = some rest) :
    ((isDigit c = true ∧ 0 < room) ∧ afterParameters? (room - 1) r = some rest) ∨
      (c = ofChar ';' ∧ afterParameters? 4 r = some rest) ∨ (isTerminator c = true ∧ r = rest) := by
  rw [afterParameters?_cons,Option.or_eq_some_iff] at h
  rcases h with h | ⟨-,h⟩
  · split at h
    · next hdigit => exact .inl ⟨hdigit,h⟩
    · exact .inr (.inl (Option.ite_none_right_eq_some.mp h))
  · obtain ⟨hterminator,hrest⟩ := Option.ite_none_right_eq_some.mp h
    exact .inr (.inr ⟨hterminator,Option.some.inj hrest⟩)

theorem cases_of_afterLeads? {c : α} {r rest : Text α} (h : afterLeads? (c :: r) = some rest) :
    (isLead c = true ∧ afterLeads? r = some rest) ∨
      (isDigit c = true ∧ afterParameters? 3 r = some rest) ∨
        (isTerminator c = true ∧ r = rest) := by
  rw [afterLeads?_cons,Option.or_eq_some_iff] at h
  rcases h with h | ⟨-,h⟩
  · split at h
    · next hlead => exact .inl ⟨hlead,h⟩
    · exact .inr (.inl (Option.ite_none_right_eq_some.mp h))
  · obtain ⟨hterminator,hrest⟩ := Option.ite_none_right_eq_some.mp h
    exact .inr (.inr ⟨hterminator,Option.some.inj hrest⟩)

theorem introducer_of_rest? {c : α} {r rest : Text α} (h : rest? (c :: r) = some rest) :
    isIntroducer c = true ∧ afterLeads? r = some rest :=
  Option.ite_none_right_eq_some.mp h

theorem suffix_of_afterParameters? {room : Nat} {t rest : Text α}
    (h : afterParameters? room t = some rest) : ∃ c r, t = c :: r ∧ rest <:+ r := by
  induction t generalizing room with
  | nil => cases h
  | cons c r ih =>
    refine ⟨c,r,rfl,?_⟩
    obtain ⟨-,h⟩ | ⟨-,h⟩ | ⟨-,rfl⟩ := cases_of_afterParameters? h
    · obtain ⟨d,r,rfl,hr⟩ := ih h
      exact hr.trans (List.suffix_cons d r)
    · obtain ⟨d,r,rfl,hr⟩ := ih h
      exact hr.trans (List.suffix_cons d r)
    · exact List.suffix_rfl

theorem suffix_of_afterLeads? {t rest : Text α} (h : afterLeads? t = some rest) :
    ∃ c r, t = c :: r ∧ rest <:+ r := by
  induction t with
  | nil => cases h
  | cons c r ih =>
    refine ⟨c,r,rfl,?_⟩
    obtain ⟨-,h⟩ | ⟨-,h⟩ | ⟨-,rfl⟩ := cases_of_afterLeads? h
    · obtain ⟨d,r,rfl,hr⟩ := ih h
      exact hr.trans (List.suffix_cons d r)
    · obtain ⟨d,r,rfl,hr⟩ := suffix_of_afterParameters? h
      exact hr.trans (List.suffix_cons d r)
    · exact List.suffix_rfl

theorem suffix_of_rest? {t rest : Text α} (h : rest? t = some rest) :
    ∃ c r, t = c :: r ∧ rest <:+ r := by
  cases t with
  | nil => cases h
  | cons c r =>
    obtain ⟨d,r,rfl,hr⟩ := suffix_of_afterLeads? (introducer_of_rest? h).2
    exact ⟨c,d :: r,rfl,hr.trans (List.suffix_cons d r)⟩

theorem length_of_rest? {t rest : Text α} (h : rest? t = some rest) : rest.length < t.length := by
  obtain ⟨c,r,rfl,hr⟩ := suffix_of_rest? h
  exact Nat.lt_succ_of_le hr.length_le

/-- One sweep from left to right takes out every sequence it meets. -/
def sweep (t : Text α) : Text α :=
  match h : rest? t with
  | some rest =>
    have := length_of_rest? h
    sweep rest
  | none =>
    match t with
    | [] => []
    | c :: r => c :: sweep r
  termination_by t.length

theorem sweep_of_rest? {t rest : Text α} (h : rest? t = some rest) : sweep t = sweep rest := by
  rw [sweep]
  split
  · next found hfound => exact congrArg sweep (Option.some.inj (hfound.symm.trans h))
  · next hnone => cases hnone.symm.trans h

theorem sweep_cons {c : α} {r : Text α} (h : rest? (c :: r) = none) :
    sweep (c :: r) = c :: sweep r := by
  rw [sweep]
  split
  · next found hfound => cases h.symm.trans hfound
  · rfl

theorem length_sweep_le (t : Text α) : (sweep t).length ≤ t.length := by
  fun_induction sweep t with
  | case1 t rest h this ih => exact Nat.le_trans ih (Nat.le_of_lt this)
  | case2 => exact Nat.le_refl _
  | case3 c r h ih => exact Nat.succ_le_succ ih

theorem length_sweep_lt {t : Text α} (h : sweep t ≠ t) : (sweep t).length < t.length := by
  fun_induction sweep t with
  | case1 t rest hr this ih => exact Nat.lt_of_le_of_lt (length_sweep_le rest) this
  | case2 => exact absurd rfl h
  | case3 c r hr ih => exact Nat.succ_lt_succ (ih fun he => h (by rw [he]))

/-- The text without escape sequences, and without those that their removal leaves behind. -/
def strip (t : Text α) : Text α :=
  if h : sweep t = t then t
  else
    have := length_sweep_lt h
    strip (sweep t)
  termination_by t.length

theorem strip_sweep (t : Text α) : strip (sweep t) = strip t := by
  by_cases h : sweep t = t
  · exact congrArg strip h
  · conv => rhs; rw [strip,dif_neg h]

end FormatEdits.Escape
