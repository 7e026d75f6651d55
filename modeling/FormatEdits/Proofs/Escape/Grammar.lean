import FormatEdits.Escape

namespace FormatEdits.Escape

/-- At most four digits. -/
structure DigitGroup (t : Text) : Prop where
  digits : ∀ c ∈ t, isDigit c = true
  short : t.length ≤ 4

instance DigitGroup.decidable (t : Text) : Decidable (DigitGroup t) :=
  have := List.decidableBAll (fun c => isDigit c = true) t
  decidable_of_iff ((∀ c ∈ t, isDigit c = true) ∧ t.length ≤ 4)
    ⟨fun h => ⟨h.1,h.2⟩,fun h => ⟨h.digits,h.short⟩⟩

/-- Groups with a semicolon in front of each. -/
inductive DigitGroups : Text → Prop
  | nil : DigitGroups []
  | cons {g gs : Text} (hg : DigitGroup g) (tail : DigitGroups gs) : DigitGroups (';' :: (g ++ gs))

/-- Numeric parameters, or none. Only the first group has to have a digit. -/
inductive Parameters : Text → Prop
  | none : Parameters []
  | some {g gs : Text} (hg : DigitGroup g) (hne : g ≠ []) (tail : DigitGroups gs) :
      Parameters (g ++ gs)

/-- An escape sequence in its parts. -/
structure Sequence where
  introducer : Char
  leads : Text
  parameters : Text
  terminator : Char
  introduces : isIntroducer introducer = true
  lead : ∀ c ∈ leads, isLead c = true
  numeric : Parameters parameters
  terminates : isTerminator terminator = true

def Sequence.text (s : Sequence) : Text :=
  s.introducer :: (s.leads ++ (s.parameters ++ [s.terminator]))

theorem not_isLead_of_isTerminator {c : Char} (h : isTerminator c = true) : isLead c = false := by
  cases hl : isLead c with
  | false => rfl
  | true =>
    simp only [isLead,List.mem_cons,List.not_mem_nil,or_false,decide_eq_true_eq] at hl
    rcases hl with rfl | rfl | rfl | rfl | rfl | rfl <;> revert h <;> decide

theorem isTerminator_of_isDigit {c : Char} (h : isDigit c = true) : isTerminator c = true := by
  simp [isTerminator,h]

theorem ne_semicolon_of_isTerminator {c : Char} (h : isTerminator c = true) : c ≠ ';' := by
  rintro rfl
  exact absurd (not_isLead_of_isTerminator h) (by decide)

section Recognition

variable {t : Char} (ht : isTerminator t = true) (hd : isDigit t = false) (after : Text)

include ht hd

theorem afterParameters?_terminator (room : Nat) :
    afterParameters? room (t :: after) = some after := by
  simp [afterParameters?,hd,ne_semicolon_of_isTerminator ht,ht]

theorem afterLeads?_terminator : afterLeads? (t :: after) = some after := by
  simp [afterLeads?,hd,not_isLead_of_isTerminator ht,ht]

end Recognition

section Reading

-- What is found behind the front of a sequence is what is found behind all of it, unless that is
-- nothing: then the front itself could be taken for a shorter sequence.
variable {P : Option Text → Prop} (hP : ¬ P none)

include hP

theorem of_orElse {more : Option Text} (h : P more) (other : Option Text) : P (more <|> other) := by
  cases more with
  | none => exact absurd h hP
  | some rest => exact h

theorem afterParameters?_digits {g rest : Text} {room : Nat}
    (hg : ∀ c ∈ g, isDigit c = true) (hroom : g.length ≤ room)
    (h : ∀ room, P (afterParameters? room rest)) : P (afterParameters? room (g ++ rest)) := by
  induction g generalizing room with
  | nil => exact h room
  | cons c g ih =>
    have hc : isDigit c = true := hg c List.mem_cons_self
    have hpos : 0 < room := Nat.lt_of_lt_of_le (Nat.succ_pos _) hroom
    have hmore := ih (fun d hd => hg d (List.mem_cons_of_mem _ hd)) (Nat.le_pred_of_lt hroom)
    rw [List.cons_append,afterParameters?,if_pos ⟨hc,hpos⟩]
    exact of_orElse hP hmore _

/-- What follows groups of digits decides, however much room the last group leaves. -/
theorem afterParameters?_groups {gs rest : Text} (hgs : DigitGroups gs)
    (h : ∀ room, P (afterParameters? room rest)) (room : Nat) :
    P (afterParameters? room (gs ++ rest)) := by
  induction hgs generalizing room with
  | nil => exact h room
  | @cons g gs hg _ ih =>
    have hmore : P (afterParameters? 4 (g ++ (gs ++ rest))) :=
      afterParameters?_digits hP hg.digits hg.short ih
    have hsemicolon : isDigit ';' = false := by decide
    rw [List.cons_append,List.append_assoc,afterParameters?,hsemicolon,if_neg (by simp),
      if_pos (Text.ofChar_char ';').symm]
    exact of_orElse hP hmore _

theorem afterLeads?_leads {leads rest : Text} (hl : ∀ c ∈ leads, isLead c = true)
    (h : P (afterLeads? rest)) : P (afterLeads? (leads ++ rest)) := by
  induction leads with
  | nil => exact h
  | cons c leads ih =>
    have hmore := ih fun d hd => hl d (List.mem_cons_of_mem _ hd)
    rw [List.cons_append,afterLeads?,if_pos (hl c List.mem_cons_self)]
    exact of_orElse hP hmore _

theorem afterLeads?_parameters {ps rest : Text} (hps : Parameters ps) (hnone : P (afterLeads? rest))
    (hsome : ∀ room, P (afterParameters? room rest)) : P (afterLeads? (ps ++ rest)) := by
  cases hps with
  | none => exact hnone
  | @some g gs hg hne hgs =>
    obtain ⟨c,ds,rfl⟩ := List.exists_cons_of_ne_nil hne
    have hc : isDigit c = true := hg.digits c List.mem_cons_self
    have hlead : isLead c = false := not_isLead_of_isTerminator (isTerminator_of_isDigit hc)
    have hmore : P (afterParameters? 3 (ds ++ (gs ++ rest))) :=
      afterParameters?_digits hP (fun d hd => hg.digits d (List.mem_cons_of_mem _ hd))
        (Nat.le_of_succ_le_succ hg.short) (afterParameters?_groups hP hgs hsome)
    rw [List.append_assoc,List.cons_append,afterLeads?,hlead,if_neg (by simp),if_pos hc]
    exact of_orElse hP hmore _

theorem Sequence.rest?_of_terminator (s : Sequence) {after : Text}
    (hleads : P (afterLeads? (s.terminator :: after)))
    (hparameters : ∀ room, P (afterParameters? room (s.terminator :: after))) :
    P (rest? (s.text ++ after)) := by
  have h : P (afterLeads? (s.leads ++ (s.parameters ++ s.terminator :: after))) :=
    afterLeads?_leads hP s.lead (afterLeads?_parameters hP s.numeric hleads hparameters)
  simpa [Sequence.text,rest?,s.introduces] using h

end Reading

theorem Sequence.rest?_text_append (s : Sequence) (hd : isDigit s.terminator = false)
    (after : Text) : rest? (s.text ++ after) = some after := by
  refine s.rest?_of_terminator (P := (· = some after)) (by simp) ?_ ?_
  · exact afterLeads?_terminator s.terminates hd after
  · exact afterParameters?_terminator s.terminates hd after

/-- Something is found, and no more text is left behind it than this. -/
def Leaves (after : Text) (found : Option Text) : Prop :=
  ∃ rest, found = some rest ∧ rest.length ≤ after.length

/-- Behind a terminator the parameters may go on, but need not. -/
theorem leaves_orElse {p : Prop} [Decidable p] (room : Nat) (after : Text) :
    Leaves after ((if p then afterParameters? room after else none) <|> some after) := by
  cases h : if p then afterParameters? room after else none with
  | none => exact ⟨after,rfl,Nat.le_refl _⟩
  | some rest =>
    split at h
    · obtain ⟨c,r,rfl,hr⟩ := suffix_of_afterParameters? h
      exact ⟨rest,rfl,Nat.le_succ_of_le hr.length_le⟩
    · cases h

/-- A sequence is recognised wherever it stands, if not for a longer one: a digit that ends it may
be taken for a parameter. -/
theorem Sequence.leaves_text_append (s : Sequence) (after : Text) :
    Leaves after (rest? (s.text ++ after)) := by
  have ht := s.terminates
  -- The terminator stands behind the leads or behind parameters; in both places a digit may also
  -- start or continue a parameter, which is tried first.
  refine s.rest?_of_terminator (P := Leaves after) (by simp [Leaves]) ?_ ?_
  · rw [afterLeads?,not_isLead_of_isTerminator ht,if_neg (by simp),if_pos ht]
    exact leaves_orElse 3 after
  · intro room
    rw [afterParameters?,Text.ofChar_char,if_neg (ne_semicolon_of_isTerminator ht),if_pos ht]
    exact leaves_orElse (room - 1) after

section Soundness

theorem exists_of_afterParameters? {room : Nat} {t rest : Text}
    (h : afterParameters? room t = some rest) :
    ∃ g gs c, t = g ++ (gs ++ c :: rest) ∧ (∀ d ∈ g, isDigit d = true) ∧ g.length ≤ room ∧
      DigitGroups gs ∧ isTerminator c = true := by
  induction t generalizing room with
  | nil => cases h
  | cons c t ih =>
    obtain ⟨⟨hdigit,hpos⟩,h⟩ | ⟨hsemicolon,h⟩ | ⟨hterminator,rfl⟩ := cases_of_afterParameters? h
    · obtain ⟨g,gs,d,rfl,hg,hroom,hgs,hd⟩ := ih h
      refine ⟨c :: g,gs,d,rfl,List.forall_mem_cons.mpr ⟨hdigit,hg⟩,?_,hgs,hd⟩
      rw [List.length_cons]
      omega
    · obtain ⟨g,gs,d,rfl,hg,hroom,hgs,hd⟩ := ih h
      exact ⟨[],';' :: (g ++ gs),d,by simp [hsemicolon],by simp,Nat.zero_le _,
        .cons ⟨hg,hroom⟩ hgs,hd⟩
    · exact ⟨[],[],c,rfl,by simp,Nat.zero_le _,.nil,hterminator⟩

theorem exists_of_afterLeads? {t rest : Text} (h : afterLeads? t = some rest) :
    ∃ leads ps c, t = leads ++ (ps ++ c :: rest) ∧ (∀ d ∈ leads, isLead d = true) ∧
      Parameters ps ∧ isTerminator c = true := by
  induction t with
  | nil => cases h
  | cons c t ih =>
    obtain ⟨hlead,h⟩ | ⟨hdigit,h⟩ | ⟨hterminator,rfl⟩ := cases_of_afterLeads? h
    · obtain ⟨leads,ps,d,rfl,hleads,hps,hd⟩ := ih h
      exact ⟨c :: leads,ps,d,rfl,List.forall_mem_cons.mpr ⟨hlead,hleads⟩,hps,hd⟩
    · obtain ⟨g,gs,d,rfl,hg,hroom,hgs,hd⟩ := exists_of_afterParameters? h
      have hgroup : DigitGroup (c :: g) :=
        ⟨List.forall_mem_cons.mpr ⟨hdigit,hg⟩,Nat.succ_le_succ hroom⟩
      exact ⟨[],c :: g ++ gs,d,by simp,by simp,.some hgroup (by simp) hgs,hd⟩
    · exact ⟨[],[],c,rfl,by simp,.none,hterminator⟩

theorem exists_of_rest? {t rest : Text} (h : rest? t = some rest) :
    ∃ s : Sequence, t = s.text ++ rest := by
  cases t with
  | nil => cases h
  | cons c t =>
    obtain ⟨hintroducer,h⟩ := introducer_of_rest? h
    obtain ⟨leads,ps,d,rfl,hleads,hps,hd⟩ := exists_of_afterLeads? h
    exact ⟨⟨c,leads,ps,d,hintroducer,hleads,hps,hd⟩,by simp [Sequence.text]⟩

end Soundness

theorem rest?_eq_none_iff {t : Text} : rest? t = none ↔ ∀ s : Sequence, ¬ s.text <+: t := by
  constructor
  · rintro hnone s ⟨after,rfl⟩
    obtain ⟨rest,hrest,-⟩ := s.leaves_text_append after
    cases hnone.symm.trans hrest
  · intro hfree
    cases hr : rest? t with
    | none => rfl
    | some rest =>
      obtain ⟨s,rfl⟩ := exists_of_rest? hr
      exact absurd (List.prefix_append _ _) (hfree s)

/-- No sequence that a text starts with is longer than the one that is recognised. -/
theorem Sequence.length_le_of_rest? {t rest : Text} (h : rest? t = some rest) (s : Sequence)
    (hs : s.text <+: t) : s.text.length + rest.length ≤ t.length := by
  obtain ⟨after,rfl⟩ := hs
  obtain ⟨found,hfound,hle⟩ := s.leaves_text_append after
  obtain rfl := Option.some.inj (h.symm.trans hfound)
  rw [List.length_append]
  exact Nat.add_le_add_left hle _

/-- Of the sequences that a text starts with, the longest is recognised. -/
theorem rest?_eq_some_iff {t rest : Text} : rest? t = some rest ↔
    (∃ s : Sequence, t = s.text ++ rest) ∧
      ∀ s : Sequence, s.text <+: t → s.text.length + rest.length ≤ t.length := by
  constructor
  · intro h
    exact ⟨exists_of_rest? h,fun s hs => s.length_le_of_rest? h hs⟩
  · rintro ⟨⟨s,hs⟩,hall⟩
    cases hfound : rest? t with
    | none => exact absurd (hs ▸ List.prefix_append _ _) (rest?_eq_none_iff.mp hfound s)
    | some found =>
      -- Neither of the two sequences is longer than the other, so the same is left behind them.
      obtain ⟨s',hs'⟩ := exists_of_rest? hfound
      have hle := hall s' (hs' ▸ List.prefix_append _ _)
      have hge := s.length_le_of_rest? hfound (hs ▸ List.prefix_append _ _)
      have hlength : t.length = s.text.length + rest.length := by rw [hs,List.length_append]
      have hlength' : t.length = s'.text.length + found.length := by rw [hs',List.length_append]
      have hends : s'.text ++ found = s.text ++ rest := hs'.symm.trans hs
      exact congrArg some (List.append_inj_right' hends (by omega))

end FormatEdits.Escape
