import FormatEdits.Proofs.Escape.Grammar
import Mathlib.Data.List.Basic
import Mathlib.Logic.Function.Iterate

namespace FormatEdits.Escape

/-- No stretch of the text is an escape sequence. -/
def Free (t : Text) : Prop := ∀ s : Sequence, ¬ s.text <:+: t

theorem free_nil : Free [] := by
  intro s h
  have hlength := h.length_le
  simp [Sequence.text] at hlength

theorem free_cons {c : Char} {r : Text} : Free (c :: r) ↔ rest? (c :: r) = none ∧ Free r := by
  simp only [Free,List.infix_cons_iff,not_or,forall_and,rest?_eq_none_iff]

section Sweeps

theorem sweep_eq_self_iff {t : Text} : sweep t = t ↔ Free t := by
  fun_induction sweep t with
  | case1 t rest hr hlt _ =>
    -- Something was taken out, and what is left of the text can only have become shorter.
    refine iff_of_false (fun h => ?_) (fun h => ?_)
    · have hle := length_sweep_le rest
      rw [h] at hle
      omega
    · obtain ⟨s,rfl⟩ := exists_of_rest? hr
      exact h s (List.prefix_append _ _).isInfix
  | case2 => exact iff_of_true rfl free_nil
  | case3 c r hr ih => rw [List.cons_inj_right,ih,free_cons,and_iff_right hr]

theorem sweep_strip (t : Text) : sweep (strip t) = strip t := by
  fun_induction strip t with
  | case1 t h => exact h
  | case2 t h _ ih => exact ih

theorem strip_eq_self_iff {t : Text} : strip t = t ↔ Free t := by
  rw [← sweep_eq_self_iff]
  constructor
  · intro h
    rw [← h,sweep_strip]
  · intro h
    rw [strip,dif_pos h]

theorem free_strip (t : Text) : Free (strip t) := sweep_eq_self_iff.mp (sweep_strip t)

/-- After so many sweeps another one changes nothing, and before that each one did. -/
structure SettlesAfter (n : Nat) (t : Text) : Prop where
  settled : sweep (sweep^[n] t) = sweep^[n] t
  unsettled : ∀ m < n, sweep (sweep^[m] t) ≠ sweep^[m] t

theorem settlesAfter_zero {t : Text} (h : sweep t = t) : SettlesAfter 0 t := ⟨h,by simp⟩

theorem SettlesAfter.succ {n : Nat} {t : Text} (h : SettlesAfter n (sweep t)) (ht : sweep t ≠ t) :
    SettlesAfter (n + 1) t := by
  refine ⟨h.settled,?_⟩
  intro m hm
  cases m with
  | zero => exact ht
  | succ m => exact h.unsettled m (Nat.lt_of_succ_lt_succ hm)

/-- Every sweep but the last takes a character out. -/
theorem exists_settlesAfter (t : Text) :
    ∃ n ≤ t.length, SettlesAfter n t ∧ strip t = sweep^[n] t := by
  fun_induction strip t with
  | case1 t h => exact ⟨0,Nat.zero_le _,settlesAfter_zero h,rfl⟩
  | case2 t h hlt ih =>
    obtain ⟨n,hn,hsettles,hstrip⟩ := ih
    exact ⟨n + 1,Nat.le_trans (Nat.succ_le_succ hn) hlt,hsettles.succ h,hstrip⟩

end Sweeps

/-- Stripping is what repeated sweeps settle on, for every text. No sequence is left in it, be it
one that only came about when another was taken out; stripping it again changes nothing; and a text
is left as it is exactly where it held no sequence. -/
theorem strip_settles_on_free_text (t : Text) :
    (∃ n ≤ t.length, SettlesAfter n t ∧ strip t = sweep^[n] t) ∧ Free (strip t) ∧
      strip (strip t) = strip t ∧ (strip t = t ↔ Free t) :=
  ⟨exists_settlesAfter t,free_strip t,strip_eq_self_iff.mpr (free_strip t),strip_eq_self_iff⟩

/-- An introducer in front of a sequence comes to stand in front of what follows it. -/
example : strip ['\x1b','\x1b','[','1','m','m','x'] = ['x'] := by cbv

/-- A character that is part of no escape sequence. Digits and the semicolon are, since digits
terminate sequences and the semicolon leads them. -/
structure Foreign (c : Char) : Prop where
  introducer : isIntroducer c = false
  lead : isLead c = false
  terminator : isTerminator c = false

theorem foreign_lineFeed : Foreign '\n' := ⟨by decide,by decide,by decide⟩

theorem foreign_carriageReturn : Foreign '\r' := ⟨by decide,by decide,by decide⟩

namespace Foreign

variable {c : Char}

theorem not_isDigit (hc : Foreign c) : isDigit c = false := by
  cases hd : isDigit c with
  | false => rfl
  | true =>
    have h := hc.terminator
    simp [isTerminator,hd] at h

theorem ne_semicolon (hc : Foreign c) : c ≠ ';' := by
  rintro rfl
  exact absurd hc.lead (by decide)

end Foreign

section Recognition

variable {c : Char} (hc : Foreign c) (v : Text)

include hc

theorem afterParameters?_append_cons (room : Nat) (u : Text) :
    afterParameters? room (u ++ c :: v) = (afterParameters? room u).map (· ++ c :: v) := by
  induction u generalizing room with
  | nil => simp [afterParameters?,hc.not_isDigit,hc.ne_semicolon,hc.terminator]
  | cons d u ih =>
    simp only [List.cons_append,afterParameters?_cons,ih,Option.map_or,
      apply_ite (Option.map (· ++ c :: v)),Option.map_none,Option.map_some]

theorem afterLeads?_append_cons (u : Text) :
    afterLeads? (u ++ c :: v) = (afterLeads? u).map (· ++ c :: v) := by
  induction u with
  | nil => simp [afterLeads?,hc.not_isDigit,hc.lead,hc.terminator]
  | cons d u ih =>
    simp only [List.cons_append,afterLeads?_cons,ih,afterParameters?_append_cons hc,
      Option.map_or,apply_ite (Option.map (· ++ c :: v)),Option.map_none,Option.map_some]

theorem rest?_append_cons (u : Text) : rest? (u ++ c :: v) = (rest? u).map (· ++ c :: v) := by
  cases u with
  | nil => simp [rest?,hc.introducer]
  | cons d u =>
    simp only [List.cons_append,rest?,afterLeads?_append_cons hc]
    split <;> rfl

end Recognition

section Stripping

variable {c : Char} (hc : Foreign c)

include hc

theorem sweep_append_cons (u v : Text) : sweep (u ++ c :: v) = sweep u ++ c :: sweep v := by
  fun_induction sweep u with
  | case1 u rest hr _ ih =>
    have h := rest?_append_cons hc v u
    rw [hr] at h
    rw [sweep_of_rest? h,ih]
  | case2 hr => exact sweep_cons (rest?_append_cons hc v [])
  | case3 d u hr ih =>
    have h := rest?_append_cons hc v (d :: u)
    rw [hr] at h
    exact (sweep_cons h).trans (congrArg (d :: ·) ih)

/-- A foreign character stays, with the stripped text on either side of it. -/
theorem strip_append_cons (u v : Text) : strip (u ++ c :: v) = strip u ++ c :: strip v := by
  by_cases h : sweep u = u ∧ sweep v = v
  · have hboth : sweep (u ++ c :: v) = u ++ c :: v := by rw [sweep_append_cons hc,h.1,h.2]
    rw [strip,dif_pos hboth,strip,dif_pos h.1,strip,dif_pos h.2]
  · have hlt : (sweep u).length + (sweep v).length < u.length + v.length := by
      have hu := length_sweep_le u
      have hv := length_sweep_le v
      rcases not_and_or.mp h with h | h
      · have := length_sweep_lt h
        omega
      · have := length_sweep_lt h
        omega
    calc strip (u ++ c :: v) = strip (sweep u ++ c :: sweep v) := by
          rw [← strip_sweep,sweep_append_cons hc]
      _ = strip (sweep u) ++ c :: strip (sweep v) := strip_append_cons (sweep u) (sweep v)
      _ = strip u ++ c :: strip v := by rw [strip_sweep,strip_sweep]
  termination_by u.length + v.length

end Stripping

section Sublists

variable {α : Type} [DecidableEq α] [Letter α]

theorem sweep_sublist (t : Text α) : (sweep t).Sublist t := by
  fun_induction sweep t with
  | case1 t rest h _ ih =>
    obtain ⟨c,r,rfl,hr⟩ := suffix_of_rest? h
    exact ih.trans (hr.trans (List.suffix_cons c r)).sublist
  | case2 => exact List.Sublist.refl []
  | case3 c r h ih => exact ih.cons_cons c

theorem strip_sublist (t : Text α) : (strip t).Sublist t := by
  fun_induction strip t with
  | case1 t h => exact List.Sublist.refl t
  | case2 t h _ ih => exact ih.trans (sweep_sublist t)

end Sublists

end FormatEdits.Escape
