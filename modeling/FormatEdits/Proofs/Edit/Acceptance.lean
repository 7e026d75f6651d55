import FormatEdits.Proofs.Edit.Position
import Mathlib.Data.List.Chain

namespace FormatEdits.Edit

/-- What an edit does to a text, whether or not that is accepted. -/
def changeIn (e : Edit) (t : Text) : Change :=
  { start := position t e.startLine.toNat (some e.startCharacter)
    stop := position t e.endLine.toNat e.endCharacter
    replacement := e.replacement }

/-- The edit has a range: none of its lines is negative, and it ends no earlier than it starts. -/
structure Fits (t : Text) (e : Edit) : Prop where
  startLine : 0 ≤ e.startLine
  endLine : 0 ≤ e.endLine
  upright : (e.changeIn t).start ≤ (e.changeIn t).stop

/-- The range of an edit ends where that of another starts, or in front of it. -/
def Clears (t : Text) (a b : Edit) : Prop := (a.changeIn t).stop ≤ (b.changeIn t).start

/-- The edits have their ranges, one behind the other. -/
structure Accepts (t : Text) (es : List Edit) : Prop where
  fits : ∀ e ∈ es, Fits t e
  ordered : es.IsChain (Clears t)

section Resolution

variable {t : Text} {previous : Nat}

theorem resolve_of_nonneg {e : Edit} (hs : 0 ≤ e.startLine) (he : 0 ≤ e.endLine) :
    resolve t previous e =
      if (e.changeIn t).stop < (e.changeIn t).start then .error (.endsBeforeStart e)
      else if (e.changeIn t).start < previous then .error (.outOfOrder e)
      else .ok (e.changeIn t) := by
  simp only [resolve,offset_of_nonneg t hs,offset_of_nonneg t he,bind,Except.bind]
  rw [changeIn]
  split
  · rfl
  · split <;> rfl

theorem nonneg_of_offset {line : Int} {c : Option Nat} {o : Nat} (h : offset t line c = .ok o) :
    0 ≤ line := by
  refine Int.not_lt.mp fun hneg => ?_
  unfold offset at h
  rw [if_pos hneg] at h
  cases h

theorem nonneg_of_resolve {e : Edit} {c : Change} (h : resolve t previous e = .ok c) :
    0 ≤ e.startLine ∧ 0 ≤ e.endLine := by
  unfold resolve at h
  cases hs : offset t e.startLine (some e.startCharacter) with
  | error fault => simp [hs,bind,Except.bind] at h
  | ok start =>
    cases he : offset t e.endLine e.endCharacter with
    | error fault => simp [hs,he,bind,Except.bind] at h
    | ok stop => exact ⟨nonneg_of_offset hs,nonneg_of_offset he⟩

theorem resolve_eq_ok_iff {e : Edit} {c : Change} : resolve t previous e = .ok c ↔
    Fits t e ∧ previous ≤ (e.changeIn t).start ∧ c = e.changeIn t := by
  constructor
  · intro h
    obtain ⟨hs,he⟩ := nonneg_of_resolve h
    rw [resolve_of_nonneg hs he] at h
    split at h
    · cases h
    · next hstop =>
      split at h
      · cases h
      · next hstart =>
        exact ⟨⟨hs,he,Nat.not_lt.mp hstop⟩,Nat.not_lt.mp hstart,(Except.ok.inj h).symm⟩
  · rintro ⟨⟨hs,he,hle⟩,hprevious,rfl⟩
    rw [resolve_of_nonneg hs he,if_neg (Nat.not_lt.mpr hle),if_neg (Nat.not_lt.mpr hprevious)]

theorem resolveAll_eq_ok_iff {es : List Edit} {cs : List Change} :
    resolveAll t previous es = .ok cs ↔ Accepts t es ∧
      (∀ e ∈ es.head?, previous ≤ (e.changeIn t).start) ∧ cs = es.map (·.changeIn t) := by
  induction es generalizing previous cs with
  | nil =>
    rw [resolveAll,Except.ok.injEq]
    exact ⟨fun h => ⟨⟨by simp,.nil⟩,by simp,h.symm⟩,fun h => h.2.2.symm⟩
  | cons e es ih =>
    constructor
    · intro h
      cases hc : resolve t previous e with
      | error fault => simp [resolveAll,hc,bind,Except.bind] at h
      | ok c =>
        cases hcs : resolveAll t c.stop es with
        | error fault => simp [resolveAll,hc,hcs,bind,Except.bind] at h
        | ok rest =>
          obtain rfl : c :: rest = cs :=
            Except.ok.inj ((resolveAll_cons hc hcs).symm.trans h)
          obtain ⟨hfits,hprevious,rfl⟩ := resolve_eq_ok_iff.mp hc
          obtain ⟨⟨hall,hchain⟩,hnext,rfl⟩ := ih.mp hcs
          exact ⟨⟨List.forall_mem_cons.mpr ⟨hfits,hall⟩,List.isChain_cons.mpr ⟨hnext,hchain⟩⟩,
            by simpa using hprevious,rfl⟩
    · rintro ⟨⟨hfits,hchain⟩,hprevious,rfl⟩
      obtain ⟨hfirst,hall⟩ := List.forall_mem_cons.mp hfits
      obtain ⟨hnext,hchain⟩ := List.isChain_cons.mp hchain
      have hc := resolve_eq_ok_iff.mpr ⟨hfirst,hprevious e rfl,rfl⟩
      exact resolveAll_cons hc (ih.mpr ⟨⟨hall,hchain⟩,hnext,rfl⟩)

theorem apply_eq_ok_iff {es : List Edit} {u : Text} :
    apply t es = .ok u ↔ Accepts t es ∧ u = rebuild t 0 (es.map (·.changeIn t)) := by
  have hmap : apply t es = .ok u ↔
      ∃ cs, resolveAll t 0 es = .ok cs ∧ rebuild t 0 cs = u := by
    rw [apply]
    cases resolveAll t 0 es <;> simp [Except.map]
  rw [hmap]
  constructor
  · rintro ⟨cs,hcs,rfl⟩
    obtain ⟨haccepts,-,rfl⟩ := resolveAll_eq_ok_iff.mp hcs
    exact ⟨haccepts,rfl⟩
  · rintro ⟨haccepts,rfl⟩
    exact ⟨_,resolveAll_eq_ok_iff.mpr ⟨haccepts,fun _ _ => Nat.zero_le _,rfl⟩,rfl⟩

/-- Application fails on edits of which one has no range, or does not clear the next one. -/
theorem apply_eq_error_iff {es : List Edit} :
    (∃ fault, apply t es = .error fault) ↔ ¬ Accepts t es := by
  constructor
  · rintro ⟨fault,hfault⟩ haccepts
    cases hfault.symm.trans (apply_eq_ok_iff.mpr ⟨haccepts,rfl⟩)
  · intro h
    cases happly : apply t es with
    | error fault => exact ⟨fault,rfl⟩
    | ok u => exact absurd (apply_eq_ok_iff.mp happly).1 h

theorem apply_single {e : Edit} (h : Fits t e) : apply t [e] =
    .ok (t.take (e.changeIn t).start ++ e.replacement ++ t.drop (e.changeIn t).stop) :=
  apply_eq_ok_iff.mpr ⟨⟨by simpa using h,.singleton e⟩,rfl⟩

theorem apply_lines (t : Text) {i k : Nat} (h : i ≤ k) (r : Text) :
    apply t [⟨i,k,0,none,r⟩] = .ok (t.take (lineStart t i) ++ r ++ t.drop (lineStop t k)) := by
  have hchange : changeIn ⟨i,k,0,none,r⟩ t = ⟨lineStart t i,lineStop t k,r⟩ := by
    rw [changeIn,Int.toNat_natCast,Int.toNat_natCast,position_zero,position]
  have hle : lineStart t i ≤ lineStop t k :=
    Nat.le_trans (lineStart_mono t h) (lineStart_le_lineStop t k)
  have happly := apply_single (t := t) (e := ⟨i,k,0,none,r⟩)
    ⟨Int.natCast_nonneg i,Int.natCast_nonneg k,by rw [hchange]; exact hle⟩
  rw [hchange] at happly
  exact happly

end Resolution

section Parts

theorem pairwise_of_isChain {α : Type} {R : α → α → Prop} {P : α → Prop}
    (trans : ∀ {a b c}, R a b → P b → R b c → R a c) {as : List α} (hP : ∀ a ∈ as, P a)
    (h : as.IsChain R) : as.Pairwise R := by
  let S (a b : α) : Prop := R a b ∧ P b
  have : Trans S S S := ⟨fun hab hbc => ⟨trans hab.1 hab.2 hbc.1,hbc.2⟩⟩
  have hchain : as.IsChain S := h.imp_of_mem_imp fun _ b _ hb hab => ⟨hab,hP b hb⟩
  exact hchain.pairwise.imp And.left

variable {t : Text} {es : List Edit}

theorem Clears.trans {a b c : Edit} (hab : Clears t a b) (hb : Fits t b) (hbc : Clears t b c) :
    Clears t a c :=
  calc (a.changeIn t).stop ≤ (b.changeIn t).start := hab
    _ ≤ (b.changeIn t).stop := hb.upright
    _ ≤ (c.changeIn t).start := hbc

theorem Accepts.pairwise (h : Accepts t es) : es.Pairwise (Clears t) :=
  pairwise_of_isChain (R := Clears t) Clears.trans h.fits h.ordered

/-- What is asked of accepted edits: of each by itself, and of any two that stand side by side. -/
theorem accepts_iff : Accepts t es ↔ (∀ e ∈ es, 0 ≤ e.startLine ∧ 0 ≤ e.endLine) ∧
    (∀ e ∈ es, (e.changeIn t).start ≤ (e.changeIn t).stop) ∧
    ∀ before a b after, es = before ++ a :: b :: after →
      (a.changeIn t).stop ≤ (b.changeIn t).start := by
  constructor
  · intro h
    refine ⟨fun e he => ⟨(h.fits e he).startLine,(h.fits e he).endLine⟩,
      fun e he => (h.fits e he).upright,fun before a b after hsplit => ?_⟩
    exact List.isChain_iff_forall_rel_of_append_cons_cons.mp h.ordered hsplit
  · rintro ⟨hlines,hupright,hordered⟩
    refine ⟨fun e he => ⟨(hlines e he).1,(hlines e he).2,hupright e he⟩,?_⟩
    exact List.isChain_iff_forall_rel_of_append_cons_cons.mpr fun a b before after hsplit =>
      hordered before a b after hsplit

theorem Accepts.sublist {fs : List Edit} (h : Accepts t es) (hsub : fs.Sublist es) :
    Accepts t fs :=
  ⟨fun e he => h.fits e (hsub.mem he),(h.pairwise.sublist hsub).isChain⟩

end Parts

/-- How edits cut a text from an offset on: in front of each one what it leaves alone is kept, and
what it reaches over is covered. -/
def cutsFrom (t : Text) : Nat → List Edit → List Cut
  | _, [] => []
  | o, e :: es =>
    ⟨t.extract o (e.changeIn t).start,t.extract (e.changeIn t).start (e.changeIn t).stop,
      e.replacement⟩ :: cutsFrom t (e.changeIn t).stop es

variable {t : Text} {es : List Edit}

theorem extract_append_drop (t : Text) {i j : Nat} (h : i ≤ j) :
    t.extract i j ++ t.drop j = t.drop i := by
  have hdrop : t.drop j = (t.drop i).drop (j - i) := by rw [List.drop_drop,Nat.add_sub_cancel' h]
  rw [List.extract_eq_take_drop,hdrop,List.take_append_drop]

/-- The cuts of accepted edits make up the text from the offset on, and what replaces them makes up
what is built. -/
theorem cutsFrom_of_accepts (h : Accepts t es) {o : Nat}
    (ho : ∀ e ∈ es.head?, o ≤ (e.changeIn t).start) :
    ∃ rest, Cut.before (cutsFrom t o es) rest = t.drop o ∧
      Cut.after (cutsFrom t o es) rest = rebuild t o (es.map (·.changeIn t)) := by
  induction es generalizing o with
  | nil => exact ⟨t.drop o,rfl,rfl⟩
  | cons e es ih =>
    have hnext := (List.isChain_cons.mp h.ordered).1
    obtain ⟨rest,hbefore,hafter⟩ := ih (h.sublist (List.sublist_cons_self e es)) hnext
    have hstart : o ≤ (e.changeIn t).start := ho e rfl
    have hstop := (h.fits e List.mem_cons_self).upright
    refine ⟨rest,?_,?_⟩
    · rw [cutsFrom,Cut.before_cons,hbefore,extract_append_drop t hstop,extract_append_drop t hstart]
    · rw [cutsFrom,Cut.after_cons,hafter,List.map_cons,rebuild,List.append_assoc]
      rfl

/-- Edits are refused, or the text comes apart into what they leave alone and what they cover, and
the result has their replacements in the place of what they cover: nothing else is lost, moved or
written twice. The ends of a range are offsets of the text, where a character past the content of
its line stands for the end of the content, and a line past the last one for the end of the text.
Edits are refused exactly if one of them names a negative line, ends in front of its start, or
starts in front of the end of the one before it. -/
theorem apply_changes_covered_text_alone (t : Text) (es : List Edit) :
    ((∃ fault, apply t es = .error fault) ∨
      ∃ rest, t = Cut.before (cutsFrom t 0 es) rest ∧
        apply t es = .ok (Cut.after (cutsFrom t 0 es) rest)) ∧
      ((∃ fault, apply t es = .error fault) ↔
        (∃ e ∈ es, e.startLine < 0 ∨ e.endLine < 0) ∨
        (∃ e ∈ es, (e.changeIn t).stop < (e.changeIn t).start) ∨
        ∃ before a b after, es = before ++ a :: b :: after ∧
          (b.changeIn t).start < (a.changeIn t).stop) := by
  refine ⟨?_,?_⟩
  · by_cases h : Accepts t es
    · obtain ⟨rest,hbefore,hafter⟩ := cutsFrom_of_accepts h fun _ _ => Nat.zero_le _
      exact .inr ⟨rest,hbefore.symm,apply_eq_ok_iff.mpr ⟨h,hafter⟩⟩
    · exact .inl (apply_eq_error_iff.mpr h)
  · rw [apply_eq_error_iff,accepts_iff]
    constructor
    · intro h
      by_contra hnone
      simp only [not_or,not_exists,not_and,Int.not_lt,Nat.not_lt] at hnone
      exact h hnone
    · rintro (⟨e,he,hline⟩ | ⟨e,he,hstop⟩ | ⟨before,a,b,after,hsplit,hstart⟩)
        ⟨hlines,hupright,hordered⟩
      · have := hlines e he
        omega
      · exact Nat.not_le.mpr hstop (hupright e he)
      · exact Nat.not_le.mpr hstart (hordered before a b after hsplit)

/-- A character past the content of its line, and lines past the last one. -/
example : apply "ab\r\nc".toList [⟨0,0,1,some 9,['X']⟩,⟨5,7,3,none,['Y']⟩] =
    .ok "aX\r\ncY".toList := by decide

end FormatEdits.Edit
