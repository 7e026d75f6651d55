import FormatEdits.Edit
import FormatEdits.Proofs.Text.Lines

namespace FormatEdits.Edit

open Text (pieces contentLength terminated Plain)

/-- The offset of a line; lines past the last start at the end of the text. -/
def lineStart (t : Text) (i : Nat) : Nat := (t.pieces.take i).flatten.length

/-- The offset where a line's content ends. -/
def lineStop (t : Text) (i : Nat) : Nat := lineStart t i + (t.pieces[i]?.map contentLength).getD 0

/-- The offset of a character of a line, none being past every character. -/
def position (t : Text) (i : Nat) : Option Nat → Nat
  | none => lineStop t i
  | some c => min (lineStart t i + c) (lineStop t i)

theorem spansFrom_getElem? (o : Nat) (ps : List Text) (i : Nat) :
    (spansFrom o ps)[i]? = ps[i]?.map fun p =>
      ⟨o + (ps.take i).flatten.length,o + (ps.take i).flatten.length + contentLength p⟩ := by
  induction ps generalizing o i with
  | nil => rfl
  | cons p ps ih =>
    cases i with
    | zero => simp [spansFrom]
    | succ i => simp [spansFrom,ih,Nat.add_assoc]

theorem lineStart_of_length_le {t : Text} {i : Nat} (h : t.pieces.length ≤ i) :
    lineStart t i = t.length := by
  rw [lineStart,List.take_of_length_le h,Text.flatten_pieces]

theorem lineStop_of_length_le {t : Text} {i : Nat} (h : t.pieces.length ≤ i) :
    lineStop t i = t.length := by
  simp [lineStop,lineStart_of_length_le h,List.getElem?_eq_none h]

theorem lineStart_le_lineStop (t : Text) (i : Nat) : lineStart t i ≤ lineStop t i :=
  Nat.le_add_right _ _

theorem lineStop_le_lineStart_succ (t : Text) (i : Nat) : lineStop t i ≤ lineStart t (i + 1) := by
  cases h : t.pieces[i]? with
  | none =>
    have hi : t.pieces.length ≤ i := List.getElem?_eq_none_iff.mp h
    rw [lineStop_of_length_le hi,lineStart_of_length_le (Nat.le_succ_of_le hi)]
  | some p =>
    have := Text.contentLength_le p
    simp [lineStop,lineStart,h,List.take_add_one]
    omega

theorem lineStart_mono (t : Text) {i j : Nat} (h : i ≤ j) : lineStart t i ≤ lineStart t j := by
  induction h with
  | refl => exact Nat.le_refl _
  | step _ ih =>
    exact Nat.le_trans ih
      (Nat.le_trans (lineStart_le_lineStop t _) (lineStop_le_lineStart_succ t _))

theorem lineStop_le_lineStart (t : Text) {i j : Nat} (h : i < j) :
    lineStop t i ≤ lineStart t j :=
  Nat.le_trans (lineStop_le_lineStart_succ t i) (lineStart_mono t h)

theorem lineStart_le_length (t : Text) (i : Nat) : lineStart t i ≤ t.length := by
  rcases Nat.le_total i t.pieces.length with h | h
  · exact lineStart_of_length_le (Nat.le_refl t.pieces.length) ▸ lineStart_mono t h
  · exact Nat.le_of_eq (lineStart_of_length_le h)

theorem position_zero (t : Text) (i : Nat) : position t i (some 0) = lineStart t i :=
  Nat.min_eq_left (lineStart_le_lineStop t i)

theorem lineStart_le_position (t : Text) (i : Nat) (c : Option Nat) :
    lineStart t i ≤ position t i c := by
  cases c with
  | none => exact lineStart_le_lineStop t i
  | some c => exact Nat.le_min.mpr ⟨Nat.le_add_right _ _,lineStart_le_lineStop t i⟩

theorem position_le_lineStop (t : Text) (i : Nat) (c : Option Nat) :
    position t i c ≤ lineStop t i := by
  cases c with
  | none => exact Nat.le_refl _
  | some c => exact Nat.min_le_right _ _

theorem position_le_length (t : Text) (i : Nat) (c : Option Nat) : position t i c ≤ t.length :=
  Nat.le_trans (position_le_lineStop t i c)
    (Nat.le_trans (lineStop_le_lineStart_succ t i) (lineStart_le_length t (i + 1)))

theorem lineStop_le_length (t : Text) (i : Nat) : lineStop t i ≤ t.length :=
  position_le_length t i none

theorem position_le_of_lt (t : Text) {i j : Nat} (h : i < j) (c d : Option Nat) :
    position t i c ≤ position t j d :=
  calc position t i c ≤ lineStop t i := position_le_lineStop t i c
    _ ≤ lineStart t j := lineStop_le_lineStart t h
    _ ≤ position t j d := lineStart_le_position t j d

/-- A character comes no later than another one of its line; none is past every character. -/
def CharacterLE : Option Nat → Option Nat → Prop
  | _, none => True
  | none, some _ => False
  | some c, some d => c ≤ d

instance CharacterLE.decidable : (c d : Option Nat) → Decidable (CharacterLE c d)
  | none, none => .isTrue trivial
  | some _, none => .isTrue trivial
  | none, some _ => .isFalse id
  | some c, some d => inferInstanceAs (Decidable (c ≤ d))

/-- Positions in the order of lines, and of characters within a line. -/
def PositionLE (i : Int) (c : Option Nat) (j : Int) (d : Option Nat) : Prop :=
  i < j ∨ i = j ∧ CharacterLE c d

instance PositionLE.decidable (i : Int) (c : Option Nat) (j : Int) (d : Option Nat) :
    Decidable (PositionLE i c j d) :=
  inferInstanceAs (Decidable (_ ∨ _ ∧ _))

theorem position_le_of_character (t : Text) (i : Nat) {c d : Option Nat} (h : CharacterLE c d) :
    position t i c ≤ position t i d := by
  cases d with
  | none => exact position_le_lineStop t i c
  | some d =>
    cases c with
    | none => exact absurd h id
    | some c =>
      have hcd : c ≤ d := h
      simp only [position]
      omega

theorem position_mono (t : Text) {i j : Int} {c d : Option Nat} (hi : 0 ≤ i)
    (h : PositionLE i c j d) : position t i.toNat c ≤ position t j.toNat d := by
  rcases h with h | ⟨rfl,h⟩
  · exact position_le_of_lt t (by omega) c d
  · exact position_le_of_character t i.toNat h

theorem offset_of_nonneg (t : Text) {line : Int} (h : 0 ≤ line) (c : Option Nat) :
    offset t line c = .ok (position t line.toNat c) := by
  unfold offset spans
  rw [if_neg (Int.not_lt.mpr h),spansFrom_getElem?]
  cases hp : t.pieces[line.toNat]? with
  | none =>
    have hi : t.pieces.length ≤ line.toNat := List.getElem?_eq_none_iff.mp hp
    cases c <;> simp [position,lineStart_of_length_le hi,lineStop_of_length_le hi]
  | some p => cases c <;> simp [position,lineStop,lineStart,hp]

theorem lineStart_terminated {ls : List Text} (h : ∀ l ∈ ls, Plain l) (r : Text) :
    lineStart (terminated ls ++ r) ls.length = (terminated ls).length := by
  rw [lineStart,Text.pieces_terminated h,List.take_left' (by simp)]
  simp [terminated,List.flatMap]

theorem lineStop_terminated {ls : List Text} {l r : Text} (h : ∀ l ∈ ls, Plain l) (hl : Plain l)
    (hr : r = [] ∨ r.head? = some '\n') :
    lineStop (terminated ls ++ l ++ r) ls.length = (terminated ls ++ l).length := by
  have hstart := lineStart_terminated h (l ++ r)
  rw [List.append_assoc,lineStop,hstart,Text.pieces_terminated h,
    List.getElem?_append_right (by simp)]
  simp only [List.length_map,Nat.sub_self,List.length_append]
  congr 1
  cases r with
  | nil =>
    by_cases hne : l = []
    · subst hne
      rfl
    · simp [Text.pieces_plain hl hne,Text.contentLength_plain hl]
  | cons c r =>
    obtain rfl : c = '\n' := by simpa using hr
    simp [Text.pieces_append hl,Text.contentLength_terminated hl]

/-- A stretch of a text that is kept, the stretch behind it that an edit covers, and what takes
the place of that one. -/
structure Cut where
  kept : Text
  covered : Text
  replacement : Text
  deriving DecidableEq, Repr

namespace Cut

/-- The text that is cut up, with its rest behind the last cut. -/
def before (cs : List Cut) (rest : Text) : Text := cs.flatMap (fun c => c.kept ++ c.covered) ++ rest

/-- The text that the cuts lead to. -/
def after (cs : List Cut) (rest : Text) : Text :=
  cs.flatMap (fun c => c.kept ++ c.replacement) ++ rest

@[simp] theorem before_cons (c : Cut) (cs : List Cut) (rest : Text) :
    before (c :: cs) rest = c.kept ++ (c.covered ++ before cs rest) := by
  simp [before]

@[simp] theorem after_cons (c : Cut) (cs : List Cut) (rest : Text) :
    after (c :: cs) rest = c.kept ++ (c.replacement ++ after cs rest) := by
  simp [after]

end Cut

/-- From an offset on, each edit covers its cut. -/
inductive Covers (t : Text) : Nat → List Edit → List Cut → Prop
  | nil (o : Nat) : Covers t o [] []
  | cons {o : Nat} {e : Edit} {es : List Edit} {c : Cut} {cs : List Cut}
      (start : offset t e.startLine (some e.startCharacter) = .ok (o + c.kept.length))
      (stop : offset t e.endLine e.endCharacter = .ok (o + c.kept.length + c.covered.length))
      (replacement : e.replacement = c.replacement)
      (tail : Covers t (o + c.kept.length + c.covered.length) es cs) :
      Covers t o (e :: es) (c :: cs)

theorem resolve_of_offset {t : Text} {previous start stop : Nat} {e : Edit}
    (hs : offset t e.startLine (some e.startCharacter) = .ok start)
    (he : offset t e.endLine e.endCharacter = .ok stop)
    (hle : start ≤ stop) (hp : previous ≤ start) :
    resolve t previous e = .ok ⟨start,stop,e.replacement⟩ := by
  simp only [resolve,hs,he,bind,Except.bind]
  rw [if_neg (Nat.not_lt.mpr hle),if_neg (Nat.not_lt.mpr hp)]
  rfl

theorem resolveAll_cons {t : Text} {previous : Nat} {e : Edit} {es : List Edit} {change : Change}
    {changes : List Change} (hc : resolve t previous e = .ok change)
    (hcs : resolveAll t change.stop es = .ok changes) :
    resolveAll t previous (e :: es) = .ok (change :: changes) := by
  simp only [resolveAll,hc,hcs,bind,Except.bind]
  rfl

/-- The offset where the next cut begins is carried along, as is the text up to it. -/
theorem resolveAll_of_covers (seen : Text) {t rest : Text} {o : Nat} {es : List Edit}
    {cs : List Cut} (h : Covers t o es cs) (ht : t = seen ++ Cut.before cs rest)
    (ho : seen.length = o) :
    ∃ changes, resolveAll t o es = .ok changes ∧ rebuild t o changes = Cut.after cs rest := by
  induction h generalizing seen with
  | nil o =>
    refine ⟨[],rfl,?_⟩
    rw [rebuild,ht,← ho,List.drop_left]
    rfl
  | @cons o e es c cs start stop replacement _ ih =>
    rw [Cut.before_cons] at ht
    obtain ⟨changes,hr,hb⟩ := ih (seen ++ (c.kept ++ c.covered)) (by simp [ht])
      (by simp [ho,Nat.add_assoc])
    have hc := resolve_of_offset start stop (Nat.le_add_right _ _) (Nat.le_add_right o _)
    refine ⟨_,resolveAll_cons hc hr,?_⟩
    have hkept : (t.drop o).take (o + c.kept.length - o) = c.kept := by
      rw [ht,← ho,List.drop_left,Nat.add_sub_cancel_left,List.take_left]
    rw [rebuild,hkept,hb,replacement,Cut.after_cons,List.append_assoc]

/-- Edits that cover their cuts put the replacements into place. -/
theorem apply_of_covers {t rest : Text} {es : List Edit} {cs : List Cut} (h : Covers t 0 es cs)
    (ht : t = Cut.before cs rest) : apply t es = .ok (Cut.after cs rest) := by
  obtain ⟨changes,hr,hb⟩ := resolveAll_of_covers [] h ht rfl
  rw [apply,hr,← hb]
  rfl

theorem apply_singleton {t kept covered rest : Text} {e : Edit} (ht : t = kept ++ covered ++ rest)
    (hstart : offset t e.startLine (some e.startCharacter) = .ok kept.length)
    (hstop : offset t e.endLine e.endCharacter = .ok (kept.length + covered.length)) :
    apply t [e] = .ok (kept ++ e.replacement ++ rest) := by
  have hcovers : Covers t 0 [e] [⟨kept,covered,e.replacement⟩] :=
    .cons (by simpa using hstart) (by simpa using hstop) rfl (.nil _)
  have hcut : t = Cut.before [⟨kept,covered,e.replacement⟩] rest := by
    simpa [Cut.before] using ht
  simpa [Cut.after] using apply_of_covers hcovers hcut

end FormatEdits.Edit
