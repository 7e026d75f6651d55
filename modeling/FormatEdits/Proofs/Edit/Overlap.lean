import FormatEdits.Proofs.Edit.LineNumbering

namespace FormatEdits.Edit

/-- The edit covers lines from the start of one to the end of the content of that one or another. -/
structure WholeLines (e : Edit) : Prop where
  startCharacter : e.startCharacter = 0
  endCharacter : e.endCharacter = none
  nonneg : 0 ≤ e.startLine
  ordered : e.startLine ≤ e.endLine

/-- The line is one of those that the edit reaches over. -/
def SpansLine (e : Edit) (k : Nat) : Prop := e.startLine ≤ k ∧ (k : Int) ≤ e.endLine

/-- One edit ends and the other begins in the line, and the line has no content. -/
structure MeetInEmpty (t : Text) (a b : Edit) (k : Nat) : Prop where
  ends : a.endLine = k
  begins : b.startLine = k
  empty : lineStop t k = lineStart t k

instance MeetInEmpty.decidable (t : Text) (a b : Edit) (k : Nat) :
    Decidable (MeetInEmpty t a b k) :=
  decidable_of_iff (a.endLine = k ∧ b.startLine = k ∧ lineStop t k = lineStart t k)
    ⟨fun h => ⟨h.1,h.2.1,h.2.2⟩,fun h => ⟨h.ends,h.begins,h.empty⟩⟩

section Ranges

variable {e : Edit}

theorem WholeLines.start_eq (h : e.WholeLines) (t : Text) :
    (e.changeIn t).start = lineStart t e.startLine.toNat := by
  rw [changeIn,h.startCharacter,position_zero]

theorem WholeLines.stop_eq (h : e.WholeLines) (t : Text) :
    (e.changeIn t).stop = lineStop t e.endLine.toNat := by
  rw [changeIn,h.endCharacter,position]

theorem WholeLines.fits (h : e.WholeLines) (t : Text) : Fits t e := by
  refine ⟨h.nonneg,Int.le_trans h.nonneg h.ordered,?_⟩
  rw [h.start_eq,h.stop_eq]
  exact Nat.le_trans (lineStart_mono t (Int.toNat_le_toNat h.ordered)) (lineStart_le_lineStop t _)

end Ranges

section SharedLine

variable {t : Text} {a b : Edit} {k : Nat}

/-- Of edits that share a line, the first clears the second only if they meet in an empty line:
every line that one of them reaches over beyond that takes room. -/
theorem clears_iff_meetInEmpty (hk : k < t.pieces.length) (ha : a.WholeLines) (hb : b.WholeLines)
    (hka : a.SpansLine k) (hkb : b.SpansLine k) : Clears t a b ↔ MeetInEmpty t a b k := by
  have hbegin := hb.nonneg
  obtain ⟨-,hend⟩ := hka
  obtain ⟨hstart,-⟩ := hkb
  rw [Clears,ha.stop_eq,hb.start_eq]
  constructor
  · intro h
    have hb' : lineStart t b.startLine.toNat ≤ lineStart t k := lineStart_mono t (by omega)
    have hkk := lineStart_le_lineStop t k
    have hbk : b.startLine = k := by
      refine Int.le_antisymm hstart (Int.not_lt.mp fun hlt => ?_)
      have hroom : lineStart t b.startLine.toNat < lineStart t k :=
        lineStart_lt t (by omega) (Nat.le_of_lt hk)
      have ha' : lineStart t k ≤ lineStart t a.endLine.toNat := lineStart_mono t (by omega)
      have := lineStart_le_lineStop t a.endLine.toNat
      omega
    have hak : a.endLine = k := by
      refine Int.le_antisymm (Int.not_lt.mp fun hlt => ?_) hend
      have hroom : lineStart t k < lineStart t (k + 1) := lineStart_lt t (Nat.lt_succ_self k) hk
      have ha' : lineStart t (k + 1) ≤ lineStart t a.endLine.toNat := lineStart_mono t (by omega)
      have := lineStart_le_lineStop t a.endLine.toNat
      omega
    rw [hak,hbk,Int.toNat_natCast] at h
    exact ⟨hak,hbk,Nat.le_antisymm h hkk⟩
  · rintro ⟨hak,hbk,hempty⟩
    rw [hak,hbk,Int.toNat_natCast,hempty]

theorem apply_sharing (hk : k < t.pieces.length) (ha : a.WholeLines) (hb : b.WholeLines)
    (hka : a.SpansLine k) (hkb : b.SpansLine k) :
    apply t [a,b] =
      if MeetInEmpty t a b k then
        .ok (t.take (lineStart t a.startLine.toNat) ++ a.replacement ++
          (b.replacement ++ t.drop (lineStop t b.endLine.toNat)))
      else .error (.outOfOrder b) := by
  have hmeet := clears_iff_meetInEmpty hk ha hb hka hkb
  split
  · next h =>
    have haccepts : Accepts t [a,b] :=
      ⟨by simpa using ⟨ha.fits t,hb.fits t⟩,by simpa using hmeet.mpr h⟩
    refine apply_eq_ok_iff.mpr ⟨haccepts,?_⟩
    have hgap : (b.changeIn t).start - (a.changeIn t).stop = 0 := by
      rw [ha.stop_eq,hb.start_eq,h.ends,h.begins,Int.toNat_natCast,h.empty,Nat.sub_self]
    simp only [List.map_cons,List.map_nil,rebuild,hgap,ha.start_eq,hb.stop_eq,List.drop_zero,
      Nat.sub_zero,List.take_zero,List.nil_append]
    rfl
  · next h =>
    have hfirst : resolve t 0 a = .ok (a.changeIn t) :=
      resolve_eq_ok_iff.mpr ⟨ha.fits t,Nat.zero_le _,rfl⟩
    have hsecond : resolve t (a.changeIn t).stop b = .error (.outOfOrder b) := by
      have hclears : ¬ Clears t a b := fun hc => h (hmeet.mp hc)
      obtain ⟨hs,he,hle⟩ := hb.fits t
      rw [resolve_of_nonneg hs he,if_neg (Nat.not_lt.mpr hle),if_pos (Nat.not_le.mp hclears)]
    simp [apply,resolveAll,hfirst,hsecond,bind,Except.bind,Except.map]

end SharedLine

/-- Overlapping edits are refused only as far as their offsets show it. Two edits of whole lines
that share a line of the text have every list refused that they stand in, unless the first one ends
and the second one begins in that line and the line is empty. In that case the two by themselves
are accepted, and both replacements are put into the place of the line. -/
theorem sharing_refused_unless_empty {t : Text} {a b : Edit} {k : Nat} (hk : k < t.pieces.length)
    (ha : a.WholeLines) (hb : b.WholeLines) (hka : a.SpansLine k) (hkb : b.SpansLine k) :
    (∀ es, [a,b].Sublist es → ¬ MeetInEmpty t a b k → ∃ fault, apply t es = .error fault) ∧
      apply t [a,b] =
        if MeetInEmpty t a b k then
          .ok (t.take (lineStart t a.startLine.toNat) ++ a.replacement ++
            (b.replacement ++ t.drop (lineStop t b.endLine.toNat)))
        else .error (.outOfOrder b) := by
  refine ⟨?_,apply_sharing hk ha hb hka hkb⟩
  intro es hsub hmeet
  cases h : apply t es with
  | error fault => exact ⟨fault,rfl⟩
  | ok u =>
    have hpair := ((apply_eq_ok_iff.mp h).1.sublist hsub).pairwise
    have hclears : Clears t a b := List.rel_of_pairwise_cons hpair List.mem_cons_self
    exact absurd ((clears_iff_meetInEmpty hk ha hb hka hkb).mp hclears) hmeet

/-- What is inserted between two edits that share a line does not keep them from being refused. -/
theorem sharing_refused_unless_empty_of_insertion_between :
    let t : Text := "a\nb\nc\n".toList
    let a : Edit := ⟨0,1,0,none,['x']⟩
    let b : Edit := ⟨1,2,0,none,['y']⟩
    1 < t.pieces.length ∧ a.WholeLines ∧ b.WholeLines ∧ a.SpansLine 1 ∧ b.SpansLine 1 ∧
      ∃ fault, apply t [a,⟨1,1,9,some 9,['i']⟩,b] = .error fault := by
  intro t a b
  have hk : 1 < t.pieces.length := by decide
  have ha : a.WholeLines := ⟨rfl,rfl,by decide,by decide⟩
  have hb : b.WholeLines := ⟨rfl,rfl,by decide,by decide⟩
  have hka : a.SpansLine 1 := ⟨by decide,by decide⟩
  have hkb : b.SpansLine 1 := ⟨by decide,by decide⟩
  refine ⟨hk,ha,hb,hka,hkb,?_⟩
  exact (sharing_refused_unless_empty hk ha hb hka hkb).1 _ (by decide) (by decide)

/-- Two edits of whole lines that share a line are not always refused: the shared line may be
empty. -/
theorem not_sharing_refused : ¬ ∀ (t : Text) (es : List Edit) (a b : Edit) (k : Nat),
    k < t.pieces.length → a.WholeLines → b.WholeLines → a.SpansLine k → b.SpansLine k →
      [a,b].Sublist es → ∃ fault, apply t es = .error fault := by
  intro h
  have haccepted : apply "a\n\nc\n".toList [⟨0,1,0,none,['x']⟩,⟨1,2,0,none,['y']⟩] =
      .ok "xy\n".toList := by decide
  obtain ⟨fault,hrefused⟩ := h "a\n\nc\n".toList [⟨0,1,0,none,['x']⟩,⟨1,2,0,none,['y']⟩] _ _ 1
    (by decide) ⟨rfl,rfl,by decide,by decide⟩ ⟨rfl,rfl,by decide,by decide⟩
    ⟨by decide,by decide⟩ ⟨by decide,by decide⟩ (.refl _)
  rw [haccepted] at hrefused
  cases hrefused

end FormatEdits.Edit
