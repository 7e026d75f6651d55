import FormatEdits.Proofs.Edit.Acceptance
import Mathlib.Data.List.Chain

namespace FormatEdits

namespace Edit

/-- The range of an edit ends no earlier than it starts. -/
structure Upright (e : Edit) : Prop where
  nonneg : 0 ≤ e.startLine
  ordered : PositionLE e.startLine (some e.startCharacter) e.endLine e.endCharacter

instance Upright.decidable (e : Edit) : Decidable e.Upright :=
  decidable_of_iff (0 ≤ e.startLine ∧
      PositionLE e.startLine (some e.startCharacter) e.endLine e.endCharacter)
    ⟨fun h => ⟨h.1,h.2⟩,fun h => ⟨h.nonneg,h.ordered⟩⟩

/-- The range of an edit ends before another one starts. -/
def EndsBefore (a b : Edit) : Prop :=
  PositionLE a.endLine a.endCharacter b.startLine (some b.startCharacter)

theorem Upright.startLine_le_endLine {e : Edit} (h : e.Upright) : e.startLine ≤ e.endLine := by
  rcases h.ordered with h | ⟨h,-⟩
  · exact Int.le_of_lt h
  · exact Int.le_of_eq h

theorem Upright.endLine_nonneg {e : Edit} (h : e.Upright) : 0 ≤ e.endLine :=
  Int.le_trans h.nonneg h.startLine_le_endLine

theorem Upright.fits {e : Edit} (h : e.Upright) (t : Text) : Fits t e :=
  ⟨h.nonneg,h.endLine_nonneg,position_mono t h.nonneg h.ordered⟩

theorem EndsBefore.clears {a b : Edit} (h : EndsBefore a b) (ha : a.Upright) (t : Text) :
    Clears t a b :=
  position_mono t ha.endLine_nonneg h

theorem accepts_of_endsBefore (t : Text) {es : List Edit} (hup : ∀ e ∈ es, e.Upright)
    (hchain : es.IsChain EndsBefore) : Accepts t es :=
  ⟨fun e he => (hup e he).fits t,hchain.imp_of_mem_imp fun _ _ ha _ h =>
    EndsBefore.clears h (hup _ ha) t⟩

theorem apply_accepts (t : Text) {es : List Edit} (hup : ∀ e ∈ es, e.Upright)
    (hchain : es.IsChain EndsBefore) : ∃ u, apply t es = .ok u :=
  ⟨_,apply_eq_ok_iff.mpr ⟨accepts_of_endsBefore t hup hchain,rfl⟩⟩

/-- An edit starts behind the last line of one before it, an insertion having no last line. -/
def Precedes (a b : Edit) : Prop :=
  if a.isInsertion then a.startLine ≤ b.startLine else a.endLine < b.startLine

/-- Edits that start inside the document and come one after the other. -/
structure InOrder (es : List Edit) : Prop where
  nonneg : ∀ e ∈ es, 0 ≤ e.startLine
  ordered : es.IsChain Precedes

theorem Precedes.endsBefore {a b : Edit} (h : Precedes a b) : EndsBefore a b := by
  unfold Precedes at h
  split at h
  · next hi =>
    simp only [isInsertion,Bool.and_eq_true,beq_iff_eq] at hi
    rw [EndsBefore,hi.1,← hi.2]
    rcases Int.lt_or_eq_of_le h with h | h
    · exact .inl h
    · exact .inr ⟨h,Nat.zero_le _⟩
  · exact .inl h

theorem Precedes.startLine_le {a b : Edit} (h : Precedes a b) (ha : a.startLine ≤ a.endLine) :
    a.startLine ≤ b.startLine := by
  unfold Precedes at h
  split at h <;> omega

theorem Precedes.trans {a b c : Edit} (hab : Precedes a b) (hb : b.startLine ≤ b.endLine)
    (hbc : Precedes b c) : Precedes a c := by
  have hle := hbc.startLine_le hb
  unfold Precedes at hab ⊢
  split at hab <;> simp_all <;> omega

theorem pairwise_precedes {es : List Edit} (hrange : ∀ e ∈ es, e.startLine ≤ e.endLine)
    (h : es.IsChain Precedes) : es.Pairwise Precedes :=
  pairwise_of_isChain (R := Precedes) Precedes.trans hrange h

end Edit

namespace Hunk

/-- Hunks that start inside the document, each behind the new lines of the one before it. -/
structure InOrder (hs : List Hunk) : Prop where
  first : ∀ h ∈ hs.head?, 1 ≤ h.startLine
  ordered : hs.IsChain fun a b => a.startLine + (a.newLines.length : Int) ≤ b.startLine

theorem isInsertion_toEdit (shift : Int) (h : Hunk) :
    (h.toEdit shift).isInsertion = true ↔ h.removedLines = 0 := by
  by_cases hr : h.removedLines = 0 <;> simp [toEdit,Edit.isInsertion,hr]

theorem range_toEdit (shift : Int) {h : Hunk} (hr : 0 ≤ h.removedLines) :
    (h.toEdit shift).startLine ≤ (h.toEdit shift).endLine := by
  simp only [toEdit]
  split <;> omega

theorem upright_toEdit {shift : Int} {h : Hunk} (hr : 0 ≤ h.removedLines)
    (hs : 0 ≤ (h.toEdit shift).startLine) : (h.toEdit shift).Upright := by
  refine ⟨hs,?_⟩
  rcases Int.lt_or_eq_of_le (range_toEdit shift hr) with hlt | heq
  · exact .inl hlt
  · refine .inr ⟨heq,?_⟩
    by_cases h0 : h.removedLines = 0 <;> simp [toEdit,h0,Edit.CharacterLE]

/-- The shift cancels out: what an edit leaves to the next is what its hunk leaves to the next. -/
theorem precedes_toEdit {shift : Int} {a b : Hunk} :
    Edit.Precedes (a.toEdit shift) (b.toEdit (shift + a.drift)) ↔
      a.startLine + (a.newLines.length : Int) ≤ b.startLine := by
  unfold Edit.Precedes
  simp only [isInsertion_toEdit]
  split
  · next h0 =>
    simp only [toEdit,drift,h0]
    omega
  · next h0 =>
    simp only [toEdit,drift,if_neg h0]
    omega

theorem isChain_ofHunksFrom (shift : Int) (hs : List Hunk) :
    (Edit.ofHunksFrom shift hs).IsChain Edit.Precedes ↔
      hs.IsChain fun a b => a.startLine + (a.newLines.length : Int) ≤ b.startLine := by
  induction hs generalizing shift with
  | nil => simp [Edit.ofHunksFrom]
  | cons a hs ih =>
    have ih := ih (shift + a.drift)
    cases hs with
    | nil => simp [Edit.ofHunksFrom]
    | cons b hs =>
      rw [Edit.ofHunksFrom] at ih
      rw [Edit.ofHunksFrom,Edit.ofHunksFrom,List.isChain_cons_cons,List.isChain_cons_cons,ih,
        precedes_toEdit]

theorem mem_ofHunksFrom {shift : Int} {hs : List Hunk} {e : Edit}
    (he : e ∈ Edit.ofHunksFrom shift hs) : ∃ h ∈ hs, ∃ s, e = h.toEdit s := by
  induction hs generalizing shift with
  | nil => cases he
  | cons a hs ih =>
    rcases List.mem_cons.mp he with rfl | he
    · exact ⟨a,List.mem_cons_self,shift,rfl⟩
    · obtain ⟨h,hh,s,rfl⟩ := ih he
      exact ⟨h,List.mem_cons_of_mem _ hh,s,rfl⟩

end Hunk

theorem Edit.range_ofHunks {hs : List Hunk} (hr : ∀ h ∈ hs, 0 ≤ h.removedLines) :
    ∀ e ∈ Edit.ofHunks hs, e.startLine ≤ e.endLine := by
  intro e he
  obtain ⟨h,hh,s,rfl⟩ := Hunk.mem_ofHunksFrom he
  exact Hunk.range_toEdit s (hr h hh)

theorem Edit.inOrder_ofHunks {hs : List Hunk} (hr : ∀ h ∈ hs, 0 ≤ h.removedLines) :
    Edit.InOrder (Edit.ofHunks hs) ↔ Hunk.InOrder hs := by
  have hchain := Hunk.isChain_ofHunksFrom 0 hs
  constructor
  · rintro ⟨hnonneg,hordered⟩
    refine ⟨?_,hchain.mp hordered⟩
    intro h hh
    obtain ⟨hs,rfl⟩ := List.head?_eq_some_iff.mp hh
    have := hnonneg (h.toEdit 0) (by simp [Edit.ofHunks,Edit.ofHunksFrom])
    simp only [Hunk.toEdit] at this
    omega
  · rintro ⟨hfirst,hordered⟩
    have hpairwise := Edit.pairwise_precedes (Edit.range_ofHunks hr) (hchain.mpr hordered)
    refine ⟨?_,hchain.mpr hordered⟩
    intro e he
    cases hs with
    | nil => cases he
    | cons h hs =>
      have hh : 0 ≤ (h.toEdit 0).startLine := by
        have := hfirst h rfl
        simp only [Hunk.toEdit]
        omega
      rcases List.mem_cons.mp he with rfl | he
      · exact hh
      · have hle := (List.rel_of_pairwise_cons hpairwise he).startLine_le
          (Hunk.range_toEdit 0 (hr h List.mem_cons_self))
        exact Int.le_trans hh hle

/-- Edits of hunks are in order, and so do not overlap, exactly when the hunks follow each other in
the new document. Then any two of them are, and every text accepts them. -/
theorem ofHunks_inOrder_iff_and_accepted {hs : List Hunk} (hr : ∀ h ∈ hs, 0 ≤ h.removedLines) :
    (Edit.InOrder (Edit.ofHunks hs) ↔ Hunk.InOrder hs) ∧
      (Hunk.InOrder hs → (Edit.ofHunks hs).Pairwise Edit.Precedes ∧
        ∀ t, ∃ u, Edit.apply t (Edit.ofHunks hs) = .ok u) := by
  refine ⟨Edit.inOrder_ofHunks hr,?_⟩
  intro h
  obtain ⟨hnonneg,hordered⟩ := (Edit.inOrder_ofHunks hr).mpr h
  refine ⟨Edit.pairwise_precedes (Edit.range_ofHunks hr) hordered,?_⟩
  intro t
  refine Edit.apply_accepts t ?_ (hordered.imp fun _ _ h => h.endsBefore)
  intro e he
  have hstart := hnonneg e he
  obtain ⟨h,hh,s,rfl⟩ := Hunk.mem_ofHunksFrom he
  exact Hunk.upright_toEdit (hr h hh) hstart

/-- An insertion, a replacement that starts where it stands, and a deletion, on a short text. -/
theorem ofHunks_inOrder_of_insertion_before_replacement :
    let hs : List Hunk :=
      [⟨1,0,[['x'],['y']]⟩,⟨3,2,[['z']]⟩,⟨4,1,[]⟩]
    (∀ h ∈ hs, 0 ≤ h.removedLines) ∧ Hunk.InOrder hs ∧
      (Edit.ofHunks hs).Pairwise Edit.Precedes ∧
      ∃ u, Edit.apply ['a'] (Edit.ofHunks hs) = .ok u := by
  intro hs
  have hr : ∀ h ∈ hs, 0 ≤ h.removedLines := by decide
  have hin : Hunk.InOrder hs := ⟨by decide,by simp [hs]⟩
  obtain ⟨hpairwise,haccepts⟩ := (ofHunks_inOrder_iff_and_accepted hr).2 hin
  exact ⟨hr,hin,hpairwise,haccepts ['a']⟩

end FormatEdits
