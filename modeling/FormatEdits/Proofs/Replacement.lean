import FormatEdits.Proofs.Edit.Position

namespace FormatEdits

open Text (joined terminated continued Plain)

/-- A stretch of lines that is replaced by others, with the lines in front of it that stay. -/
structure Replacement where
  kept : List Text
  old : List Text
  new : List Text
  old_ne_nil : old ≠ []
  new_ne_nil : new ≠ []

namespace Replacement

/-- The lines of the old document, the rest being those behind the last replacement. -/
def oldLines (rs : List Replacement) (rest : List Text) : List Text :=
  rs.flatMap (fun r => r.kept ++ r.old) ++ rest

def newLines (rs : List Replacement) (rest : List Text) : List Text :=
  rs.flatMap (fun r => r.kept ++ r.new) ++ rest

/-- The hunks that declare the replacements, each by where it starts in the new document; so many
lines of that document stand in front. -/
def hunks : Nat → List Replacement → List Hunk
  | _, [] => []
  | passed, r :: rs =>
    ⟨(passed + r.kept.length + 1 : Nat),r.old.length,r.new.map (· ++ ['\n'])⟩ ::
      hunks (passed + r.kept.length + r.new.length) rs

/-- The replacements as cuts of the text: the line feed behind the old lines stays where it is. -/
def cuts : Text → List Replacement → List Edit.Cut
  | _, [] => []
  | lead, r :: rs =>
    ⟨lead ++ terminated r.kept,joined '\n' r.old,joined '\n' r.new⟩ :: cuts ['\n'] rs

/-- What stands in front of the lines behind the last replacement. -/
def leadAfter (lead : Text) : List Replacement → Text
  | [] => lead
  | _ :: _ => ['\n']

theorem leadAfter_lineFeed (rs : List Replacement) : leadAfter ['\n'] rs = ['\n'] := by
  cases rs <;> rfl

@[simp] theorem oldLines_cons (r : Replacement) (rs : List Replacement) (rest : List Text) :
    oldLines (r :: rs) rest = r.kept ++ r.old ++ oldLines rs rest := by
  simp [oldLines]

@[simp] theorem newLines_cons (r : Replacement) (rs : List Replacement) (rest : List Text) :
    newLines (r :: rs) rest = r.kept ++ r.new ++ newLines rs rest := by
  simp [newLines]

theorem text_cuts (lead : Text) (rs : List Replacement) (rest : List Text) (final : Text) :
    Edit.Cut.before (cuts lead rs) (continued (leadAfter lead rs) rest ++ final) =
        continued lead (oldLines rs rest) ++ final ∧
      Edit.Cut.after (cuts lead rs) (continued (leadAfter lead rs) rest ++ final) =
        continued lead (newLines rs rest) ++ final := by
  induction rs generalizing lead with
  | nil => exact ⟨rfl,rfl⟩
  | cons r rs ih =>
    obtain ⟨hold,hnew⟩ := ih ['\n']
    rw [leadAfter_lineFeed] at hold hnew
    rw [cuts,leadAfter,Edit.Cut.before_cons,Edit.Cut.after_cons,hold,hnew,oldLines_cons,
      newLines_cons,Text.continued_append lead _ r.old_ne_nil,
      Text.continued_append lead _ r.new_ne_nil]
    simp

end Replacement

theorem Hunk.replacement_of_lines {h : Hunk} {ls : List Text} (hne : ls ≠ [])
    (hnew : h.newLines = ls.map (· ++ ['\n'])) : h.replacement = joined '\n' ls := by
  obtain ⟨init,last,rfl⟩ := (List.eq_nil_or_concat' ls).resolve_left hne
  rw [Hunk.replacement,hnew,List.map_append,List.map_singleton,List.dropLast_concat,
    List.getLast?_concat,Text.joined_append_ne_nil init (by simp)]
  simp [Text.dropFinal_concat,terminated,joined,List.flatMap]

namespace Replacement

theorem offset_stretch {before stretch : List Text} {t after : Text} (hne : stretch ≠ [])
    (hbefore : ∀ l ∈ before, Plain l) (hstretch : ∀ l ∈ stretch, Plain l)
    (hafter : after = [] ∨ after.head? = some '\n')
    (ht : t = terminated before ++ joined '\n' stretch ++ after) :
    Edit.offset t before.length (some 0) = .ok (terminated before).length ∧
      Edit.offset t (before.length + stretch.length - 1) none =
        .ok ((terminated before).length + (joined '\n' stretch).length) := by
  subst ht
  obtain ⟨init,last,rfl⟩ := (List.eq_nil_or_concat' stretch).resolve_left hne
  have hinit : ∀ l ∈ before ++ init, Plain l := by
    intro l hl
    rcases List.mem_append.mp hl with hl | hl
    · exact hbefore l hl
    · exact hstretch l (List.mem_append_left _ hl)
  have hline : (before.length + (init ++ [last]).length - 1 : Int) =
      ((before ++ init).length : Nat) := by
    simp
    omega
  refine ⟨?_,?_⟩
  · rw [Edit.offset_of_nonneg _ (Int.natCast_nonneg _),Edit.position_zero,Int.toNat_natCast,
      List.append_assoc,Edit.lineStart_terminated hbefore]
  · rw [hline,Edit.offset_of_nonneg _ (Int.natCast_nonneg _),Int.toNat_natCast,
      Text.joined_append_ne_nil init (by simp),← List.append_assoc (terminated before),
      ← Text.terminated_append]
    have hstop := Edit.lineStop_terminated hinit (hstretch last (by simp)) hafter
    rw [joined,Edit.position,hstop]
    simp

/-- The edits of the hunks cover the cuts. What has been seen of the text ends with the lines that
were passed; the shift turns the new document's line numbers into the old one's. -/
theorem covers_hunks {t final : Text} {rest : List Text} {rs : List Replacement}
    (seen lead : Text) (passed : List Text) (shift : Int) (passedNew : Nat)
    (hfinal : final = [] ∨ final = ['\n'])
    (hplain : ∀ l ∈ passed ++ oldLines rs rest, Plain l)
    (hseen : seen ++ lead = terminated passed) (hshift : passedNew + shift = passed.length)
    (ht : t = seen ++ continued lead (oldLines rs rest) ++ final) :
    Edit.Covers t seen.length (Edit.ofHunksFrom shift (hunks passedNew rs)) (cuts lead rs) := by
  induction rs generalizing seen lead passed shift passedNew with
  | nil => exact .nil _
  | cons r rs ih =>
    have hlength : r.old.length ≠ 0 := fun h => r.old_ne_nil (List.length_eq_zero_iff.mp h)
    rw [oldLines_cons,Text.continued_append lead _ r.old_ne_nil] at ht
    have ht' : t = terminated (passed ++ r.kept) ++ joined '\n' r.old ++
        (continued ['\n'] (oldLines rs rest) ++ final) := by
      rw [ht,Text.terminated_append,← hseen]
      simp
    have hafter : continued ['\n'] (oldLines rs rest) ++ final = [] ∨
        (continued ['\n'] (oldLines rs rest) ++ final).head? = some '\n' := by
      rcases Text.head?_continued (oldLines rs rest) with h | h
      · rcases hfinal with rfl | rfl <;> simp [h]
      · exact .inr (by simp [h])
    have hkept : ∀ l ∈ passed ++ r.kept, Plain l := fun l hl => hplain l (by simp at hl ⊢; tauto)
    have hold : ∀ l ∈ r.old, Plain l := fun l hl => hplain l (by simp [hl])
    obtain ⟨hs,he⟩ := offset_stretch r.old_ne_nil hkept hold hafter ht'
    have hstart : (terminated (passed ++ r.kept)).length =
        seen.length + (lead ++ terminated r.kept).length := by
      rw [Text.terminated_append,← hseen]
      simp
    have hline : ((passedNew + r.kept.length + 1 : Nat) : Int) - 1 + shift =
        ((passed ++ r.kept).length : Nat) := by
      simp
      omega
    refine .cons ?_ ?_ (Hunk.replacement_of_lines r.new_ne_nil rfl) ?_
    · simp only [Hunk.toEdit,hline]
      rw [hs,hstart]
    · simp only [Hunk.toEdit,hline]
      rw [if_neg (by omega),if_neg (by omega),he,hstart]
    · have hnext := ih (seen ++ lead ++ terminated r.kept ++ joined '\n' r.old) ['\n']
        (passed ++ r.kept ++ r.old)
        (shift + Hunk.drift ⟨(passedNew + r.kept.length + 1 : Nat),r.old.length,
          r.new.map (· ++ ['\n'])⟩)
        (passedNew + r.kept.length + r.new.length)
        (by simpa using hplain)
        (by rw [List.append_assoc,Text.joined_terminated r.old_ne_nil,hseen]; simp)
        (by simp [Hunk.drift]; omega)
        (by rw [ht]; simp)
      simpa [Nat.add_assoc] using hnext

/-- Hunks that declare replacements lead from the old document to the new one. -/
theorem apply_hunks {rs : List Replacement} {rest : List Text} {final : Text}
    (hfinal : final = [] ∨ final = ['\n']) (hplain : ∀ l ∈ oldLines rs rest, Plain l) :
    Edit.apply (joined '\n' (oldLines rs rest) ++ final) (Edit.ofHunks (hunks 0 rs)) =
      .ok (joined '\n' (newLines rs rest) ++ final) := by
  obtain ⟨hold,hnew⟩ := text_cuts [] rs rest final
  rw [Text.continued_nil_lead] at hold hnew
  have ht : joined '\n' (oldLines rs rest) ++ final =
      [] ++ continued [] (oldLines rs rest) ++ final := by
    rw [Text.continued_nil_lead]
    rfl
  have hcovers := covers_hunks [] [] [] 0 0 hfinal hplain rfl rfl ht
  rw [← hnew]
  exact Edit.apply_of_covers hcovers hold.symm

end Replacement
end FormatEdits
