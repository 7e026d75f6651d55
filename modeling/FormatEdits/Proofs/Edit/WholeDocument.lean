import FormatEdits.Proofs.Edit.Acceptance

namespace FormatEdits.Text

/-- How a text closes: behind its last line's content stand a line feed, a carriage return, both of
them or neither. -/
inductive Closes (kept : Text) : Text → Prop
  | bare (hfeed : kept.getLast? ≠ some '\n') (hreturn : kept.getLast? ≠ some '\r') : Closes kept []
  | lineFeed (hreturn : kept.getLast? ≠ some '\r') : Closes kept ['\n']
  | carriageReturn : Closes kept ['\r']
  | both : Closes kept ['\r','\n']

/-- What a text closes with stands behind so many characters. -/
def ClosesAt (t : Text) (n : Nat) : Prop :=
  ∃ kept e, t = kept ++ e ∧ Closes kept e ∧ n = kept.length

/-- A text closes as its tail does, unless its first character is the first half of a terminator
that the tail finishes. -/
theorem ClosesAt.cons {c : Char} {t : Text} {n : Nat} (h : ClosesAt t n) (ht : t ≠ [])
    (hc : c = '\r' → t ≠ ['\n']) : ClosesAt (c :: t) (n + 1) := by
  obtain ⟨kept,e,rfl,hcloses,rfl⟩ := h
  refine ⟨c :: kept,e,rfl,?_,rfl⟩
  cases hcloses with
  | bare hfeed hreturn =>
    obtain ⟨d,ds,rfl⟩ := List.exists_cons_of_ne_nil (by simpa using ht)
    exact .bare (by simpa using hfeed) (by simpa using hreturn)
  | lineFeed hreturn =>
    cases kept with
    | nil => exact .lineFeed fun hlast => hc (by simpa using hlast) rfl
    | cons d ds => exact .lineFeed (by simpa using hreturn)
  | carriageReturn => exact .carriageReturn
  | both => exact .both

/-- Where the content of the last of some pieces ends. -/
def contentEnd (ps : List Text) : Nat :=
  ps.dropLast.flatten.length + (ps.getLast?.map contentLength).getD 0

theorem contentEnd_cons (p : Text) {ps : List Text} (h : ps ≠ []) :
    contentEnd (p :: ps) = p.length + contentEnd ps := by
  obtain ⟨q,qs,rfl⟩ := List.exists_cons_of_ne_nil h
  simp [contentEnd,Nat.add_assoc]

theorem contentLength_cons {c : Char} (h : (c == '\n' || c == '\r') = false) (p : Text) :
    contentLength (c :: p) = contentLength p + 1 := by
  simp only [contentLength,dropFinalWhile,List.reverse_cons,List.dropWhile_append,
    List.length_reverse]
  split
  · next hempty => simp [List.isEmpty_iff.mp hempty,h]
  · simp

theorem contentEnd_pushFirst {c : Char} (h : (c == '\n' || c == '\r') = false) (ps : List Text) :
    contentEnd (pushFirst c ps) = contentEnd ps + 1 := by
  cases ps with
  | nil =>
    have hnil : contentLength [] = 0 := rfl
    simp [contentEnd,pushFirst,contentLength_cons h,hnil]
  | cons p ps =>
    by_cases hps : ps = []
    · subst hps
      simp [contentEnd,pushFirst,contentLength_cons h]
    · rw [pushFirst,contentEnd_cons _ hps,contentEnd_cons _ hps,List.length_cons]
      omega

theorem closesAt_singleton (c : Char) : ClosesAt [c] (contentEnd [[c]]) := by
  cases h : (c == '\n' || c == '\r') with
  | false =>
    obtain ⟨hfeed,hreturn⟩ : c ≠ '\n' ∧ c ≠ '\r' := by simpa using h
    exact ⟨[c],[],rfl,.bare (by simpa) (by simpa),contentEnd_pushFirst h []⟩
  | true =>
    rcases (by simpa using h : c = '\n' ∨ c = '\r') with rfl | rfl
    · exact ⟨[],['\n'],rfl,.lineFeed (by simp),rfl⟩
    · exact ⟨[],['\r'],rfl,.carriageReturn,rfl⟩

/-- Behind the content of a text's last piece stands what the text closes with, and nothing else. -/
theorem closesAt_contentEnd (t : Text) : ClosesAt t (contentEnd (pieces t)) := by
  fun_induction pieces t with
  | case1 => exact ⟨[],[],rfl,.bare (by simp) (by simp),rfl⟩
  | case2 r ih =>
    by_cases hr : r = []
    · subst hr
      exact ⟨[],['\r','\n'],rfl,.both,rfl⟩
    · rw [contentEnd_cons _ (pieces_ne_nil hr),Nat.add_comm]
      -- The pair is passed one character at a time: the line feed closes nothing, as more follows.
      exact (ih.cons hr (by simp)).cons (by simp) fun _ => by simpa using hr
  | case3 c r hcr _ ih =>
    by_cases hr : r = []
    · subst hr
      exact closesAt_singleton c
    · rw [contentEnd_cons _ (pieces_ne_nil hr),Nat.add_comm]
      exact ih.cons hr (hcr [])
  | case4 c r _ hb ih =>
    by_cases hr : r = []
    · subst hr
      exact closesAt_singleton c
    · have hc : (c == '\n' || c == '\r') = false :=
        Plain.not_endOfLine (l := [c]) (by simpa [Plain] using hb) List.mem_cons_self
      rw [contentEnd_pushFirst hc]
      exact ih.cons hr fun hreturn => by simp [hreturn] at hc

end FormatEdits.Text

namespace FormatEdits.Edit

theorem lineStop_last (t : Text) : lineStop t (t.pieces.length - 1) = Text.contentEnd t.pieces := by
  rw [lineStop,lineStart,Text.contentEnd,List.dropLast_eq_take,List.getLast?_eq_getElem?]

theorem apply_wholeDocument (before after : Text) : ∃ kept e, before = kept ++ e ∧
    Text.Closes kept e ∧
      apply before [wholeDocument before after] =
        .ok ((wholeDocument before after).replacement ++ e) := by
  obtain ⟨kept,e,ht,hcloses,hend⟩ := Text.closesAt_contentEnd before
  refine ⟨kept,e,ht,hcloses,?_⟩
  have happly := apply_lines before (Nat.zero_le (before.pieces.length - 1))
    (wholeDocument before after).replacement
  have hstart : lineStart before 0 = 0 := rfl
  have hrest : before.drop kept.length = e := by rw [ht,List.drop_left]
  rw [lineStop_last,hend,hstart,hrest] at happly
  exact happly

end FormatEdits.Edit

namespace FormatEdits.Text

theorem length_le_dropFinal (mark : Char) (t : Text) :
    t.length ≤ (dropFinal mark t).length + 1 := by
  unfold dropFinal
  split
  · rw [List.length_dropLast]
    omega
  · exact Nat.le_succ _

theorem dropFinal_concat_eq_iff {mark : Char} {t : Text} :
    dropFinal mark t ++ [mark] = t ↔ t.getLast? = some mark := by
  constructor
  · intro h
    rw [← h,List.getLast?_concat]
  · intro h
    obtain ⟨kept,rfl⟩ := List.getLast?_eq_some_iff.mp h
    rw [dropFinal_concat]

theorem dropFinal_append_pair_ne (mark a b : Char) (t : Text) : dropFinal mark t ++ [a,b] ≠ t := by
  intro h
  have hlength := congrArg List.length h
  have hle := length_le_dropFinal mark t
  simp only [List.length_append,List.length_cons,List.length_nil] at hlength
  omega

end FormatEdits.Text

namespace FormatEdits.Edit

/-- Replacing a whole document is never refused. It leads to the new text exactly where the document
closes with no terminator of a line feed or a carriage return, or with a line feed alone that the
new text ends in as well; a carriage return at the end stays behind the new text. -/
theorem wholeDocument_exact_iff (before after : Text) :
    ∃ result, apply before [wholeDocument before after] = .ok result ∧
      (result = after ↔
        (before.getLast? ≠ some '\n' ∧ before.getLast? ≠ some '\r') ∨
          (before.getLast? = some '\n' ∧ ¬ ['\r','\n'] <:+ before ∧
            after.getLast? = some '\n')) := by
  obtain ⟨kept,e,rfl,hcloses,happly⟩ := apply_wholeDocument before after
  refine ⟨_,happly,?_⟩
  cases hcloses with
  | bare hfeed hreturn => simp [wholeDocument,hfeed,hreturn]
  | lineFeed hreturn =>
    have hpair : ¬ ['\r','\n'] <:+ kept ++ ['\n'] := by
      rintro ⟨front,h⟩
      rw [List.append_cons] at h
      obtain rfl := List.append_cancel_right h
      simp at hreturn
    simp [wholeDocument,Text.dropFinal_concat_eq_iff,hpair]
  | carriageReturn => simp [wholeDocument]
  | both => simp [wholeDocument,Text.dropFinal_append_pair_ne]

/-- A document keeps its terminator, whatever the new text ends in. -/
example : apply "a\r\n".toList [wholeDocument "a\r\n".toList "b\n".toList] =
    .ok "b\r\n".toList := by cbv

end FormatEdits.Edit
