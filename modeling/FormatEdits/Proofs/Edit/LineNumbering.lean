import FormatEdits.Proofs.Edit.Acceptance

namespace FormatEdits.Text

/-- The text with another content in one of its counted lines, and everything else as it was. -/
def replaceFeedLine (t : Text) (k : Nat) (r : Text) : Text :=
  ((feedLines t).modify k fun l => r ++ l.drop (feedContent l).length).flatten

/-- The text with another content in one of its pieces. -/
def replacePiece (t : Text) (k : Nat) (r : Text) : Text :=
  ((pieces t).modify k fun p => r ++ p.drop (contentLength p)).flatten

section Splices

theorem flatten_split {ls : List Text} {k : Nat} (h : k < ls.length) :
    ls.flatten = (ls.take k).flatten ++ (ls[k] ++ (ls.drop (k + 1)).flatten) := by
  rw [← List.flatten_cons,← List.drop_eq_getElem_cons h,← List.flatten_append,List.take_append_drop]

theorem flatten_modify (ls : List Text) {k : Nat} (h : k < ls.length) (size : Text → Nat)
    (hsize : size ls[k] ≤ ls[k].length) (r : Text) :
    (ls.modify k fun l => r ++ l.drop (size l)).flatten =
      ls.flatten.take (ls.take k).flatten.length ++ r ++
        ls.flatten.drop ((ls.take k).flatten.length + size ls[k]) := by
  have hrest : ls.flatten.drop ((ls.take k).flatten.length + size ls[k]) =
      ls[k].drop (size ls[k]) ++ (ls.drop (k + 1)).flatten := by
    rw [flatten_split h,← List.drop_drop,List.drop_left,List.drop_append_of_le_length hsize]
  rw [hrest,flatten_split h,List.take_left,List.modify_eq_take_cons_drop h]
  simp

theorem not_splice_of_lt {t : Text} {s e s' e' : Nat} (hlt : s < s') (hs' : s' ≤ t.length) :
    ¬ ∀ r : Text, t.take s ++ r ++ t.drop e = t.take s' ++ r ++ t.drop e' := by
  intro h
  have hs : s ≤ t.length := Nat.le_trans (Nat.le_of_lt hlt) hs'
  have hat (c : Char) : some c = t[s]? :=
    calc some c = (t.take s ++ [c] ++ t.drop e)[s]? := by simp [Nat.min_eq_left hs]
      _ = (t.take s' ++ [c] ++ t.drop e')[s]? := by rw [h]
      _ = t[s]? := by
        rw [List.append_assoc,List.getElem?_append_left (by simp; omega),
          List.getElem?_take_of_lt hlt]
  have hsame := (hat 'a').trans (hat 'b').symm
  simp at hsame

theorem splice_eq_iff {t : Text} {s e s' e' : Nat} (hs : s ≤ t.length) (he : e ≤ t.length)
    (hs' : s' ≤ t.length) (he' : e' ≤ t.length) :
    (∀ r : Text, t.take s ++ r ++ t.drop e = t.take s' ++ r ++ t.drop e') ↔ s = s' ∧ e = e' := by
  constructor
  · intro h
    have hstart : s = s' := by
      rcases Nat.lt_trichotomy s s' with hlt | heq | hlt
      · exact absurd h (not_splice_of_lt hlt hs')
      · exact heq
      · exact absurd (fun r => (h r).symm) (not_splice_of_lt hlt hs)
    have hlength := congrArg List.length (h [])
    simp only [List.append_nil,List.length_append,List.length_take,List.length_drop] at hlength
    omega
  · rintro ⟨rfl,rfl⟩ r
    rfl

end Splices

end FormatEdits.Text

namespace FormatEdits.Edit

open Text

theorem lineStart_lt (t : Text) {i j : Nat} (h : i < j) (hj : j ≤ t.pieces.length) :
    lineStart t i < lineStart t j := by
  have hi : i < t.pieces.length := Nat.lt_of_lt_of_le h hj
  have hpiece := List.length_pos_iff.mpr (ne_nil_of_mem_pieces (List.getElem_mem hi))
  calc lineStart t i < lineStart t (i + 1) := by
        simp only [lineStart,List.take_add_one,List.getElem?_eq_getElem hi,Option.toList_some,
          List.flatten_append,List.flatten_singleton,List.length_append]
        omega
    _ ≤ lineStart t j := lineStart_mono t h

theorem apply_whole_line (t : Text) (k : Nat) (r : Text) :
    apply t [⟨k,k,0,none,r⟩] = .ok (t.take (lineStart t k) ++ r ++ t.drop (lineStop t k)) :=
  apply_lines t (Nat.le_refl k) r

theorem apply_replaces_piece {t : Text} {k : Nat} (h : k < t.pieces.length) (r : Text) :
    apply t [⟨k,k,0,none,r⟩] = .ok (replacePiece t k r) := by
  rw [apply_whole_line,replacePiece,flatten_modify _ h _ (contentLength_le _),flatten_pieces,
    lineStop,List.getElem?_eq_getElem h]
  rfl

section Counted

variable {t : Text} {k : Nat}

/-- How many pieces the counted lines in front of a line are. -/
def piecesBefore (t : Text) (k : Nat) : Nat := (((feedLines t).take k).flatMap pieces).length

theorem pieces_split (h : k < (feedLines t).length) : pieces t =
    ((feedLines t).take k).flatMap pieces ++
      (pieces (feedLines t)[k] ++ ((feedLines t).drop (k + 1)).flatMap pieces) := by
  rw [pieces_eq_flatMap_feedLines,← List.flatMap_cons,← List.drop_eq_getElem_cons h,
    ← List.flatMap_append,List.take_append_drop]

theorem lineStart_piecesBefore (h : k < (feedLines t).length) :
    lineStart t (piecesBefore t k) = ((feedLines t).take k).flatten.length := by
  rw [lineStart,pieces_split h,piecesBefore,List.take_left,flatten_flatMap_pieces]

theorem pieces_length_eq_one (h : k + 1 < (feedLines t).length) :
    (pieces (feedLines t)[k]).length = 1 ↔ Plain (feedContent (feedLines t)[k]) := by
  obtain ⟨e,hl,hmem,he,hne⟩ := feedLine_cases (List.getElem?_eq_getElem (Nat.lt_of_succ_lt h))
  obtain ⟨p,ps,hp,-,hplain⟩ := firstPiece hmem he
  rw [← hplain (hne h)]
  conv_lhs => rw [hl,hp]
  simp

/-- The lines in front of a line are as many pieces only if all of them are plain. -/
theorem piecesBefore_eq (h : k < (feedLines t).length) : k ≤ piecesBefore t k ∧
    (piecesBefore t k = k ↔ ∀ l ∈ (feedLines t).take k, Plain (feedContent l)) := by
  have hlength : ((feedLines t).take k).length = k := List.length_take_of_le (Nat.le_of_lt h)
  have hone : ∀ l ∈ (feedLines t).take k,
      l ≠ [] ∧ ((pieces l).length = 1 ↔ Plain (feedContent l)) := by
    intro l hl
    obtain ⟨i,hi,rfl⟩ := List.mem_iff_getElem.mp hl
    rw [List.getElem_take]
    have hlast : i + 1 < (feedLines t).length := by omega
    obtain ⟨e,hl,-,-,hne⟩ := feedLine_cases (List.getElem?_eq_getElem (Nat.lt_of_succ_lt hlast))
    exact ⟨fun hnil => hne hlast (List.append_eq_nil_iff.mp (hl.symm.trans hnil)).2,
      pieces_length_eq_one hlast⟩
  obtain ⟨hle,hiff⟩ := length_flatMap_pieces fun l hl => (hone l hl).1
  rw [hlength] at hle hiff
  exact ⟨hle,hiff.trans (forall₂_congr fun l hl => (hone l hl).2)⟩

/-- Behind the pieces of the lines in front of it, a line's content is that of its first piece only
if it is read whole. -/
theorem lineStop_piecesBefore (h : k < (feedLines t).length) :
    piecesBefore t k < t.pieces.length ∧
      (lineStop t (piecesBefore t k) =
          ((feedLines t).take k).flatten.length + (feedContent (feedLines t)[k]).length ↔
        ReadWhole (feedContent (feedLines t)[k])) := by
  obtain ⟨e,hl,hmem,he,-⟩ := feedLine_cases (List.getElem?_eq_getElem h)
  obtain ⟨p,ps,hp,hlength,-⟩ := firstPiece hmem he
  have hpieces : t.pieces = ((feedLines t).take k).flatMap pieces ++
      (p :: ps ++ ((feedLines t).drop (k + 1)).flatMap pieces) := by
    rw [pieces_split h,← hp,← hl]
  have hpiece : t.pieces[piecesBefore t k]? = some p := by
    rw [hpieces,piecesBefore,List.getElem?_append_right (Nat.le_refl _),Nat.sub_self]
    rfl
  refine ⟨(List.getElem?_eq_some_iff.mp hpiece).1,?_⟩
  rw [lineStop,lineStart_piecesBefore h,hpiece,Option.map_some,Option.getD_some,
    Nat.add_left_cancel_iff,hlength]

theorem length_feedContent_le (h : k < (feedLines t).length) :
    (feedContent (feedLines t)[k]).length ≤ (feedLines t)[k].length := by
  obtain ⟨e,hl,-⟩ := feedLine_cases (List.getElem?_eq_getElem h)
  conv_rhs => rw [hl,List.length_append]
  exact Nat.le_add_right _ _

theorem replaceFeedLine_eq (h : k < (feedLines t).length) :
    ∃ stop, stop = ((feedLines t).take k).flatten.length + (feedContent (feedLines t)[k]).length ∧
      stop ≤ t.length ∧ ∀ r, replaceFeedLine t k r =
        t.take ((feedLines t).take k).flatten.length ++ r ++ t.drop stop := by
  have hsize := length_feedContent_le h
  have hlength := congrArg List.length (flatten_split h)
  rw [flatten_feedLines,List.length_append,List.length_append] at hlength
  refine ⟨_,rfl,by omega,fun r => ?_⟩
  rw [replaceFeedLine,flatten_modify _ h (fun l => (feedContent l).length) hsize,flatten_feedLines]

/-- The lines of the applier are the counted ones only in part: an edit of a whole line replaces the
content of the piece of that number. This is the content of the counted line, whatever takes its
place, exactly where the lines in front of it hold no other terminator, and it holds none itself but
one that closes it and is no carriage return. -/
theorem replaces_counted_line_iff (h : k < (feedLines t).length) :
    (∀ r, apply t [⟨k,k,0,none,r⟩] = .ok (replacePiece t k r)) ∧
      ((∀ r, apply t [⟨k,k,0,none,r⟩] = .ok (replaceFeedLine t k r)) ↔
        (∀ l ∈ (feedLines t).take k, Plain (feedContent l)) ∧
          ReadWhole (feedContent (feedLines t)[k])) := by
  obtain ⟨hle,hplain⟩ := piecesBefore_eq h
  obtain ⟨hlt,hcontent⟩ := lineStop_piecesBefore h
  obtain ⟨stop,hstop,hbound,hreplaced⟩ := replaceFeedLine_eq h
  refine ⟨fun r => apply_replaces_piece (Nat.lt_of_le_of_lt hle hlt) r,?_⟩
  simp only [apply_whole_line,hreplaced,Except.ok.injEq]
  rw [← hplain,← hcontent,← hstop,← lineStart_piecesBefore h,
    splice_eq_iff (lineStart_le_length t k) (lineStop_le_length t k) (lineStart_le_length t _)
      hbound]
  constructor
  · rintro ⟨hstart,hend⟩
    have hk : piecesBefore t k = k := by
      refine Nat.le_antisymm (Nat.not_lt.mp fun hgt => ?_) hle
      exact absurd hstart (Nat.ne_of_lt (lineStart_lt t hgt (Nat.le_of_lt hlt)))
    exact ⟨hk,by rw [hk,hend]⟩
  · rintro ⟨hk,hend⟩
    rw [hk] at hend ⊢
    exact ⟨rfl,hend⟩

end Counted

/-- A form feed ends a piece: behind it, an edit of the second line meets the rest of the first. -/
theorem replaces_counted_line_iff_of_formFeed :
    let t := "a\x0cb\nc\n".toList
    1 < (feedLines t).length ∧ apply t [⟨1,1,0,none,['X']⟩] = .ok "a\x0cX\nc\n".toList ∧
      ¬ ∀ r, apply t [⟨1,1,0,none,r⟩] = .ok (replaceFeedLine t 1 r) := by
  intro t
  have hk : 1 < (feedLines t).length := by decide
  obtain ⟨hpiece,hcounted⟩ := replaces_counted_line_iff hk
  exact ⟨hk,(hpiece ['X']).trans rfl,fun h => absurd (hcounted.mp h).1 (by decide)⟩

/-- It is not the counted line that an edit of a whole line always replaces. -/
theorem not_replaces_counted_line : ¬ ∀ (t : Text) (k : Nat), k < (feedLines t).length →
    ∀ r, apply t [⟨k,k,0,none,r⟩] = .ok (replaceFeedLine t k r) := by
  intro h
  exact absurd (h "a\x0cb\nc\n".toList 1 (by decide) ['X']) (by decide)

end FormatEdits.Edit
