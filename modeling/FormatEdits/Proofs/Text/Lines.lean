import FormatEdits.Proofs.Text.Fields
import Mathlib.Data.List.DropRight

namespace FormatEdits.Text

/-- A line's content: no character of it ends a line. -/
def Plain (l : Text) : Prop := ∀ c ∈ l, isBoundary c = false

instance Plain.decidable (l : Text) : Decidable (Plain l) :=
  List.decidableBAll (fun c => isBoundary c = false) l

theorem plain_nil : Plain [] := fun _ h => by cases h

theorem Plain.cons {c : Char} {l : Text} (hc : isBoundary c = false) (h : Plain l) :
    Plain (c :: l) :=
  List.forall_mem_cons.mpr ⟨hc,h⟩

theorem Plain.tail {c : Char} {l : Text} (h : Plain (c :: l)) : Plain l :=
  fun d hd => h d (List.mem_cons_of_mem _ hd)

theorem Plain.not_endOfLine {c : Char} {l : Text} (h : Plain l) (hc : c ∈ l) :
    (c == '\n' || c == '\r') = false := by
  cases he : (c == '\n' || c == '\r') with
  | false => rfl
  | true =>
    have hb := h c hc
    simp only [Bool.or_eq_true,beq_iff_eq] at he
    rcases he with rfl | rfl <;> simp [isBoundary] at hb

theorem pieces_cons {c : Char} (h : isBoundary c = false) (r : Text) :
    pieces (c :: r) = pushFirst c (pieces r) := by
  have hr : c ≠ '\r' := by
    rintro rfl
    simp [isBoundary] at h
  rw [pieces.eq_3 c r (fun rest hc => absurd hc hr)]
  simp [h]

theorem pieces_lineFeed (r : Text) : pieces ('\n' :: r) = ['\n'] :: pieces r := by
  simp [pieces,isBoundary]

theorem pieces_append {l : Text} (h : Plain l) (r : Text) :
    pieces (l ++ '\n' :: r) = (l ++ ['\n']) :: pieces r := by
  induction l with
  | nil => exact pieces_lineFeed r
  | cons c l ih =>
    rw [List.cons_append,pieces_cons (h c List.mem_cons_self),ih h.tail]
    rfl

theorem pieces_plain {l : Text} (h : Plain l) (hne : l ≠ []) : pieces l = [l] := by
  induction l with
  | nil => exact absurd rfl hne
  | cons c l ih =>
    rw [pieces_cons (h c List.mem_cons_self)]
    cases l with
    | nil => rfl
    | cons d l => rw [ih h.tail (by simp)]; rfl

theorem pieces_terminated {ls : List Text} (h : ∀ l ∈ ls, Plain l) (r : Text) :
    pieces (terminated ls ++ r) = ls.map (· ++ ['\n']) ++ pieces r := by
  induction ls with
  | nil => rfl
  | cons l ls ih =>
    rw [terminated_cons,List.append_assoc,List.cons_append,pieces_append (h l List.mem_cons_self),
      ih fun m hm => h m (List.mem_cons_of_mem _ hm)]
    rfl

theorem dropFinalWhile_eq (p : Char → Bool) (t : Text) : dropFinalWhile p t = t.rdropWhile p := rfl

theorem contentLength_le (p : Text) : contentLength p ≤ p.length := by
  rw [contentLength,dropFinalWhile_eq]
  exact (List.rdropWhile_prefix _ p).length_le

theorem contentLength_plain {l : Text} (h : Plain l) : contentLength l = l.length := by
  rw [contentLength,dropFinalWhile_eq,List.rdropWhile_eq_self_iff.mpr]
  intro hne
  simp [h.not_endOfLine (List.getLast_mem hne)]

theorem contentLength_terminated {l : Text} (h : Plain l) :
    contentLength (l ++ ['\n']) = l.length := by
  rw [contentLength,dropFinalWhile_eq,List.rdropWhile_concat_pos _ _ _ (by simp)]
  exact contentLength_plain h

/-- The lines of a text as line feeds count them, each with its line feed. -/
def feedLines : Text → List Text
  | [] => []
  | c :: r => if c = '\n' then ['\n'] :: feedLines r else pushFirst c (feedLines r)

/-- A counted line in front of its line feed, or of its carriage return and line feed. -/
def feedContent (l : Text) : Text :=
  if l.getLast? = some '\n' then dropFinal '\r' l.dropLast else l

/-- A content that comes back as the content of a single piece: a terminator may stand at its very
end, as long as it is no carriage return. -/
def ReadWhole (content : Text) : Prop := Plain content.dropLast ∧ content.getLast? ≠ some '\r'

instance ReadWhole.decidable (content : Text) : Decidable (ReadWhole content) :=
  inferInstanceAs (Decidable (_ ∧ _))

theorem Plain.readWhole {l : Text} (h : Plain l) : ReadWhole l := by
  refine ⟨fun c hc => h c (List.dropLast_subset _ hc),fun hlast => ?_⟩
  have := h _ (List.mem_of_getLast? hlast)
  simp [isBoundary] at this

section Lines

theorem feedLines_append {l : Text} (h : '\n' ∉ l) (r : Text) :
    feedLines (l ++ '\n' :: r) = (l ++ ['\n']) :: feedLines r := by
  induction l with
  | nil => simp [feedLines]
  | cons c l ih =>
    obtain ⟨hc,hl⟩ : '\n' ≠ c ∧ '\n' ∉ l := by simpa using h
    rw [List.cons_append,feedLines,if_neg hc.symm,ih hl]
    rfl

theorem feedLines_of_not_mem {l : Text} (h : '\n' ∉ l) (hne : l ≠ []) : feedLines l = [l] := by
  induction l with
  | nil => exact absurd rfl hne
  | cons c l ih =>
    obtain ⟨hc,hl⟩ : '\n' ≠ c ∧ '\n' ∉ l := by simpa using h
    cases l with
    | nil => simp [feedLines,hc.symm,pushFirst]
    | cons d l => rw [feedLines,if_neg hc.symm,ih hl (by simp)]; rfl

/-- A text is read line by line: a line with its line feed and the text behind it, or a last line
that has none. -/
@[elab_as_elim]
theorem byFeedLines {motive : Text → Prop} (nil : motive [])
    (last : ∀ l, l ≠ [] → '\n' ∉ l → motive l)
    (line : ∀ l r, '\n' ∉ l → motive r → motive (l ++ '\n' :: r)) (t : Text) : motive t := by
  by_cases h : '\n' ∈ t
  · obtain ⟨l,r,ht,hl⟩ := List.eq_append_cons_of_mem h
    have hlt : r.length < t.length := by
      rw [ht,List.length_append,List.length_cons]
      omega
    exact ht ▸ line l r hl (byFeedLines nil last line r)
  · cases t with
    | nil => exact nil
    | cons c t => exact last _ (by simp) h
termination_by t.length

theorem flatten_feedLines (t : Text) : (feedLines t).flatten = t := by
  induction t using byFeedLines with
  | nil => rfl
  | last l hne hl => simp [feedLines_of_not_mem hl hne]
  | line l r hl ih => simp [feedLines_append hl,ih]

/-- How a counted line goes on behind its content. -/
inductive Ending (content : Text) : Text → Prop
  | lineFeed (h : content.getLast? ≠ some '\r') : Ending content ['\n']
  | carriageReturn : Ending content ['\r','\n']
  | last (h : content ≠ []) : Ending content []

theorem feedContent_of_not_mem {c : Text} (h : '\n' ∉ c) : feedContent c = c := by
  rw [feedContent,if_neg fun hlast => h (List.mem_of_getLast? hlast)]

theorem feedContent_concat (c : Text) : feedContent (c ++ ['\n']) = dropFinal '\r' c := by
  simp [feedContent]

theorem ending_of_concat {c : Text} (h : '\n' ∉ c) : ∃ e, c ++ ['\n'] = dropFinal '\r' c ++ e ∧
    '\n' ∉ dropFinal '\r' c ∧ e ≠ [] ∧ Ending (dropFinal '\r' c) e := by
  by_cases hr : c.getLast? = some '\r'
  · obtain ⟨d,rfl⟩ := List.getLast?_eq_some_iff.mp hr
    have hd : '\n' ∉ d := fun hm => h (by simp [hm])
    rw [dropFinal_concat]
    exact ⟨['\r','\n'],by simp,hd,by simp,.carriageReturn⟩
  · rw [dropFinal,if_neg hr]
    exact ⟨['\n'],rfl,h,by simp,.lineFeed hr⟩

/-- A counted line is its content and an ending; only the last line can be without one. -/
theorem feedLine_cases {t l : Text} {k : Nat} (h : (feedLines t)[k]? = some l) :
    ∃ e, l = feedContent l ++ e ∧ '\n' ∉ feedContent l ∧ Ending (feedContent l) e ∧
      (k + 1 < (feedLines t).length → e ≠ []) := by
  induction t using byFeedLines generalizing k with
  | nil => simp [feedLines] at h
  | last m hne hm =>
    rw [feedLines_of_not_mem hm hne] at h ⊢
    obtain ⟨rfl,rfl⟩ : k = 0 ∧ m = l := by simpa [List.getElem?_singleton] using h
    rw [feedContent_of_not_mem hm]
    exact ⟨[],by simp,hm,.last hne,by simp⟩
  | line m r hm ih =>
    rw [feedLines_append hm] at h ⊢
    cases k with
    | zero =>
      obtain rfl : m ++ ['\n'] = l := Option.some.inj h
      obtain ⟨e,he,hmem,hne,hending⟩ := ending_of_concat hm
      rw [feedContent_concat]
      exact ⟨e,he,hmem,hending,fun _ => hne⟩
    | succ k =>
      obtain ⟨e,he,hmem,hending,hlast⟩ := ih h
      exact ⟨e,he,hmem,hending,fun hlt => hlast (by simpa using hlt)⟩

end Lines

section Pieces

theorem pieces_ne_nil {t : Text} (h : t ≠ []) : pieces t ≠ [] := by
  intro hp
  exact h (by simpa [hp] using (flatten_pieces t).symm)

theorem ne_nil_of_mem_pieces {t p : Text} (h : p ∈ pieces t) : p ≠ [] := by
  fun_induction pieces t with
  | case1 => simp at h
  | case2 r ih => rcases List.mem_cons.mp h with rfl | h; exacts [by simp,ih h]
  | case3 c r _ _ ih => rcases List.mem_cons.mp h with rfl | h; exacts [by simp,ih h]
  | case4 c r _ _ ih =>
    cases hp : pieces r with
    | nil => simp_all [pushFirst]
    | cons q qs =>
      rw [hp] at h ih
      rcases List.mem_cons.mp h with rfl | h
      · simp
      · exact ih (List.mem_cons_of_mem _ h)

theorem pieces_boundary {b : Char} {r : Text} (hb : isBoundary b = true)
    (h : b = '\r' → r.head? ≠ some '\n') : pieces (b :: r) = [b] :: pieces r := by
  rw [pieces.eq_3 b r (fun rest hc hr => h hc (by simp [hr])),if_pos hb]

theorem pieces_plain_append {u p r : Text} {ps : List Text} (hu : Plain u)
    (hr : pieces r = p :: ps) : pieces (u ++ r) = (u ++ p) :: ps := by
  induction u with
  | nil => exact hr
  | cons c u ih =>
    rw [List.cons_append,pieces_cons (hu c List.mem_cons_self),ih hu.tail]
    rfl

theorem pieces_append_lineFeed (l r : Text) :
    pieces (l ++ '\n' :: r) = pieces (l ++ ['\n']) ++ pieces r := by
  fun_induction pieces l with
  | case1 => simp [pieces_lineFeed,pieces]
  | case2 l ih => simp [pieces,ih]
  | case3 c l hcr hb ih =>
    cases l with
    | nil =>
      by_cases hc : c = '\r'
      · subst hc
        simp [pieces]
      · simp [pieces_boundary hb (absurd · hc),pieces_lineFeed,pieces]
    | cons d l =>
      have hne : c = '\r' → d ≠ '\n' := fun hc hd => hcr l hc (by rw [hd])
      have hcut (s : Text) : pieces (c :: d :: l ++ s) = [c] :: pieces (d :: l ++ s) :=
        pieces_boundary hb (by simpa using hne)
      rw [hcut,hcut,ih]
      rfl
  | case4 c l _ hb ih =>
    have hc : isBoundary c = false := by simpa using hb
    rw [List.cons_append,pieces_cons hc,ih,List.cons_append,pieces_cons hc]
    cases hp : pieces (l ++ ['\n']) with
    | nil => exact absurd hp (pieces_ne_nil (by simp))
    | cons p ps => rfl

/-- Pieces are cut out of the counted lines. -/
theorem pieces_eq_flatMap_feedLines (t : Text) : pieces t = (feedLines t).flatMap pieces := by
  induction t using byFeedLines with
  | nil => rfl
  | last l hne hl => simp [feedLines_of_not_mem hl hne]
  | line l r hl ih => rw [pieces_append_lineFeed,ih,feedLines_append hl,List.flatMap_cons]

theorem flatten_flatMap_pieces (ls : List Text) : (ls.flatMap pieces).flatten = ls.flatten := by
  induction ls with
  | nil => rfl
  | cons l ls ih => simp [ih,flatten_pieces]

theorem length_flatMap_pieces {ls : List Text} (h : ∀ l ∈ ls, l ≠ []) :
    ls.length ≤ (ls.flatMap pieces).length ∧
      ((ls.flatMap pieces).length = ls.length ↔ ∀ l ∈ ls, (pieces l).length = 1) := by
  induction ls with
  | nil => simp
  | cons l ls ih =>
    obtain ⟨hle,hiff⟩ := ih fun m hm => h m (List.mem_cons_of_mem _ hm)
    have hl := List.length_pos_iff.mpr (pieces_ne_nil (h l List.mem_cons_self))
    rw [List.flatMap_cons,List.length_append,List.length_cons,List.forall_mem_cons,← hiff]
    omega

end Pieces

section FirstPiece

theorem plain_or_boundary (c : Text) :
    Plain c ∨ ∃ u b w, c = u ++ b :: w ∧ Plain u ∧ isBoundary b = true := by
  induction c with
  | nil => exact .inl (by simp [Plain])
  | cons d c ih =>
    cases hd : isBoundary d with
    | true => exact .inr ⟨[],d,c,rfl,by simp [Plain],hd⟩
    | false =>
      rcases ih with hc | ⟨u,b,w,rfl,hu,hb⟩
      · exact .inl (List.forall_mem_cons.mpr ⟨hd,hc⟩)
      · exact .inr ⟨d :: u,b,w,rfl,List.forall_mem_cons.mpr ⟨hd,hu⟩,hb⟩

variable {u w : Text} {b : Char}

theorem readWhole_append_cons (hu : Plain u) (hb : isBoundary b = true) :
    ReadWhole (u ++ b :: w) ↔ w = [] ∧ b ≠ '\r' := by
  cases w with
  | nil => simp [ReadWhole,hu]
  | cons d w =>
    have : ¬ Plain (u ++ b :: d :: w).dropLast := by
      intro h
      have := h b (by simp [List.dropLast_append_of_ne_nil])
      simp [hb] at this
    exact iff_of_false (fun h => this h.1) (by simp)

theorem contentLength_boundary (hu : Plain u) (hb : b ≠ '\n') :
    contentLength (u ++ [b]) = if b = '\r' then u.length else (u ++ [b]).length := by
  rw [contentLength,dropFinalWhile_eq]
  split
  · next h =>
    rw [List.rdropWhile_concat_pos _ _ _ (by simp [h]),← dropFinalWhile_eq,← contentLength,
      contentLength_plain hu]
  · next h => rw [List.rdropWhile_concat_neg _ _ _ (by simp [h,hb])]

theorem contentLength_carriageReturn (hu : Plain u) :
    contentLength (u ++ ['\r','\n']) = u.length := by
  have h := contentLength_boundary (b := '\r') hu (by decide)
  rw [contentLength,dropFinalWhile_eq] at h ⊢
  rw [List.append_cons,List.rdropWhile_concat_pos _ _ _ (by simp),h,if_pos rfl]

variable {content e : Text}

theorem pieces_of_plain (h : Plain content) (he : Ending content e) :
    pieces (content ++ e) = [content ++ e] ∧ contentLength (content ++ e) = content.length := by
  cases he with
  | lineFeed _ => exact ⟨by simpa [pieces] using pieces_append h [],contentLength_terminated h⟩
  | carriageReturn =>
    exact ⟨pieces_plain_append h (by simp [pieces]),contentLength_carriageReturn h⟩
  | last hne => simp [pieces_plain h hne,contentLength_plain h]

theorem pieces_of_boundary (hu : Plain u) (hb : isBoundary b = true) (hw : '\n' ∉ w)
    (he : Ending (u ++ b :: w) e) : pieces (u ++ b :: w ++ e) = (u ++ [b]) :: pieces (w ++ e) := by
  have hcut : pieces (b :: (w ++ e)) = [b] :: pieces (w ++ e) := by
    refine pieces_boundary hb fun hcr hhead => ?_
    cases w with
    | cons d w => simp_all
    | nil =>
      cases he with
      | lineFeed h => simp [hcr] at h
      | carriageReturn => simp at hhead
      | last _ => simp at hhead
  rw [List.append_assoc]
  exact pieces_plain_append hu hcut

/-- The first piece of a counted line has its content only if that is read whole, and there is no
other piece only if the content is plain. -/
theorem firstPiece (hc : '\n' ∉ content) (he : Ending content e) :
    ∃ p ps, pieces (content ++ e) = p :: ps ∧
      (contentLength p = content.length ↔ ReadWhole content) ∧
      (e ≠ [] → (ps = [] ↔ Plain content)) := by
  rcases plain_or_boundary content with h | ⟨u,b,w,rfl,hu,hb⟩
  · obtain ⟨hp,hlength⟩ := pieces_of_plain h he
    exact ⟨_,_,hp,iff_of_true hlength h.readWhole,fun _ => iff_of_true rfl h⟩
  · have hb' : b ≠ '\n' := fun h => hc (by simp [h])
    refine ⟨_,_,pieces_of_boundary hu hb (fun h => hc (by simp [h])) he,?_,fun hne => ?_⟩
    · rw [readWhole_append_cons hu hb,contentLength_boundary hu hb']
      split
      · next h => simp [h]
      · next h => simp [h]
    · refine iff_of_false (pieces_ne_nil (by simp [hne])) fun h => ?_
      have := h b (by simp)
      simp [hb] at this

end FirstPiece

end FormatEdits.Text
