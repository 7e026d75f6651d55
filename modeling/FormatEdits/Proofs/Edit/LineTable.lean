import FormatEdits.Proofs.Edit.Position

namespace FormatEdits.Text

/-- The forms of a piece: characters that end no line, and at most one terminator behind them. -/
inductive IsPiece : Text → Prop
  | bare {u : Text} (hu : Plain u) (hne : u ≠ []) : IsPiece u
  | ended {u : Text} {b : Char} (hu : Plain u) (hb : isBoundary b = true) : IsPiece (u ++ [b])
  | pair {u : Text} (hu : Plain u) : IsPiece (u ++ ['\r','\n'])

theorem IsPiece.cons {c : Char} {p : Text} (hc : isBoundary c = false) (h : IsPiece p) :
    IsPiece (c :: p) := by
  cases h with
  | bare hu _ => exact .bare (hu.cons hc) (by simp)
  | ended hu hb => exact .ended (hu.cons hc) hb
  | pair hu => exact .pair (hu.cons hc)

/-- The characters are read one by one: one that ends no line makes the first piece behind it
longer, and any other is a piece by itself or half of a pair. -/
theorem isPiece_of_mem_pieces {t p : Text} (h : p ∈ pieces t) : IsPiece p := by
  fun_induction pieces t generalizing p with
  | case1 => cases h
  | case2 r ih =>
    rcases List.mem_cons.mp h with rfl | h
    · exact .pair plain_nil
    · exact ih h
  | case3 c r _ hb ih =>
    rcases List.mem_cons.mp h with rfl | h
    · exact .ended plain_nil hb
    · exact ih h
  | case4 c r _ hb ih =>
    have hc : isBoundary c = false := by simpa using hb
    cases hr : pieces r with
    | nil =>
      obtain rfl : p = [c] := by simpa [hr,pushFirst] using h
      exact .bare (plain_nil.cons hc) (by simp)
    | cons q qs =>
      rw [hr] at h ih
      rcases List.mem_cons.mp h with rfl | h
      · exact (ih List.mem_cons_self).cons hc
      · exact ih (List.mem_cons_of_mem q h)

/-- A text without line feeds and carriage returns. -/
def FeedFree (l : Text) : Prop := ∀ c ∈ l, c ≠ '\n' ∧ c ≠ '\r'

theorem Plain.feedFree {l : Text} (h : Plain l) : FeedFree l := by
  intro c hc
  simpa using h.not_endOfLine hc

/-- What may stand between the content of a line and the next line. Terminators of other characters
belong to the content, and then nothing stands there. -/
inductive Gap : Text → Prop
  | nothing : Gap []
  | lineFeed : Gap ['\n']
  | carriageReturn : Gap ['\r']
  | both : Gap ['\r','\n']

theorem IsPiece.exists_gap {p : Text} (h : IsPiece p) : ∃ content gap, p = content ++ gap ∧
    contentLength p = content.length ∧ FeedFree content ∧ Gap gap := by
  cases h with
  | bare hu _ => exact ⟨p,[],by simp,contentLength_plain hu,hu.feedFree,.nothing⟩
  | pair hu => exact ⟨_,_,rfl,contentLength_carriageReturn hu,hu.feedFree,.both⟩
  | @ended u b hu hb =>
    by_cases hfeed : b = '\n'
    · subst hfeed
      exact ⟨u,_,rfl,contentLength_terminated hu,hu.feedFree,.lineFeed⟩
    · have hlength := contentLength_boundary hu hfeed
      by_cases hreturn : b = '\r'
      · subst hreturn
        exact ⟨u,_,rfl,hlength,hu.feedFree,.carriageReturn⟩
      · rw [if_neg hreturn] at hlength
        refine ⟨u ++ [b],[],by simp,hlength,?_,.nothing⟩
        exact List.forall_mem_append.mpr ⟨hu.feedFree,by simp [hfeed,hreturn]⟩

theorem extract_middle (a b r : Text) : (a ++ b ++ r).extract a.length (a ++ b).length = b := by
  rw [List.extract_eq_take_drop,List.append_assoc,List.drop_left,List.length_append,
    Nat.add_sub_cancel_left,List.take_left]

end FormatEdits.Text

namespace FormatEdits.Edit

open Text

/-- Spans that tile a text from an offset on, up to its end. A line's content is free of line feeds
and carriage returns, and a gap of these reaches from it to where the next span starts, or to the
end of the text behind the last one. -/
inductive Tiles (t : Text) : Nat → List Span → Prop
  | done : Tiles t t.length []
  | line {start stop next : Nat} {ss : List Span} (hstop : start ≤ stop) (hnext : stop ≤ next)
      (content : FeedFree (t.extract start stop)) (gap : Gap (t.extract stop next))
      (tail : Tiles t next ss) : Tiles t start (⟨start,stop⟩ :: ss)

theorem Tiles.cons {seen content gap rest : Text} {ss : List Span} (hfree : FeedFree content)
    (hgap : Gap gap)
    (tail : Tiles (seen ++ content ++ gap ++ rest) (seen ++ content ++ gap).length ss) :
    Tiles (seen ++ content ++ gap ++ rest) seen.length
      (⟨seen.length,(seen ++ content).length⟩ :: ss) := by
  refine .line (by simp) (by simp) ?_ ?_ tail
  · rwa [List.append_assoc (seen ++ content),extract_middle]
  · rwa [extract_middle]

/-- The text in front of the pieces is carried along: its length is where they start. -/
theorem tiles_spansFrom (seen : Text) {ps : List Text} (h : ∀ p ∈ ps, IsPiece p) :
    Tiles (seen ++ ps.flatten) seen.length (spansFrom seen.length ps) := by
  induction ps generalizing seen with
  | nil =>
    rw [List.flatten_nil,List.append_nil]
    exact .done
  | cons p ps ih =>
    obtain ⟨content,gap,rfl,hlength,hfree,hgap⟩ := (h p List.mem_cons_self).exists_gap
    have htext : seen ++ ((content ++ gap) :: ps).flatten =
        seen ++ content ++ gap ++ ps.flatten := by
      simp
    have hspans : spansFrom seen.length ((content ++ gap) :: ps) =
        ⟨seen.length,(seen ++ content).length⟩ :: spansFrom (seen ++ content ++ gap).length ps := by
      simp [spansFrom,hlength]
    rw [htext,hspans]
    exact .cons hfree hgap (ih _ fun q hq => h q (List.mem_cons_of_mem _ hq))

theorem tiles_spans (t : Text) : Tiles t 0 (spans t) := by
  have h := tiles_spansFrom [] fun p hp => isPiece_of_mem_pieces (t := t) hp
  rwa [flatten_pieces] at h

theorem eq_of_getElem?_spans {t : Text} {i : Nat} {s : Span} (h : (spans t)[i]? = some s) :
    s = ⟨lineStart t i,lineStop t i⟩ := by
  rw [spans,spansFrom_getElem?] at h
  obtain ⟨p,hp,rfl⟩ := Option.map_eq_some_iff.mp h
  simp [lineStart,lineStop,hp]

/-- The table of lines tiles the text: the first span starts where the text does, a line's content
reaches no further than to where the next line starts, or the text ends, and between the two stands
nothing, a line feed, a carriage return or a carriage return with its line feed. Positions without
a negative line have their offsets in the text, within the content of their line where the document
has that line, and a position that comes no later has no greater offset. -/
theorem spans_tile_and_offsets_grow (t : Text) :
    Tiles t 0 (spans t) ∧
      (∀ (line : Int) (c : Option Nat), 0 ≤ line → ∃ n, offset t line c = .ok n ∧ n ≤ t.length ∧
        ∀ s, (spans t)[line.toNat]? = some s → s.start ≤ n ∧ n ≤ s.stop) ∧
      ∀ (i j : Int) (c d : Option Nat), 0 ≤ i → PositionLE i c j d →
        ∃ m n, offset t i c = .ok m ∧ offset t j d = .ok n ∧ m ≤ n := by
  refine ⟨tiles_spans t,fun line c hline => ?_,fun i j c d hi hle => ?_⟩
  · refine ⟨_,offset_of_nonneg t hline c,position_le_length t _ c,fun s hs => ?_⟩
    rw [eq_of_getElem?_spans hs]
    exact ⟨lineStart_le_position t _ c,position_le_lineStop t _ c⟩
  · have hj : 0 ≤ j := hle.elim (fun h => by omega) fun h => h.1 ▸ hi
    exact ⟨_,_,offset_of_nonneg t hi c,offset_of_nonneg t hj d,position_mono t hi hle⟩

/-- All terminators that leave a gap, and a form feed, which leaves none. The sixth character of the
fourth line stands for the end of its content. -/
theorem spans_tile_and_offsets_grow_of_mixed_terminators :
    let t := "a\r\n\nb\x0cc\rd".toList
    Tiles t 0 [⟨0,1⟩,⟨3,3⟩,⟨4,6⟩,⟨6,7⟩,⟨8,9⟩] ∧ (0 : Int) ≤ 3 ∧ PositionLE 3 (some 5) 9 (some 0) ∧
      (∃ n, offset t 3 (some 5) = .ok n ∧ n ≤ t.length ∧ 6 ≤ n ∧ n ≤ 7) ∧
      ∃ m n, offset t 3 (some 5) = .ok m ∧ offset t 9 (some 0) = .ok n ∧ m ≤ n := by
  intro t
  have hline : (0 : Int) ≤ 3 := by decide
  have hle : PositionLE 3 (some 5) 9 (some 0) := by decide
  obtain ⟨htiles,hwithin,hgrow⟩ := spans_tile_and_offsets_grow t
  obtain ⟨n,hn,hlength,hspan⟩ := hwithin 3 (some 5) hline
  exact ⟨htiles,hline,hle,⟨n,hn,hlength,hspan ⟨6,7⟩ rfl⟩,hgrow _ _ _ _ hline hle⟩

end FormatEdits.Edit
