import FormatEdits.Proofs.Edit.LineNumbering
import FormatEdits.Proofs.Edit.Order

namespace FormatEdits.Text

/-- What ends a piece. -/
inductive Terminator : Text → Prop
  | single {b : Char} (h : isBoundary b = true) : Terminator [b]
  | pair : Terminator ['\r','\n']

/-- The text behind the terminator does not lengthen it. -/
def Complete (e r : Text) : Prop := e = ['\r'] → r.head? ≠ some '\n'

section FirstLine

variable {u e : Text}

theorem pieces_line {r : Text} (hu : Plain u) (he : Terminator e) (h : Complete e r) :
    pieces (u ++ e ++ r) = (u ++ e) :: pieces r := by
  have hcut : pieces (e ++ r) = e :: pieces r := by
    cases he with
    | single hb => exact pieces_boundary hb fun hreturn => h (by rw [hreturn])
    | pair => rw [List.cons_append,List.cons_append,pieces]; rfl
  rw [List.append_assoc]
  exact pieces_plain_append hu hcut

theorem plain_or_line (t : Text) :
    Plain t ∨ ∃ u e r, t = u ++ e ++ r ∧ Plain u ∧ Terminator e ∧ Complete e r := by
  rcases plain_or_boundary t with h | ⟨u,b,r,rfl,hu,hb⟩
  · exact .inl h
  · refine .inr ?_
    by_cases hpair : b = '\r' ∧ r.head? = some '\n'
    · obtain ⟨rfl,hfeed⟩ := hpair
      obtain ⟨r,rfl⟩ := List.head?_eq_some_iff.mp hfeed
      exact ⟨u,['\r','\n'],r,by simp,hu,.pair,by simp [Complete]⟩
    · refine ⟨u,[b],r,by simp,hu,.single hb,fun hreturn hfeed => hpair ⟨?_,hfeed⟩⟩
      simpa using hreturn

/-- A line keeps its content whatever follows, as a carriage return is no part of it, alone or with
a line feed that comes to stand behind it. -/
theorem contentLength_first (hu : Plain u) (he : Terminator e) (r : Text) :
    ∃ p ps, pieces (u ++ e ++ r) = p :: ps ∧ contentLength p = contentLength (u ++ e) := by
  by_cases hpair : e = ['\r'] ∧ r.head? = some '\n'
  · obtain ⟨rfl,hfeed⟩ := hpair
    obtain ⟨r,rfl⟩ := List.head?_eq_some_iff.mp hfeed
    refine ⟨u ++ ['\r','\n'],pieces r,?_,?_⟩
    · simpa using pieces_line hu .pair (r := r) (by simp [Complete])
    · rw [contentLength_carriageReturn hu,contentLength_boundary hu (by decide),if_pos rfl]
  · exact ⟨u ++ e,pieces r,pieces_line hu he fun hreturn hfeed => hpair ⟨hreturn,hfeed⟩,rfl⟩

theorem length_pieces_le_one {t : Text} (h : Plain t) : t.pieces.length ≤ 1 := by
  by_cases hne : t = []
  · simp [hne,pieces]
  · simp [pieces_plain h hne]

end FirstLine

end FormatEdits.Text

namespace FormatEdits.Edit

open Text

section Stability

variable {t r p : Text}

theorem lineStop_zero {ps : List Text} (h : t.pieces = p :: ps) :
    lineStop t 0 = contentLength p := by
  simp [lineStop,lineStart,h]

theorem lineStart_succ (h : t.pieces = p :: r.pieces) (i : Nat) :
    lineStart t (i + 1) = p.length + lineStart r i := by
  simp [lineStart,h]

theorem lineStop_succ (h : t.pieces = p :: r.pieces) (i : Nat) :
    lineStop t (i + 1) = p.length + lineStop r i := by
  simp [lineStop,lineStart_succ h,h,Nat.add_assoc]

theorem head?_kept {k : Nat} (hpos : 0 < k) (hk : k ≤ t.pieces.length) (x : Text) :
    (t.take (lineStart t k) ++ x).head? = t.head? := by
  have hroom : lineStart t k ≠ 0 := Nat.ne_of_gt (lineStart_lt t hpos hk)
  cases t with
  | nil => exact absurd (Nat.lt_of_lt_of_le hpos hk) (Nat.lt_irrefl 0)
  | cons c t => simp [List.head?_take,hroom]

theorem lines_before_kept {k : Nat} (hk : k < t.pieces.length) (x : Text) {i : Nat} (hi : i < k) :
    lineStart (t.take (lineStart t k) ++ x) i = lineStart t i ∧
      lineStop (t.take (lineStart t k) ++ x) i = lineStop t i := by
  induction k generalizing t i with
  | zero => cases hi
  | succ k ih =>
    rcases plain_or_line t with hplain | ⟨u,e,r,rfl,hu,he,hr⟩
    · have := length_pieces_le_one hplain
      omega
    · have hpieces := pieces_line hu he hr
      have hkept : (u ++ e ++ r).take (lineStart (u ++ e ++ r) (k + 1)) ++ x =
          u ++ e ++ (r.take (lineStart r k) ++ x) := by
        rw [lineStart_succ hpieces,List.take_length_add_append,List.append_assoc _ _ x]
      have hkr : k < r.pieces.length := by
        rw [hpieces,List.length_cons] at hk
        omega
      rw [hkept]
      cases i with
      | zero =>
        obtain ⟨p,ps,hp,hlength⟩ := contentLength_first hu he (r.take (lineStart r k) ++ x)
        exact ⟨rfl,by rw [lineStop_zero hp,lineStop_zero hpieces,hlength]⟩
      | succ i =>
        have hik : i < k := Nat.lt_of_succ_lt_succ hi
        -- A line is kept behind the first one, so that one goes on to end where it ended.
        have hhead := head?_kept (Nat.lt_of_le_of_lt (Nat.zero_le i) hik) (Nat.le_of_lt hkr) x
        have hpieces' := pieces_line hu he (r := r.take (lineStart r k) ++ x)
          fun hreturn => hhead ▸ hr hreturn
        obtain ⟨hstart,hstop⟩ := ih hkr hik
        rw [lineStart_succ hpieces',lineStart_succ hpieces,lineStop_succ hpieces',
          lineStop_succ hpieces,hstart,hstop]
        exact ⟨rfl,rfl⟩

end Stability

section OneByOne

variable {t : Text}

theorem rebuild_eq_take_append {o : Nat} {cs : List Change} (h : ∀ c ∈ cs.head?, o ≤ c.start) :
    rebuild t 0 cs = t.take o ++ rebuild t o cs := by
  cases cs with
  | nil => exact (List.take_append_drop o t).symm
  | cons c cs =>
    have hstart : c.start = o + (c.start - o) := (Nat.add_sub_cancel' (h c rfl)).symm
    have htake : t.take c.start = t.take o ++ (t.drop o).take (c.start - o) := by
      rw [← List.take_add,← hstart]
    rw [rebuild,rebuild,List.drop_zero,Nat.sub_zero,htake]
    simp only [List.append_assoc]

/-- Edits that each begin in a line of the text, behind the last line of the one before. -/
structure LineByLine (t : Text) (es : List Edit) : Prop where
  upright : ∀ e ∈ es, e.Upright
  within : ∀ e ∈ es, e.startLine < t.pieces.length
  apart : es.IsChain fun a b => a.endLine < b.startLine

theorem LineByLine.accepts {es : List Edit} (h : LineByLine t es) : Accepts t es :=
  accepts_of_endsBefore t h.upright (h.apart.imp fun _ _ h => .inl h)

theorem LineByLine.tail {e : Edit} {es : List Edit} (h : LineByLine t (e :: es)) :
    LineByLine t es :=
  ⟨fun a ha => h.upright a (List.mem_cons_of_mem _ ha),
    fun a ha => h.within a (List.mem_cons_of_mem _ ha),h.apart.tail⟩

/-- The text that all the edits make together. -/
def changed (t : Text) (es : List Edit) : Text := rebuild t 0 (es.map (·.changeIn t))

/-- Edits do not move the positions of the lines in front of the first of them. -/
theorem LineByLine.position_changed {es : List Edit} (h : LineByLine t es) {line : Int}
    (hline : 0 ≤ line) (hlt : ∀ e ∈ es.head?, line < e.startLine) (c : Option Nat) :
    position (changed t es) line.toNat c = position t line.toNat c := by
  cases es with
  | nil => rfl
  | cons e es =>
    have hnext : line < e.startLine := hlt e rfl
    have hin := h.within e List.mem_cons_self
    have hkept : changed t (e :: es) = t.take (lineStart t e.startLine.toNat) ++
        rebuild t (lineStart t e.startLine.toNat) ((e :: es).map (·.changeIn t)) := by
      refine rebuild_eq_take_append fun c hc => ?_
      obtain rfl : e.changeIn t = c := by simpa using hc
      exact lineStart_le_position t e.startLine.toNat (some e.startCharacter)
    obtain ⟨hstart,hstop⟩ := lines_before_kept (t := t) (k := e.startLine.toNat) (by omega)
      (rebuild t (lineStart t e.startLine.toNat) ((e :: es).map (·.changeIn t)))
      (i := line.toNat) (by omega)
    rw [hkept]
    cases c <;> simp only [position,hstart,hstop]

theorem LineByLine.changeIn_changed {e : Edit} {es : List Edit} (h : LineByLine t (e :: es)) :
    e.changeIn (changed t es) = e.changeIn t := by
  have hup := h.upright e List.mem_cons_self
  have hnext := (List.isChain_cons.mp h.apart).1
  have hstart : ∀ b ∈ es.head?, e.startLine < b.startLine := fun b hb =>
    Int.lt_of_le_of_lt hup.startLine_le_endLine (hnext b hb)
  rw [changeIn,changeIn,h.tail.position_changed hup.nonneg hstart,
    h.tail.position_changed hup.endLine_nonneg hnext]

/-- The first edit, made where the others have been made, does what it does together with them. -/
theorem LineByLine.apply_changed {e : Edit} {es : List Edit} (h : LineByLine t (e :: es)) :
    apply (changed t es) [e] = .ok (changed t (e :: es)) := by
  have hup := h.upright e List.mem_cons_self
  have hle : (e.changeIn t).start ≤ (e.changeIn t).stop := (hup.fits t).upright
  have hnext : ∀ c ∈ (es.map (·.changeIn t)).head?, (e.changeIn t).stop ≤ c.start := by
    intro c hc
    rw [List.head?_map] at hc
    obtain ⟨b,hb,rfl⟩ := Option.map_eq_some_iff.mp hc
    exact (List.isChain_cons.mp h.accepts.ordered).1 b hb
  have hkept : changed t es = t.take (e.changeIn t).stop ++
      rebuild t (e.changeIn t).stop (es.map (·.changeIn t)) := rebuild_eq_take_append hnext
  have hlength : (t.take (e.changeIn t).stop).length = (e.changeIn t).stop :=
    List.length_take_of_le (position_le_length t _ _)
  have hfront : (changed t es).take (e.changeIn t).start = t.take (e.changeIn t).start := by
    rw [hkept,List.take_append_of_le_length (by rw [hlength]; exact hle),List.take_take,
      Nat.min_eq_left hle]
  have hbehind : (changed t es).drop (e.changeIn t).stop =
      rebuild t (e.changeIn t).stop (es.map (·.changeIn t)) := by
    rw [hkept,List.drop_left' hlength]
  rw [apply_single (hup.fits _),h.changeIn_changed,hfront,hbehind]
  rfl

/-- The edits made one at a time, the last one first, each on the text that the one before it
left. -/
def applyBottomUp (t : Text) (es : List Edit) : Except Fault Text :=
  es.foldrM (fun e u => apply u [e]) t

theorem LineByLine.applyBottomUp_eq {es : List Edit} (h : LineByLine t es) :
    applyBottomUp t es = .ok (changed t es) := by
  induction es with
  | nil => rfl
  | cons e es ih =>
    calc applyBottomUp t (e :: es)
      _ = (applyBottomUp t es >>= fun u => apply u [e]) := List.foldrM_cons
      _ = apply (changed t es) [e] := by rw [ih h.tail]; rfl
      _ = .ok (changed t (e :: es)) := h.apply_changed

end OneByOne

/-- Edits of lines one behind the other are accepted, and lead to the same text whether they are
made at once or one at a time from the bottom up. -/
theorem apply_eq_applyBottomUp {t : Text} {es : List Edit} (h : LineByLine t es) :
    ∃ u, apply t es = .ok u ∧ applyBottomUp t es = .ok u :=
  ⟨_,apply_eq_ok_iff.mpr ⟨h.accepts,rfl⟩,h.applyBottomUp_eq⟩

/-- A line feed comes to stand behind a lone carriage return; in front of it an edit ends past the
end of its line, and behind it one ends past the end of the text. -/
theorem apply_eq_applyBottomUp_of_lineFeed_behind_return :
    let t := "ab\rc\n\nd".toList
    let es : List Edit :=
      [⟨0,0,1,some 9,['x']⟩,⟨1,1,0,none,['\n','y']⟩,⟨2,2,0,some 0,['z','\n']⟩,⟨3,7,0,none,[]⟩]
    LineByLine t es ∧ apply t es = .ok "ax\r\ny\nz\n\n".toList ∧
      applyBottomUp t es = .ok "ax\r\ny\nz\n\n".toList := by
  intro t es
  have h : LineByLine t es := ⟨by decide,by decide,by decide⟩
  obtain ⟨u,hall,hone⟩ := apply_eq_applyBottomUp h
  obtain rfl : u = "ax\r\ny\nz\n\n".toList := Except.ok.inj (hall.symm.trans rfl)
  exact ⟨h,hall,hone⟩

end FormatEdits.Edit
