import FormatEdits.Proofs.Escape.Decoration
import FormatEdits.Proofs.Text.Lines

namespace FormatEdits

namespace Text

/-- A line feed comes right behind every carriage return, so that none is behind another one. -/
def Paired (t : Text) : Prop := ∀ i, t[i]? = some '\r' → t[i + 1]? = some '\n'

instance Paired.decidable (t : Text) : Decidable (Paired t) :=
  decidable_of_iff (∀ i < t.length, t[i]? = some '\r' → t[i + 1]? = some '\n')
    ⟨fun h i hi => h i (List.getElem?_eq_some_iff.mp hi).1 hi,fun h i _ => h i⟩

theorem Paired.tail {c : Char} {t : Text} (h : Paired (c :: t)) : Paired t :=
  fun i hi => h (i + 1) (by simpa using hi)

theorem Paired.head {t : Text} (h : Paired ('\r' :: t)) : ∃ r, t = '\n' :: r := by
  have h0 := h 0 rfl
  cases t with
  | nil => cases h0
  | cons c r => exact ⟨r,by simpa using h0⟩

/-- Unified, the lines have lost their carriage returns, and they had no others. -/
theorem fields_unifyNewlines {t : Text} (h : Paired t) :
    fields '\n' t.unifyNewlines = (fields '\n' t).map (dropFinal '\r') ∧
      ∀ l ∈ fields '\n' t, '\r' ∉ dropFinal '\r' l := by
  fun_induction unifyNewlines t with
  | case1 => simp [fields,dropFinal]
  | case2 r ih =>
    obtain ⟨hmap,hlines⟩ := ih h.tail.tail
    have hfields : fields '\n' ('\r' :: '\n' :: r) = ['\r'] :: fields '\n' r := by simp [fields]
    rw [hfields,List.map_cons,← hmap,List.forall_mem_cons]
    exact ⟨by simp [fields,dropFinal],by simp [dropFinal],hlines⟩
  | case3 c r hnext ih =>
    have hc : c ≠ '\r' := by
      rintro rfl
      obtain ⟨s,rfl⟩ := h.head
      exact hnext s rfl rfl
    obtain ⟨hmap,hlines⟩ := ih h.tail
    rw [if_neg hc]
    by_cases hn : c = '\n'
    · subst hn
      have hfields (s : Text) : fields '\n' ('\n' :: s) = [] :: fields '\n' s := by simp [fields]
      rw [hfields,hfields,List.map_cons,← hmap,List.forall_mem_cons]
      exact ⟨rfl,by simp [dropFinal],hlines⟩
    · obtain ⟨f,fs,hf,hcf⟩ := fields_cons hn r
      obtain ⟨g,gs,hg,hcg⟩ := fields_cons hn (unifyNewlines r)
      rw [hf,hg,List.map_cons,List.cons.injEq] at hmap
      rw [hf,List.forall_mem_cons] at hlines
      rw [hcf,hcg,List.map_cons,List.forall_mem_cons,dropFinal_cons hc,hmap.1,hmap.2]
      exact ⟨rfl,by simpa [hc.symm] using hlines.1,hlines.2⟩

/-- A carriage return right in front of a line feed is left out; all others stay. -/
def feedsAlone : Text → Text
  | [] => []
  | '\r' :: '\n' :: r => '\n' :: feedsAlone r
  | c :: r => c :: feedsAlone r

theorem feedsAlone_cons {c : Char} {r : Text} (h : c = '\r' → r.head? ≠ some '\n') :
    feedsAlone (c :: r) = c :: feedsAlone r :=
  feedsAlone.eq_3 c r fun s hc hr => h hc (by simp [hr])

theorem feedsAlone_of_not_mem {l : Text} (h : '\n' ∉ l) : feedsAlone l = l := by
  induction l with
  | nil => rfl
  | cons c l ih =>
    obtain ⟨-,hl⟩ : '\n' ≠ c ∧ '\n' ∉ l := by simpa using h
    rw [feedsAlone_cons fun _ hfeed => hl (List.mem_of_head? hfeed),ih hl]

/-- The carriage return that a counted line ends in goes, and only that one. -/
theorem feedsAlone_append {l : Text} (h : '\n' ∉ l) (r : Text) :
    feedsAlone (l ++ '\n' :: r) = dropFinal '\r' l ++ '\n' :: feedsAlone r := by
  induction l with
  | nil => exact feedsAlone_cons (by simp)
  | cons c l ih =>
    obtain ⟨-,hl⟩ : '\n' ≠ c ∧ '\n' ∉ l := by simpa using h
    cases l with
    | nil =>
      by_cases hc : c = '\r'
      · subst hc
        simp [feedsAlone,dropFinal]
      · rw [dropFinal_cons hc,List.singleton_append,feedsAlone_cons (absurd · hc),
          feedsAlone_cons (by simp)]
        rfl
    | cons d l =>
      have hd : d ≠ '\n' := fun hd => hl (by simp [hd])
      have hdrop : dropFinal '\r' (c :: d :: l) = c :: dropFinal '\r' (d :: l) :=
        dropFinal_append (s := [c]) (by simp)
      rw [List.cons_append,feedsAlone_cons fun _ => by simpa using hd,ih hl,hdrop]
      rfl

theorem fields_feedsAlone {t : Text} (h : ¬ ['\r','\r','\n'] <:+: t) :
    (fields '\n' (feedsAlone t)).map (dropFinal '\r') =
      (fields '\n' t).map (dropFinal '\r') := by
  induction t using byFeedLines with
  | nil => rfl
  | last l _ hl => rw [feedsAlone_of_not_mem hl]
  | line l r hl ih =>
    have hsingle : (dropFinal '\r' l).getLast? ≠ some '\r' := by
      intro hlast
      obtain ⟨m,rfl⟩ := exists_of_getLast?_dropFinal hlast
      exact h ⟨m,r,by simp⟩
    have hr : ¬ ['\r','\r','\n'] <:+: r := fun hpart =>
      h (hpart.trans ((List.suffix_cons '\n' r).trans (List.suffix_append l _)).isInfix)
    rw [feedsAlone_append hl,fields_append fun hmem => hl (mem_of_mem_dropFinal hmem),
      fields_append hl,List.map_cons,List.map_cons,ih hr,dropFinal,if_neg hsingle]

end Text

namespace Report

open Text (Paired dropFinal)

theorem lines_strip (report : Text) :
    lines (Escape.strip report) = (lines report).map Escape.strip :=
  Escape.fields_strip Escape.foreign_lineFeed report

theorem classify_congr {l m : Text} (h : dropFinal '\r' l = dropFinal '\r' m) :
    classify l = classify m := by
  simp only [classify,Text.ofChar_char,h]

theorem classify_strip_dropFinal {l : Text} (h : '\r' ∉ dropFinal '\r' l) :
    classify (Escape.strip (dropFinal '\r' l)) = classify (Escape.strip l) := by
  by_cases hl : l.getLast? = some '\r'
  · obtain ⟨m,rfl⟩ := List.getLast?_eq_some_iff.mp hl
    rw [Text.dropFinal_concat] at h ⊢
    have hm : '\r' ∉ Escape.strip m := fun hmem => h ((Escape.strip_sublist m).mem hmem)
    have hstrip : Escape.strip (m ++ ['\r']) = Escape.strip m ++ ['\r'] := by
      rw [Escape.strip_append_cons Escape.foreign_carriageReturn,
        Escape.strip_of_clean (t := []) (by decide)]
    apply classify_congr
    rw [hstrip,Text.dropFinal_concat,Text.dropFinal_of_not_mem hm]
  · rw [dropFinal,if_neg hl]

theorem collect_congr {r₁ r₂ : Text} (h : (lines r₁).map classify = (lines r₂).map classify)
    (names : Naming) : collect names r₁ = collect names r₂ := by
  have hfold (ls : List Text) : ls.foldlM (step names) {} =
      (ls.map classify).foldlM (fun (s : State) kind => kind >>= s.advance names) {} := by
    rw [List.foldlM_map]
    rfl
  rw [collect,collect,hfold,hfold,h]

theorem interpretColoured_unifyNewlines {report : Text} (h : Paired report) (host : Host)
    (resolveLinks : Bool) (target : Text) :
    interpretColoured host resolveLinks target report.unifyNewlines =
      interpretColoured host resolveLinks target report := by
  obtain ⟨hmap,hlines⟩ := Text.fields_unifyNewlines h
  have hkinds : (lines (Escape.strip report.unifyNewlines)).map classify =
      (lines (Escape.strip report)).map classify := by
    rw [lines_strip,lines_strip,lines_char,lines_char,hmap,List.map_map,List.map_map,List.map_map]
    exact List.map_congr_left fun l hl => classify_strip_dropFinal (hlines l hl)
  rw [interpretColoured,interpretColoured,interpret,interpret,collect_congr hkinds]

/-- What lines announce depends on what is left of them without their carriage returns. -/
theorem map_classify_congr {ls ms : List Text}
    (h : ls.map (dropFinal '\r') = ms.map (dropFinal '\r')) :
    ls.map classify = ms.map classify := by
  have hbare (ks : List Text) : ks.map classify =
      (ks.map (dropFinal '\r')).map fun k => classify (k ++ ['\r']) := by
    rw [List.map_map]
    exact List.map_congr_left fun k _ => classify_congr (Text.dropFinal_concat '\r' _).symm
  rw [hbare,hbare,h]

/-- A report whose lines end in a carriage return and a line feed, in a line feed, or in both kinds
of endings by turns is read as the one with line feeds alone: the same hunks come of it, or the same
fault. Carriage returns that stand elsewhere are left as they are in both. -/
theorem collect_feedsAlone {report : Text} (h : ¬ ['\r','\r','\n'] <:+: report) (names : Naming) :
    collect names report.feedsAlone = collect names report :=
  collect_congr (map_classify_congr (Text.fields_feedsAlone h)) names

/-- A report with both kinds of endings, carriage returns within a line and at the end of the
report, and a line that shows a carriage return in front of its return symbol. -/
theorem collect_feedsAlone_of_mixed_endings :
    let names := Path.names {} true "a.rs".toList
    let report : Text := "Diff of a.rs:\r\nDiff at line 2\n-a⏎\r\n+b\rc\r⏎\r\n d\r".toList
    ¬ ['\r','\r','\n'] <:+: report ∧
      report.feedsAlone = "Diff of a.rs:\nDiff at line 2\n-a⏎\n+b\rc\r⏎\n d\r".toList ∧
      collect names report.feedsAlone = collect names report ∧
      collect names report = .ok [⟨2,2,["b\rc\r\n".toList,"d".toList]⟩] := by
  intro names report
  have hpairs : ¬ ['\r','\r','\n'] <:+: report := by decide +kernel
  exact ⟨hpairs,by decide +kernel,collect_feedsAlone hpairs names,by decide +kernel⟩

end Report
end FormatEdits
