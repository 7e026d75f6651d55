import FormatEdits.Proofs.Escape.Decoration
import FormatEdits.Proofs.Formatter

namespace FormatEdits

open Text.Utf8 (decode encode)

namespace Text

theorem not_mem_unifyNewlines (t : Text) : '\r' ∉ t.unifyNewlines := by
  fun_induction unifyNewlines t with
  | case1 => simp
  | case2 r ih => simpa using ih
  | case3 c r _ ih =>
    rw [List.mem_cons,not_or]
    refine ⟨?_,ih⟩
    split
    · decide
    · next hc => exact fun h => hc h.symm

theorem unifyNewlines_of_not_mem {t : Text} (h : '\r' ∉ t) : t.unifyNewlines = t := by
  fun_induction unifyNewlines t with
  | case1 => rfl
  | case2 r _ => simp at h
  | case3 c r _ ih =>
    obtain ⟨hc,hr⟩ : '\r' ≠ c ∧ '\r' ∉ r := by simpa using h
    rw [if_neg hc.symm,ih hr]

end Text

namespace Escape

theorem mem_strip_of_foreign {c : Char} (hc : Foreign c) {t : Text} (h : c ∈ t) : c ∈ strip t := by
  obtain ⟨u,v,rfl⟩ := List.append_of_mem h
  rw [strip_append_cons hc]
  simp

/-- What a formatter printed is compared without escape sequences, and a document without carriage
returns. For one text the two are the same only if it has neither. -/
theorem strip_eq_unifyNewlines_iff {t : Text} : strip t = t.unifyNewlines ↔ '\r' ∉ t ∧ Free t := by
  constructor
  · intro h
    have hreturn : '\r' ∉ t := fun hmem =>
      Text.not_mem_unifyNewlines t (h ▸ mem_strip_of_foreign foreign_carriageReturn hmem)
    rw [Text.unifyNewlines_of_not_mem hreturn] at h
    exact ⟨hreturn,strip_eq_self_iff.mp h⟩
  · rintro ⟨hreturn,hfree⟩
    rw [Text.unifyNewlines_of_not_mem hreturn,strip_eq_self_iff.mpr hfree]

end Escape

section Reading

variable {host : Host} {path : Text} {bytes : Text.Utf8.Bytes}

theorem Document.null_mem_plainPath (h : Path.null ∈ path) : Path.null ∈ plainPath path := by
  have hslash : Path.null ≠ '/' := by decide
  rw [← Text.joined_fields '/' path] at h
  obtain ⟨name,hname,hnull⟩ := (Text.mem_joined hslash).mp h
  have hkept : name ≠ [] ∧ name ≠ Path.here := by
    refine ⟨?_,?_⟩ <;> rintro rfl <;> revert hnull <;> decide
  have hmem : Path.null ∈ Path.rootOf path ++
      Text.joined '/' ((path.fields '/').filter fun n => n ≠ [] ∧ n ≠ Path.here) :=
    List.mem_append_right _ ((Text.mem_joined hslash).mpr
      ⟨name,List.mem_filter.mpr ⟨hname,decide_eq_true hkept⟩,hnull⟩)
  unfold plainPath
  dsimp only
  split
  · next hnil =>
    rw [hnil] at hmem
    cases hmem
  · exact hmem

theorem Document.null_not_mem_of_readBytes (h : readBytes host path = .ok bytes) :
    Path.null ∉ path := by
  intro hnull
  rw [readBytes] at h
  simp [null_mem_plainPath hnull] at h

theorem Document.read_of_decode {t : Text} (h : readBytes host path = .ok bytes)
    (ht : decode bytes = .ok t) : read host path = .ok t.unifyNewlines := by
  rw [read,h]
  simp [bind,Except.bind,textOf,ht]

end Reading

namespace Session

variable {host : Host} {settings : Settings} {path : Text} {bytes : Text.Utf8.Bytes} {t : Text}

theorem editsFromOutput_display (settings : Settings) {document : Text}
    (hread : Document.read host path = .ok document) (output : Text) :
    editsFromOutput host settings path output .display =
      .ok (if Escape.strip output = document then []
        else [.wholeDocument document (Escape.strip output)]) := by
  rw [editsFromOutput,hread]
  rfl

/-- A document that its formatter prints as it is, byte by byte, gets no edits exactly if it holds
no carriage return and no escape sequence. Any other one is replaced as a whole, by its text less
the escape sequences. -/
theorem formatted_document_untouched_iff {executable : Text} {s : Formatter.Started}
    (hread : Document.readBytes host path = .ok bytes) (ht : decode bytes = .ok t)
    (hs : Formatter.Succeeds host settings ⟨executable,.display,path⟩ s bytes) :
    ∃ output edits,
      Formatter.run host (settings.timeLimit.map .exact) ⟨executable,.display,path⟩ = .ok output ∧
        editsFromOutput host settings path output .display = .ok edits ∧
        (edits = [] ↔ '\r' ∉ t ∧ Escape.Free t) ∧
        (edits ≠ [] → edits = [.wholeDocument t.unifyNewlines (Escape.strip t)]) := by
  have hrun := Formatter.run_of_succeeds hs (Document.null_not_mem_of_readBytes hread)
  rw [Text.Utf8.decodeLenient_of_decode ht] at hrun
  have hedits := editsFromOutput_display settings (Document.read_of_decode hread ht) t
  refine ⟨t,_,hrun,hedits,?_,?_⟩
  · rw [← Escape.strip_eq_unifyNewlines_iff]
    split
    · next h => exact iff_of_true rfl h
    · next h => exact iff_of_false (by simp) h
  · split
    · exact fun h => absurd rfl h
    · exact fun _ => rfl

end Session

theorem Formatter.run_writing (t : Text) : Formatter.run (Host.writing (encode t)) none
    ⟨"/bin/rustfmt".toList,.display,"/saved".toList⟩ = .ok t := by
  have hrun := run_of_succeeds (succeeds_writing (encode t) .display "/saved".toList) (by decide)
  rwa [Text.Utf8.decodeLenient_encode] at hrun

namespace Session

/-- A document with line feeds alone, one with a carriage return, and one with an escape
sequence. -/
theorem formatted_document_untouched_iff_of_three :
    let printed (t : Text) (edits : List Edit) := ∃ output,
      Formatter.run (Host.writing (encode t)) none
          ⟨"/bin/rustfmt".toList,.display,"/saved".toList⟩ = .ok output ∧
        editsFromOutput (Host.writing (encode t)) {} "/saved".toList output .display = .ok edits
    printed "a\n".toList [] ∧ printed "a\r\n".toList [⟨0,0,0,none,"a\r".toList⟩] ∧
      printed "\x1b[1ma\n".toList [⟨0,0,0,none,['a']⟩] := by
  intro printed
  have huntouched (t : Text) :=
    formatted_document_untouched_iff (Document.readBytes_writing (encode t))
      (Text.Utf8.decode_encode t) (Formatter.succeeds_writing (encode t) .display "/saved".toList)
  refine ⟨?_,?_,?_⟩
  · obtain ⟨output,edits,hrun,hedits,hiff,-⟩ := huntouched "a\n".toList
    have hfree : Escape.Free "a\n".toList :=
      Escape.strip_eq_self_iff.mp (Escape.strip_of_clean (by decide))
    obtain rfl := hiff.mpr ⟨by decide,hfree⟩
    exact ⟨output,hrun,hedits⟩
  · obtain ⟨output,edits,hrun,hedits,hiff,hwhole⟩ := huntouched "a\r\n".toList
    have hstrip : Escape.strip "a\r\n".toList = "a\r\n".toList := Escape.strip_of_clean (by decide)
    obtain rfl := hwhole fun h => absurd (hiff.mp h).1 (by decide)
    rw [hstrip] at hedits
    exact ⟨output,hrun,hedits⟩
  · obtain ⟨output,edits,hrun,hedits,hiff,hwhole⟩ := huntouched "\x1b[1ma\n".toList
    have hstrip : Escape.strip "\x1b[1ma\n".toList = "a\n".toList := by cbv
    have hsequence : ¬ Escape.Free "\x1b[1ma\n".toList := by
      rw [← Escape.strip_eq_self_iff,hstrip]
      decide
    obtain rfl := hwhole fun h => hsequence (hiff.mp h).2
    rw [hstrip] at hedits
    exact ⟨output,hrun,hedits⟩

/-- It is not every document that is left alone when its formatter prints it as it is: one with a
carriage return is replaced by itself. -/
theorem not_formatted_document_untouched : ¬ ∀ (host : Host) (settings : Settings)
    (path executable : Text) (s : Formatter.Started) (bytes : Text.Utf8.Bytes) (t output : Text),
      Document.readBytes host path = .ok bytes → decode bytes = .ok t →
        Formatter.Succeeds host settings ⟨executable,.display,path⟩ s bytes →
          Formatter.run host (settings.timeLimit.map .exact) ⟨executable,.display,path⟩ =
            .ok output →
              editsFromOutput host settings path output .display = .ok [] := by
  intro h
  have hbytes := Document.readBytes_writing (encode "a\r\n".toList)
  have hdecode := Text.Utf8.decode_encode "a\r\n".toList
  have hempty := h _ {} _ _ _ _ _ _ hbytes hdecode (Formatter.succeeds_writing _ .display _)
    (Formatter.run_writing "a\r\n".toList)
  have hdifferent : Escape.strip "a\r\n".toList ≠ Text.unifyNewlines "a\r\n".toList := fun hsame =>
    absurd (Escape.strip_eq_unifyNewlines_iff.mp hsame).1 (by decide)
  have hread := Document.read_of_decode hbytes hdecode
  rw [editsFromOutput_display _ hread,if_neg hdifferent] at hempty
  cases hempty

end Session
end FormatEdits
