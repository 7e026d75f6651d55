import FormatEdits.Proofs.Text.Fields
import FormatEdits.Web.Service

namespace FormatEdits

/-- What may be written into a header, a log or a body: 1 to 64 letters from A to Z and from a to z,
digits, points, underscores and hyphens. -/
structure EchoSafe (id : Text) : Prop where
  length_pos : 1 ≤ id.length
  length_le : id.length ≤ 64
  characters : ∀ c ∈ id, ('A' ≤ c ∧ c ≤ 'Z') ∨ ('a' ≤ c ∧ c ≤ 'z') ∨ ('0' ≤ c ∧ c ≤ '9') ∨
    c ∈ ['.','_','-']

theorem EchoSafe.lineFeed_not_mem {id : Text} (h : EchoSafe id) : '\n' ∉ id :=
  fun hmem => absurd (h.characters '\n' hmem) (by decide)

namespace Uuid

theorem digitChar_safe : ∀ d < 16, ('a' ≤ Nat.digitChar d ∧ Nat.digitChar d ≤ 'z') ∨
    ('0' ≤ Nat.digitChar d ∧ Nat.digitChar d ≤ '9') := by decide

theorem safe_of_mem_hexDigits {width n : Nat} {c : Char} (h : c ∈ Text.hexDigits width n) :
    ('a' ≤ c ∧ c ≤ 'z') ∨ ('0' ≤ c ∧ c ≤ '9') := by
  induction width generalizing n with
  | zero => cases h
  | succ width ih =>
    rcases List.mem_append.mp h with h | h
    · exact ih h
    · rw [List.mem_singleton.mp h]
      exact digitChar_safe _ (Nat.mod_lt n (by decide))

theorem echoSafe_text (u : Uuid) : EchoSafe u.text := by
  have hlength : u.text.length = 36 := by simp [text,Text.joined,Text.hexDigits_length]
  refine ⟨by omega,by omega,?_⟩
  intro c hc
  by_cases hhyphen : c = '-'
  · simp [hhyphen]
  · obtain ⟨group,hgroup,hc⟩ := (Text.mem_joined hhyphen).mp hc
    have hdigit : ∃ width n, group = Text.hexDigits width n := by
      simp only [List.mem_cons,List.not_mem_nil,or_false] at hgroup
      rcases hgroup with rfl | rfl | rfl | rfl | rfl <;> exact ⟨_,_,rfl⟩
    obtain ⟨width,n,rfl⟩ := hdigit
    rcases safe_of_mem_hexDigits hc with h | h
    · exact .inr (.inl h)
    · exact .inr (.inr (.inl h))

/-- Version and variant are all that no random bits leave. -/
example : (ofRandom 0).text = "00000000-0000-4000-8000-000000000000".toList := by decide

end Uuid

namespace RunId

theorem isSafe_iff {c : Char} : isSafe c = true ↔
    ('A' ≤ c ∧ c ≤ 'Z') ∨ ('a' ≤ c ∧ c ≤ 'z') ∨ ('0' ≤ c ∧ c ≤ '9') ∨ c ∈ ['.','_','-'] := by
  unfold isSafe Char.isAlphanum Char.isAlpha Char.isUpper Char.isLower Char.isDigit
  simp [Char.le_def,or_assoc]

theorem isWellFormed_iff {id : Text} : isWellFormed id = true ↔ EchoSafe id := by
  have hsplit : isWellFormed id = true ↔
      id ≠ [] ∧ id.length ≤ 64 ∧ ∀ c ∈ id, isSafe c = true := by
    simp only [isWellFormed,Bool.and_eq_true,decide_eq_true_eq,List.all_eq_true,and_assoc]
    rfl
  rw [hsplit]
  constructor
  · rintro ⟨hne,hlength,hsafe⟩
    exact ⟨List.length_pos_iff.mpr hne,hlength,fun c hc => isSafe_iff.mp (hsafe c hc)⟩
  · intro h
    exact ⟨List.length_pos_iff.mp h.length_pos,h.length_le,
      fun c hc => isSafe_iff.mpr (h.characters c hc)⟩

theorem echoSafe_dropFinal_iff {id : Text} : EchoSafe (Text.dropFinal '\n' id) ↔
    EchoSafe id ∨ ∃ front, EchoSafe front ∧ id = front ++ ['\n'] := by
  constructor
  · intro h
    by_cases hlast : id.getLast? = some '\n'
    · obtain ⟨front,rfl⟩ := List.getLast?_eq_some_iff.mp hlast
      rw [Text.dropFinal_concat] at h
      exact .inr ⟨front,h,rfl⟩
    · rw [Text.dropFinal,if_neg hlast] at h
      exact .inl h
  · rintro (h | ⟨front,h,rfl⟩)
    · rwa [Text.dropFinal_of_not_mem h.lineFeed_not_mem]
    · rwa [Text.dropFinal_concat]

theorem resolve_eq_kept_iff {incoming : Option Text} {id : Text} :
    resolve incoming = .kept id ↔ incoming = some id ∧ EchoSafe (Text.dropFinal '\n' id) := by
  cases incoming with
  | none => simp [resolve]
  | some other =>
    rw [resolve]
    by_cases h : isWellFormed (Text.dropFinal '\n' other) = true
    · have hsafe := isWellFormed_iff.mp h
      rw [if_pos h,RunId.kept.injEq,Option.some.injEq]
      constructor
      · rintro rfl
        exact ⟨rfl,hsafe⟩
      · exact And.left
    · rw [if_neg h]
      constructor
      · intro hkept
        cases hkept
      · rintro ⟨hid,hsafe⟩
        obtain rfl := Option.some.inj hid
        exact absurd (isWellFormed_iff.mpr hsafe) h

theorem runIdFor_ofRandom (random : BitVec 128) (r : Web.Request) :
    Web.Service.runIdFor (Uuid.ofRandom random).text r =
      (resolve (r.header? Web.Service.runIdHeader)).text random := by
  unfold Web.Service.runIdFor
  cases resolve (r.header? Web.Service.runIdHeader) <;> rfl

/-- Whatever comes from outside, the id of the run is safe to write, except where a safe id comes
with a line feed behind it. What comes is kept as it is if it is safe, and in this case too; in all
others a fresh id is made. Requests are answered under this id. -/
theorem text_resolve_safe_iff (incoming : Option Text) (random : BitVec 128) :
    (EchoSafe ((resolve incoming).text random) ↔
        ¬ ∃ front, EchoSafe front ∧ incoming = some (front ++ ['\n'])) ∧
      (∀ id, resolve incoming = .kept id ↔ incoming = some id ∧
        (EchoSafe id ∨ ∃ front, EchoSafe front ∧ id = front ++ ['\n'])) ∧
      ∀ r : Web.Request, r.header? Web.Service.runIdHeader = incoming →
        Web.Service.runIdFor (Uuid.ofRandom random).text r = (resolve incoming).text random := by
  have hkept (id : Text) : resolve incoming = .kept id ↔ incoming = some id ∧
      (EchoSafe id ∨ ∃ front, EchoSafe front ∧ id = front ++ ['\n']) := by
    rw [resolve_eq_kept_iff,echoSafe_dropFinal_iff]
  refine ⟨?_,hkept,fun r hr => hr ▸ runIdFor_ofRandom random r⟩
  constructor
  · rintro hsafe ⟨front,hfront,hincoming⟩
    rw [(hkept _).mpr ⟨hincoming,.inr ⟨front,hfront,rfl⟩⟩] at hsafe
    exact hsafe.lineFeed_not_mem (by simp [text])
  · intro hnone
    cases hresolve : resolve incoming with
    | fresh => exact (Uuid.ofRandom random).echoSafe_text
    | kept id =>
      obtain ⟨rfl,hsafe | ⟨front,hfront,rfl⟩⟩ := (hkept id).mp hresolve
      · exact hsafe
      · exact absurd ⟨front,hfront,rfl⟩ hnone

/-- Not every id of a run is safe, and not only safe ones are kept. -/
theorem not_text_resolve_safe :
    ¬ ∀ (incoming : Option Text) (random : BitVec 128),
      EchoSafe ((resolve incoming).text random) ∧
        ∀ id, resolve incoming = .kept id ↔ incoming = some id ∧ EchoSafe id := by
  intro hall
  have hresolve : resolve (some "abc\n".toList) = .kept "abc\n".toList := by decide
  have hsafe := (((hall (some "abc\n".toList) 0).2 _).mp hresolve).2
  exact hsafe.lineFeed_not_mem (by decide)

end RunId
end FormatEdits
